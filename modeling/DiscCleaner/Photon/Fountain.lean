import DiscCleaner.Photon.Ripple

/-!
# DiscCleaner — fountain decoding

A pushed symbol never makes the decoder panic, and what it resolves is the peeling closure of
the symbols pushed so far, whatever their order and their bytes. When the bytes are those of
an encoder, every resolved block is the encoder's, and a finished decoder returns the payload
with its padding.
-/

namespace DiscCleaner

open ByteLib PeelingLib ProgLib

namespace LtDecoder

/-! ## Pushing a symbol -/

/-- What `gather` leaves of a symbol: the value with the decoded blocks folded out, and the
missing blocks. -/
theorem gather_spec {decoded : List (Option Bytes)} {l : List Nat}
    (hl : ∀ n ∈ l, n < decoded.length) (value : Bytes) (unres : List Nat) :
    gather decoded l value unres
      = some ((l.filter fun n => decoded[n]?.join.isSome).foldl
          (fun v n => xorInto v (decoded[n]?.join.getD [])) value,
        unres ++ l.filter fun n => decoded[n]?.join.isNone) := by
  induction l generalizing value unres with
  | nil => rw [gather, List.filter_nil, List.filter_nil, List.append_nil, List.foldl_nil]
  | cons n l ih =>
    have hlt : n < decoded.length := hl n List.mem_cons_self
    have hn := List.getElem?_eq_getElem hlt
    have htail := ih fun m hm => hl m (List.mem_cons_of_mem n hm)
    rw [gather, hn]
    cases hval : decoded[n] with
    | none =>
      dsimp only
      rw [htail, List.filter_cons_of_neg (by simp [hn, hval]),
        List.filter_cons_of_pos (by simp [hn, hval]), List.append_assoc, List.singleton_append]
    | some v =>
      dsimp only
      rw [htail, List.filter_cons_of_pos (by simp [hn, hval]),
        List.filter_cons_of_neg (by simp [hn, hval]), List.foldl_cons]
      simp [hn, hval]

/-- What `noteReferences` adds to the reference lists, and that nothing is taken away. -/
theorem noteReferences_spec (idx : Nat) {l : List Nat} (references : List (List Nat))
    (hl : ∀ n ∈ l, n < references.length) :
    ∃ references', noteReferences idx l references = some references'
      ∧ references'.length = references.length
      ∧ ∀ n refs, references[n]? = some refs → ∃ refs', references'[n]? = some refs'
        ∧ (∀ p ∈ refs, p ∈ refs') ∧ (n ∈ l → idx ∈ refs') := by
  induction l generalizing references with
  | nil =>
    exact ⟨references, rfl, rfl, fun n refs h =>
      ⟨refs, h, fun _ hp => hp, fun hn => absurd hn List.not_mem_nil⟩⟩
  | cons m l ih =>
    have hm := hl m List.mem_cons_self
    rw [noteReferences, List.getElem?_eq_getElem hm]
    dsimp only
    obtain ⟨references', hrun, hlen, hspec⟩ := ih (references.set m (references[m] ++ [idx]))
      (fun n hn => by rw [List.length_set]; exact hl n (List.mem_cons_of_mem m hn))
    refine ⟨references', hrun, by rw [hlen, List.length_set], fun n refs hn => ?_⟩
    by_cases hnm : n = m
    · subst hnm
      obtain ⟨refs', hget, hkept, -⟩ := hspec n _ (List.getElem?_set_self hm)
      rw [List.getElem?_eq_getElem hm] at hn
      obtain rfl := Option.some.inj hn
      exact ⟨refs', hget, fun p hp => hkept p (List.mem_append_left _ hp),
        fun _ => hkept idx (List.mem_append_right _ (List.mem_singleton_self idx))⟩
    · obtain ⟨refs', hget, hkept, hnew⟩ := hspec n refs
        (by rw [List.getElem?_set_ne fun heq => hnm heq.symm]; exact hn)
      exact ⟨refs', hget, hkept, fun hmem => hnew ((List.mem_cons.mp hmem).resolve_left hnm)⟩

/-- A list without a missing value is a list of values. -/
theorem exists_map_some {α : Type} {l : List (Option α)} (h : ∀ e ∈ l, e ≠ none) :
    ∃ vs : List α, l = vs.map some := by
  induction l with
  | nil => exact ⟨[], rfl⟩
  | cons e es ih =>
    obtain ⟨vs, rfl⟩ := ih fun e he => h e (List.mem_cons_of_mem _ he)
    obtain ⟨v, rfl⟩ := Option.ne_none_iff_exists'.mp (h e List.mem_cons_self)
    exact ⟨v :: vs, rfl⟩

theorem mapM_map_some {α : Type} (vs : List α) : (vs.map some).mapM id = some vs := by
  induction vs with
  | nil => rfl
  | cons v vs ih => simp [List.mapM_cons, ih]

namespace Peeling

variable {k size : Nat} {seed : UInt64} {nf : NeighborFn k} {fed : Set Nat} {d : LtDecoder}

/-- The pending symbols after one more was put with them. -/
theorem pending_concat (d : LtDecoder) (e e' : Bytes × List Nat) (p : Nat) :
    (d.pending ++ [e'])[p]? = some e
      ↔ d.pending[p]? = some e ∨ p = d.pending.length ∧ e = e' := by
  rw [List.getElem?_append]
  by_cases hp : p < d.pending.length
  · rw [if_pos hp]
    exact ⟨Or.inl, fun hor => hor.resolve_right fun heq => absurd heq.1 (Nat.ne_of_lt hp)⟩
  · rw [if_neg hp, List.getElem?_eq_none (Nat.not_lt.mp hp), List.getElem?_singleton]
    by_cases heq : p = d.pending.length
    · simp [heq, eq_comm]
    · rw [if_neg (by omega)]
      simp [heq]

/-- A symbol with at least two blocks missing is put with the pending ones. -/
theorem park (h : Peeling nf size seed fed fed d [] 0 []) {id : Nat} {unres : List Nat} (value : Bytes)
    (hnodup : unres.Nodup) (hlen : 2 ≤ unres.length)
    (hmem : ∀ n, n ∈ unres ↔ n ∈ nf.of id ∧ d.Missing n) :
    ∃ references, noteReferences d.pending.length unres d.references = some references
      ∧ Peeling nf size seed (insert id fed) (insert id fed)
        { d with references := references, pending := d.pending ++ [(value, unres)] } [] 0 [] := by
  obtain ⟨references, hrun, hlength, hspec⟩ :=
    noteReferences_spec d.pending.length d.references fun n (hn : n ∈ unres) => by
      rw [h.references_length]
      exact nf.lt id n ((hmem n).mp hn).1
  refine ⟨references, hrun, ?_⟩
  have hwide := h.widen (Set.subset_insert id fed)
  have hstands : StandsFor nf.of d [] 0 [] d.pending.length id unres :=
    ⟨fun n hn => ⟨((hmem n).mp hn).1, Or.inl (Or.inl ((hmem n).mp hn).2)⟩,
      fun n hn hwait => (hmem n).mpr ⟨hn, hwait.resolve_right List.not_mem_nil⟩⟩
  refine { hwide with references_length := ?_, entry := ?_, covers := ?_ }
  · rw [← h.references_length]
    exact hlength
  · intro p v us hp hne
    rcases (pending_concat d _ _ p).mp hp with hold | ⟨rfl, heq⟩
    · obtain ⟨hnd, hl, hstand, hvisits⟩ := hwide.entry p v us hold hne
      refine ⟨hnd, hl, hstand, fun n hn => ?_⟩
      rcases hvisits n hn with ⟨refs, hrefs, hmemp⟩ | ⟨-, hnil⟩
      · obtain ⟨refs', hget, hkept, -⟩ := hspec n refs hrefs
        exact Or.inl ⟨refs', hget, hkept p hmemp⟩
      · exact absurd hnil List.not_mem_nil
    · obtain ⟨rfl, rfl⟩ := Prod.mk.inj heq
      refine ⟨hnodup, hlen, ⟨id, Set.mem_insert id fed, hstands⟩, fun n hn => ?_⟩
      have hlt : n < d.references.length := by
        rw [h.references_length]
        exact nf.lt id n ((hmem n).mp hn).1
      obtain ⟨refs', hget, -, hnew⟩ := hspec n _ (List.getElem?_eq_getElem hlt)
      exact Or.inl ⟨refs', hget, hnew hn⟩
  · rintro id' (rfl | hold)
    · refine Or.inr ⟨d.pending.length, value, unres,
        (pending_concat d _ _ _).mpr (Or.inr ⟨rfl, rfl⟩), ?_, hstands⟩
      rintro rfl
      exact absurd hlen (by decide)
    · rcases h.covers id' hold with hall | ⟨p, v, us, hp, hne, hs⟩
      · exact Or.inl hall
      · exact Or.inr ⟨p, v, us, (pending_concat d _ _ p).mpr (Or.inl hp), hne, hs⟩

/-- A symbol with one block missing resolves it and ripples. -/
theorem resolve (h : Peeling nf size seed fed fed d [] 0 []) {id r : Nat} (value : Bytes)
    (hr : d.Missing r) (hid : r ∈ nf.of id) (hrest : ∀ n ∈ nf.of id, n ≠ r → d.Resolved n) :
    ∃ d', d.resolve r value = some d'
      ∧ Peeling nf size seed (insert id fed) (insert id fed) d' [] 0 [] := by
  have hwide := h.widen (Set.subset_insert id fed)
  have hpeel : Peelable nf.of (insert id fed) r :=
    .peel (Set.mem_insert id fed) hid fun n hn hnr => hwide.peelable n (hrest n hn hnr)
  obtain ⟨hlt, -⟩ := List.getElem?_eq_some_iff.mp hr
  have hrevealed := hwide.reveal hr hpeel value
  have hcovered := @cover _ _ _ _ _ _ _ _ _ _ hrevealed id fun n hn => by
    by_cases hnr : n = r
    · exact hrevealed.queue_resolved n (by rw [hnr]; exact List.mem_cons_self)
    · obtain ⟨v, hv⟩ := hrest n hn hnr
      exact ⟨v, by rw [← hv]; exact List.getElem?_set_ne fun heq => hnr heq.symm⟩
  obtain ⟨d', hrun, hdone⟩ := hcovered.ripple
  exact ⟨d', by rw [LtDecoder.resolve, if_pos hlt]; exact hrun, hdone⟩

/-- **Step lemma**: a symbol of the right size is taken in without a panic. -/
theorem push (h : Peeling nf size seed fed fed d [] 0 []) {neighbors : Neighbors}
    (hneighbors : neighbors k seed = fun id => some (nf.of id)) (id : Nat) {bytes : Bytes}
    (hbytes : bytes.length = size) :
    ∃ d', pushSymbol neighbors d id bytes = .ok d'
      ∧ Peeling nf size seed (insert id fed) (insert id fed) d' [] 0 [] := by
  have hlt : ∀ n ∈ nf.of id, n < d.decoded.length := fun n hn =>
    h.decoded_length ▸ nf.lt id n hn
  have hmissing : ∀ n ∈ nf.of id, (d.decoded[n]?.join.isNone = true ↔ d.Missing n) := by
    intro n hn
    unfold Missing
    have hin : n < d.decoded.length := hlt n hn
    rw [List.getElem?_eq_getElem hin]
    cases d.decoded[n] <;> simp
  have hsame : neighbors d.k d.streamSeed = fun id => some (nf.of id) := by
    rw [h.k_eq, h.streamSeed_eq, hneighbors]
  unfold pushSymbol
  rw [if_neg (by rw [h.blockSize_eq, hbytes]; simp), hsame]
  dsimp only
  rw [gather_spec hlt, List.nil_append]
  have hmem : ∀ n, n ∈ (nf.of id).filter (fun n => d.decoded[n]?.join.isNone)
      ↔ n ∈ nf.of id ∧ d.Missing n := by
    intro n
    rw [List.mem_filter]
    exact and_congr_right fun hn => hmissing n hn
  have hnodup := (nf.nodup id).filter fun n => d.decoded[n]?.join.isNone
  generalize (nf.of id).filter (fun n => d.decoded[n]?.join.isNone) = unres at hmem hnodup
  generalize List.foldl _ bytes _ = value
  -- No block unresolved: nothing new. One: it is resolved. More: the symbol is parked.
  cases unres with
  | nil =>
    refine ⟨d, rfl, (h.widen (Set.subset_insert id fed)).cover fun n hn => ?_⟩
    rcases resolved_or_missing (hlt n hn) with hres | hmiss
    · exact hres
    · exact absurd ((hmem n).mpr ⟨hn, hmiss⟩) List.not_mem_nil
  | cons r rest =>
    cases rest with
    | nil =>
      obtain ⟨hid, hr⟩ := (hmem r).mp (List.mem_singleton_self r)
      obtain ⟨d', hrun, hdone⟩ := h.resolve value hr hid fun n hn hnr => by
        rcases resolved_or_missing (hlt n hn) with hres | hmiss
        · exact hres
        · exact absurd (List.mem_singleton.mp ((hmem n).mpr ⟨hn, hmiss⟩)) hnr
      dsimp only
      rw [hrun]
      exact ⟨d', rfl, hdone⟩
    | cons r' rs =>
      obtain ⟨references, hrun, hdone⟩ := h.park value hnodup (by simp) hmem
      dsimp only
      rw [hrun]
      exact ⟨_, rfl, hdone⟩

/-- **The resolved blocks are the peeling closure** of the symbols fed. -/
theorem resolved_iff (h : Peeling nf size seed fed fed d [] 0 []) (n : Nat) :
    d.Resolved n ↔ Peelable nf.of fed n := by
  refine ⟨h.peelable n, fun hpeel => ?_⟩
  refine hpeel.mem_of_closed (D := d.Resolved) fun id hid m hm hrest => ?_
  rcases h.covers id hid with hall | ⟨p, v, unres, hp, hne, hs⟩
  · exact hall m hm
  · -- A pending symbol has two blocks missing; one of them is not `m`.
    obtain ⟨hnodup, hlen, -, -⟩ := h.entry p v unres hp hne
    have hmiss : ∀ l ∈ unres, l ∈ nf.of id ∧ d.Missing l := fun l hl => by
      obtain ⟨hin, hwaits⟩ := hs.1 l hl
      refine ⟨hin, ?_⟩
      rcases hwaits with (hmissing | hnil) | ⟨-, hnil⟩
      · exact hmissing
      · exact absurd hnil List.not_mem_nil
      · exact absurd hnil List.not_mem_nil
    match unres, hlen, hnodup, hmiss with
    | l :: l' :: ls, _, hnodup, hmiss =>
      have hne' : l ≠ l' := by
        rintro rfl
        exact (List.nodup_cons.mp hnodup).1 List.mem_cons_self
      have hout : ∀ x ∈ l :: l' :: ls, x = m := fun x hx => by
        by_contra hxm
        exact (hrest x (hmiss x hx).1 hxm).not_missing (hmiss x hx).2
      exact absurd ((hout l (by simp)).trans (hout l' (by simp)).symm) hne'

/-- The counter is the number of the blocks resolved. -/
theorem resolved_count (h : Peeling nf size seed fed fed d [] 0 []) :
    d.resolved = d.decoded.countP (·.isSome) := by
  have hsum := h.resolved_eq
  have hsplit := List.length_eq_countP_add_countP (fun o => o.isSome) (l := d.decoded)
  have hnone : d.decoded.countP (fun o => ¬ o.isSome) = d.undecoded := by
    refine List.countP_congr fun o _ => ?_
    cases o <;> simp
  rw [h.decoded_length, hnone] at hsplit
  omega

/-- With every block resolved the counter has reached the number of blocks. -/
theorem all_resolved (h : Peeling nf size seed fed fed d [] 0 []) (hall : ∀ n < k, d.Resolved n) :
    ¬ d.resolved < d.k := by
  have hmissing : d.undecoded = 0 := by
    refine List.count_eq_zero.mpr fun hmem => ?_
    obtain ⟨n, hn⟩ := List.mem_iff_getElem?.mp hmem
    obtain ⟨hlt, -⟩ := List.getElem?_eq_some_iff.mp hn
    exact (hall n (h.decoded_length ▸ hlt)).not_missing hn
  have hsum := h.resolved_eq
  rw [hmissing] at hsum
  rw [h.k_eq]
  omega

/-- With every block resolved, `finish` does not panic. -/
theorem finish (h : Peeling nf size seed fed fed d [] 0 []) (hall : ¬ d.resolved < d.k) :
    ∃ blocks : List Bytes, d.decoded = blocks.map some ∧ d.finish = .ok blocks.flatten := by
  have hnone : d.decoded.count none = 0 := by
    have hsum := h.resolved_eq
    have hk := h.k_eq
    unfold undecoded at hsum
    omega
  have hsome : ∀ e ∈ d.decoded, e ≠ none := fun e he heq =>
    List.count_eq_zero.mp hnone (heq ▸ he)
  obtain ⟨blocks, hblocks⟩ := exists_map_some hsome
  refine ⟨blocks, hblocks, ?_⟩
  rw [LtDecoder.finish, if_neg hall, hblocks, mapM_map_some]

end Peeling

/-! ## The bytes -/

/-- Every decoded block is the source's, and every pending value the XOR of the source blocks
still in it. -/
structure Sound (block : Nat → Bytes) (size : Nat) (d : LtDecoder) : Prop where
  decoded : ∀ (n : Nat) (v : Bytes), d.decoded[n]? = some (some v) → v = block n
  pending : ∀ (p : Nat) (v : Bytes) (unres : List Nat), d.pending[p]? = some (v, unres) → unres ≠ [] →
    v = xorAll block size unres

namespace Sound

variable {block : Nat → Bytes} {size : Nat} {d d' : LtDecoder} {queue queue' : List Nat} {b : Nat}

theorem new (block : Nat → Bytes) (k size : Nat) (streamSeed : UInt64) :
    Sound block size (.new k size streamSeed) := by
  constructor
  · intro n v hn
    rw [LtDecoder.new, List.getElem?_replicate] at hn
    split at hn <;> cases hn
  · intro p v unres hp
    rw [LtDecoder.new, List.getElem?_nil] at hp
    cases hp

/-- Decoding a block to its source value. -/
theorem set (h : Sound block size d) {r : Nat} {v : Bytes} (hv : v = block r) (resolved : Nat) :
    Sound block size { d with decoded := d.decoded.set r (some v), resolved := resolved } := by
  refine { h with decoded := fun n w hn => ?_ }
  by_cases hnr : n = r
  · obtain ⟨hlt, hget⟩ := List.getElem?_eq_some_iff.mp hn
    subst hnr
    rw [List.getElem_set_self, Option.some.injEq] at hget
    exact hget ▸ hv
  · refine h.decoded n w ?_
    rw [← hn]
    exact (List.getElem?_set_ne fun heq => hnr heq.symm).symm

/-- Overwriting a pending symbol with a sound one. -/
theorem setPending (h : Sound block size d) {p : Nat} {e : Bytes × List Nat} {v : Bytes}
    {unres : List Nat} (hp : d.pending[p]? = some e)
    (hv : unres ≠ [] → v = xorAll block size unres) :
    Sound block size { d with pending := d.pending.set p (v, unres) } := by
  refine { h with pending := fun q w us hq hne => ?_ }
  rcases (Peeling.pending_set hp).mp hq with ⟨-, heq⟩ | ⟨-, hold⟩
  · obtain ⟨rfl, rfl⟩ := Prod.mk.inj heq
    exact hv hne
  · exact h.pending q w us hold hne

/-- **Step lemma**: a turn of the inner loop keeps the bytes sound. -/
theorem peelOne (h : Sound block size d) (hblock : ∀ n, (block n).length = size) {p : Nat}
    (hrun : LtDecoder.peelOne b (block b) p d queue = some (d', queue')) :
    Sound block size d' := by
  unfold LtDecoder.peelOne at hrun
  split at hrun
  · cases hrun
    exact h
  · next v unres hp =>
    split at hrun
    · cases hrun
      exact h
    · next hne =>
      have hfold : ∀ v' unres', foldOut b (block b) v unres = (v', unres') →
          v' = xorAll block size unres' := by
        intro v' unres' heq
        have hv := h.pending p v unres hp hne
        rcases foldOut_spec b (block b) v unres with ⟨-, hsame⟩ | ⟨rest, hout, hperm⟩
        · obtain ⟨rfl, rfl⟩ := Prod.mk.inj (hsame.symm.trans heq)
          exact hv
        · obtain ⟨rfl, rfl⟩ := Prod.mk.inj (hout.symm.trans heq)
          rw [hv]
          exact xorInto_xorAll hperm
      split at hrun
      · next v' revealed heq =>
        have hv' : v' = block revealed := by
          rw [hfold v' [revealed] heq]
          exact xorAll_singleton (hblock revealed)
        dsimp only at hrun
        split at hrun
        · cases hrun
        · cases hrun
          exact h.setPending hp fun hnil => absurd rfl hnil
        · cases hrun
          exact (h.setPending hp fun hnil => absurd rfl hnil).set hv' _
      · next v' unres' _ heq =>
        cases hrun
        exact h.setPending hp fun _ => hfold v' unres' heq

theorem peelRefs (h : Sound block size d) (hblock : ∀ n, (block n).length = size)
    {refs : List Nat} (hrun : LtDecoder.peelRefs b (block b) refs d queue = some (d', queue')) :
    Sound block size d' := by
  induction refs generalizing d queue with
  | nil =>
    cases hrun
    exact h
  | cons p refs ih =>
    rw [LtDecoder.peelRefs] at hrun
    split at hrun
    · cases hrun
    · next hone => exact ih (h.peelOne hblock hone) hrun

theorem ripple (h : Sound block size d) (hblock : ∀ n, (block n).length = size)
    (hrun : LtDecoder.ripple d queue = some d') : Sound block size d' := by
  induction hmeasure : d.undecoded + queue.length using Nat.strong_induction_on
    generalizing d queue with
  | _ m ih =>
    cases queue with
    | nil =>
      rw [LtDecoder.ripple] at hrun
      cases hrun
      exact h
    | cons b queue =>
      rw [LtDecoder.ripple] at hrun
      split at hrun
      · next refs val _ hval =>
        split at hrun
        · cases hrun
        · next d₁ queue₁ hpeel =>
          have hless := peelRefs_measure hpeel
          rw [h.decoded b val hval] at hpeel
          have hpopped : Sound block size { d with references := d.references.set b [] } :=
            ⟨h.decoded, h.pending⟩
          have hsame : undecoded { d with references := d.references.set b [] } = d.undecoded := rfl
          refine ih _ ?_ (hpopped.peelRefs hblock hpeel) hrun rfl
          rw [← hmeasure, hless, hsame, List.length_cons]
          omega
      · cases hrun

/-- The value `gather` leaves of the source's symbol is the XOR of the missing blocks. -/
theorem gather_value (h : Sound block size d) (ns : List Nat) :
    (ns.filter fun n => d.decoded[n]?.join.isSome).foldl
        (fun v n => xorInto v (d.decoded[n]?.join.getD [])) (xorAll block size ns)
      = xorAll block size (ns.filter fun n => d.decoded[n]?.join.isNone) := by
  have hperm : ns.Perm ((ns.filter fun n => d.decoded[n]?.join.isSome)
      ++ ns.filter fun n => d.decoded[n]?.join.isNone) := by
    refine (List.filter_append_perm (fun n => d.decoded[n]?.join.isSome) ns).symm.trans ?_
    refine List.Perm.of_eq (congrArg _ (List.filter_congr fun n _ => ?_))
    cases d.decoded[n]?.join <;> rfl
  rw [← foldl_xorInto_xorAll hperm]
  refine List.foldl_ext _ _ _ fun v n hn => ?_
  obtain ⟨w, hw⟩ := Option.isSome_iff_exists.mp (List.mem_filter.mp hn).2
  rw [hw, Option.getD_some, h.decoded n w (Option.join_eq_some_iff.mp hw)]

/-- A symbol put with the pending ones whose bytes are the XOR of its blocks. -/
theorem parked (h : Sound block size d) (unres : List Nat) (references : List (List Nat)) :
    Sound block size { d with
      references := references, pending := d.pending ++ [(xorAll block size unres, unres)] } := by
  refine ⟨h.decoded, fun p v us hp hne => ?_⟩
  rcases (Peeling.pending_concat d _ _ p).mp hp with hold | ⟨-, heq⟩
  · exact h.pending p v us hold hne
  · obtain ⟨rfl, rfl⟩ := Prod.mk.inj heq
    rfl

/-- **Step lemma**: pushing the source's symbol keeps the bytes sound. -/
theorem push (h : Sound block size d) (hblock : ∀ n, (block n).length = size)
    {neighbors : Neighbors} {ns : Nat → List Nat}
    (hneighbors : neighbors d.k d.streamSeed = fun id => some (ns id)) {id : Nat}
    (hlt : ∀ n ∈ ns id, n < d.decoded.length)
    (hrun : pushSymbol neighbors d id (xorAll block size (ns id)) = .ok d') :
    Sound block size d' := by
  unfold pushSymbol at hrun
  rw [hneighbors] at hrun
  split at hrun
  · cases hrun
  · dsimp only at hrun
    rw [gather_spec hlt, List.nil_append] at hrun
    rw [h.gather_value] at hrun
    generalize (ns id).filter (fun n => d.decoded[n]?.join.isNone) = unres at hrun
    match unres, hrun with
    | [], hrun =>
      cases hrun
      exact h
    | [r], hrun =>
      dsimp only at hrun
      split at hrun
      · cases hrun
      · next d₁ hresolve =>
        cases hrun
        unfold LtDecoder.resolve at hresolve
        split at hresolve
        · exact (h.set (xorAll_singleton (hblock r)) _).ripple hblock hresolve
        · cases hresolve
    | r :: r' :: rs, hrun =>
      dsimp only at hrun
      split at hrun
      · cases hrun
      · cases hrun
        exact h.parked _ _

end Sound

end LtDecoder

/-! ## The encoder's blocks -/

namespace LtEncoder

theorem blockOf_length (payload : Bytes) (blockSize i : Nat) :
    (blockOf payload blockSize i).length = blockSize := by
  have hspread : (i + 1) * blockSize = i * blockSize + blockSize := Nat.succ_mul i blockSize
  rw [blockOf, List.length_append, List.length_replicate, List.length_take, List.length_drop]
  omega

/-- The first blocks in a row are the payload so far, then zeros. -/
theorem flatten_blockOf (payload : Bytes) (blockSize k : Nat) :
    ((List.range k).map (blockOf payload blockSize)).flatten
      = payload.take (k * blockSize)
        ++ List.replicate (k * blockSize - payload.length) 0 := by
  induction k with
  | zero => simp
  | succ k ih =>
    have hspread : (k + 1) * blockSize = k * blockSize + blockSize := Nat.succ_mul k blockSize
    rw [List.range_succ, List.map_append, List.flatten_append, ih, List.map_singleton,
      List.flatten_singleton, blockOf]
    by_cases hle : k * blockSize ≤ payload.length
    · rw [Nat.sub_eq_zero_of_le hle, List.replicate_zero, List.append_nil, ← List.append_assoc,
        hspread, List.take_add]
      have htake : (payload.drop (k * blockSize)).take
          (min (k * blockSize + blockSize) payload.length - k * blockSize)
          = (payload.drop (k * blockSize)).take blockSize := by
        rw [List.take_eq_take_iff, List.length_drop]
        omega
      rw [htake, List.length_take, List.length_drop]
      congr 2
      omega
    · rw [List.drop_eq_nil_of_le (by omega), List.take_nil, List.nil_append, List.length_nil,
        List.append_assoc, List.replicate_append_replicate, List.take_of_length_le (by omega),
        List.take_of_length_le (by omega)]
      congr 2
      omega

/-- What `LtEncoder::new` builds. -/
theorem new_spec {payload : Bytes} {blockSize : Nat} {streamSeed : UInt64} {e : LtEncoder}
    (h : new payload blockSize streamSeed = .ok e) :
    e.blockSize = blockSize ∧ e.streamSeed = streamSeed ∧ 0 < e.numBlocks ∧ (∀ b ∈ e.blocks, b.length = blockSize)
      ∧ e.blocks.flatten
        = payload ++ List.replicate (e.numBlocks * blockSize - payload.length) 0 := by
  unfold new at h
  split at h
  · cases h
  · next hsize =>
    cases h
    dsimp only [numBlocks]
    rw [List.length_map, List.length_range, flatten_blockOf]
    refine ⟨rfl, rfl, by omega, fun b hb => ?_, ?_⟩
    · obtain ⟨i, -, rfl⟩ := List.mem_map.mp hb
      exact blockOf_length payload blockSize i
    · -- The blocks hold the whole payload.
      congr 1
      apply List.take_of_length_le
      have hceil := Nat.div_mul_le_self (payload.length + blockSize - 1) blockSize
      have hspread := Nat.lt_div_mul_add (a := payload.length + blockSize - 1)
        (show 0 < blockSize by omega)
      have hmono := Nat.mul_le_mul_right blockSize
        (Nat.le_max_left ((payload.length + blockSize - 1) / blockSize) 1)
      omega

/-- Block `n`, or zeros behind the last. -/
def block (e : LtEncoder) (n : Nat) : Bytes := e.blocks.getD n (List.replicate e.blockSize 0)

theorem block_length {e : LtEncoder} (h : ∀ b ∈ e.blocks, b.length = e.blockSize) (n : Nat) :
    (e.block n).length = e.blockSize := by
  rw [block, List.getD_eq_getElem?_getD]
  cases hn : e.blocks[n]? with
  | none => exact List.length_replicate
  | some b => exact h b (List.mem_of_getElem? hn)

theorem getElem?_blocks {e : LtEncoder} {n : Nat} (h : n < e.numBlocks) :
    e.blocks[n]? = some (e.block n) := by
  rw [block, List.getD_eq_getElem?_getD, List.getElem?_eq_getElem h, Option.getD_some]

/-- A symbol is the XOR of its blocks. -/
theorem encode_eq {e : LtEncoder} (nf : NeighborFn e.numBlocks) (id : Nat) :
    e.encode nf.fixed id = some (xorAll e.block e.blockSize (nf.of id)) := by
  have hlt := nf.lt id
  show (nf.of id).foldlM _ _ = _
  rw [xorAll]
  generalize List.replicate e.blockSize (0 : UInt8) = init
  generalize nf.of id = l at hlt
  induction l generalizing init with
  | nil => rfl
  | cons n l ih =>
    rw [List.foldlM_cons, getElem?_blocks (hlt n List.mem_cons_self), List.foldl_cons]
    exact ih _ fun m hm => hlt m (List.mem_cons_of_mem n hm)

/-! ## Feeding symbols -/

/-- Feed symbols of the encoder to a decoder, in the order given. -/
def feed (e : LtEncoder) (neighbors : Neighbors) :
    List Nat → LtDecoder → Outcome LtError LtDecoder
  | [], d => .ok d
  | id :: ids, d =>
    match e.encode neighbors id with
    | none => .panic
    | some bytes =>
      match d.pushSymbol neighbors id bytes with
      | .ok d => feed e neighbors ids d
      | .err err => .err err
      | .panic => .panic
      | .blocked => .blocked

/-- **Run lemma**: feeding goes through, and keeps the ripple's invariant and the bytes. -/
theorem feed_spec {e : LtEncoder} (hblocks : ∀ b ∈ e.blocks, b.length = e.blockSize)
    (nf : NeighborFn e.numBlocks) (ids : List Nat) {fed : Set Nat} {d : LtDecoder}
    (hpeel : d.Peeling nf e.blockSize e.streamSeed fed fed [] 0 []) (hsound : d.Sound e.block e.blockSize) :
    ∃ d', e.feed nf.fixed ids d = .ok d'
      ∧ d'.Peeling nf e.blockSize e.streamSeed (fed ∪ {id | id ∈ ids}) (fed ∪ {id | id ∈ ids}) [] 0 []
      ∧ d'.Sound e.block e.blockSize := by
  induction ids generalizing fed d with
  | nil =>
    refine ⟨d, rfl, ?_, hsound⟩
    simpa using hpeel
  | cons id ids ih =>
    have hlt : ∀ n ∈ nf.of id, n < d.decoded.length := fun n hn =>
      hpeel.decoded_length ▸ nf.lt id n hn
    obtain ⟨d₁, hrun, hpeel₁⟩ := hpeel.push (show nf.fixed _ _ = _ from rfl) id
      (xorAll_length e.block e.blockSize (nf.of id))
    have hsound₁ := hsound.push (block_length hblocks) rfl hlt hrun
    obtain ⟨d', hrest, hpeel', hsound'⟩ := ih hpeel₁ hsound₁
    refine ⟨d', ?_, ?_, hsound'⟩
    · rw [feed, encode_eq]
      dsimp only
      rw [hrun]
      exact hrest
    · have hset : insert id fed ∪ {id | id ∈ ids} = fed ∪ {id' | id' ∈ id :: ids} := by
        ext x
        simp only [Set.mem_union, Set.mem_insert_iff, Set.mem_ofPred_eq, List.mem_cons]
        tauto
      rw [← hset]
      exact hpeel'

/-- **Fountain decoding**: whatever symbols of a payload are fed, in whatever order and how
often, the decoder takes them all. Every block it has resolved is the source's, its counter is
their number, they are the peeling closure of the ids fed, and once all are resolved `finish`
returns the payload and its padding. -/
theorem fountain_decodes {payload : Bytes} {blockSize : Nat} {streamSeed : UInt64}
    {e : LtEncoder} (hnew : new payload blockSize streamSeed = .ok e)
    (nf : NeighborFn e.numBlocks) (ids : List Nat) :
    ∃ d, e.feed nf.fixed ids (.new e.numBlocks blockSize streamSeed) = .ok d
      ∧ (∀ (n : Nat) (v : Bytes), d.decoded[n]? = some (some v) → e.blocks[n]? = some v)
      ∧ d.resolved = d.decoded.countP (·.isSome)
      ∧ (∀ n, d.Resolved n ↔ Peelable nf.of {id | id ∈ ids} n)
      ∧ ((∀ n < e.numBlocks, d.Resolved n) →
          d.finish = .ok
            (payload ++ List.replicate (e.numBlocks * blockSize - payload.length) 0)) := by
  obtain ⟨rfl, rfl, -, hblocks, hflatten⟩ := new_spec hnew
  obtain ⟨d, hrun, hpeel, hsound⟩ := feed_spec hblocks nf ids
    (LtDecoder.Peeling.new nf e.blockSize e.streamSeed)
    (LtDecoder.Sound.new e.block _ _ e.streamSeed)
  rw [Set.empty_union] at hpeel
  have hdecoded : ∀ (n : Nat) (v : Bytes), d.decoded[n]? = some (some v) → e.blocks[n]? = some v := by
    intro n v hn
    obtain ⟨hlt, -⟩ := List.getElem?_eq_some_iff.mp hn
    rw [hpeel.decoded_length] at hlt
    rw [getElem?_blocks hlt, hsound.decoded n v hn]
  refine ⟨d, hrun, hdecoded, hpeel.resolved_count, hpeel.resolved_iff, fun hall => ?_⟩
  obtain ⟨blocks, heq, hfinish⟩ := hpeel.finish (hpeel.all_resolved hall)
  have hblocks' : blocks = e.blocks := by
    have hlen := hpeel.decoded_length
    rw [heq, List.length_map] at hlen
    refine List.ext_getElem hlen fun n hn hn' => ?_
    have hget := hdecoded n blocks[n] (by simp [heq, hn])
    rw [List.getElem?_eq_getElem hn', Option.some.injEq] at hget
    exact hget.symm
  rw [hfinish, hblocks', hflatten]

/-! ### Two blocks from a sum and a block -/

/-- Even symbols refer to both blocks, odd ones to the second. -/
def sumOrLast : NeighborFn 2 where
  of id := if id % 2 = 0 then [0, 1] else [1]
  ne_nil id := by split <;> simp
  nodup id := by split <;> simp
  lt id n hn := by
    split at hn <;> simp at hn <;> omega

/-- Three bytes in blocks of two: the sum arrives first and waits for the block. -/
theorem fountain_decodes_sample :
    ∃ d, (LtEncoder.mk [[1, 2], [3, 0]] 2 7).feed sumOrLast.fixed [2, 3]
        (.new 2 2 7) = .ok d
      ∧ (∀ n, d.Resolved n ↔ Peelable sumOrLast.of {id | id ∈ [2, 3]} n)
      ∧ d.finish = .ok [1, 2, 3, 0] := by
  have hnew : new [1, 2, 3] 2 7 = .ok ⟨[[1, 2], [3, 0]], 2, 7⟩ := by rfl
  obtain ⟨d, hrun, -, -, hclosure, hfinish⟩ := fountain_decodes hnew sumOrLast [2, 3]
  have hlast : Peelable sumOrLast.of {id | id ∈ [2, 3]} 1 :=
    .peel (show 3 ∈ [2, 3] by decide) (show 1 ∈ [1] by decide) fun m hm hne =>
      absurd (List.mem_singleton.mp hm) hne
  have hfirst : Peelable sumOrLast.of {id | id ∈ [2, 3]} 0 :=
    .peel (show 2 ∈ [2, 3] by decide) (show 0 ∈ [0, 1] by decide) fun m hm hne => by
      rcases List.mem_cons.mp (show m ∈ [0, 1] from hm) with rfl | hm
      · exact absurd rfl hne
      · exact List.mem_singleton.mp hm ▸ hlast
  refine ⟨d, hrun, hclosure, hfinish fun n hn => (hclosure n).mpr ?_⟩
  match n, hn with
  | 0, _ => exact hfirst
  | 1, _ => exact hlast

end LtEncoder

end DiscCleaner
