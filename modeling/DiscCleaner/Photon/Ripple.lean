import DiscCleaner.Photon.Lt

/-!
# DiscCleaner — the ripple of the fountain decoder

What `resolve` keeps while it works through its queue. A block waits in a pending symbol while
it is missing, in the queue, or the block at hand whose references are not all done. Each
pending symbol holds just the blocks of a fed symbol that wait in it, at least two of them, and
each fed symbol has such an entry or no block missing. None of this looks at the bytes.
-/

namespace DiscCleaner

open ByteLib PeelingLib ProgLib

namespace LtDecoder

/-- Block `n` is one of the decoder's, and not decoded. -/
def Missing (d : LtDecoder) (n : Nat) : Prop := d.decoded[n]? = some none

theorem resolved_or_missing {d : LtDecoder} {n : Nat} (h : n < d.decoded.length) :
    d.Resolved n ∨ d.Missing n := by
  unfold Resolved Missing
  rw [List.getElem?_eq_getElem h]
  cases d.decoded[n] with
  | none => exact Or.inr rfl
  | some v => exact Or.inl ⟨v, rfl⟩

theorem Resolved.not_missing {d : LtDecoder} {n : Nat} (h : d.Resolved n) : ¬ d.Missing n := by
  obtain ⟨v, hv⟩ := h
  intro hmissing
  exact absurd (hv.symm.trans hmissing) (by simp)

/-- The decoder after block `r` was revealed. -/
def withBlock (d : LtDecoder) (r : Nat) (v : Bytes) : LtDecoder :=
  { d with decoded := d.decoded.set r (some v), resolved := d.resolved + 1 }

theorem withBlock_decoded {d : LtDecoder} {r : Nat} (h : d.Missing r) (v : Bytes) (n : Nat) :
    (d.withBlock r v).decoded[n]? = if n = r then some (some v) else d.decoded[n]? := by
  obtain ⟨hr, -⟩ := List.getElem?_eq_some_iff.mp h
  show (d.decoded.set r (some v))[n]? = _
  rw [List.getElem?_set]
  by_cases hn : n = r
  · rw [if_pos hn, if_pos hn.symm, if_pos hr]
  · rw [if_neg hn, if_neg fun heq => hn heq.symm]

theorem withBlock_resolved_iff {d : LtDecoder} {r : Nat} (h : d.Missing r) (v : Bytes) (n : Nat) :
    (d.withBlock r v).Resolved n ↔ n = r ∨ d.Resolved n := by
  unfold Resolved
  rw [withBlock_decoded h]
  by_cases hn : n = r
  · simp [hn]
  · simp [hn]

/-- Revealing a block and queueing it takes no block away from those to come. -/
theorem withBlock_live_iff {d : LtDecoder} {r : Nat} (h : d.Missing r) (v : Bytes)
    (queue : List Nat) (n : Nat) :
    ((d.withBlock r v).Missing n ∨ n ∈ r :: queue) ↔ (d.Missing n ∨ n ∈ queue) := by
  unfold Missing
  rw [withBlock_decoded h, List.mem_cons]
  by_cases hn : n = r
  · rw [hn]
    exact ⟨fun _ => Or.inl h, fun _ => Or.inr (Or.inl rfl)⟩
  · simp [hn]

/-! ## The invariant -/

/-- Block `n` is still to be folded out of pending symbol `p`: it is missing, or in the queue,
or the block `b` at hand with `p` among the references left. -/
def Waits (d : LtDecoder) (queue : List Nat) (b : Nat) (rem : List Nat) (p n : Nat) : Prop :=
  (d.Missing n ∨ n ∈ queue) ∨ n = b ∧ p ∈ rem

/-- A pending symbol `p` that stands for symbol `id`: it holds only blocks of `id` that wait
in it, and all of those that are missing or in the queue. -/
def StandsFor (ns : Nat → List Nat) (d : LtDecoder) (queue : List Nat) (b : Nat)
    (rem : List Nat) (p id : Nat) (unres : List Nat) : Prop :=
  (∀ n ∈ unres, n ∈ ns id ∧ Waits d queue b rem p n)
    ∧ ∀ n ∈ ns id, d.Missing n ∨ n ∈ queue → n ∈ unres

/-- Pending symbol `p` will be visited for block `n`. -/
def Visits (d : LtDecoder) (b : Nat) (rem : List Nat) (p n : Nat) : Prop :=
  (∃ refs, d.references[n]? = some refs ∧ p ∈ refs) ∨ n = b ∧ p ∈ rem

/-- **The invariant of the ripple**, with block `b` at hand, `rem` of its references left, and
every symbol of `covered` accounted for. -/
structure Peeling {k : Nat} (nf : NeighborFn k) (size : Nat) (seed : UInt64)
    (fed covered : Set Nat) (d : LtDecoder) (queue : List Nat) (b : Nat) (rem : List Nat) :
    Prop where
  k_eq : d.k = k
  blockSize_eq : d.blockSize = size
  streamSeed_eq : d.streamSeed = seed
  decoded_length : d.decoded.length = k
  references_length : d.references.length = k
  resolved_eq : d.resolved + d.undecoded = k
  queue_nodup : queue.Nodup
  queue_resolved : ∀ n ∈ queue, d.Resolved n
  peelable : ∀ n, d.Resolved n → Peelable nf.of fed n
  entry : ∀ p v unres, d.pending[p]? = some (v, unres) → unres ≠ [] →
    unres.Nodup ∧ 2 ≤ unres.length
      ∧ (∃ id ∈ fed, StandsFor nf.of d queue b rem p id unres)
      ∧ ∀ n ∈ unres, Visits d b rem p n
  covers : ∀ id ∈ covered, (∀ n ∈ nf.of id, d.Resolved n)
    ∨ ∃ p v unres, d.pending[p]? = some (v, unres) ∧ unres ≠ []
      ∧ StandsFor nf.of d queue b rem p id unres

namespace Peeling

variable {k size : Nat} {seed : UInt64} {nf : NeighborFn k} {fed covered : Set Nat} {d : LtDecoder}
  {queue rem : List Nat} {b p : Nat}

theorem new (nf : NeighborFn k) (size : Nat) (seed : UInt64) :
    Peeling nf size seed ∅ ∅ (.new k size seed) [] 0 [] where
  k_eq := rfl
  blockSize_eq := rfl
  streamSeed_eq := rfl
  decoded_length := List.length_replicate
  references_length := List.length_replicate
  resolved_eq := by
    show 0 + (List.replicate k (none : Option Bytes)).count none = k
    rw [List.count_replicate_self, Nat.zero_add]
  queue_nodup := List.nodup_nil
  queue_resolved _ hn := absurd hn List.not_mem_nil
  peelable n hn := by
    obtain ⟨v, hv⟩ := hn
    rw [LtDecoder.new, List.getElem?_replicate] at hv
    split at hv <;> cases hv
  entry p v unres hp := by
    rw [LtDecoder.new, List.getElem?_nil] at hp
    cases hp
  covers _ hid := absurd hid (Set.notMem_empty _)

/-- A symbol's block that does not wait is resolved. -/
theorem resolved_of_not_mem (h : Peeling nf size seed fed covered d queue b rem) {id n : Nat}
    {unres : List Nat} (hstands : StandsFor nf.of d queue b rem p id unres)
    (hn : n ∈ nf.of id) (hnot : n ∉ unres) : d.Resolved n := by
  rcases resolved_or_missing (h.decoded_length ▸ nf.lt id n hn) with hres | hmissing
  · exact hres
  · exact absurd (hstands.2 n hn (Or.inl hmissing)) hnot

theorem widen (h : Peeling nf size seed fed covered d queue b rem) {more : Set Nat} (hsub : fed ⊆ more) :
    Peeling nf size seed more covered d queue b rem where
  k_eq := h.k_eq
  blockSize_eq := h.blockSize_eq
  streamSeed_eq := h.streamSeed_eq
  decoded_length := h.decoded_length
  references_length := h.references_length
  resolved_eq := h.resolved_eq
  queue_nodup := h.queue_nodup
  queue_resolved := h.queue_resolved
  peelable n hn := (h.peelable n hn).mono hsub
  entry p v unres hp hne := by
    obtain ⟨hnodup, hlen, ⟨id, hid, hstands⟩, hvisits⟩ := h.entry p v unres hp hne
    exact ⟨hnodup, hlen, ⟨id, hsub hid, hstands⟩, hvisits⟩
  covers := h.covers

/-- A symbol whose blocks are all resolved is accounted for. -/
theorem cover (h : Peeling nf size seed fed covered d queue b rem) {id : Nat}
    (hid : ∀ n ∈ nf.of id, d.Resolved n) :
    Peeling nf size seed fed (insert id covered) d queue b rem :=
  { h with
    covers := fun id' hid' => by
      rcases hid' with rfl | hold
      · exact Or.inl hid
      · exact h.covers id' hold }

/-- With no references left, the block at hand does not matter. -/
theorem idle (h : Peeling nf size seed fed covered d queue b []) (b' : Nat) :
    Peeling nf size seed fed covered d queue b' [] := by
  have hwaits : ∀ p n, Waits d queue b [] p n → Waits d queue b' [] p n := by
    intro p n hn
    exact Or.inl (hn.resolve_right fun hrem => List.not_mem_nil hrem.2)
  have hstands : ∀ {p id : Nat} {unres : List Nat},
      StandsFor nf.of d queue b [] p id unres → StandsFor nf.of d queue b' [] p id unres :=
    fun hs => ⟨fun n hn => ⟨(hs.1 n hn).1, hwaits _ n (hs.1 n hn).2⟩, hs.2⟩
  refine { h with entry := ?_, covers := ?_ }
  · intro p v unres hp hne
    obtain ⟨hnodup, hlen, ⟨id, hid, hs⟩, hvisits⟩ := h.entry p v unres hp hne
    refine ⟨hnodup, hlen, ⟨id, hid, hstands hs⟩, fun n hn => ?_⟩
    rcases hvisits n hn with hrefs | ⟨-, hnil⟩
    · exact Or.inl hrefs
    · exact absurd hnil List.not_mem_nil
  · intro id hid
    rcases h.covers id hid with hall | ⟨p, v, unres, hp, hne, hs⟩
    · exact Or.inl hall
    · exact Or.inr ⟨p, v, unres, hp, hne, hstands hs⟩

/-! ## Revealing a block -/

/-- A missing block that can be peeled is decoded and queued; what waits stays the same. -/
theorem reveal (h : Peeling nf size seed fed covered d queue b rem) {r : Nat} (hmissing : d.Missing r)
    (hpeel : Peelable nf.of fed r) (v : Bytes) :
    Peeling nf size seed fed covered (d.withBlock r v) (r :: queue) b rem := by
  have hres := withBlock_resolved_iff hmissing v
  have hlive := withBlock_live_iff hmissing v queue
  have hstands : ∀ {p id : Nat} {unres : List Nat},
      StandsFor nf.of d queue b rem p id unres →
        StandsFor nf.of (d.withBlock r v) (r :: queue) b rem p id unres :=
    fun hs => ⟨fun n hn => ⟨(hs.1 n hn).1, (hs.1 n hn).2.imp_left (hlive n).mpr⟩,
      fun n hn hwait => hs.2 n hn ((hlive n).mp hwait)⟩
  refine { h with
    decoded_length := ?_, resolved_eq := ?_, queue_nodup := ?_, queue_resolved := ?_,
    peelable := ?_, entry := ?_, covers := ?_ }
  · rw [← h.decoded_length]
    exact List.length_set
  · have hcount := count_none_set hmissing v
    have hsum := h.resolved_eq
    simp only [withBlock, undecoded] at hsum ⊢
    omega
  · refine List.nodup_cons.mpr ⟨fun hmem => ?_, h.queue_nodup⟩
    exact (h.queue_resolved r hmem).not_missing hmissing
  · intro n hn
    rcases List.mem_cons.mp hn with rfl | hmem
    · exact (hres _).mpr (Or.inl rfl)
    · exact (hres n).mpr (Or.inr (h.queue_resolved n hmem))
  · intro n hn
    rcases (hres n).mp hn with rfl | hold
    · exact hpeel
    · exact h.peelable n hold
  · intro p v' unres hp hne
    obtain ⟨hnodup, hlen, ⟨id, hid, hs⟩, hvisits⟩ := h.entry p v' unres hp hne
    exact ⟨hnodup, hlen, ⟨id, hid, hstands hs⟩, hvisits⟩
  · intro id hid
    rcases h.covers id hid with hall | ⟨p, v', unres, hp, hne, hs⟩
    · exact Or.inl fun n hn => (hres n).mpr (Or.inr (hall n hn))
    · exact Or.inr ⟨p, v', unres, hp, hne, hstands hs⟩

/-! ## One turn of the inner loop -/

/-- Other pending symbols wait for the same blocks once `p` is done. -/
theorem stands_other {q id : Nat} {unres : List Nat} (hq : q ≠ p)
    (h : StandsFor nf.of d queue b (p :: rem) q id unres) :
    StandsFor nf.of d queue b rem q id unres := by
  refine ⟨fun n hn => ⟨(h.1 n hn).1, (h.1 n hn).2.imp_right fun hrem => ?_⟩, h.2⟩
  exact ⟨hrem.1, (List.mem_cons.mp hrem.2).resolve_left hq⟩

theorem visits_other {q n : Nat} (hq : q ≠ p) (h : Visits d b (p :: rem) q n) :
    Visits d b rem q n := by
  rcases h with hrefs | ⟨hn, hmem⟩
  · exact Or.inl hrefs
  · exact Or.inr ⟨hn, (List.mem_cons.mp hmem).resolve_left hq⟩

/-- A reference to a symbol that holds nothing any more. -/
theorem skip (h : Peeling nf size seed fed covered d queue b (p :: rem))
    (hspent : ∀ v unres, d.pending[p]? = some (v, unres) → unres = []) :
    Peeling nf size seed fed covered d queue b rem := by
  have hother : ∀ {q : Nat} {v : Bytes} {unres : List Nat},
      d.pending[q]? = some (v, unres) → unres ≠ [] → q ≠ p := by
    intro q v unres hq hne heq
    exact hne (hspent v unres (heq ▸ hq))
  refine { h with entry := ?_, covers := ?_ }
  · intro q v unres hq hne
    obtain ⟨hnodup, hlen, ⟨id, hid, hs⟩, hvisits⟩ := h.entry q v unres hq hne
    have hqp := hother hq hne
    exact ⟨hnodup, hlen, ⟨id, hid, stands_other hqp hs⟩,
      fun n hn => visits_other hqp (hvisits n hn)⟩
  · intro id hid
    rcases h.covers id hid with hall | ⟨q, v, unres, hq, hne, hs⟩
    · exact Or.inl hall
    · exact Or.inr ⟨q, v, unres, hq, hne, stands_other (hother hq hne) hs⟩

/-- The pending symbols after one of them was overwritten. -/
theorem pending_set {e e' : Bytes × List Nat} {v : Bytes} {unres : List Nat} {q : Nat}
    (hp : d.pending[p]? = some e) :
    (d.pending.set p e')[q]? = some (v, unres)
      ↔ q = p ∧ e' = (v, unres) ∨ q ≠ p ∧ d.pending[q]? = some (v, unres) := by
  obtain ⟨hlt, -⟩ := List.getElem?_eq_some_iff.mp hp
  rw [List.getElem?_set]
  by_cases hq : q = p
  · rw [if_pos hq.symm, if_pos hlt, Option.some.injEq]
    simp [hq]
  · rw [if_neg fun heq => hq heq.symm]
    simp [hq]

/-- The block at hand is folded out of `p`, and at least two others still wait. -/
theorem keep (h : Peeling nf size seed fed covered d queue b (p :: rem)) (hb : d.Resolved b)
    (hbq : b ∉ queue) {v v' : Bytes} {unres unres' : List Nat}
    (hp : d.pending[p]? = some (v, unres)) (hne : unres ≠ []) (hnodup' : unres'.Nodup)
    (hlen' : 2 ≤ unres'.length) (hmem : ∀ n, n ∈ unres' ↔ n ∈ unres ∧ n ≠ b) :
    Peeling nf size seed fed covered { d with pending := d.pending.set p (v', unres') } queue b rem := by
  have hstands : ∀ {id : Nat}, StandsFor nf.of d queue b (p :: rem) p id unres →
      StandsFor nf.of d queue b rem p id unres' := by
    intro id hs
    constructor
    · intro n hn
      obtain ⟨hold, hnb⟩ := (hmem n).mp hn
      obtain ⟨hid, hwaits⟩ := hs.1 n hold
      exact ⟨hid, Or.inl (hwaits.resolve_right fun hrem => hnb hrem.1)⟩
    · intro n hn hlive
      refine (hmem n).mpr ⟨hs.2 n hn hlive, ?_⟩
      -- The block at hand is decoded and out of the queue.
      rintro rfl
      exact hlive.elim hb.not_missing hbq
  have hlong : unres' ≠ [] := by
    rintro rfl
    exact absurd hlen' (by decide)
  refine { h with entry := ?_, covers := ?_ }
  · intro q w us hq hus
    rcases (pending_set hp).mp hq with ⟨rfl, heq⟩ | ⟨hqp, hold⟩
    · obtain ⟨rfl, rfl⟩ := Prod.mk.inj heq
      obtain ⟨-, -, ⟨id, hid, hs⟩, hvisits⟩ := h.entry q v unres hp hne
      refine ⟨hnodup', hlen', ⟨id, hid, hstands hs⟩, fun n hn => ?_⟩
      obtain ⟨hin, hnb⟩ := (hmem n).mp hn
      exact Or.inl ((hvisits n hin).resolve_right fun hrem => hnb hrem.1)
    · obtain ⟨hnodup, hlen, ⟨id, hid, hs⟩, hvisits⟩ := h.entry q w us hold hus
      exact ⟨hnodup, hlen, ⟨id, hid, stands_other hqp hs⟩,
        fun n hn => visits_other hqp (hvisits n hn)⟩
  · intro id hid
    rcases h.covers id hid with hall | ⟨q, w, us, hq, hus, hs⟩
    · exact Or.inl hall
    · by_cases hqp : q = p
      · subst hqp
        obtain ⟨rfl, rfl⟩ := Prod.mk.inj (Option.some.inj (hp.symm.trans hq))
        exact Or.inr ⟨q, v', unres', (pending_set hp).mpr (Or.inl ⟨rfl, rfl⟩), hlong,
          hstands hs⟩
      · exact Or.inr ⟨q, w, us, (pending_set hp).mpr (Or.inr ⟨hqp, hq⟩), hus,
          stands_other hqp hs⟩

/-- A pending symbol whose blocks are all resolved is spent. -/
theorem clear (h : Peeling nf size seed fed covered d queue b (p :: rem)) {v : Bytes} {unres : List Nat}
    (hp : d.pending[p]? = some (v, unres)) (hall : ∀ n ∈ unres, d.Resolved n) :
    Peeling nf size seed fed covered { d with pending := d.pending.set p ([], []) } queue b rem := by
  refine { h with entry := ?_, covers := ?_ }
  · intro q w us hq hus
    rcases (pending_set hp).mp hq with ⟨-, heq⟩ | ⟨hqp, hold⟩
    · exact absurd (Prod.mk.inj heq).2.symm hus
    · obtain ⟨hnodup, hlen, ⟨id, hid, hs⟩, hvisits⟩ := h.entry q w us hold hus
      exact ⟨hnodup, hlen, ⟨id, hid, stands_other hqp hs⟩,
        fun n hn => visits_other hqp (hvisits n hn)⟩
  · intro id hid
    rcases h.covers id hid with hdone | ⟨q, w, us, hq, hus, hs⟩
    · exact Or.inl hdone
    · by_cases hqp : q = p
      · subst hqp
        obtain ⟨rfl, rfl⟩ := Prod.mk.inj (Option.some.inj (hp.symm.trans hq))
        refine Or.inl fun n hn => ?_
        by_cases hmem : n ∈ unres
        · exact hall n hmem
        · exact h.resolved_of_not_mem hs hn hmem
      · exact Or.inr ⟨q, w, us, (pending_set hp).mpr (Or.inr ⟨hqp, hq⟩), hus,
          stands_other hqp hs⟩

end Peeling

/-- What `foldOut` does to the blocks of a pending symbol. -/
theorem foldOut_spec (b : Nat) (val v : Bytes) (unres : List Nat) :
    (b ∉ unres ∧ foldOut b val v unres = (v, unres))
      ∨ ∃ unres', foldOut b val v unres = (xorInto v val, unres') ∧ unres.Perm (b :: unres') := by
  unfold foldOut
  cases hpos : unres.idxOf? b with
  | none =>
    left
    exact ⟨by simpa [List.idxOf?_eq_none_iff] using hpos, rfl⟩
  | some pos =>
    right
    obtain ⟨hlt, hget, -⟩ := List.idxOf?_eq_some_iff.mp hpos
    have hperm := swapRemove_perm hlt
    rw [show unres[pos] = b by simpa using hget] at hperm
    exact ⟨_, rfl, hperm⟩

namespace Peeling

variable {k size : Nat} {seed : UInt64} {nf : NeighborFn k} {fed covered : Set Nat} {d : LtDecoder}
  {queue rem : List Nat} {b p : Nat}

/-- The last block of a pending symbol is peeled by the symbol it stands for. -/
theorem peelable_last (h : Peeling nf size seed fed covered d queue b rem) (hb : d.Resolved b)
    {id r : Nat} {unres : List Nat} (hid : id ∈ fed)
    (hs : StandsFor nf.of d queue b rem p id unres) (hr : r ∈ unres)
    (hother : ∀ n ∈ unres, n = b ∨ n = r) : Peelable nf.of fed r := by
  refine .peel hid (hs.1 r hr).1 fun m hm hmr => ?_
  by_cases hin : m ∈ unres
  · have hmb : m = b := (hother m hin).resolve_right hmr
    exact h.peelable m (hmb ▸ hb)
  · exact h.peelable m (h.resolved_of_not_mem hs hm hin)

/-- The last block of a pending symbol is revealed, and the symbol is spent. -/
theorem revealLast (h : Peeling nf size seed fed covered d queue b (p :: rem)) (hb : d.Resolved b)
    (hbq : b ∉ queue) {v : Bytes} {unres : List Nat} {r : Nat}
    (hp : d.pending[p]? = some (v, unres)) (hmissing : d.Missing r)
    (hpeel : Peelable nf.of fed r) (hother : ∀ n ∈ unres, n = b ∨ n = r) (hrb : r ≠ b)
    (w : Bytes) :
    Peeling nf size seed fed covered
        { d.withBlock r w with pending := d.pending.set p ([], []) } (r :: queue) b rem
      ∧ (d.withBlock r w).Resolved b ∧ b ∉ r :: queue := by
  have hres := withBlock_resolved_iff hmissing w
  have hbres : (d.withBlock r w).Resolved b := (hres b).mpr (Or.inr hb)
  refine ⟨(h.reveal hmissing hpeel w).clear hp fun n hn => ?_, hbres, ?_⟩
  · rcases hother n hn with heq | heq
    · exact heq ▸ hbres
    · exact (hres n).mpr (Or.inl heq)
  · rw [List.mem_cons, not_or]
    exact ⟨fun heq => hrb heq.symm, hbq⟩

/-- **Step lemma**: a turn of the inner loop does not panic and keeps the invariant. -/
theorem peelOne (h : Peeling nf size seed fed covered d queue b (p :: rem)) (hb : d.Resolved b)
    (hbq : b ∉ queue) (val : Bytes) :
    ∃ d' queue', LtDecoder.peelOne b val p d queue = some (d', queue')
      ∧ Peeling nf size seed fed covered d' queue' b rem ∧ d'.Resolved b ∧ b ∉ queue' := by
  unfold LtDecoder.peelOne
  cases hp : d.pending[p]? with
  | none => exact ⟨d, queue, rfl, h.skip (by simp [hp]), hb, hbq⟩
  | some e =>
    obtain ⟨v, unres⟩ := e
    dsimp only
    by_cases hne : unres = []
    · rw [if_pos hne]
      refine ⟨d, queue, rfl, h.skip fun w us hq => ?_, hb, hbq⟩
      rw [hp] at hq
      exact (Prod.mk.inj (Option.some.inj hq)).2 ▸ hne
    · rw [if_neg hne]
      obtain ⟨hnodup, hlen, ⟨id, hid, hs⟩, -⟩ := h.entry p v unres hp hne
      rcases foldOut_spec b val v unres with ⟨hnot, hfold⟩ | ⟨unres', hfold, hperm⟩
      · -- The symbol does not refer to the block: it stays as it is.
        rw [hfold]
        match unres, hlen with
        | u :: u' :: us, hlen =>
          refine ⟨_, queue, rfl, h.keep hb hbq hp hne hnodup hlen fun n => ?_, hb, hbq⟩
          exact ⟨fun hn => ⟨hn, fun heq => hnot (heq ▸ hn)⟩, And.left⟩
      · rw [hfold]
        have hnodup' := List.nodup_cons.mp (hperm.nodup_iff.mp hnodup)
        have hlength := hperm.length_eq
        rw [List.length_cons] at hlength
        -- At least two blocks waited, so one is left or more.
        match unres', hperm, hnodup', hlength with
        | [r], hperm, hnodup', _ =>
          dsimp only
          have hrb : r ≠ b := fun heq => hnodup'.1 (heq ▸ List.mem_singleton_self r)
          have hr : r ∈ unres := hperm.mem_iff.mpr (by simp)
          have hother : ∀ n ∈ unres, n = b ∨ n = r := fun n hn => by
            simpa using hperm.mem_iff.mp hn
          rcases resolved_or_missing (h.decoded_length ▸ nf.lt id r (hs.1 r hr).1) with
            ⟨w, hres⟩ | hmissing
          · rw [hres]
            refine ⟨_, queue, rfl, h.clear hp fun n hn => ?_, hb, hbq⟩
            rcases hother n hn with rfl | rfl
            · exact hb
            · exact ⟨w, hres⟩
          · have hpeel := h.peelable_last hb hid hs hr hother
            rw [show d.decoded[r]? = some none from hmissing]
            exact ⟨_, r :: queue, rfl,
              h.revealLast hb hbq hp hmissing hpeel hother hrb (xorInto v val)⟩
        | [], _, _, hlength => exact absurd hlength (by simp; omega)
        | r :: r' :: rs, hperm, hnodup', _ =>
          refine ⟨_, queue, rfl, h.keep hb hbq hp hne hnodup'.2 (by simp) fun n => ?_, hb, hbq⟩
          constructor
          · intro hn
            exact ⟨hperm.mem_iff.mpr (List.mem_cons_of_mem b hn), fun heq => hnodup'.1 (heq ▸ hn)⟩
          · rintro ⟨hn, hnb⟩
            exact (List.mem_cons.mp (hperm.mem_iff.mp hn)).resolve_left hnb

/-- **Run lemma**: so does the inner loop. -/
theorem peelRefs {refs : List Nat} (h : Peeling nf size seed fed covered d queue b refs)
    (hb : d.Resolved b) (hbq : b ∉ queue) (val : Bytes) :
    ∃ d' queue', LtDecoder.peelRefs b val refs d queue = some (d', queue')
      ∧ Peeling nf size seed fed covered d' queue' b [] := by
  induction refs generalizing d queue with
  | nil => exact ⟨d, queue, rfl, h⟩
  | cons p refs ih =>
    obtain ⟨d₁, queue₁, hone, hinv, hb₁, hbq₁⟩ := h.peelOne hb hbq val
    rw [LtDecoder.peelRefs, hone]
    exact ih hinv hb₁ hbq₁

/-- Taking the block at hand off the queue, with its references. -/
theorem pop (h : Peeling nf size seed fed covered d (b :: queue) b [])
    {refs : List Nat} (hrefs : d.references[b]? = some refs) :
    Peeling nf size seed fed covered { d with references := d.references.set b [] } queue b refs := by
  have hbq : b ∉ queue := (List.nodup_cons.mp h.queue_nodup).1
  have hlive : ∀ n, d.Missing n ∨ n ∈ b :: queue → (d.Missing n ∨ n ∈ queue) ∨ n = b := by
    rintro n (hmissing | hmem)
    · exact Or.inl (Or.inl hmissing)
    · rcases List.mem_cons.mp hmem with rfl | hq
      · exact Or.inr rfl
      · exact Or.inl (Or.inr hq)
  -- A symbol that holds the block is among its references.
  have hstands : ∀ {q id : Nat} {unres : List Nat},
      (∀ n ∈ unres, Visits d b [] q n) → StandsFor nf.of d (b :: queue) b [] q id unres →
        StandsFor nf.of d queue b refs q id unres := by
    intro q id unres hvisits hs
    refine ⟨fun n hn => ?_, fun n hn hwait => hs.2 n hn (hwait.imp_right (List.mem_cons_of_mem b))⟩
    obtain ⟨hid, hwaits⟩ := hs.1 n hn
    refine ⟨hid, ?_⟩
    rcases hlive n (hwaits.resolve_right fun hrem => List.not_mem_nil hrem.2) with hwait | rfl
    · exact Or.inl hwait
    · rcases hvisits n hn with ⟨refs', hrefs', hq⟩ | ⟨-, hnil⟩
      · rw [hrefs] at hrefs'
        exact Or.inr ⟨rfl, Option.some.inj hrefs' ▸ hq⟩
      · exact absurd hnil List.not_mem_nil
  refine { h with
    references_length := ?_, queue_nodup := (List.nodup_cons.mp h.queue_nodup).2,
    queue_resolved := fun n hn => h.queue_resolved n (List.mem_cons_of_mem b hn),
    entry := ?_, covers := ?_ }
  · show (d.references.set b []).length = k
    rw [List.length_set]
    exact h.references_length
  · intro q v unres hq hne
    obtain ⟨hnodup, hlen, ⟨id, hid, hs⟩, hvisits⟩ := h.entry q v unres hq hne
    refine ⟨hnodup, hlen, ⟨id, hid, hstands hvisits hs⟩, fun n hn => ?_⟩
    rcases hvisits n hn with ⟨refs', hrefs', hmem⟩ | ⟨-, hnil⟩
    · by_cases hnb : n = b
      · subst hnb
        rw [hrefs] at hrefs'
        exact Or.inr ⟨rfl, Option.some.inj hrefs' ▸ hmem⟩
      · exact Or.inl ⟨refs', by rw [← hrefs']; exact List.getElem?_set_ne fun heq => hnb heq.symm,
          hmem⟩
    · exact absurd hnil List.not_mem_nil
  · intro id hid
    rcases h.covers id hid with hall | ⟨q, v, unres, hq, hne, hs⟩
    · exact Or.inl hall
    · obtain ⟨-, -, -, hvisits⟩ := h.entry q v unres hq hne
      exact Or.inr ⟨q, v, unres, hq, hne, hstands hvisits hs⟩

/-- **Run lemma**: the ripple ends, without a panic, with nothing left in the queue. Induction
on the missing blocks and the queue. -/
theorem ripple (h : Peeling nf size seed fed covered d queue 0 []) :
    ∃ d', LtDecoder.ripple d queue = some d' ∧ Peeling nf size seed fed covered d' [] 0 [] := by
  induction hmeasure : d.undecoded + queue.length using Nat.strong_induction_on
    generalizing d queue with
  | _ m ih =>
    cases queue with
    | nil =>
      rw [LtDecoder.ripple]
      exact ⟨d, rfl, h⟩
    | cons b queue =>
      have hpop := h.idle b
      obtain ⟨val, hval⟩ := h.queue_resolved b List.mem_cons_self
      have hlt : b < d.references.length := by
        rw [h.references_length, ← h.decoded_length]
        exact (List.getElem?_eq_some_iff.mp hval).1
      have hrefs := List.getElem?_eq_getElem hlt
      obtain ⟨d₁, queue₁, hrun, hinv⟩ := (hpop.pop hrefs).peelRefs ⟨val, hval⟩
        (List.nodup_cons.mp h.queue_nodup).1 val
      have hless := peelRefs_measure hrun
      have hsame : undecoded { d with references := d.references.set b [] } = d.undecoded := rfl
      obtain ⟨d', hrest, hdone⟩ := ih _ (by rw [← hmeasure, hless, hsame, List.length_cons]; omega)
        (hinv.idle 0) rfl
      refine ⟨d', ?_, hdone⟩
      rw [LtDecoder.ripple, hrefs, hval]
      dsimp only
      split
      · next hpeel => exact absurd (hpeel.symm.trans hrun) (by simp)
      · next d₂ queue₂ hpeel =>
        obtain ⟨rfl, rfl⟩ := Prod.mk.inj (Option.some.inj (hpeel.symm.trans hrun))
        exact hrest

end Peeling

end LtDecoder

end DiscCleaner
