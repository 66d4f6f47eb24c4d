import DiscCleaner.Mesh.Consensus

/-!
# DiscCleaner — the ledger under another order of accusations (`rogue.rs`)

A node files every accusation it hears and tries to isolate the accused at once. The entry of an
isolated node keeps the first accusers that made the quorum, the kind they agreed on, and drops
an accusation whose accuser used the same digest before. So the ledger is a function of the set
of accusations exactly when no accused has more than a quorum of accusers or two kinds with one,
and every accuser in it has a digest of its own for the accused and the kind.
-/

namespace DiscCleaner.Mesh

open TransitionLib

namespace RogueLedger

/-! ## Hearing accusations -/

/-- `accuse`, then `try_isolate`. -/
def receive (quorum : Nat) (view : UInt32) (ledger : RogueLedger) (m : Accusation) :
    RogueLedger :=
  let filed := (ledger.accuse m.accuser m.accused m.kind m.evidence m.evidenceDigest).2
  (filed.tryIsolate m.accused m.kind m.evidenceDigest quorum view).2

/-- The ledger of a node that heard some accusations in this order. -/
def hears (quorum : Nat) (view : UInt32) (heard : List Accusation) : RogueLedger :=
  run (receive quorum view) .new heard

/-- The canonical entries, by node: what a block carries. -/
def canonicalEntries (cr : Crypto) (ledger : RogueLedger) : List RogueEntry :=
  (ledger.entries.map (RogueEntry.canonical cr)).insertionSort fun a b => a.node ≤ b.node

/-- Nodes that heard the accusations in different orders hold the same canonical entries, and
their blocks over equal reports and transcripts have the same hash. -/
def OrderIndependent (cr : Crypto) (quorum : Nat) (view : UInt32) (heard : List Accusation) :
    Prop :=
  ∀ l l', l.Perm heard → l'.Perm heard →
    (hears quorum view l).canonicalEntries cr = (hears quorum view l').canonicalEntries cr
      ∧ ∀ (c : Consensus) reports transcripts,
        (c.buildProposal cr reports transcripts (hears quorum view l)).hash cr
          = (c.buildProposal cr reports transcripts (hears quorum view l')).hash cr

/-- The accusation is against this node, of this kind. -/
def Names (m : Accusation) (accused : String) (kind : RogueKind) : Prop :=
  m.accused = accused ∧ m.kind = kind

instance (m : Accusation) (accused : String) (kind : RogueKind) :
    Decidable (Names m accused kind) :=
  inferInstanceAs (Decidable (_ ∧ _))

/-- Everyone who accuses a node of a kind. -/
def accusersIn (heard : List Accusation) (accused : String) (kind : RogueKind) :
    Finset String :=
  ((heard.filter fun m => Names m accused kind).map Accusation.accuser).toFinset

/-- An accuser has a digest it uses against this node and kind only. -/
def HasOwnDigest (heard : List Accusation) (accuser accused : String) (kind : RogueKind) :
    Prop :=
  ∃ m ∈ heard, m.accuser = accuser ∧ Names m accused kind
    ∧ ∀ m' ∈ heard, m'.accuser = accuser → m'.evidenceDigest = m.evidenceDigest →
      Names m' accused kind

/-- Every quorum against a node is exact and of one kind, by accusers with digests of their
own. -/
def ExactQuorums (quorum : Nat) (heard : List Accusation) : Prop :=
  ∀ accused kind, quorum ≤ (accusersIn heard accused kind).card →
    (accusersIn heard accused kind).card = quorum
      ∧ (∀ kind', quorum ≤ (accusersIn heard accused kind').card → kind' = kind)
      ∧ ∀ accuser ∈ accusersIn heard accused kind, HasOwnDigest heard accuser accused kind

/-! ## One accusation -/

theorem mem_accusersIn {heard : List Accusation} {accused accuser : String} {kind : RogueKind} :
    accuser ∈ accusersIn heard accused kind
      ↔ ∃ m ∈ heard, Names m accused kind ∧ m.accuser = accuser := by
  simp [accusersIn, and_assoc]

/-- The accusers on record are those of the accusations on record. -/
theorem toFinset_accusersOf (ledger : RogueLedger) (accused : String) (kind : RogueKind) :
    (ledger.accusersOf accused kind).toFinset = accusersIn ledger.accusations accused kind := rfl

/-- What is true of a ledger after some accusations. The accusers of a node that is not isolated
are below the quorum; `slack` is what an accusation adds before its isolation is tried. -/
structure LedgerInv (quorum : Nat) (view : UInt32) (slack : String → RogueKind → Nat)
    (heard : List Accusation) (ledger : RogueLedger) : Prop where
  filed : ∀ m ∈ ledger.accusations, m ∈ heard
  known : ∀ m ∈ heard, ∃ r ∈ ledger.accusations,
    r.accuser = m.accuser ∧ r.evidenceDigest = m.evidenceDigest
  once : ∀ m ∈ ledger.accusations, ∀ m' ∈ ledger.accusations, m.accuser = m'.accuser →
    m.evidenceDigest = m'.evidenceDigest → m = m'
  entry : ∀ e ∈ ledger.entries, e.accusers.Nodup ∧ e.accusers.length = quorum
    ∧ e.accusers.toFinset ⊆ accusersIn ledger.accusations e.node e.kind
    ∧ e.isolatedAtView = view
  below : ∀ accused kind, accused ∉ ledger.entries.map RogueEntry.node →
    (accusersIn ledger.accusations accused kind).card < quorum + slack accused kind
  nodes : (ledger.entries.map RogueEntry.node).Nodup

theorem accusersIn_mono {heard heard' : List Accusation} (h : heard ⊆ heard') (accused : String)
    (kind : RogueKind) : accusersIn heard accused kind ⊆ accusersIn heard' accused kind := by
  intro accuser haccuser
  obtain ⟨m, hm, hnames⟩ := mem_accusersIn.mp haccuser
  exact mem_accusersIn.mpr ⟨m, h hm, hnames⟩

theorem accusersIn_concat (heard : List Accusation) (m : Accusation) (accused : String)
    (kind : RogueKind) : accusersIn (heard ++ [m]) accused kind
      = if Names m accused kind then insert m.accuser (accusersIn heard accused kind)
        else accusersIn heard accused kind := by
  unfold accusersIn
  rw [List.filter_append, List.map_append, List.toFinset_append]
  split
  · next h => simp [h, Finset.union_comm]
  · next h => simp [h]

/-- One accusation adds at most one accuser, and only against the node and kind it names. -/
theorem card_accusersIn_concat_le (heard : List Accusation) (m : Accusation) (accused : String)
    (kind : RogueKind) :
    (accusersIn (heard ++ [m]) accused kind).card
      ≤ (accusersIn heard accused kind).card + if Names m accused kind then 1 else 0 := by
  rw [accusersIn_concat]
  split
  · exact Finset.card_insert_le _ _
  · exact Nat.le_add_right _ 0

theorem isIsolated_iff {ledger : RogueLedger} {node : String} :
    ledger.isIsolated node = true ↔ node ∈ ledger.entries.map RogueEntry.node := by
  simp [isIsolated]

theorem duplicate_iff {ledger : RogueLedger} {accuser digest : String} :
    ledger.duplicate accuser digest = true
      ↔ ∃ m ∈ ledger.accusations, m.accuser = accuser ∧ m.evidenceDigest = digest := by
  simp [duplicate]

/-- No slack: isolation has been tried after every accusation. -/
def tried (_ : String) (_ : RogueKind) : Nat := 0

/-- Only the node and kind just named can have reached the quorum. -/
def justFiled (m : Accusation) (accused : String) (kind : RogueKind) : Nat :=
  if Names m accused kind then 1 else 0

theorem LedgerInv.accuse {quorum : Nat} {view : UInt32} {heard : List Accusation}
    {ledger : RogueLedger} (h : LedgerInv quorum view tried heard ledger) (m : Accusation) :
    LedgerInv quorum view (justFiled m) (heard ++ [m])
      (ledger.accuse m.accuser m.accused m.kind m.evidence m.evidenceDigest).2 := by
  unfold RogueLedger.accuse
  by_cases hdup : ledger.duplicate m.accuser m.evidenceDigest = true
  · rw [if_pos hdup]
    obtain ⟨r, hr, hsame⟩ := duplicate_iff.mp hdup
    refine ⟨fun m' hm' => List.mem_append_left _ (h.filed m' hm'), ?_, h.once, h.entry, ?_, h.nodes⟩
    · intro m' hm'
      rcases List.mem_append.mp hm' with hold | hnew
      · exact h.known m' hold
      · obtain rfl := List.mem_singleton.mp hnew
        exact ⟨r, hr, hsame⟩
    · intro accused kind hnode
      exact (h.below accused kind hnode).trans_le (Nat.add_le_add_left (Nat.zero_le _) _)
  · rw [if_neg hdup]
    have hfresh : ∀ m' ∈ ledger.accusations, m'.accuser = m.accuser →
        m'.evidenceDigest ≠ m.evidenceDigest := by
      intro m' hm' haccuser hdigest
      exact hdup (duplicate_iff.mpr ⟨m', hm', haccuser, hdigest⟩)
    show LedgerInv quorum view (justFiled m) (heard ++ [m])
      { ledger with accusations := ledger.accusations ++ [m] }
    refine ⟨?_, ?_, ?_, ?_, ?_, h.nodes⟩
    · intro m' hm'
      rcases List.mem_append.mp hm' with hold | hnew
      · exact List.mem_append_left _ (h.filed m' hold)
      · exact List.mem_append_right _ hnew
    · intro m' hm'
      rcases List.mem_append.mp hm' with hold | hnew
      · obtain ⟨r, hr, hsame⟩ := h.known m' hold
        exact ⟨r, List.mem_append_left _ hr, hsame⟩
      · exact ⟨m', List.mem_append_right _ hnew, rfl, rfl⟩
    · intro m₁ hm₁ m₂ hm₂ haccuser hdigest
      rcases List.mem_append.mp hm₁ with hold₁ | hnew₁ <;>
        rcases List.mem_append.mp hm₂ with hold₂ | hnew₂
      · exact h.once m₁ hold₁ m₂ hold₂ haccuser hdigest
      · obtain rfl := List.mem_singleton.mp hnew₂
        exact absurd hdigest (hfresh m₁ hold₁ haccuser)
      · obtain rfl := List.mem_singleton.mp hnew₁
        exact absurd hdigest.symm (hfresh m₂ hold₂ haccuser.symm)
      · rw [List.mem_singleton.mp hnew₁, List.mem_singleton.mp hnew₂]
    · intro e he
      obtain ⟨hnodup, hlength, hsub, hview⟩ := h.entry e he
      exact ⟨hnodup, hlength, hsub.trans (accusersIn_mono (List.subset_append_left _ _) _ _), hview⟩
    · intro accused kind hnode
      have hcard := card_accusersIn_concat_le ledger.accusations m accused kind
      exact hcard.trans_lt (Nat.add_lt_add_right (h.below accused kind hnode) _)

/-- The number of accusers an isolation finds on record. -/
theorem length_sortedSet_accusersOf (ledger : RogueLedger) (accused : String) (kind : RogueKind) :
    (sortedSet (ledger.accusersOf accused kind)).length
      = (accusersIn ledger.accusations accused kind).card := by
  rw [length_sortedSet, toFinset_accusersOf]

theorem LedgerInv.tryIsolate {quorum : Nat} {view : UInt32} {heard : List Accusation}
    {ledger : RogueLedger} {m : Accusation} (h : LedgerInv quorum view (justFiled m) heard ledger) :
    LedgerInv quorum view tried heard
      (ledger.tryIsolate m.accused m.kind m.evidenceDigest quorum view).2 := by
  unfold RogueLedger.tryIsolate
  by_cases hisolated : ledger.isIsolated m.accused = true
  · rw [if_pos hisolated]
    refine ⟨h.filed, h.known, h.once, h.entry, ?_, h.nodes⟩
    intro accused kind hnode
    have hbelow := h.below accused kind hnode
    rwa [justFiled, if_neg fun hnames : Names m accused kind =>
      hnode (hnames.1 ▸ isIsolated_iff.mp hisolated)] at hbelow
  · rw [if_neg hisolated]
    have hfree : m.accused ∉ ledger.entries.map RogueEntry.node :=
      fun hmem => hisolated (isIsolated_iff.mpr hmem)
    simp only [length_sortedSet_accusersOf]
    by_cases hfew : (accusersIn ledger.accusations m.accused m.kind).card < quorum
    · rw [if_pos hfew]
      refine ⟨h.filed, h.known, h.once, h.entry, ?_, h.nodes⟩
      intro accused kind hnode
      have hbelow := h.below accused kind hnode
      by_cases hnames : Names m accused kind
      · obtain ⟨rfl, rfl⟩ := hnames
        exact hfew
      · rwa [justFiled, if_neg hnames] at hbelow
    · rw [if_neg hfew]
      -- the quorum is reached by this accusation, so it is exact
      have hexact : (accusersIn ledger.accusations m.accused m.kind).card = quorum := by
        have hbelow := h.below m.accused m.kind hfree
        rw [justFiled, if_pos ⟨rfl, rfl⟩] at hbelow
        omega
      refine ⟨h.filed, h.known, h.once, ?_, ?_, ?_⟩
      · intro e he
        rcases List.mem_append.mp he with hold | hnew
        · exact h.entry e hold
        · obtain rfl := List.mem_singleton.mp hnew
          refine ⟨nodup_sortedSet _, (length_sortedSet_accusersOf _ _ _).trans hexact, ?_, rfl⟩
          intro accuser haccuser
          rw [List.mem_toFinset, mem_sortedSet] at haccuser
          exact List.mem_toFinset.mpr haccuser
      · intro accused kind hnode
        rw [List.map_append, List.mem_append, not_or] at hnode
        have hbelow := h.below accused kind hnode.1
        rwa [justFiled, if_neg fun hnames : Names m accused kind =>
          hnode.2 (List.mem_singleton.mpr hnames.1.symm)] at hbelow
      · rw [List.map_append, List.nodup_append]
        refine ⟨h.nodes, List.nodup_singleton _, ?_⟩
        intro node hnode node' hnode' heq
        obtain rfl := List.mem_singleton.mp hnode'
        exact hfree (by rwa [show node = m.accused from heq] at hnode)

/-- **One accusation** keeps what is true of the ledger. -/
theorem LedgerInv.receive {quorum : Nat} {view : UInt32} {heard : List Accusation}
    {ledger : RogueLedger} (h : LedgerInv quorum view tried heard ledger) (m : Accusation) :
    LedgerInv quorum view tried (heard ++ [m]) (ledger.receive quorum view m) :=
  (h.accuse m).tryIsolate

/-- **Any number of accusations**, with a quorum of at least one. -/
theorem ledgerInv_hears {quorum : Nat} (hquorum : 0 < quorum) (view : UInt32)
    (heard : List Accusation) : LedgerInv quorum view tried heard (hears quorum view heard) := by
  refine run_induction (I := fun es t => LedgerInv quorum view tried es t) ?_ ?_ heard
  · exact ⟨nofun, nofun, nofun, nofun, fun _ _ _ => hquorum, List.nodup_nil⟩
  · exact fun _ _ m h => h.receive m

/-! ## Exact quorums give one ledger -/

/-- The projection depends on the accusers as a set. -/
theorem canonical_congr (cr : Crypto) {e e' : RogueEntry} (hnode : e.node = e'.node)
    (hkind : e.kind = e'.kind) (hview : e.isolatedAtView = e'.isolatedAtView)
    (haccusers : e.accusers.Perm e'.accusers) : e.canonical cr = e'.canonical cr := by
  have hsort : e.accusers.insertionSort (· ≤ ·) = e'.accusers.insertionSort (· ≤ ·) :=
    List.Perm.eq_of_pairwise' (List.pairwise_insertionSort _ _) (List.pairwise_insertionSort _ _)
      ((List.perm_insertionSort _ _).trans
        (haccusers.trans (List.perm_insertionSort _ _).symm))
  unfold RogueEntry.canonical
  rw [hnode, hkind, hview, hsort]

theorem canonical_accusers_perm (cr : Crypto) (e : RogueEntry) :
    (e.canonical cr).accusers.Perm e.accusers := List.perm_insertionSort _ _

/-- The canonical entry of a node that everyone who accuses it of a kind isolates. -/
def verdict (cr : Crypto) (view : UInt32) (heard : List Accusation) (accused : String)
    (kind : RogueKind) : RogueEntry :=
  RogueEntry.canonical cr
    { node := accused
      kind
      evidenceDigest := ""
      evidence := ""
      accusers := sortedSet ((RogueLedger.mk [] heard).accusersOf accused kind)
      isolatedAtView := view }

/-- An entry's accusers are a quorum of those that accused the node. -/
theorem LedgerInv.quorum_le {quorum : Nat} {view : UInt32} {heard : List Accusation}
    {ledger : RogueLedger} (h : LedgerInv quorum view tried heard ledger) {e : RogueEntry}
    (he : e ∈ ledger.entries) :
    e.accusers.toFinset ⊆ accusersIn heard e.node e.kind ∧ e.accusers.toFinset.card = quorum := by
  obtain ⟨hnodup, hlength, hsub, -⟩ := h.entry e he
  exact ⟨hsub.trans (accusersIn_mono h.filed _ _),
    (List.toFinset_card_of_nodup hnodup).trans hlength⟩

theorem LedgerInv.canonical_eq (cr : Crypto) {quorum : Nat} {view : UInt32}
    {heard : List Accusation} {ledger : RogueLedger}
    (h : LedgerInv quorum view tried heard ledger) (hexact : ExactQuorums quorum heard)
    {e : RogueEntry} (he : e ∈ ledger.entries) :
    e.canonical cr = verdict cr view heard e.node e.kind := by
  obtain ⟨hnodup, -, -, hview⟩ := h.entry e he
  obtain ⟨hsub, hcard⟩ := h.quorum_le he
  have hle : quorum ≤ (accusersIn heard e.node e.kind).card :=
    hcard ▸ Finset.card_le_card hsub
  have hall : e.accusers.toFinset = accusersIn heard e.node e.kind :=
    Finset.eq_of_subset_of_card_le hsub (by rw [(hexact _ _ hle).1, hcard])
  refine canonical_congr cr rfl rfl hview ?_
  refine (List.perm_ext_iff_of_nodup hnodup (nodup_sortedSet _)).mpr fun accuser => ?_
  rw [mem_sortedSet, ← List.mem_toFinset, hall, ← toFinset_accusersOf ⟨[], heard⟩,
    List.mem_toFinset]

/-- Accusers with digests of their own are all on record, so their quorum isolates. -/
theorem LedgerInv.exists_entry {quorum : Nat} {view : UInt32} {heard : List Accusation}
    {ledger : RogueLedger} (h : LedgerInv quorum view tried heard ledger)
    (hexact : ExactQuorums quorum heard) {accused : String} {kind : RogueKind}
    (hquorum : quorum ≤ (accusersIn heard accused kind).card) :
    ∃ e ∈ ledger.entries, e.node = accused ∧ e.kind = kind := by
  obtain ⟨-, hkind, hown⟩ := hexact accused kind hquorum
  have hrecorded : accusersIn heard accused kind
      ⊆ accusersIn ledger.accusations accused kind := by
    intro accuser haccuser
    obtain ⟨m, hm, rfl, -, honly⟩ := hown accuser haccuser
    obtain ⟨r, hr, hsame, hdigest⟩ := h.known m hm
    exact mem_accusersIn.mpr ⟨r, hr, honly r (h.filed r hr) hsame hdigest, hsame⟩
  have hisolated : accused ∈ ledger.entries.map RogueEntry.node := by
    by_contra hfree
    have hbelow := h.below accused kind hfree
    have hcard := Finset.card_le_card hrecorded
    rw [tried] at hbelow
    omega
  obtain ⟨e, he, rfl⟩ := List.mem_map.mp hisolated
  obtain ⟨hsub, hcard⟩ := h.quorum_le he
  exact ⟨e, he, rfl, hkind e.kind (hcard ▸ Finset.card_le_card hsub)⟩

theorem LedgerInv.mem_canonical (cr : Crypto) {quorum : Nat} {view : UInt32}
    {heard : List Accusation} {ledger : RogueLedger}
    (h : LedgerInv quorum view tried heard ledger) (hexact : ExactQuorums quorum heard)
    {r : RogueEntry} :
    r ∈ ledger.entries.map (RogueEntry.canonical cr)
      ↔ ∃ accused kind, quorum ≤ (accusersIn heard accused kind).card
        ∧ r = verdict cr view heard accused kind := by
  rw [List.mem_map]
  constructor
  · rintro ⟨e, he, rfl⟩
    obtain ⟨hsub, hcard⟩ := h.quorum_le he
    exact ⟨e.node, e.kind, hcard ▸ Finset.card_le_card hsub, h.canonical_eq cr hexact he⟩
  · rintro ⟨accused, kind, hquorum, rfl⟩
    obtain ⟨e, he, rfl, rfl⟩ := h.exists_entry hexact hquorum
    exact ⟨e, he, h.canonical_eq cr hexact he⟩

/-- What was heard matters only as a set. -/
theorem LedgerInv.perm {quorum : Nat} {view : UInt32} {heard heard' : List Accusation}
    {ledger : RogueLedger} (h : LedgerInv quorum view tried heard ledger)
    (hperm : heard.Perm heard') : LedgerInv quorum view tried heard' ledger where
  filed m hm := hperm.mem_iff.mp (h.filed m hm)
  known m hm := h.known m (hperm.mem_iff.mpr hm)
  once := h.once
  entry := h.entry
  below := h.below
  nodes := h.nodes

/-- The canonical entries of a ledger have distinct nodes. -/
theorem LedgerInv.nodup_canonical (cr : Crypto) {quorum : Nat} {view : UInt32}
    {heard : List Accusation} {ledger : RogueLedger}
    (h : LedgerInv quorum view tried heard ledger) :
    ((ledger.entries.map (RogueEntry.canonical cr)).map RogueEntry.node).Nodup := by
  rw [List.map_map]
  exact h.nodes

/-- Entries with distinct nodes, in the order of the nodes, are determined as a set. -/
theorem insertionSort_node_congr {es es' : List RogueEntry}
    (hnodup : (es.map RogueEntry.node).Nodup) (hnodup' : (es'.map RogueEntry.node).Nodup)
    (hmem : ∀ r, r ∈ es ↔ r ∈ es') :
    es.insertionSort (fun a b => a.node ≤ b.node)
      = es'.insertionSort fun a b => a.node ≤ b.node := by
  have hperm : es.Perm es' :=
    (List.perm_ext_iff_of_nodup (List.Nodup.of_map _ hnodup) (List.Nodup.of_map _ hnodup')).mpr
      hmem
  refine List.Perm.eq_of_pairwise ?_ (List.pairwise_insertionSort _ _)
    (List.pairwise_insertionSort _ _)
    ((List.perm_insertionSort _ _).trans (hperm.trans (List.perm_insertionSort _ _).symm))
  intro a b ha hb hab hba
  have ha' : a ∈ es := (List.perm_insertionSort _ _).mem_iff.mp ha
  have hb' : b ∈ es := (hmem b).mpr ((List.perm_insertionSort _ _).mem_iff.mp hb)
  exact List.inj_on_of_nodup_map hnodup ha' hb' (le_antisymm hab hba)

theorem OrderIndependent.of_exact (cr : Crypto) {quorum : Nat} (hquorum : 0 < quorum)
    (view : UInt32) {heard : List Accusation} (hexact : ExactQuorums quorum heard) :
    OrderIndependent cr quorum view heard := by
  intro l l' hl hl'
  have h := (ledgerInv_hears hquorum view l).perm hl
  have h' := (ledgerInv_hears hquorum view l').perm hl'
  have hentries : (hears quorum view l).canonicalEntries cr
      = (hears quorum view l').canonicalEntries cr :=
    insertionSort_node_congr (h.nodup_canonical cr) (h'.nodup_canonical cr)
      fun r => (h.mem_canonical cr hexact).trans (h'.mem_canonical cr hexact).symm
  refine ⟨hentries, fun c reports transcripts => ?_⟩
  unfold canonicalEntries at hentries
  simp only [Consensus.buildProposal, hentries]

/-! ## Order independence needs exact quorums -/

theorem accuse_entries (ledger : RogueLedger) (m : Accusation) :
    (ledger.accuse m.accuser m.accused m.kind m.evidence m.evidenceDigest).2.entries
      = ledger.entries := by
  unfold accuse
  split
  · rfl
  · rfl

/-- The ledger is append-only. -/
theorem entries_subset_receive (quorum : Nat) (view : UInt32) (ledger : RogueLedger)
    (m : Accusation) : ledger.entries ⊆ (ledger.receive quorum view m).entries := by
  rw [← accuse_entries ledger m]
  unfold receive tryIsolate
  dsimp only
  split
  · exact List.Subset.refl _
  · split
    · exact List.Subset.refl _
    · exact List.subset_append_left _ _

theorem entries_subset_run (quorum : Nat) (view : UInt32) (ledger : RogueLedger)
    (heard : List Accusation) :
    ledger.entries ⊆ (run (receive quorum view) ledger heard).entries :=
  run_invariant (I := fun ledger' : RogueLedger => ledger.entries ⊆ ledger'.entries)
    (fun ledger' m h => List.Subset.trans h (entries_subset_receive quorum view ledger' m))
    (List.Subset.refl _) heard

theorem accusations_subset_receive (quorum : Nat) (view : UInt32) (ledger : RogueLedger)
    (m : Accusation) : ledger.accusations ⊆ (ledger.receive quorum view m).accusations := by
  have hfile : ledger.accusations
      ⊆ (ledger.accuse m.accuser m.accused m.kind m.evidence m.evidenceDigest).2.accusations := by
    unfold accuse
    split
    · exact List.Subset.refl _
    · exact List.subset_append_left _ _
  unfold receive tryIsolate
  dsimp only
  split
  · exact hfile
  · split
    · exact hfile
    · exact hfile

theorem accusations_subset_run (quorum : Nat) (view : UInt32) (ledger : RogueLedger)
    (heard : List Accusation) :
    ledger.accusations ⊆ (run (receive quorum view) ledger heard).accusations :=
  run_invariant (I := fun ledger' : RogueLedger => ledger.accusations ⊆ ledger'.accusations)
    (fun ledger' m h => List.Subset.trans h (accusations_subset_receive quorum view ledger' m))
    (List.Subset.refl _) heard

/-- One accusation for each accuser of a set, and the rest. -/
theorem exists_accusers_first {heard : List Accusation} {accused : String} {kind : RogueKind}
    {T : Finset String} (hT : T ⊆ accusersIn heard accused kind) :
    ∃ front rest, (front ++ rest).Perm heard ∧ (∀ m ∈ front, Names m accused kind)
      ∧ accusersIn front accused kind = T := by
  choose f hf using fun a : T => mem_accusersIn.mp (hT a.2)
  have hinj : Function.Injective f := by
    intro a b hab
    exact Subtype.ext ((hf a).2.2.symm.trans ((congrArg Accusation.accuser hab).trans (hf b).2.2))
  let front := T.attach.toList.map f
  have hnodup : front.Nodup := (Finset.nodup_toList _).map hinj
  have hsub : front ⊆ heard := by
    intro m hm
    obtain ⟨a, -, rfl⟩ := List.mem_map.mp hm
    exact (hf a).1
  obtain ⟨front', hfront', hsublist⟩ := List.subperm_of_subset hnodup hsub
  obtain ⟨rest, hrest⟩ := hsublist.exists_perm_append
  refine ⟨front, rest, (hfront'.symm.append_right rest).trans hrest.symm, ?_, ?_⟩
  · intro m hm
    obtain ⟨a, -, rfl⟩ := List.mem_map.mp hm
    exact (hf a).2.1
  · ext accuser
    rw [mem_accusersIn]
    constructor
    · rintro ⟨m, hm, -, rfl⟩
      obtain ⟨a, -, rfl⟩ := List.mem_map.mp hm
      exact (hf a).2.2 ▸ a.2
    · intro haccuser
      exact ⟨f ⟨accuser, haccuser⟩, List.mem_map.mpr ⟨⟨accuser, haccuser⟩, by simp, rfl⟩,
        (hf _).2.1, (hf _).2.2⟩

/-- **Any quorum of the accusers can come first**, and is the entry then. -/
theorem exists_order_isolating {quorum : Nat} (hquorum : 0 < quorum) (view : UInt32)
    {heard : List Accusation} {accused : String} {kind : RogueKind} {T : Finset String}
    (hT : T ⊆ accusersIn heard accused kind) (hcard : T.card = quorum) :
    ∃ l, l.Perm heard ∧ ∃ e ∈ (hears quorum view l).entries,
      e.node = accused ∧ e.kind = kind ∧ e.accusers.toFinset = T := by
  obtain ⟨front, rest, hperm, hnames, hfront⟩ := exists_accusers_first hT
  refine ⟨front ++ rest, hperm, ?_⟩
  have h := ledgerInv_hears hquorum view front
  have hrecorded : T ⊆ accusersIn (hears quorum view front).accusations accused kind := by
    intro accuser haccuser
    obtain ⟨m, hm, -, rfl⟩ := mem_accusersIn.mp (hfront ▸ haccuser)
    obtain ⟨r, hr, hsame, -⟩ := h.known m hm
    exact mem_accusersIn.mpr ⟨r, hr, hnames r (h.filed r hr), hsame⟩
  have hisolated : accused ∈ (hears quorum view front).entries.map RogueEntry.node := by
    by_contra hfree
    have hbelow := h.below accused kind hfree
    have hle := Finset.card_le_card hrecorded
    rw [tried] at hbelow
    omega
  obtain ⟨e, he, rfl⟩ := List.mem_map.mp hisolated
  obtain ⟨hsub, hsize⟩ := h.quorum_le he
  have hkind : e.kind = kind := by
    obtain ⟨accuser, haccuser⟩ := Finset.card_pos.mp (hsize ▸ hquorum)
    obtain ⟨m, hm, hm', -⟩ := mem_accusersIn.mp (hsub haccuser)
    exact hm'.2.symm.trans (hnames m hm).2
  refine ⟨e, ?_, rfl, hkind, ?_⟩
  · unfold hears at he ⊢
    rw [run_append]
    exact entries_subset_run quorum view _ rest he
  · rw [hkind, hfront] at hsub
    exact Finset.eq_of_subset_of_card_le hsub (by rw [hsize, hcard])

theorem mem_canonicalEntries {cr : Crypto} {ledger : RogueLedger} {r : RogueEntry} :
    r ∈ ledger.canonicalEntries cr ↔ r ∈ ledger.entries.map (RogueEntry.canonical cr) :=
  (List.perm_insertionSort _ _).mem_iff

/-- Ledgers with the same canonical entries agree on an isolated node. -/
theorem LedgerInv.entry_eq {cr : Crypto} {quorum : Nat} {view : UInt32}
    {heard : List Accusation} {ledger ledger' : RogueLedger}
    (h' : LedgerInv quorum view tried heard ledger')
    (heq : ledger.canonicalEntries cr = ledger'.canonicalEntries cr) {e e' : RogueEntry}
    (he : e ∈ ledger.entries) (he' : e' ∈ ledger'.entries) (hnode : e.node = e'.node) :
    e.kind = e'.kind ∧ e.accusers.toFinset = e'.accusers.toFinset := by
  have hmem : e.canonical cr ∈ ledger'.canonicalEntries cr :=
    heq ▸ mem_canonicalEntries.mpr (List.mem_map_of_mem he)
  obtain ⟨e'', he'', hsame⟩ := List.mem_map.mp (mem_canonicalEntries.mp hmem)
  have hnode'' : e''.node = e'.node := (congrArg RogueEntry.node hsame).trans hnode
  obtain rfl := List.inj_on_of_nodup_map h'.nodes he'' he' hnode''
  refine ⟨(congrArg RogueEntry.kind hsame).symm, ?_⟩
  have haccusers := congrArg RogueEntry.accusers hsame
  exact List.toFinset_eq_of_perm _ _ ((canonical_accusers_perm cr e).symm.trans
    (haccusers ▸ canonical_accusers_perm cr e''))

/-- An accuser that spent all its digests elsewhere first is not on record. -/
theorem exists_order_without {quorum : Nat} (hquorum : 0 < quorum) (view : UInt32)
    {heard : List Accusation} {accuser accused : String} {kind : RogueKind}
    (hspent : ¬ HasOwnDigest heard accuser accused kind) :
    ∃ l, l.Perm heard
      ∧ accuser ∉ accusersIn (hears quorum view l).accusations accused kind := by
  let elsewhere (m : Accusation) : Bool := m.accuser = accuser ∧ ¬ Names m accused kind
  let front := heard.filter elsewhere
  let rest := heard.filter fun m => ! elsewhere m
  refine ⟨front ++ rest, List.filter_append_perm elsewhere heard, ?_⟩
  have h := ledgerInv_hears hquorum view (front ++ rest)
  have hfront := ledgerInv_hears hquorum view front
  intro hmem
  obtain ⟨r, hr, hnames, hr'⟩ := mem_accusersIn.mp hmem
  have hheard : r ∈ heard := (List.filter_append_perm elsewhere heard).mem_iff.mp (h.filed r hr)
  -- some accusation of something else carries the same digest, and comes first
  obtain ⟨m, hm, hm', hdigest, hother⟩ : ∃ m ∈ heard, m.accuser = accuser
      ∧ m.evidenceDigest = r.evidenceDigest ∧ ¬ Names m accused kind := by
    by_contra hnone
    push Not at hnone
    exact hspent ⟨r, hheard, hr', hnames, hnone⟩
  have hmfront : m ∈ front := List.mem_filter.mpr ⟨hm, decide_eq_true ⟨hm', hother⟩⟩
  obtain ⟨r', hr'', hsame, hsame'⟩ := hfront.known m hmfront
  have hkept : r' ∈ (hears quorum view (front ++ rest)).accusations := by
    unfold hears at hr'' ⊢
    rw [run_append]
    exact accusations_subset_run quorum view _ rest hr''
  obtain rfl := h.once r' hkept r hr (by rw [hsame, hm', hr']) (by rw [hsame', hdigest])
  have helsewhere := (List.mem_filter.mp (hfront.filed r' hr'')).2
  exact (of_decide_eq_true helsewhere).2 hnames

theorem ExactQuorums.of_independent (cr : Crypto) {quorum : Nat} (hquorum : 0 < quorum)
    (view : UInt32) {heard : List Accusation}
    (hindependent : OrderIndependent cr quorum view heard) : ExactQuorums quorum heard := by
  intro accused kind hle
  have hinv {l : List Accusation} (hl : l.Perm heard) :=
    (ledgerInv_hears hquorum view l).perm hl
  obtain ⟨T, hT, hcard⟩ := Finset.exists_subset_card_eq hle
  obtain ⟨l, hl, e, he, hnode, hkind, haccusers⟩ := exists_order_isolating hquorum view hT hcard
  have hsize : (accusersIn heard accused kind).card = quorum := by
    by_contra hne
    -- trade a member of the quorum for an accuser outside it
    obtain ⟨b, hb, hbT⟩ : ∃ b ∈ accusersIn heard accused kind, b ∉ T :=
      Finset.exists_mem_notMem_of_card_lt_card (by omega)
    obtain ⟨a, haT⟩ := Finset.card_pos.mp (hcard ▸ hquorum)
    have hT' : insert b (T.erase a) ⊆ accusersIn heard accused kind :=
      Finset.insert_subset hb ((Finset.erase_subset _ _).trans hT)
    have hcard' : (insert b (T.erase a)).card = quorum := by
      rw [Finset.card_insert_of_notMem fun h => hbT (Finset.mem_of_mem_erase h),
        Finset.card_erase_of_mem haT, hcard]
      omega
    obtain ⟨l', hl', e', he', hnode', -, haccusers'⟩ :=
      exists_order_isolating hquorum view hT' hcard'
    have hsame := ((hinv hl').entry_eq (hindependent l l' hl hl').1 he he'
      (hnode.trans hnode'.symm)).2
    rw [haccusers, haccusers'] at hsame
    exact hbT (hsame ▸ Finset.mem_insert_self _ _)
  refine ⟨hsize, ?_, ?_⟩
  · intro kind' hle'
    obtain ⟨T', hT', hcard'⟩ := Finset.exists_subset_card_eq hle'
    obtain ⟨l', hl', e', he', hnode', hkind', -⟩ :=
      exists_order_isolating hquorum view hT' hcard'
    have hsame := ((hinv hl').entry_eq (hindependent l l' hl hl').1 he he'
      (hnode.trans hnode'.symm)).1
    exact hkind'.symm.trans (hsame.symm.trans hkind)
  · intro accuser haccuser
    by_contra hspent
    obtain ⟨l', hl', hout⟩ := exists_order_without hquorum view hspent
    have hmem : e.canonical cr ∈ (hears quorum view l').canonicalEntries cr :=
      (hindependent l l' hl hl').1 ▸ mem_canonicalEntries.mpr (List.mem_map_of_mem he)
    obtain ⟨e', he', hsame'⟩ := List.mem_map.mp (mem_canonicalEntries.mp hmem)
    have hnode' : e'.node = e.node := by
      show (e'.canonical cr).node = (e.canonical cr).node
      rw [hsame']
    obtain ⟨hkind', haccusers'⟩ :=
      (hinv hl').entry_eq (hindependent l l' hl hl').1 he he' hnode'.symm
    have hall : T = accusersIn heard accused kind :=
      Finset.eq_of_subset_of_card_le hT (by omega)
    have hin : accuser ∈ e'.accusers.toFinset := by
      rw [← haccusers', haccusers, hall]
      exact haccuser
    obtain ⟨-, -, hsub, -⟩ := (hinv hl').entry e' he'
    rw [hnode', hnode, ← hkind', hkind] at hsub
    exact hout (hsub hin)

/-- **The ledger is order-independent exactly for exact quorums.** -/
theorem orderIndependent_iff (cr : Crypto) (quorum : Nat) (hquorum : 0 < quorum) (view : UInt32)
    (heard : List Accusation) :
    OrderIndependent cr quorum view heard ↔ ExactQuorums quorum heard :=
  ⟨ExactQuorums.of_independent cr hquorum view, OrderIndependent.of_exact cr hquorum view⟩

/-! ## Five nodes -/

/-- Node `d` missed the deadline of this witness's challenge. -/
def timeoutAccusation (accuser : String) : Accusation where
  accuser
  accused := "d"
  kind := .timeout
  evidenceDigest := "digest of " ++ accuser
  evidence := "deadline of " ++ accuser

/-- Three of five nodes accuse `d`: just the quorum. -/
theorem orderIndependent_three_accusers :
    OrderIndependent checksumCrypto (decisionQuorum 5) 1
      (["a", "b", "c"].map timeoutAccusation) := by
  refine (orderIndependent_iff checksumCrypto (decisionQuorum 5) (by decide) 1 _).mpr ?_
  intro accused kind hle
  by_cases hnames : accused = "d" ∧ kind = .timeout
  · obtain ⟨rfl, rfl⟩ := hnames
    refine ⟨by decide, ?_, ?_⟩
    · intro kind' hle'
      revert hle'
      cases kind' <;> decide
    · intro accuser haccuser
      refine ⟨timeoutAccusation accuser, ?_, rfl, ⟨rfl, rfl⟩, ?_⟩
      · revert haccuser
        simp only [mem_accusersIn, List.mem_map]
        rintro ⟨m, ⟨a, ha, rfl⟩, -, rfl⟩
        exact ⟨a, ha, rfl⟩
      · intro m' hm' _ _
        obtain ⟨a, -, rfl⟩ := List.mem_map.mp hm'
        exact ⟨rfl, rfl⟩
  · have hnone : accusersIn (["a", "b", "c"].map timeoutAccusation) accused kind = ∅ := by
      refine Finset.eq_empty_of_forall_notMem fun accuser haccuser => ?_
      obtain ⟨m, hm, hm', -⟩ := mem_accusersIn.mp haccuser
      obtain ⟨a, -, rfl⟩ := List.mem_map.mp hm
      exact hnames ⟨hm'.1.symm, hm'.2.symm⟩
    rw [hnone] at hle
    exact absurd hle (by decide)

/-- **The four other nodes accuse `d`**: the entry names the three that were heard first. -/
theorem order_shows_in_the_ledger :
    ¬ OrderIndependent checksumCrypto (decisionQuorum 5) 1
      (["a", "b", "c", "e"].map timeoutAccusation) := by
  intro h
  have heq := (h (["a", "b", "c", "e"].map timeoutAccusation)
    (["b", "c", "e", "a"].map timeoutAccusation) (List.Perm.refl _) (by decide)).1
  exact absurd heq (by decide)

end RogueLedger

end DiscCleaner.Mesh
