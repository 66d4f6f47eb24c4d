import DiscCleaner.Mesh.RogueOrder

/-!
# DiscCleaner — counting accusations (`rogue.rs`)

`accuse` promises the number of distinct accusers of a node for a kind. It takes a call for a
repetition when its accuser used the evidence digest before, against whomever, and counts every
other call as a new accuser. So an accuser with new evidence is counted twice, and one whose digest
stood against another node is not heard at all.

## The architecture

* **`Tracks`** — the ledger has the accusers that were heard: what a run keeps as long as every
  accuser uses a digest exactly as often as it accuses.
* **`Tracks.counts_iff`** — one call answers and records what it should exactly if its digest is
  new to the accuser just when the accusation is.
* **`ledger_sound_iff`** — the same for every run of calls; isolation needs no condition.
-/

namespace DiscCleaner.Mesh

open TransitionLib

namespace RogueLedger

/-! ## Calls -/

/-- A call on the ledger. -/
inductive LedgerCall where
  | accuse (m : Accusation)
  | tryIsolate (accused : String) (kind : RogueKind) (evidenceDigest : String)
      (requiredQuorum : Nat) (view : UInt32)
  deriving DecidableEq

/-- `accuse` with the members of an accusation. -/
def accuseWith (ledger : RogueLedger) (m : Accusation) : Nat × RogueLedger :=
  ledger.accuse m.accuser m.accused m.kind m.evidence m.evidenceDigest

def perform (ledger : RogueLedger) : LedgerCall → RogueLedger
  | .accuse m => (ledger.accuseWith m).2
  | .tryIsolate accused kind digest quorum view =>
    (ledger.tryIsolate accused kind digest quorum view).2

/-- The entry a call returns. -/
def verdictOf (ledger : RogueLedger) : LedgerCall → Option RogueEntry
  | .accuse _ => none
  | .tryIsolate accused kind digest quorum view =>
    (ledger.tryIsolate accused kind digest quorum view).1

/-- The ledger after a run of calls. -/
def after (calls : List LedgerCall) : RogueLedger := run perform .new calls

/-- The entries a run of calls returns. -/
def verdicts : RogueLedger → List LedgerCall → List RogueEntry
  | _, [] => []
  | ledger, call :: calls =>
    (ledger.verdictOf call).toList ++ verdicts (ledger.perform call) calls

/-- The accusations among some calls. -/
def heardIn (calls : List LedgerCall) : List Accusation :=
  calls.filterMap fun
    | .accuse m => some m
    | .tryIsolate .. => none

/-! ## What the property says -/

/-- The call returns the number of distinct accusers that were heard, this one included. -/
def Counted (before : List LedgerCall) (m : Accusation) : Prop :=
  ((after before).accuseWith m).1 = (accusersIn (heardIn before ++ [m]) m.accused m.kind).card

/-- The ledger holds this evidence of this accuser against this node. -/
def Kept (before : List LedgerCall) (m : Accusation) : Prop :=
  ∃ r ∈ ((after before).accuseWith m).2.accusations,
    r.accuser = m.accuser ∧ r.accused = m.accused ∧ r.evidenceDigest = m.evidenceDigest

/-- Every accusation is counted and kept, and nobody is isolated without a quorum or twice. -/
structure LedgerSound (calls : List LedgerCall) : Prop where
  counted : ∀ before m rest, calls = before ++ .accuse m :: rest → Counted before m
  kept : ∀ before m rest, calls = before ++ .accuse m :: rest → Kept before m
  quorum : ∀ before accused kind digest required view rest entry,
    calls = before ++ .tryIsolate accused kind digest required view :: rest →
    (after before).verdictOf (.tryIsolate accused kind digest required view) = some entry →
    entry.node = accused ∧ required ≤ (accusersIn (heardIn before) accused kind).card
  once : ((verdicts .new calls).map RogueEntry.node).Nodup

/-- The accuser's digest is new just when its accusation is, and it stood against no one else. -/
def FreshAlike (heard : List Accusation) (m : Accusation) : Prop :=
  ((∃ r ∈ heard, r.accuser = m.accuser ∧ r.evidenceDigest = m.evidenceDigest) ↔
      m.accuser ∈ accusersIn heard m.accused m.kind)
    ∧ ∀ r ∈ heard, r.accuser = m.accuser → r.evidenceDigest = m.evidenceDigest →
      r.accused = m.accused

/-- One digest for each accusation, read at each call. -/
def OneDigestEach (heard : List Accusation) : Prop :=
  ∀ before m rest, heard = before ++ m :: rest → FreshAlike before m

/-! ## One call -/

/-- The ledger has the accusers that were heard, and their digests. -/
structure Tracks (heard : List Accusation) (ledger : RogueLedger) : Prop where
  filed : ∀ r ∈ ledger.accusations, r ∈ heard
  known : ∀ m ∈ heard, ∃ r ∈ ledger.accusations,
    r.accuser = m.accuser ∧ r.evidenceDigest = m.evidenceDigest
  accusers : ∀ accused kind,
    accusersIn ledger.accusations accused kind = accusersIn heard accused kind
  single : ∀ r ∈ heard, ∀ r' ∈ heard, r.accuser = r'.accuser →
    r.evidenceDigest = r'.evidenceDigest → r.accused = r'.accused

theorem tracks_new : Tracks [] .new :=
  ⟨fun _ h => h, fun _ h => absurd h List.not_mem_nil, fun _ _ => rfl,
    fun _ h => absurd h List.not_mem_nil⟩

section step

variable {heard : List Accusation} {ledger : RogueLedger}

theorem Tracks.duplicate_iff (h : Tracks heard ledger) (accuser digest : String) :
    ledger.duplicate accuser digest = true ↔
      ∃ r ∈ heard, r.accuser = accuser ∧ r.evidenceDigest = digest := by
  rw [RogueLedger.duplicate_iff]
  constructor
  · rintro ⟨r, hr, hmatch⟩
    exact ⟨r, h.filed r hr, hmatch⟩
  · rintro ⟨m, hm, rfl, rfl⟩
    exact h.known m hm

theorem accusersIn_self (heard : List Accusation) (m : Accusation) :
    accusersIn (heard ++ [m]) m.accused m.kind
      = insert m.accuser (accusersIn heard m.accused m.kind) := by
  rw [accusersIn_concat, if_pos ⟨rfl, rfl⟩]

theorem accuseWith_duplicate (m : Accusation)
    (hdup : ledger.duplicate m.accuser m.evidenceDigest = true) :
    ledger.accuseWith m = ((accusersIn ledger.accusations m.accused m.kind).card, ledger) := by
  rw [accuseWith, accuse, if_pos hdup, ← toFinset_accusersOf, List.card_toFinset]

theorem accuseWith_new (m : Accusation)
    (hdup : ¬ ledger.duplicate m.accuser m.evidenceDigest = true) :
    ledger.accuseWith m = ((accusersIn ledger.accusations m.accused m.kind).card + 1,
      { ledger with accusations := ledger.accusations ++ [m] }) := by
  rw [accuseWith, accuse, if_neg hdup, ← toFinset_accusersOf, List.card_toFinset]

/-- A call whose evidence was heard of its accuser before counts the accusers on record. -/
theorem Tracks.counts_iff_of_duplicate (h : Tracks heard ledger) (m : Accusation)
    (hdup : ledger.duplicate m.accuser m.evidenceDigest = true) :
    ((ledger.accuseWith m).1 = (accusersIn (heard ++ [m]) m.accused m.kind).card
      ∧ ∃ r ∈ (ledger.accuseWith m).2.accusations, r.accuser = m.accuser ∧ r.accused = m.accused
        ∧ r.evidenceDigest = m.evidenceDigest) ↔ FreshAlike heard m := by
  have hheard := (h.duplicate_iff _ _).mp hdup
  rw [accuseWith_duplicate m hdup, accusersIn_self, h.accusers]
  have hcard : (accusersIn heard m.accused m.kind).card
      = (insert m.accuser (accusersIn heard m.accused m.kind)).card
        ↔ m.accuser ∈ accusersIn heard m.accused m.kind := by
    constructor
    · intro hcard
      by_contra hnew
      rw [Finset.card_insert_of_notMem hnew] at hcard
      omega
    · intro hmem
      rw [Finset.insert_eq_of_mem hmem]
  rw [hcard]
  constructor
  · rintro ⟨hmem, r, hr, haccuser, haccused, hdigest⟩
    refine ⟨iff_of_true hheard hmem, fun r' hr' haccuser' hdigest' => ?_⟩
    rw [← haccused]
    exact h.single r' hr' r (h.filed r hr) (haccuser'.trans haccuser.symm)
      (hdigest'.trans hdigest.symm)
  · intro hfresh
    obtain ⟨r, hr, haccuser, hdigest⟩ := RogueLedger.duplicate_iff.mp hdup
    exact ⟨hfresh.1.mp hheard, r, hr, haccuser,
      hfresh.2 r (h.filed r hr) haccuser hdigest, hdigest⟩

/-- A call with evidence that is new to its accuser is filed and counts it as a new accuser. -/
theorem Tracks.counts_iff_of_new (h : Tracks heard ledger) (m : Accusation)
    (hdup : ¬ ledger.duplicate m.accuser m.evidenceDigest = true) :
    ((ledger.accuseWith m).1 = (accusersIn (heard ++ [m]) m.accused m.kind).card
      ∧ ∃ r ∈ (ledger.accuseWith m).2.accusations, r.accuser = m.accuser ∧ r.accused = m.accused
        ∧ r.evidenceDigest = m.evidenceDigest) ↔ FreshAlike heard m := by
  have hheard := mt (h.duplicate_iff _ _).mpr hdup
  rw [accuseWith_new m hdup, accusersIn_self, h.accusers]
  constructor
  · rintro ⟨hcard, -⟩
    refine ⟨iff_of_false hheard fun hmem => ?_, fun r hr haccuser hdigest =>
      absurd ⟨r, hr, haccuser, hdigest⟩ hheard⟩
    rw [Finset.insert_eq_of_mem hmem] at hcard
    exact absurd hcard (Nat.succ_ne_self _)
  · intro hfresh
    have hnew : m.accuser ∉ accusersIn heard m.accused m.kind := fun hmem =>
      hheard (hfresh.1.mpr hmem)
    have hlast : m ∈ ledger.accusations ++ [m] :=
      List.mem_append_right _ (List.mem_singleton_self m)
    exact ⟨(Finset.card_insert_of_notMem hnew).symm, m, hlast, rfl, rfl, rfl⟩

/-- **One call**: it answers and records what it should exactly if the digest is as new as the
accusation. -/
theorem Tracks.counts_iff (h : Tracks heard ledger) (m : Accusation) :
    ((ledger.accuseWith m).1 = (accusersIn (heard ++ [m]) m.accused m.kind).card
      ∧ ∃ r ∈ (ledger.accuseWith m).2.accusations, r.accuser = m.accuser ∧ r.accused = m.accused
        ∧ r.evidenceDigest = m.evidenceDigest) ↔ FreshAlike heard m := by
  by_cases hdup : ledger.duplicate m.accuser m.evidenceDigest = true
  · exact h.counts_iff_of_duplicate m hdup
  · exact h.counts_iff_of_new m hdup

/-- Such a call keeps the ledger in step with what was heard. -/
theorem Tracks.accuse (h : Tracks heard ledger) {m : Accusation} (hfresh : FreshAlike heard m) :
    Tracks (heard ++ [m]) (ledger.accuseWith m).2 := by
  have hsingle : ∀ r ∈ heard ++ [m], ∀ r' ∈ heard ++ [m], r.accuser = r'.accuser →
      r.evidenceDigest = r'.evidenceDigest → r.accused = r'.accused := by
    intro r hr r' hr' haccuser hdigest
    rcases List.mem_append.mp hr with hold | hnew <;>
      rcases List.mem_append.mp hr' with hold' | hnew'
    · exact h.single r hold r' hold' haccuser hdigest
    · rw [List.mem_singleton.mp hnew'] at haccuser hdigest ⊢
      exact hfresh.2 r hold haccuser hdigest
    · rw [List.mem_singleton.mp hnew] at haccuser hdigest ⊢
      exact (hfresh.2 r' hold' haccuser.symm hdigest.symm).symm
    · rw [List.mem_singleton.mp hnew, List.mem_singleton.mp hnew']
  by_cases hdup : ledger.duplicate m.accuser m.evidenceDigest = true
  · rw [accuseWith_duplicate m hdup]
    have hmem := hfresh.1.mp ((h.duplicate_iff _ _).mp hdup)
    refine ⟨fun r hr => List.mem_append_left _ (h.filed r hr), ?_, ?_, hsingle⟩
    · intro m' hm'
      rcases List.mem_append.mp hm' with hm' | hm'
      · exact h.known m' hm'
      · obtain rfl := List.mem_singleton.mp hm'
        exact RogueLedger.duplicate_iff.mp hdup
    · intro accused kind
      rw [h.accusers, accusersIn_concat]
      split
      · next hnames =>
        obtain ⟨rfl, rfl⟩ := hnames
        exact (Finset.insert_eq_of_mem hmem).symm
      · rfl
  · rw [accuseWith_new m hdup]
    refine ⟨?_, ?_, ?_, hsingle⟩
    · intro r hr
      exact (List.mem_append.mp hr).elim (fun hr => List.mem_append_left _ (h.filed r hr))
        (List.mem_append_right _)
    · intro m' hm'
      rcases List.mem_append.mp hm' with hm' | hm'
      · obtain ⟨r, hr, hmatch⟩ := h.known m' hm'
        exact ⟨r, List.mem_append_left _ hr, hmatch⟩
      · obtain rfl := List.mem_singleton.mp hm'
        exact ⟨m', List.mem_append_right _ (List.mem_singleton_self m'), rfl, rfl⟩
    · intro accused kind
      rw [accusersIn_concat, accusersIn_concat, h.accusers]

end step

/-! ## Runs -/

theorem heardIn_append (calls calls' : List LedgerCall) :
    heardIn (calls ++ calls') = heardIn calls ++ heardIn calls' := List.filterMap_append

theorem accusations_perform_tryIsolate (ledger : RogueLedger) (accused : String)
    (kind : RogueKind) (digest : String) (quorum : Nat) (view : UInt32) :
    (ledger.perform (.tryIsolate accused kind digest quorum view)).accusations
      = ledger.accusations := accusations_tryIsolate ledger accused kind digest quorum view

/-- What a call does to the entries: the one it returns is added. -/
theorem entries_perform (ledger : RogueLedger) (call : LedgerCall) :
    (ledger.perform call).entries = ledger.entries ++ (ledger.verdictOf call).toList := by
  cases call with
  | accuse m =>
    rw [perform, accuseWith, accuse_entries]
    exact (List.append_nil _).symm
  | tryIsolate accused kind digest quorum view =>
    simp only [perform, verdictOf, tryIsolate]
    split
    · exact (List.append_nil _).symm
    · split
      · exact (List.append_nil _).symm
      · rfl

theorem entries_run (ledger : RogueLedger) (calls : List LedgerCall) :
    (run perform ledger calls).entries = ledger.entries ++ verdicts ledger calls := by
  induction calls generalizing ledger with
  | nil => exact (List.append_nil _).symm
  | cons call calls ih =>
    rw [run_cons, ih, entries_perform, verdicts, List.append_assoc]

theorem entries_after (calls : List LedgerCall) : (after calls).entries = verdicts .new calls := by
  rw [after, entries_run]
  rfl

theorem after_concat (calls : List LedgerCall) (call : LedgerCall) :
    after (calls ++ [call]) = (after calls).perform call := run_concat _ _ _ _

/-- The ledger holds nothing that was not heard. -/
theorem filed_after (calls : List LedgerCall) :
    ∀ r ∈ (after calls).accusations, r ∈ heardIn calls := by
  induction calls using List.reverseRecOn with
  | nil => exact fun r hr => absurd hr List.not_mem_nil
  | append_singleton calls call ih =>
    rw [after_concat, heardIn_append]
    intro r hr
    cases call with
    | accuse m =>
      rcases mem_accusations_accuse hr with hr | rfl
      · exact List.mem_append_left _ (ih r hr)
      · exact List.mem_append_right _ (List.mem_singleton_self m)
    | tryIsolate accused kind digest quorum view =>
      rw [accusations_perform_tryIsolate] at hr
      exact List.mem_append_left _ (ih r hr)

theorem OneDigestEach.of_append {heard heard' : List Accusation}
    (h : OneDigestEach (heard ++ heard')) : OneDigestEach heard := by
  rintro before m rest rfl
  exact h before m (rest ++ heard') (by rw [List.append_assoc, List.cons_append])

/-- **Run lemma**: as long as every accusation comes with a digest as new as itself, the ledger has
the accusers that were heard. -/
theorem tracks_after {calls : List LedgerCall} (h : OneDigestEach (heardIn calls)) :
    Tracks (heardIn calls) (after calls) := by
  induction calls using List.reverseRecOn with
  | nil => exact tracks_new
  | append_singleton calls call ih =>
    rw [heardIn_append] at h ⊢
    have hbefore := ih h.of_append
    rw [after_concat]
    cases call with
    | accuse m => exact hbefore.accuse (h (heardIn calls) m [] rfl)
    | tryIsolate accused kind digest quorum view =>
      have hsame := accusations_perform_tryIsolate (after calls) accused kind digest quorum view
      simp only [heardIn, List.filterMap_cons, List.filterMap_nil, List.append_nil]
      refine ⟨?_, ?_, ?_, hbefore.single⟩ <;> rw [hsame]
      · exact hbefore.filed
      · exact hbefore.known
      · exact hbefore.accusers

/-- The entry a call returns names the node that was to be isolated, which was not, and its
accusers make the quorum. -/
theorem tryIsolate_eq_some {ledger : RogueLedger} {accused : String} {kind : RogueKind}
    {digest : String} {quorum : Nat} {view : UInt32} {entry : RogueEntry}
    (h : (ledger.tryIsolate accused kind digest quorum view).1 = some entry) :
    entry.node = accused ∧ ledger.isIsolated accused = false
      ∧ quorum ≤ (accusersIn ledger.accusations accused kind).card := by
  unfold tryIsolate at h
  split at h
  · exact absurd h (by simp)
  · next hfree =>
    dsimp only at h
    split at h
    · exact absurd h (by simp)
    · next hquorum =>
      obtain rfl := Option.some.inj h
      refine ⟨rfl, by simpa using hfree, ?_⟩
      rw [← toFinset_accusersOf, ← length_sortedSet]
      exact Nat.le_of_not_lt hquorum

/-- No node has two entries. -/
theorem nodup_nodes_after (calls : List LedgerCall) :
    ((after calls).entries.map RogueEntry.node).Nodup := by
  induction calls using List.reverseRecOn with
  | nil => exact List.nodup_nil
  | append_singleton calls call ih =>
    rw [after_concat, entries_perform]
    cases call with
    | accuse m => simpa [verdictOf] using ih
    | tryIsolate accused kind digest quorum view =>
      cases hverdict : (after calls).verdictOf (.tryIsolate accused kind digest quorum view) with
      | none => simpa using ih
      | some entry =>
        obtain ⟨hnode, hfree, -⟩ := tryIsolate_eq_some hverdict
        have hnew : entry.node ∉ (after calls).entries.map RogueEntry.node := by
          rw [hnode, ← isIsolated_iff, hfree]
          exact Bool.false_ne_true
        rw [Option.toList_some, List.map_append, List.nodup_append_comm]
        exact List.nodup_cons.mpr ⟨hnew, ih⟩

theorem OneDigestEach.concat {heard : List Accusation} {m : Accusation} (h : OneDigestEach heard)
    (hfresh : FreshAlike heard m) : OneDigestEach (heard ++ [m]) := by
  intro before m' rest heq
  rcases List.eq_nil_or_concat rest with rfl | ⟨rest, last, rfl⟩
  · obtain ⟨rfl, hm⟩ := List.append_inj' heq rfl
    rwa [← List.head_eq_of_cons_eq hm]
  · rw [List.concat_eq_append, ← List.cons_append, ← List.append_assoc] at heq
    exact h before m' rest (List.append_inj' heq rfl).1

theorem heardIn_split (before : List LedgerCall) (m : Accusation) (rest : List LedgerCall) :
    heardIn (before ++ .accuse m :: rest) = heardIn before ++ m :: heardIn rest := by
  rw [heardIn_append]
  rfl

/-- A run that counts and keeps every accusation has one digest for each. -/
theorem oneDigestEach_of_counted {calls : List LedgerCall}
    (hcounted : ∀ before m rest, calls = before ++ .accuse m :: rest → Counted before m)
    (hkept : ∀ before m rest, calls = before ++ .accuse m :: rest → Kept before m) :
    OneDigestEach (heardIn calls) := by
  induction calls using List.reverseRecOn with
  | nil => exact fun before m rest heq => absurd heq (by simp [heardIn])
  | append_singleton calls call ih =>
    have hbefore := ih
      (fun before m rest heq => hcounted before m (rest ++ [call]) (by
        rw [heq, List.append_assoc, List.cons_append]))
      (fun before m rest heq => hkept before m (rest ++ [call]) (by
        rw [heq, List.append_assoc, List.cons_append]))
    rw [heardIn_append]
    cases call with
    | accuse m =>
      exact hbefore.concat (((tracks_after hbefore).counts_iff m).mp
        ⟨hcounted calls m [] rfl, hkept calls m [] rfl⟩)
    | tryIsolate accused kind digest quorum view => simpa [heardIn] using hbefore

/-- **The ledger over runs**: every accusation is counted and kept, and isolation has its quorum,
exactly if every accuser uses a digest as often as it accuses and never against two nodes. -/
theorem ledger_sound_iff (calls : List LedgerCall) :
    LedgerSound calls ↔ OneDigestEach (heardIn calls) := by
  constructor
  · intro h
    exact oneDigestEach_of_counted h.counted h.kept
  · intro h
    have hcut : ∀ before m rest, calls = before ++ .accuse m :: rest →
        Counted before m ∧ Kept before m := by
      rintro before m rest rfl
      rw [heardIn_split] at h
      exact ((tracks_after h.of_append).counts_iff m).mpr (h _ m _ rfl)
    refine ⟨fun before m rest heq => (hcut before m rest heq).1,
      fun before m rest heq => (hcut before m rest heq).2, ?_, ?_⟩
    · intro before accused kind digest required view rest entry _ hentry
      obtain ⟨hnode, -, hquorum⟩ := tryIsolate_eq_some hentry
      exact ⟨hnode, hquorum.trans
        (Finset.card_le_card (accusersIn_mono (filed_after before) accused kind))⟩
    · rw [← entries_after]
      exact nodup_nodes_after calls

/-- An accusation of a failed spot proof. -/
def failedProof (accuser accused digest : String) : Accusation :=
  ⟨accuser, accused, .failedSpotProof, digest, "{}"⟩

/-- One accuser with two pieces of evidence is counted as two, and evidence that stood against one
node is not heard against another. -/
theorem evidence_miscounted :
    ¬ Counted [.accuse (failedProof "a" "rogue" "d1")] (failedProof "a" "rogue" "d2")
      ∧ ¬ Kept [.accuse (failedProof "a" "rogue" "d1")] (failedProof "a" "other" "d1")
      ∧ ¬ LedgerSound [.accuse (failedProof "a" "rogue" "d1"),
        .accuse (failedProof "a" "rogue" "d2")] := by
  have hcount : ¬ Counted [.accuse (failedProof "a" "rogue" "d1")]
      (failedProof "a" "rogue" "d2") := by
    unfold Counted
    decide
  refine ⟨hcount, ?_, fun h => hcount (h.counted [_] _ [] rfl)⟩
  unfold Kept
  decide

end RogueLedger

end DiscCleaner.Mesh
