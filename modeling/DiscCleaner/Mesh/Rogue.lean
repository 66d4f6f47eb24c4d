import DiscCleaner.Mesh.Gossip
import Mathlib.Data.Finset.Card
import Mathlib.Data.List.Dedup

/-!
# DiscCleaner — accusations and isolation (`rogue.rs`)

The ledger records accusations, one for each accuser and evidence digest, and isolates a node
once enough distinct accusers name it for one kind of misbehaviour. A block carries the
canonical projection of every entry.
-/

namespace DiscCleaner

open ByteLib

/-- `byzantine_tolerance`. -/
def byzantineTolerance (n : Nat) : Nat := (n - 1) / 3

/-- `decision_quorum`: `2f + 1`. -/
def decisionQuorum (n : Nat) : Nat := 2 * byzantineTolerance n + 1

namespace Mesh

/-! ## Kinds and records -/

inductive RogueKind where
  | equivocation | duplicateSerial | failedSpotProof | timeout
  deriving DecidableEq

def RogueKind.asStr : RogueKind → String
  | .equivocation => "equivocation"
  | .duplicateSerial => "duplicate_serial"
  | .failedSpotProof => "failed_spot_proof"
  | .timeout => "timeout"

structure Accusation where
  accuser : String
  accused : String
  kind : RogueKind
  evidenceDigest : String
  evidence : String
  deriving DecidableEq

structure RogueEntry where
  node : String
  kind : RogueKind
  evidenceDigest : String
  evidence : String
  accusers : List String
  isolatedAtView : UInt32
  deriving DecidableEq

/-- The members of a hash set, collected and sorted. -/
def sortedSet (names : List String) : List String :=
  names.dedup.insertionSort (· ≤ ·)

@[simp] theorem mem_sortedSet {names : List String} {a : String} :
    a ∈ sortedSet names ↔ a ∈ names := by
  rw [sortedSet, (List.perm_insertionSort _ _).mem_iff, List.mem_dedup]

theorem nodup_sortedSet (names : List String) : (sortedSet names).Nodup :=
  (List.perm_insertionSort _ _).nodup_iff.mpr (List.nodup_dedup names)

theorem length_sortedSet (names : List String) :
    (sortedSet names).length = names.toFinset.card := by
  rw [sortedSet, List.length_insertionSort, List.card_toFinset]

namespace RogueEntry

/-- The projection that enters blocks: no evidence, sorted accusers, a digest over both. -/
def canonical (cr : Crypto) (e : RogueEntry) : RogueEntry :=
  let accusers := e.accusers.insertionSort (· ≤ ·)
  let digestInput :=
    e.node ++ "|" ++ e.kind.asStr ++ "|" ++ String.intercalate "," accusers ++ "|"
      ++ toString e.isolatedAtView.toNat
  { node := e.node
    kind := e.kind
    evidenceDigest := cr.blake3Hex (utf8 digestInput)
    evidence := ""
    accusers
    isolatedAtView := e.isolatedAtView }

def toJson (e : RogueEntry) : Bytes :=
  Json.object
    [("node", Json.string e.node),
     ("kind", Json.string e.kind.asStr),
     ("evidence_digest", Json.string e.evidenceDigest),
     ("evidence", Json.string e.evidence),
     ("accusers", Json.array (e.accusers.map Json.string)),
     ("isolated_at_view", Json.nat e.isolatedAtView.toNat)]

end RogueEntry

/-! ## The ledger -/

structure RogueLedger where
  entries : List RogueEntry
  accusations : List Accusation
  deriving DecidableEq

namespace RogueLedger

def new : RogueLedger := ⟨[], []⟩

/-- The accusers on record for an accused node and a kind. -/
def accusersOf (ledger : RogueLedger) (accused : String) (kind : RogueKind) : List String :=
  (ledger.accusations.filter fun a => a.accused = accused ∧ a.kind = kind).map
    Accusation.accuser

def isIsolated (ledger : RogueLedger) (node : String) : Bool :=
  ledger.entries.any fun e => e.node = node

/-- The same accuser with the same digest, whatever it accused. -/
def duplicate (ledger : RogueLedger) (accuser evidenceDigest : String) : Bool :=
  ledger.accusations.any fun a => a.accuser = accuser ∧ a.evidenceDigest = evidenceDigest

/-- File an accusation; the count is taken before it is filed. -/
def accuse (ledger : RogueLedger) (accuser accused : String) (kind : RogueKind)
    (evidence evidenceDigest : String) : Nat × RogueLedger :=
  let distinct := (ledger.accusersOf accused kind).dedup.length
  if ledger.duplicate accuser evidenceDigest then (distinct, ledger)
  else
    (distinct + 1,
      { ledger with
        accusations :=
          ledger.accusations ++ [⟨accuser, accused, kind, evidenceDigest, evidence⟩] })

/-- The evidence an entry shows: of the caller's digest, else of any matching accusation. -/
def evidenceFor (ledger : RogueLedger) (accused : String) (kind : RogueKind)
    (evidenceDigest : String) : String :=
  let matching := ledger.accusations.filter fun a => a.accused = accused ∧ a.kind = kind
  (((matching.find? fun a => a.evidenceDigest = evidenceDigest).orElse
    fun _ => matching.head?).map Accusation.evidence).getD ""

/-- Isolate the accused node if its accusers reach the quorum. -/
def tryIsolate (ledger : RogueLedger) (accused : String) (kind : RogueKind)
    (evidenceDigest : String) (requiredQuorum : Nat) (view : UInt32) :
    Option RogueEntry × RogueLedger :=
  if ledger.isIsolated accused then (none, ledger)
  else
    let accusers := sortedSet (ledger.accusersOf accused kind)
    if accusers.length < requiredQuorum then (none, ledger)
    else
      let entry : RogueEntry :=
        { node := accused
          kind
          evidenceDigest
          evidence := ledger.evidenceFor accused kind evidenceDigest
          accusers
          isolatedAtView := view }
      (some entry, { ledger with entries := ledger.entries ++ [entry] })

/-- `blake3` over an evidence body. -/
def digestOf (cr : Crypto) (evidence : String) : String := cr.blake3Hex (utf8 evidence)

/-! ### What a ledger keeps -/

/-- Nothing on record is lost. -/
structure Grows (ledger ledger' : RogueLedger) : Prop where
  entries : ledger.entries ⊆ ledger'.entries
  accusations : ledger.accusations ⊆ ledger'.accusations

theorem Grows.refl (ledger : RogueLedger) : Grows ledger ledger :=
  ⟨List.Subset.refl _, List.Subset.refl _⟩

theorem Grows.trans {a b c : RogueLedger} (h : Grows a b) (h' : Grows b c) : Grows a c :=
  ⟨List.Subset.trans h.entries h'.entries, List.Subset.trans h.accusations h'.accusations⟩

theorem grows_accuse (ledger : RogueLedger) (accuser accused : String) (kind : RogueKind)
    (evidence digest : String) :
    Grows ledger (ledger.accuse accuser accused kind evidence digest).2 := by
  unfold accuse
  dsimp only
  split
  · exact .refl ledger
  · exact ⟨List.Subset.refl _, List.subset_append_left _ _⟩

theorem accusations_tryIsolate (ledger : RogueLedger) (accused : String) (kind : RogueKind)
    (digest : String) (quorum : Nat) (view : UInt32) :
    (ledger.tryIsolate accused kind digest quorum view).2.accusations = ledger.accusations := by
  unfold tryIsolate
  split
  · rfl
  · dsimp only
    split <;> rfl

theorem grows_tryIsolate (ledger : RogueLedger) (accused : String) (kind : RogueKind)
    (digest : String) (quorum : Nat) (view : UInt32) :
    Grows ledger (ledger.tryIsolate accused kind digest quorum view).2 := by
  unfold tryIsolate
  split
  · exact .refl ledger
  · dsimp only
    split
    · exact .refl ledger
    · exact ⟨List.subset_append_left _ _, List.Subset.refl _⟩

theorem Grows.isIsolated {ledger ledger' : RogueLedger} (h : Grows ledger ledger') {node : String}
    (hnode : ledger.isIsolated node = true) : ledger'.isIsolated node = true := by
  obtain ⟨e, he, hnode⟩ := List.any_eq_true.mp hnode
  exact List.any_eq_true.mpr ⟨e, h.entries he, hnode⟩

theorem Grows.duplicate {ledger ledger' : RogueLedger} (h : Grows ledger ledger')
    {accuser digest : String} (hfiled : ledger.duplicate accuser digest = true) :
    ledger'.duplicate accuser digest = true := by
  obtain ⟨a, ha, hmatch⟩ := List.any_eq_true.mp hfiled
  exact List.any_eq_true.mpr ⟨a, h.accusations ha, hmatch⟩

/-- An accusation that was filed is on record. -/
theorem duplicate_accuse (ledger : RogueLedger) (accuser accused : String) (kind : RogueKind)
    (evidence digest : String) :
    (ledger.accuse accuser accused kind evidence digest).2.duplicate accuser digest = true := by
  unfold accuse
  dsimp only
  split
  · next hfiled => exact hfiled
  · simp [duplicate]

/-- What is on record after an accusation was there before, or is the accusation. -/
theorem mem_accusations_accuse {ledger : RogueLedger} {accuser accused : String}
    {kind : RogueKind} {evidence digest : String} {a : Accusation}
    (h : a ∈ (ledger.accuse accuser accused kind evidence digest).2.accusations) :
    a ∈ ledger.accusations ∨ a = ⟨accuser, accused, kind, digest, evidence⟩ := by
  unfold accuse at h
  dsimp only at h
  split at h
  · exact .inl h
  · exact (List.mem_append.mp h).imp_right List.mem_singleton.mp

end RogueLedger

end Mesh

end DiscCleaner
