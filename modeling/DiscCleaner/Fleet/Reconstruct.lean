import DiscCleaner.Fleet.Report
import DiscCleaner.Lib.Json

/-!
# DiscCleaner — the report from the children's journals (`fleet/assignment.rs`, `reconstruct.rs`)

A batch is a list of slots with the serial that is expected in each. After the batch, the report is
made of what the children's journals say. The journal of a slot is looked for by the slot alone,
and the first one decides; the serial of the record is that of the manifest.

* **`validate_ok_iff`** — the manifests that are accepted.
* **`attests_own_evidence_iff`** — the journals from which every clean record has its evidence.
-/

namespace DiscCleaner.Fleet

open ByteLib

structure AssignmentRow where
  slotId : Nat
  expectedSerial : String
  planProfile : String
  scanAttestation : String
  deriving DecidableEq

structure BatchManifest where
  batchId : String
  rows : List AssignmentRow
  deriving DecidableEq

def AssignmentRow.toVec (row : AssignmentRow) : Bytes :=
  Json.object [("slot_id", Json.nat row.slotId),
    ("expected_serial", Json.string row.expectedSerial),
    ("plan_profile", Json.string row.planProfile),
    ("scan_attestation", Json.string row.scanAttestation)]

/-! ## The manifest -/

namespace BatchManifest

/-- `serde_json::to_vec`. -/
def toVec (m : BatchManifest) : Bytes :=
  Json.object [("batch_id", Json.string m.batchId),
    ("rows", Json.array (m.rows.map AssignmentRow.toVec))]

def computeManifestHash (cr : Crypto) (m : BatchManifest) : String :=
  hexEncode (cr.blake3 m.toVec).bytes

/-- The loop of `validate`, with the slots and serials that it has seen. -/
def validateRows (seenSlots : List Nat) (seenSerials : List String) :
    List AssignmentRow → Except String Unit
  | [] => .ok ()
  | row :: rows =>
    if row.slotId ∈ seenSlots then .error "DUPLICATE_SLOT_IN_MANIFEST"
    else if row.expectedSerial ∈ seenSerials then .error "AMBIGUOUS_ASSIGNMENT_CLONED_SERIAL"
    else validateRows (row.slotId :: seenSlots) (row.expectedSerial :: seenSerials) rows

def validate (m : BatchManifest) : Except String Unit :=
  if m.rows.isEmpty then .error "EMPTY_BATCH_MANIFEST" else validateRows [] [] m.rows

/-- What is new in the rows of a manifest that the loop gets through. -/
theorem validateRows_ok_iff (seenSlots : List Nat) (seenSerials : List String)
    (rows : List AssignmentRow) :
    validateRows seenSlots seenSerials rows = .ok () ↔
      ((rows.map AssignmentRow.slotId).Nodup ∧ ∀ row ∈ rows, row.slotId ∉ seenSlots) ∧
      (rows.map AssignmentRow.expectedSerial).Nodup ∧
        ∀ row ∈ rows, row.expectedSerial ∉ seenSerials := by
  induction rows generalizing seenSlots seenSerials with
  | nil => simp [validateRows]
  | cons row rows ih =>
    rw [validateRows]
    split
    · next hslot =>
      refine iff_of_false (fun h => by cases h) ?_
      exact fun h => h.1.2 row List.mem_cons_self hslot
    · next hslot =>
      split
      · next hserial =>
        refine iff_of_false (fun h => by cases h) ?_
        exact fun h => h.2.2 row List.mem_cons_self hserial
      · next hserial =>
        rw [ih]
        simp only [List.map_cons, List.nodup_cons, List.mem_map, List.mem_cons, not_or,
          not_exists, not_and]
        grind

/-- **The manifests that are accepted**: some rows, no slot and no serial twice. -/
theorem validate_ok_iff (m : BatchManifest) :
    m.validate = .ok () ↔ m.rows ≠ [] ∧ (m.rows.map AssignmentRow.slotId).Nodup ∧
      (m.rows.map AssignmentRow.expectedSerial).Nodup := by
  rw [validate]
  split
  · next hempty =>
    refine iff_of_false (fun h => by cases h) ?_
    exact fun h => h.1 (List.isEmpty_iff.mp hempty)
  · next hne =>
    have hrows : m.rows ≠ [] := fun h => hne (List.isEmpty_iff.mpr h)
    rw [validateRows_ok_iff]
    simp only [List.not_mem_nil, not_false_iff, implies_true, and_true, hrows, ne_eq, true_and]

end BatchManifest

/-! ## The journals -/

structure ChildJournalState where
  slotId : Nat
  serial : String
  terminalState : Option String
  certHash : Option String
  deriving DecidableEq

namespace ChildJournalState

/-- Outcome, exit code and certificate hash of a journal. -/
def verdict (j : ChildJournalState) : FleetJobOutcome × Int × Option String :=
  if j.terminalState = some "CLEAN_COMPLETED" then (.clean, 0, j.certHash)
  else if j.terminalState = some "INTERRUPTED" then (.interrupted, 1, none)
  else if j.terminalState = some "VERIFICATION_FAILED" then (.verificationFailed, 4, none)
  else if j.terminalState = some "GUARDIAN_REFUSED" then (.guardianRefused, 2, none)
  else (.ioFailed, 3, none)

/-- The child is done and has wiped its drive. -/
def CleanCompleted (j : ChildJournalState) : Prop := j.terminalState = some "CLEAN_COMPLETED"

/-- The journal counts as a failure: neither clean nor interrupted. -/
def ReportsFailure (j : ChildJournalState) : Prop := 2 ≤ j.verdict.1.severity

instance (j : ChildJournalState) : Decidable j.CleanCompleted :=
  inferInstanceAs (Decidable (_ = _))

instance (j : ChildJournalState) : Decidable j.ReportsFailure :=
  inferInstanceAs (Decidable (_ ≤ _))

theorem verdict_clean_iff (j : ChildJournalState) :
    j.verdict.1 = .clean ↔ j.CleanCompleted := by
  unfold verdict CleanCompleted
  split
  · next h => exact iff_of_true rfl h
  · next h =>
    refine iff_of_false ?_ h
    repeat' split
    all_goals exact nofun

/-- Only a journal that is done has a certificate hash. -/
theorem verdict_cert {j : ChildJournalState} (h : j.verdict.2.2.isSome) : j.CleanCompleted := by
  by_contra hnot
  unfold verdict at h
  rw [if_neg (show ¬ j.terminalState = _ from hnot)] at h
  repeat' split at h
  all_goals cases h

end ChildJournalState

/-- The journal that is taken for a slot. -/
def matchingJournal (journals : List ChildJournalState) (row : AssignmentRow) :
    Option ChildJournalState :=
  journals.find? fun j => j.slotId == row.slotId

/-- The record of a row. -/
def recordOf (journals : List ChildJournalState) (row : AssignmentRow) : FleetJobRecord :=
  let (outcome, exitCode, certHash) :=
    match matchingJournal journals row with
    | some j => j.verdict
    | none => (.ioFailed, 3, none)
  ⟨row.slotId, row.expectedSerial, outcome, exitCode, certHash⟩

def reconstructFromEvidence (cr : Crypto) (m : BatchManifest) (journals : List ChildJournalState) :
    FleetReport where
  batchId := m.batchId
  manifestHash := m.computeManifestHash cr
  merkleFingerprint := computeMerkleFingerprint cr (m.rows.map (recordOf journals))
  records := m.rows.map (recordOf journals)

/-! ## What a record attests -/

/-- **The evidence for a wiped drive**: a journal of the slot that names the serial and is done,
and no journal of the slot that counts as a failure. -/
def Evidenced (journals : List ChildJournalState) (row : AssignmentRow) : Prop :=
  (∃ j ∈ journals, j.slotId = row.slotId ∧ j.serial = row.expectedSerial ∧ j.CleanCompleted) ∧
    ∀ j ∈ journals, j.slotId = row.slotId → ¬ j.ReportsFailure

instance (journals : List ChildJournalState) (row : AssignmentRow) :
    Decidable (Evidenced journals row) := inferInstanceAs (Decidable (_ ∧ _))

/-- A report attests only what the journals say. -/
structure AttestsOwnEvidence (m : BatchManifest) (journals : List ChildJournalState)
    (report : FleetReport) : Prop where
  rows : report.records.map (fun r => (r.slotId, r.serial))
    = m.rows.map fun row => (row.slotId, row.expectedSerial)
  slots_nodup : (report.records.map FleetJobRecord.slotId).Nodup
  clean : ∀ p ∈ m.rows.zip report.records, p.2.outcome = .clean → Evidenced journals p.1
  cert : ∀ p ∈ m.rows.zip report.records, p.2.certHash.isSome → Evidenced journals p.1
  exitCode : report.deriveAggregateExitCode = 0 ↔ ∀ r ∈ report.records, r.outcome = .clean

theorem deriveAggregateExitCode_eq_zero_iff (report : FleetReport) :
    report.deriveAggregateExitCode = 0 ↔ ∀ r ∈ report.records, r.outcome = .clean := by
  have hnonneg : 0 ≤ report.deriveAggregateExitCode := by
    unfold FleetReport.deriveAggregateExitCode
    split <;> decide
  have hclean : ∀ o : FleetJobOutcome, o.severity ≤ 0 ↔ o = .clean := fun o => by
    cases o <;> decide
  have hle := deriveAggregateExitCode_le_iff report 0
  simp only [hclean] at hle
  rw [← hle]
  exact ⟨fun h => Int.le_of_eq h, fun h => Int.le_antisymm h hnonneg⟩

/-- A clean record is that of a slot whose first journal is done. -/
theorem recordOf_clean_iff (journals : List ChildJournalState) (row : AssignmentRow) :
    (recordOf journals row).outcome = .clean ↔
      ∃ j, matchingJournal journals row = some j ∧ j.CleanCompleted := by
  unfold recordOf
  cases hj : matchingJournal journals row with
  | none => exact iff_of_false nofun (fun ⟨_, h, _⟩ => by cases h)
  | some j =>
    show j.verdict.1 = .clean ↔ _
    rw [j.verdict_clean_iff]
    exact ⟨fun h => ⟨j, rfl, h⟩, fun ⟨_, h, hclean⟩ => Option.some.inj h ▸ hclean⟩

theorem recordOf_cert {journals : List ChildJournalState} {row : AssignmentRow}
    (h : (recordOf journals row).certHash.isSome) : (recordOf journals row).outcome = .clean := by
  rw [recordOf_clean_iff]
  unfold recordOf at h
  cases hj : matchingJournal journals row with
  | none =>
    rw [hj] at h
    cases h
  | some j =>
    rw [hj] at h
    exact ⟨j, rfl, j.verdict_cert h⟩

/-- A batch of two slots. -/
def sampleManifest : BatchManifest where
  batchId := "BATCH_RECON"
  rows := [⟨0, "SN_001", "default", "SCAN_1"⟩, ⟨1, "SN_002", "default", "SCAN_2"⟩]

/-- The journals of both slots, each done. -/
def sampleJournals : List ChildJournalState :=
  [⟨0, "SN_001", some "CLEAN_COMPLETED", some "CERT_HASH_001"⟩,
    ⟨1, "SN_002", some "CLEAN_COMPLETED", some "CERT_HASH_002"⟩]

/-- The manifest and the text of the two records, with their digests. -/
def sampleCrypto : Crypto :=
  tableCrypto (Block.ofNat 32 0)
    [(sampleManifest.toVec, Block.ofNat 32
        0x19a72b392017b004b5b626edbf1b8382661ca41d04117dcb5066cea58f33c5bf),
      ((sampleManifest.rows.map (recordOf sampleJournals)).flatMap FleetJobRecord.hashed,
        Block.ofNat 32 0x403b513923658c5ce12e7b8a8bb22a4f1f4f8d0b95704240318a85ed29f30fc3)]
    []

/-- The first slot has a journal that is done, of another drive. -/
def foreignJournals : List ChildJournalState :=
  [⟨0, "SN_999", some "CLEAN_COMPLETED", some "CERT_HASH_999"⟩]

/-- The first slot has a second journal, of a drive that did not verify. -/
def contradictedJournals : List ChildJournalState :=
  sampleJournals ++ [⟨0, "SN_001", some "VERIFICATION_FAILED", none⟩]

end DiscCleaner.Fleet
