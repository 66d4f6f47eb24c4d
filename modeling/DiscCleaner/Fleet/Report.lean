import DiscCleaner.Core.Record
import DiscCleaner.Lib.LineText

/-!
# DiscCleaner — the report of a batch (`fleet/report.rs`)

The fingerprint of a batch hashes the fields of the records one after another, with nothing that
tells where a field ends. The outcome is written as a word, so a reader of the hashed text finds
the records again only if it can tell which words are outcomes.

* **`deriveAggregateExitCode_le_iff`** — the exit code is that of the worst record.
* **`fingerprint_binds_iff`** — the lists that the fingerprint determines.
-/

namespace DiscCleaner.Fleet

open ByteLib

inductive FleetJobOutcome where
  | clean
  | interrupted
  | guardianRefused
  | ioFailed
  | verificationFailed
  deriving DecidableEq

namespace FleetJobOutcome

/-- `format!("{:?}", outcome)`. -/
def debugName : FleetJobOutcome → String
  | clean => "Clean"
  | interrupted => "Interrupted"
  | guardianRefused => "GuardianRefused"
  | ioFailed => "IoFailed"
  | verificationFailed => "VerificationFailed"

def all : List FleetJobOutcome :=
  [clean, interrupted, guardianRefused, ioFailed, verificationFailed]

theorem mem_all (o : FleetJobOutcome) : o ∈ all := by
  cases o <;> decide

theorem debugName_ne_nil (o : FleetJobOutcome) : o.debugName.toList ≠ [] := by
  cases o <;> decide

/-- No outcome's name begins with that of another: the first two letters tell. -/
theorem debugName_prefix_free {o o' : FleetJobOutcome} {rest rest' : List Char}
    (h : o.debugName.toList ++ rest = o'.debugName.toList ++ rest') : o = o' ∧ rest = rest' := by
  have hlong : ∀ o : FleetJobOutcome, 2 ≤ o.debugName.toList.length := fun o => by
    cases o <;> decide
  have htake : o.debugName.toList.take 2 = o'.debugName.toList.take 2 := by
    have hfirst : (o.debugName.toList ++ rest).take 2 = o.debugName.toList.take 2 :=
      List.take_append_of_le_length (hlong o)
    rw [← hfirst, h, List.take_append_of_le_length (hlong o')]
  have ho : o = o' := by
    revert htake
    cases o <;> cases o' <;> decide
  subst ho
  exact ⟨rfl, List.append_cancel_left h⟩

end FleetJobOutcome

structure FleetJobRecord where
  slotId : Nat
  serial : String
  outcome : FleetJobOutcome
  exitCode : Int
  certHash : Option String
  deriving DecidableEq

structure FleetReport where
  batchId : String
  manifestHash : String
  merkleFingerprint : String
  records : List FleetJobRecord

namespace FleetJobOutcome

/-- The discriminants, by which outcomes are ordered. -/
def severity : FleetJobOutcome → Nat
  | clean => 0
  | interrupted => 1
  | guardianRefused => 2
  | ioFailed => 3
  | verificationFailed => 4

/-- `Ord::max`. -/
def max (a b : FleetJobOutcome) : FleetJobOutcome := if a.severity ≤ b.severity then b else a

/-- `Iterator::max`. -/
def maximum : List FleetJobOutcome → Option FleetJobOutcome
  | [] => none
  | o :: os => some (os.foldl max o)

theorem severity_max_le_iff (a b : FleetJobOutcome) (n : Nat) :
    (a.max b).severity ≤ n ↔ a.severity ≤ n ∧ b.severity ≤ n := by
  unfold max
  split <;> omega

theorem severity_foldl_max_le_iff (os : List FleetJobOutcome) (o : FleetJobOutcome) (n : Nat) :
    (os.foldl max o).severity ≤ n ↔ o.severity ≤ n ∧ ∀ o' ∈ os, o'.severity ≤ n := by
  induction os generalizing o with
  | nil => exact (and_iff_left fun _ h => absurd h List.not_mem_nil).symm
  | cons o' os ih => rw [List.foldl_cons, ih, severity_max_le_iff, List.forall_mem_cons, and_assoc]

theorem severity_maximum_le_iff (os : List FleetJobOutcome) (n : Nat) :
    ((maximum os).getD clean).severity ≤ n ↔ ∀ o ∈ os, o.severity ≤ n := by
  cases os with
  | nil => exact iff_of_true (Nat.zero_le n) fun _ h => absurd h List.not_mem_nil
  | cons o os => rw [List.forall_mem_cons, ← severity_foldl_max_le_iff]; rfl

end FleetJobOutcome

/-- The hierarchy of the exit codes. -/
def FleetReport.deriveAggregateExitCode (report : FleetReport) : Int :=
  match (FleetJobOutcome.maximum (report.records.map FleetJobRecord.outcome)).getD .clean with
  | .verificationFailed => 4
  | .ioFailed => 3
  | .guardianRefused => 2
  | .interrupted => 1
  | .clean => 0

/-- **The exit code is that of the worst record**, zero when there is none. -/
theorem deriveAggregateExitCode_le_iff (report : FleetReport) (n : Nat) :
    report.deriveAggregateExitCode ≤ n ↔ ∀ r ∈ report.records, r.outcome.severity ≤ n := by
  have hworst := FleetJobOutcome.severity_maximum_le_iff
    (report.records.map FleetJobRecord.outcome) n
  rw [List.forall_mem_map] at hworst
  rw [← hworst, FleetReport.deriveAggregateExitCode]
  -- the code of each outcome is its severity
  cases (FleetJobOutcome.maximum (report.records.map FleetJobRecord.outcome)).getD .clean <;>
    exact Int.ofNat_le

/-- What the hasher is given for a record. -/
def FleetJobRecord.hashed (r : FleetJobRecord) : Bytes :=
  utf8 r.serial ++ utf8 r.outcome.debugName ++
    match r.certHash with
    | some h => utf8 h
    | none => []

def computeMerkleFingerprint (cr : Crypto) (records : List FleetJobRecord) : String :=
  hexEncode (cr.blake3 (records.flatMap FleetJobRecord.hashed)).bytes

/-! ## The hashed text -/

namespace FleetJobRecord

/-- What a record says: the fields that the fingerprint is made of. -/
def statement (r : FleetJobRecord) : String × FleetJobOutcome × Option String :=
  (r.serial, r.outcome, r.certHash)

/-- The characters behind the outcome. -/
def certText (r : FleetJobRecord) : List Char := (r.certHash.getD "").toList

/-- The characters that are hashed for a record. -/
def text (r : FleetJobRecord) : List Char :=
  r.serial.toList ++ (r.outcome.debugName.toList ++ r.certText)

theorem text_ne_nil (r : FleetJobRecord) : r.text ≠ [] :=
  List.append_ne_nil_of_right_ne_nil _
    (List.append_ne_nil_of_left_ne_nil r.outcome.debugName_ne_nil _)

theorem hashed_eq (r : FleetJobRecord) : r.hashed = r.text.flatMap String.utf8EncodeChar := by
  rw [hashed, text, List.flatMap_append, List.flatMap_append, certText, List.append_assoc]
  cases r.certHash <;> rfl

end FleetJobRecord

/-- The characters that are hashed. -/
def text (records : List FleetJobRecord) : List Char := records.flatMap FleetJobRecord.text

theorem hashed_eq (records : List FleetJobRecord) :
    records.flatMap FleetJobRecord.hashed = utf8 (String.ofList (text records)) := by
  rw [utf8, String.toList_ofList, text, List.flatMap_assoc]
  exact List.flatMap_congr fun r _ => r.hashed_eq

theorem text_cons (r : FleetJobRecord) (records : List FleetJobRecord) :
    text (r :: records)
      = r.serial.toList ++ (r.outcome.debugName.toList ++ (r.certText ++ text records)) := by
  rw [text, List.flatMap_cons, FleetJobRecord.text, List.append_assoc, List.append_assoc]
  rfl

/-- Two lists say the same, record by record. -/
def Agree (records records' : List FleetJobRecord) : Prop :=
  records.map FleetJobRecord.statement = records'.map FleetJobRecord.statement

/-! ## The lists that are found again -/

/-- An outcome is written at a place of a text. -/
def outcomeAt (t : List Char) (i : Nat) : Bool :=
  FleetJobOutcome.all.any fun o => o.debugName.toList.isPrefixOf (t.drop i)

/-- **The lists that can be read in one way only**: the empty list, and one record with a
certificate hash whose text holds no outcome but its own. -/
def ReadOneWay : List FleetJobRecord → Prop
  | [] => True
  | [r] => r.certText ≠ [] ∧ ∀ i < r.text.length, outcomeAt r.text i = true → i = r.serial.length
  | _ => False

theorem outcomeAt_append (before : List Char) (o : FleetJobOutcome) (rest : List Char) :
    outcomeAt (before ++ (o.debugName.toList ++ rest)) before.length = true := by
  rw [outcomeAt, List.drop_left, List.any_eq_true]
  exact ⟨o, o.mem_all, List.isPrefixOf_iff_prefix.mpr (List.prefix_append _ _)⟩

theorem exists_of_outcomeAt {t : List Char} {i : Nat} (h : outcomeAt t i = true) :
    ∃ o : FleetJobOutcome, ∃ rest, t = t.take i ++ (o.debugName.toList ++ rest) := by
  obtain ⟨o, -, hprefix⟩ := List.any_eq_true.mp h
  obtain ⟨rest, hrest⟩ := List.isPrefixOf_iff_prefix.mp hprefix
  exact ⟨o, rest, by rw [hrest, List.take_append_drop]⟩

/-- A certificate hash is found again from its characters, unless it is empty. -/
theorem certHash_eq {r r' : FleetJobRecord} (h : r'.certText = r.certText) (hne : r.certText ≠ []) :
    r'.certHash = r.certHash := by
  unfold FleetJobRecord.certText at h hne
  cases hr : r.certHash with
  | none => exact absurd (by rw [hr]; rfl) hne
  | some c =>
    cases hr' : r'.certHash with
    | none => exact absurd (by rw [← h, hr']; rfl) hne
    | some c' =>
      rw [hr, hr'] at h
      exact congrArg some (String.toList_inj.mp h)

/-- A text that can be read in one way says one thing. -/
theorem agree_of_readOneWay {records records' : List FleetJobRecord} (h : ReadOneWay records)
    (htext : text records' = text records) : Agree records' records := by
  match records, h with
  | [], _ =>
    match records' with
    | [] => rfl
    | r :: rest => exact absurd (List.append_eq_nil_iff.mp htext).1 r.text_ne_nil
  | [r], ⟨hcert, honly⟩ =>
    replace htext : text records' = r.text := by
      rw [htext, text, List.flatMap_singleton]
    -- an outcome that is written anywhere is the one of the record
    have hplace : ∀ before (o : FleetJobOutcome) rest,
        before ++ (o.debugName.toList ++ rest) = r.text →
          before.length = r.serial.toList.length := by
      intro before o rest heq
      have hat := outcomeAt_append before o rest
      have hlen := congrArg List.length heq
      have hname := List.length_pos_of_ne_nil o.debugName_ne_nil
      rw [List.length_append, List.length_append] at hlen
      rw [heq] at hat
      rw [String.length_toList]
      exact honly _ (by omega) hat
    match records' with
    | [] => exact absurd htext.symm r.text_ne_nil
    | r₁ :: rest =>
      rw [text_cons] at htext
      have hlen := hplace _ _ _ htext
      obtain ⟨hserial, hrest⟩ := List.append_inj htext hlen
      obtain ⟨houtcome, hcerts⟩ := FleetJobOutcome.debugName_prefix_free hrest
      match rest with
      | [] =>
        rw [show text [] = [] from rfl, List.append_nil] at hcerts
        show [r₁.statement] = [r.statement]
        rw [FleetJobRecord.statement, FleetJobRecord.statement, String.toList_inj.mp hserial,
          houtcome, certHash_eq hcerts hcert]
      | r₂ :: rest =>
        -- a second record has its outcome behind that of the first
        have hbehind := hplace
          (r₁.serial.toList ++ r₁.outcome.debugName.toList ++ r₁.certText ++ r₂.serial.toList)
          r₂.outcome (r₂.certText ++ text rest) (by
            rw [← htext, text_cons]
            simp only [List.append_assoc])
        have hname := List.length_pos_of_ne_nil r₁.outcome.debugName_ne_nil
        simp only [List.length_append] at hbehind
        omega

/-- A list that can be read in another way is one of two that say different things. -/
theorem exists_not_agree {records : List FleetJobRecord} (h : ¬ ReadOneWay records) :
    ∃ records', text records' = text records ∧ ¬ Agree records' records := by
  match records with
  | [] => exact absurd trivial h
  | [r] =>
    by_cases hcert : r.certText = []
    · -- no certificate hash, or an empty one
      refine ⟨[{ r with certHash := if r.certHash = none then some "" else none }], ?_, ?_⟩
      · rw [text_cons, text_cons, hcert]
        show _ ++ (_ ++ (FleetJobRecord.certText _ ++ [])) = _
        unfold FleetJobRecord.certText
        dsimp only
        split <;> rfl
      · intro hagree
        have hhash := congrArg (fun l => l.map fun s => s.2.2) hagree
        cases hr : r.certHash <;> simp [FleetJobRecord.statement, hr] at hhash
    · -- a second outcome, from which the text is read another way
      have hsecond : ∃ i < r.text.length, outcomeAt r.text i = true ∧ i ≠ r.serial.length := by
        by_contra hnone
        refine h ⟨hcert, fun i hi hat => ?_⟩
        by_contra hne
        exact hnone ⟨i, hi, hat, hne⟩
      obtain ⟨i, hi, hat, hne⟩ := hsecond
      obtain ⟨o, rest, htext⟩ := exists_of_outcomeAt hat
      refine ⟨[{ r with
        serial := String.ofList (r.text.take i), outcome := o,
        certHash := some (String.ofList rest) }], ?_, ?_⟩
      · rw [text, text, List.flatMap_singleton, List.flatMap_singleton]
        show (String.ofList _).toList ++ (_ ++ (String.ofList rest).toList) = _
        rw [String.toList_ofList, String.toList_ofList, ← htext]
      · intro hagree
        have hserial : String.ofList (r.text.take i) = r.serial := by
          have hhead := congrArg (fun l => l.map Prod.fst) hagree
          simpa [FleetJobRecord.statement] using hhead
        refine hne ?_
        rw [← hserial, ← String.length_toList, String.toList_ofList, List.length_take]
        omega
  | r :: r' :: rest =>
    -- all but the first record taken for its certificate hash
    refine ⟨[{ r with certHash := some (String.ofList (r.certText ++ text (r' :: rest))) }], ?_, ?_⟩
    · rw [text_cons r, text_cons]
      show _ ++ (_ ++ ((String.ofList _).toList ++ [])) = _
      rw [String.toList_ofList, List.append_nil]
    · intro hagree
      have hlen := congrArg List.length hagree
      simp at hlen

/-- **Which lists the fingerprint determines**, if no other list of records that is hashed to the
same digest has another text. -/
theorem fingerprint_binds_iff (cr : Crypto) (records : List FleetJobRecord)
    (hinj : ∀ records' : List FleetJobRecord,
      cr.blake3 (records'.flatMap FleetJobRecord.hashed)
          = cr.blake3 (records.flatMap FleetJobRecord.hashed) →
        records'.flatMap FleetJobRecord.hashed = records.flatMap FleetJobRecord.hashed) :
    (∀ records', computeMerkleFingerprint cr records' = computeMerkleFingerprint cr records →
      Agree records' records) ↔ ReadOneWay records := by
  constructor
  · intro hbinds
    by_contra hnot
    obtain ⟨records', htext, hdiffer⟩ := exists_not_agree hnot
    refine hdiffer (hbinds records' ?_)
    rw [computeMerkleFingerprint, computeMerkleFingerprint, hashed_eq, hashed_eq, htext]
  · intro hone records' hfingerprint
    have hhashed := hinj records' (Block.ext (hexEncode_injective hfingerprint))
    rw [hashed_eq, hashed_eq] at hhashed
    exact agree_of_readOneWay hone (String.ofList_injective (utf8_injective hhashed))

/-- One record of a wiped drive. -/
def wipedRecord (serial : String) : FleetJobRecord := ⟨0, serial, .clean, 0, some "CERT_HASH_001"⟩

/-- The text of that record and its digest. -/
def wipedCrypto : Crypto :=
  tableCrypto (Block.ofNat 32 0)
    [([wipedRecord "SN_001"].flatMap FleetJobRecord.hashed,
      Block.ofNat 32 0x50dd622bfc49dfcab0eadcb22b3574ed6b0418a85f3964e2cb1ea42d868ff107)] []

theorem wipedCrypto_blake3 {t : Bytes}
    (h : t ≠ [wipedRecord "SN_001"].flatMap FleetJobRecord.hashed) :
    wipedCrypto.blake3 t = Block.ofNat 32 0 := by
  show ((List.find? (fun d => decide (d.1 = t)) [_]).map Prod.snd).getD _ = _
  rw [List.find?_cons_of_neg (by simpa using h.symm)]
  rfl

theorem fingerprint_binds_wiped :
    computeMerkleFingerprint wipedCrypto [wipedRecord "SN_002"]
      ≠ computeMerkleFingerprint wipedCrypto [wipedRecord "SN_001"] := by
  intro hsame
  have hone : ReadOneWay [wipedRecord "SN_001"] := ⟨by decide, by decide +kernel⟩
  have hbinds := (fingerprint_binds_iff wipedCrypto [wipedRecord "SN_001"] fun records' h => by
    by_contra hne
    rw [wipedCrypto_blake3 hne] at h
    exact absurd h (by decide +kernel)).mpr hone
  exact absurd (hbinds _ hsame) (by unfold Agree; decide)

/-- **The certificate hash of a wiped drive passes for the beginning of the next serial**: the
fingerprint is that of a batch without the certificate, whatever the hash function is. -/
theorem fingerprint_not_binding : ¬ ∃ cr : Crypto, ∀ records',
    computeMerkleFingerprint cr records'
        = computeMerkleFingerprint cr
          [⟨0, "SN_001", .clean, 0, some "c0ffee"⟩, ⟨1, "SN_002", .interrupted, 1, none⟩] →
      Agree records'
        [⟨0, "SN_001", .clean, 0, some "c0ffee"⟩, ⟨1, "SN_002", .interrupted, 1, none⟩] := by
  rintro ⟨cr, hbinds⟩
  have hagree := hbinds
    [⟨0, "SN_001", .clean, 0, none⟩, ⟨1, "c0ffeeSN_002", .interrupted, 1, none⟩] (by
      rw [computeMerkleFingerprint, computeMerkleFingerprint, hashed_eq, hashed_eq]
      rfl)
  exact absurd hagree (by unfold Agree; decide)

end DiscCleaner.Fleet
