import DiscCleaner.Core.RecordJson
import DiscCleaner.Lib.ChainLog

/-!
# DiscCleaner — the DCA1 audit log (`audit.rs`)

`AuditLogger` over the bytes of the audit file: `"DCA1"` followed by
`le32 len ++ record ++ digest`, each digest chained to the one before. Two loops scan such
a file and they do not agree on its end: `openOrCreate` stops at whatever it cannot read and
appends after it, `verifyAuditFile` accepts nothing but a remainder shorter than a length
word. A missing file is one without bytes.
-/

namespace DiscCleaner

open ByteLib ChainLog

def auditMagic : Bytes := [0x44, 0x43, 0x41, 0x31]

def auditMaxRecordBytes : Nat := 1024 * 1024

/-! ## Records -/

inductive AuditOutcome where
  | refusal (code detail : String)
  | planCompiled (planHash : String)
  | armed (journalPath : String)
  | executed (journalPath chainHead : String)
  | resumed (journalPath : String)
  | verifyOnly (passed : Bool)
  | error (detail : String)
  deriving DecidableEq

structure AuditRecord where
  timestampUtc : String
  argvHash : String
  targetPath : Option String
  outcome : AuditOutcome
  deriving DecidableEq

def AuditOutcome.members : AuditOutcome → String × List (String × Bytes)
  | .refusal code detail =>
    ("refusal", [("code", Json.string code), ("detail", Json.string detail)])
  | .planCompiled planHash => ("plan_compiled", [("plan_hash", Json.string planHash)])
  | .armed journalPath => ("armed", [("journal_path", Json.string journalPath)])
  | .executed journalPath chainHead =>
    ("executed",
      [("journal_path", Json.string journalPath), ("chain_head", Json.string chainHead)])
  | .resumed journalPath => ("resumed", [("journal_path", Json.string journalPath)])
  | .verifyOnly passed => ("verify_only", [("passed", Json.bool passed)])
  | .error detail => ("error", [("detail", Json.string detail)])

def AuditOutcome.toJson (o : AuditOutcome) : Bytes :=
  Json.object (("type", Json.string o.members.1) :: o.members.2)

/-- `serde_json::to_vec` at an audit record. -/
def AuditRecord.toVec (r : AuditRecord) : Bytes :=
  Json.object
    [("timestamp_utc", Json.string r.timestampUtc),
     ("argv_hash", Json.string r.argvHash),
     ("target_path", Json.option Json.string r.targetPath),
     ("outcome", r.outcome.toJson)]

/-- A record is an object: its text starts with a brace and a quote. -/
theorem AuditRecord.toVec_head (r : AuditRecord) :
    ∃ text, r.toVec = Json.openBrace :: Json.quoteByte :: text :=
  Json.object_cons_head _ _ _

theorem AuditRecord.toVec_length_pos (r : AuditRecord) : 0 < r.toVec.length :=
  Json.object_length_pos _

/-! ## Logger -/

variable (cr : Crypto)

structure AuditLogger where
  file : Bytes
  path : String
  prevHash : Digest

namespace AuditLogger

def corruptLength (len offset : Nat) : DcError :=
  .usage ("Corrupt audit record length " ++ toString len ++ " at offset " ++ toString offset)

/-- What one turn of a scanning loop finds. -/
inductive RecordScan where
  | stop
  | next (record : Bytes) (hash : Digest) (rest : Bytes)

/-- One turn of the loop of `open_or_create`: a record that is not whole stops it without
complaint. -/
def scanRecord (recStart : Nat) (rest : Bytes) : Except DcError RecordScan :=
  match readExact 4 rest with
  | none => .ok .stop
  | some (lenBuf, afterLen) =>
    let len := ofLe lenBuf
    if len = 0 ∨ auditMaxRecordBytes < len then .error (corruptLength len recStart)
    else
      match readExact len afterLen with
      | none => .ok .stop
      | some (record, afterRecord) =>
        match readBlock 32 afterRecord with
        | none => .ok .stop
        | some (hash, rest') => .ok (.next record hash rest')

/-- A whole record is its length word, that many bytes within the cap, and a digest. -/
theorem scanRecord_next_inv {recStart : Nat} {rest record rest' : Bytes} {hash : Digest}
    (h : scanRecord recStart rest = .ok (.next record hash rest')) :
    ∃ lenBuf, rest = lenBuf ++ (record ++ (hash.bytes ++ rest')) ∧ lenBuf.length = 4
      ∧ ofLe lenBuf = record.length ∧ 0 < record.length
      ∧ record.length ≤ auditMaxRecordBytes := by
  unfold scanRecord at h
  split at h
  · cases h
  next lenBuf afterLen hlen =>
  obtain ⟨rfl, hlen4⟩ := readExact_eq_some.mp hlen
  simp only at h
  split at h
  · cases h
  next hcap =>
  split at h
  · cases h
  next rec afterRecord hrec =>
  obtain ⟨rfl, hreclen⟩ := readExact_eq_some.mp hrec
  split at h
  · cases h
  next hash' rest'' hhash =>
  obtain rfl := readBlock_eq_some.mp hhash
  cases h
  exact ⟨lenBuf, rfl, hlen4, hreclen.symm, by omega, by omega⟩

theorem scanRecord_next_length_lt {recStart : Nat} {rest record rest' : Bytes} {hash : Digest}
    (h : scanRecord recStart rest = .ok (.next record hash rest')) :
    rest'.length < rest.length := by
  obtain ⟨lenBuf, rfl, hlen4, -⟩ := scanRecord_next_inv h
  simp only [List.length_append]
  omega

/-- The scan of `open_or_create` for the last digest. -/
def lastHash (prev : Digest) (recStart : Nat) (rest : Bytes) : Except DcError Digest :=
  match h : scanRecord recStart rest with
  | .error e => .error e
  | .ok .stop => .ok prev
  | .ok (.next record hash rest') =>
    have := scanRecord_next_length_lt h
    lastHash hash (recStart + (4 + record.length + 32)) rest'
termination_by rest.length

def openOrCreate (file : Bytes) (locked : Bool) (path : String) : Except DcError AuditLogger :=
  if locked then
    .error (.usage
      "Failed to acquire exclusive lock on audit log (another instance is active?)")
  else if 0 < file.length then
    match readExact 4 file with
    | none =>
      .error (.usage ("Invalid audit log magic in '" ++ path
        ++ "' (expected DCA1); refusing to append"))
    | some (magic, rest) =>
      if magic ≠ auditMagic then
        .error (.usage ("Invalid audit log magic in '" ++ path
          ++ "' (expected DCA1); refusing to append"))
      else do
        let prevHash ← lastHash (cr.blake3 auditMagic) 4 rest
        -- a torn record stays where it is: the log continues behind it
        .ok ⟨file, path, prevHash⟩
  else .ok ⟨auditMagic, path, cr.blake3 auditMagic⟩

/-- One record on the wire. -/
def recordFrame (body : Bytes) (digest : Digest) : Bytes :=
  le32 body.length ++ (body ++ digest.bytes)

/-- Append one record; returns its digest. -/
def log (l : AuditLogger) (record : AuditRecord) : AuditLogger × Digest :=
  let recordHash := cr.blake3 (record.toVec ++ l.prevHash.bytes)
  ({ l with file := l.file ++ recordFrame record.toVec recordHash, prevHash := recordHash },
    recordHash)

/-- A run of `log` calls, with the digest each returned. -/
def logAll : AuditLogger → List AuditRecord → AuditLogger × List (AuditRecord × Digest)
  | l, [] => (l, [])
  | l, r :: rs =>
    let (l', d) := l.log cr r
    let (l'', ds) := logAll l' rs
    (l'', (r, d) :: ds)

/-! ## Verifier -/

/-- One turn of the loop of `verify_audit_file`: only a remainder shorter than a length word
stops it without complaint. -/
def verifyRecord (count : Nat) (prev : Digest) (recStart : Nat) (rest : Bytes) :
    Except DcError RecordScan :=
  match readExact 4 rest with
  | none => .ok .stop
  | some (lenBuf, afterLen) =>
    let len := ofLe lenBuf
    if len = 0 ∨ auditMaxRecordBytes < len then .error (corruptLength len recStart)
    else if rest.length < 4 + len + 32 then
      .error (.usage ("Truncated audit record at offset " ++ toString recStart
        ++ " (declared " ++ toString len ++ " bytes)"))
    else
      match readExact len afterLen with
      | none => .error (.stdIo none "failed to fill whole buffer")
      | some (record, afterRecord) =>
        match readBlock 32 afterRecord with
        | none => .error (.stdIo none "failed to fill whole buffer")
        | some (hash, rest') =>
          if hash ≠ cr.blake3 (record ++ prev.bytes) then
            .error (.usage ("Audit chain mismatch at record " ++ toString count))
          else .ok (.next record hash rest')

/-- A verified record is one the scan finds, with a chained digest. -/
theorem verifyRecord_next_inv {count recStart : Nat} {prev hash : Digest}
    {rest record rest' : Bytes}
    (h : verifyRecord cr count prev recStart rest = .ok (.next record hash rest')) :
    scanRecord recStart rest = .ok (.next record hash rest')
      ∧ hash = link cr.blake3 prev record := by
  unfold verifyRecord at h
  unfold scanRecord
  split at h
  · cases h
  next lenBuf afterLen hlen =>
  simp only at h ⊢
  split at h
  · cases h
  next hcap =>
  rw [if_neg hcap]
  split at h
  · cases h
  split at h
  · cases h
  next rec afterRecord hrec =>
  split at h
  · cases h
  next hash' rest'' hhash =>
  split at h
  · cases h
  next hchain =>
  cases h
  simp only
  exact ⟨trivial, not_not.mp hchain⟩

theorem verifyRecord_stop_inv {count recStart : Nat} {prev : Digest} {rest : Bytes}
    (h : verifyRecord cr count prev recStart rest = .ok .stop) : rest.length < 4 := by
  unfold verifyRecord at h
  split at h
  · next hlen => exact readExact_eq_none.mp hlen
  · simp only at h
    repeat' split at h
    all_goals cases h

/-- The loop of `verify_audit_file`. -/
def verifyLoop (count : Nat) (prev : Digest) (recStart : Nat) (rest : Bytes) :
    Except DcError (Nat × Digest) :=
  match h : verifyRecord cr count prev recStart rest with
  | .error e => .error e
  | .ok .stop => .ok (count, prev)
  | .ok (.next record hash rest') =>
    have := scanRecord_next_length_lt (verifyRecord_next_inv cr h).1
    verifyLoop (count + 1) hash (recStart + (4 + record.length + 32)) rest'
termination_by rest.length

def verifyAuditFile (file : Bytes) : Except DcError (Nat × String) :=
  match readExact 4 file with
  | none => .error (.stdIo none "failed to fill whole buffer")
  | some (magic, rest) =>
    if magic ≠ auditMagic then .error (.usage "Invalid audit log magic (expected DCA1)")
    else do
      let (count, prevHash) ← verifyLoop cr 0 (cr.blake3 auditMagic) 4 rest
      .ok (count, hexEncode prevHash.bytes)

end AuditLogger

end DiscCleaner
