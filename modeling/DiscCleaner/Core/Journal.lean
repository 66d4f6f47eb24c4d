import DiscCleaner.Core.RecordJson
import DiscCleaner.Lib.ChainLog

/-!
# DiscCleaner — the DCJ1 journal (`journal.rs`)

`JournalWriter` and `JournalReader` over the bytes of the journal file. A file is
`"DCJ1"` followed by frames `le32 len ++ record ++ digest ++ signature?`, each digest
chained to the one before (`ChainLog.frame`).

Only the end of the file can make a read fall short here, so the reader's position is
the suffix still to be read: `total_file_size - current_pos` is its length, and
`last_good_offset` is the position at the head of the loop.
-/

namespace DiscCleaner

open ByteLib ChainLog

def journalMagic : Bytes := [0x44, 0x43, 0x4A, 0x31]

def journalMaxRecordBytes : Nat := 8 * 1024 * 1024

def journalMaxFileBytes : Nat := 64 * 1024 * 1024

variable (cr : Crypto) (codec : JournalCodec)

/-! ## Writer -/

structure JournalWriter where
  file : Bytes
  path : String
  prevHash : Digest
  recordCount : Nat
  signingKey : Option SigningKey
  uuid : String
  sealed : Bool

namespace JournalWriter

/-- `existing` is what is at the path already, `locked` whether another process holds the
file's lock. -/
def createNew (existing : Option Bytes) (locked : Bool) (path uuid : String)
    (signingKey : Option SigningKey) : Except DcError JournalWriter :=
  if existing.isSome then .error (.stdIo (some 17) "File exists (os error 17)")
  else if locked then
    .error (.journalCorrupt 0 "Failed to acquire exclusive lock on journal file")
  else
    .ok
      { file := journalMagic
        path
        prevHash := cr.blake3 journalMagic
        recordCount := 0
        signingKey
        uuid
        sealed := signingKey.isSome }

/-- What opening for resume leaves behind, whether or not it yields a writer. -/
structure Reopened where
  file : Bytes
  tailsave : Bytes
  writer : Except DcError JournalWriter

/-- `File::set_len`. -/
def setLen (file : Bytes) (n : Nat) : Bytes :=
  file.take n ++ List.replicate (n - file.length) 0

def openForResume (file : Bytes) (locked : Bool) (path chainHeadHex : String)
    (recordCount : Nat) (truncateOffset : Option Nat) (uuid : String) (sealed : Bool)
    (signingKey : Option SigningKey) : Reopened :=
  if sealed ∧ signingKey.isNone then
    ⟨file, [], .error (.journalCorrupt recordCount
      "SEALED_WITHOUT_KEY: This journal is sealed and requires the operator Ed25519 signing key to resume")⟩
  else if locked then
    ⟨file, [], .error (.journalCorrupt recordCount
      "Failed to acquire exclusive lock on journal file")⟩
  else
    let tailsave := match truncateOffset with
      | some n =>
        if n < file.length then le32 (file.drop n).length ++ file.drop n else []
      | none => []
    let file := match truncateOffset with
      | some n => setLen file n
      | none => file
    -- a malformed chain head is only noticed after the truncation
    match hexDecode chainHeadHex with
    | none => ⟨file, tailsave, .error (.journalCorrupt recordCount "Invalid chain head hex")⟩
    | some hashBytes =>
      match Block.ofBytes? 32 hashBytes with
      | none =>
        ⟨file, tailsave, .error (.journalCorrupt recordCount "Invalid chain head length")⟩
      | some prevHash =>
        ⟨file, tailsave, .ok { file, path, prevHash, recordCount, signingKey, uuid, sealed }⟩

/-- What follows a record's digest: the signature, when the writer holds a key. -/
def trailer (signingKey : Option SigningKey) (prev : Digest) (recordBytes : Bytes) : Bytes :=
  match signingKey with
  | some sk => (cr.ed25519Sign sk (recordBytes ++ prev.bytes)).bytes
  | none => []

/-- Append one record; returns the new chain head. -/
def append (w : JournalWriter) (record : JournalRecord) : JournalWriter × String :=
  let recordBytes := record.toVec
  let recordHash := cr.blake3 (recordBytes ++ w.prevHash.bytes)
  ({ w with
      file := w.file ++ (le32 recordBytes.length ++ (recordBytes ++ (recordHash.bytes
        ++ trailer cr w.signingKey w.prevHash recordBytes)))
      prevHash := recordHash
      recordCount := w.recordCount + 1 },
    hexEncode recordHash.bytes)

def currentChainHead (w : JournalWriter) : String := hexEncode w.prevHash.bytes

def summary (w : JournalWriter) : JournalChainSummary where
  path := w.path
  chainHead := w.currentChainHead
  recordCount := w.recordCount
  discardedTailBytes := 0
  uuid := w.uuid
  sealed := w.sealed

/-- A run of `append` calls. -/
def appendAll (w : JournalWriter) (records : List JournalRecord) : JournalWriter :=
  records.foldl (fun w r => (w.append cr r).1) w

end JournalWriter

/-! ## Reader -/

/-- What the reading loop carries from one record to the next. -/
structure ChainState where
  prevHash : Digest
  recordIdx : Nat
  journalUuid : String
  journalSealed : Bool
  opVerifyingKey : Option PublicKey

def ChainState.initial : ChainState where
  prevHash := cr.blake3 journalMagic
  recordIdx := 0
  journalUuid := ""
  journalSealed := false
  opVerifyingKey := none

/-- How one turn of the reading loop ends when it does not fail. -/
inductive RecordRead where
  | torn
  | next (record : JournalRecord) (st : ChainState) (rest : Bytes)

namespace JournalReader

/-- The verifying key a sealed Header must carry. -/
def operatorKey (operatorPubkey : Option String) : Except DcError PublicKey :=
  match operatorPubkey with
  | none =>
    .error (.journalCorrupt 0 "SEALED_JOURNAL_MISSING_PUBKEY: sealed journal Header lacks operator_pubkey; signature verification is impossible")
  | some pkHex =>
    match hexDecode pkHex with
    | none => .error (.journalCorrupt 0 "Invalid operator_pubkey hex in Header")
    | some pkBytes =>
      match Block.ofBytes? 32 pkBytes with
      | none => .error (.journalCorrupt 0 "Invalid operator_pubkey length in Header")
      | some pk =>
        if cr.ed25519FromBytes pk then .ok pk
        else .error (.journalCorrupt 0 "Invalid Ed25519 public key in Header")

/-- Record 0 must be a Header; it sets the journal's UUID, sealing and key. -/
def inspectHeader (st : ChainState) (record : JournalRecord) : Except DcError ChainState :=
  if st.recordIdx ≠ 0 then .ok st
  else
    match record with
    | .header h =>
      if h.sealed then do
        let vk ← operatorKey cr h.operatorPubkey
        .ok { st with journalUuid := h.uuid, journalSealed := true, opVerifyingKey := some vk }
      else .ok { st with journalUuid := h.uuid, journalSealed := false }
    | _ =>
      .error (.journalCorrupt 0 "FIRST_RECORD_NOT_HEADER: the DCJ1 format requires record #0 to be the Header record")

/-- In a sealed journal, consume and verify the record's signature. -/
def checkSignature (st : ChainState) (recordBytes rest : Bytes) : Except DcError Bytes :=
  if st.journalSealed then
    match readBlock 64 rest with
    | none =>
      .error (.journalCorrupt st.recordIdx
        "Missing Ed25519 signature in sealed journal record")
    | some (sig, rest') =>
      match st.opVerifyingKey with
      | some vk =>
        if cr.ed25519Verify vk (recordBytes ++ st.prevHash.bytes) sig then .ok rest'
        else .error (.journalCorrupt st.recordIdx
          "Invalid Ed25519 digital signature in sealed journal record")
      | none =>
        .error (.journalCorrupt st.recordIdx
          "SEALED_JOURNAL_UNVERIFIABLE: operator public key missing or malformed")
  else .ok rest

/-- The fixed bytes around a record, as far as the loop knows yet. -/
def recordOverhead (st : ChainState) : Nat :=
  if st.journalSealed then 4 + 32 + 64 else 4 + 32

/-- One turn of the loop of `read_and_verify_chain`, on the bytes not yet read. -/
def readRecord (st : ChainState) (rest : Bytes) : Except DcError RecordRead :=
  match readExact 4 rest with
  | none => .ok .torn
  | some (lenBuf, afterLen) =>
    let len := ofLe lenBuf
    if len = 0 then
      .error (.journalCorrupt st.recordIdx "ZERO_LEN_RECORD: Invalid record with length 0")
    else if journalMaxRecordBytes < len then
      .error (.journalCorrupt st.recordIdx
        ("RECORD_TOO_LARGE: record length " ++ toString len ++ " exceeds the "
          ++ toString journalMaxRecordBytes ++ " byte safety cap"))
    else if rest.length < recordOverhead st + len then .ok .torn
    else
      match readExact len afterLen with
      | none => .ok .torn
      | some (recordBytes, afterRecord) =>
        match readBlock 32 afterRecord with
        | none => .ok .torn
        | some (hash, afterHash) =>
          if hash ≠ cr.blake3 (recordBytes ++ st.prevHash.bytes) then
            .error (.journalCorrupt st.recordIdx "BLAKE3 hash chain mismatch")
          else
            match codec.fromSlice recordBytes with
            | .error e =>
              .error (.journalCorrupt st.recordIdx ("JSON record parse error: " ++ e))
            | .ok record => do
              let st' ← inspectHeader cr st record
              let rest' ← checkSignature cr st' recordBytes afterHash
              .ok (.next record
                { st' with prevHash := hash, recordIdx := st'.recordIdx + 1 } rest')

/-! ### One turn of the loop -/

/-- Inspecting the Header changes neither the chain nor the position. -/
theorem inspectHeader_ok {st st' : ChainState} {record : JournalRecord}
    (h : inspectHeader cr st record = .ok st') :
    st'.prevHash = st.prevHash ∧ st'.recordIdx = st.recordIdx
      ∧ (st.recordIdx = 0 → record.isHeader = true)
      ∧ (st.recordIdx ≠ 0 → st' = st) := by
  unfold inspectHeader at h
  split at h
  · next hidx =>
    cases h
    exact ⟨rfl, rfl, fun h0 => absurd h0 hidx, fun _ => rfl⟩
  · next hidx =>
    have h0 : st.recordIdx = 0 := not_not.mp hidx
    cases record with
    | header hd =>
      by_cases hs : hd.sealed = true
      · cases hk : operatorKey cr hd.operatorPubkey with
        | error e => simp [hs, hk, bind, Except.bind] at h
        | ok vk =>
          simp only [hs, if_true, hk, bind, Except.bind, Except.ok.injEq] at h
          subst h
          exact ⟨rfl, rfl, fun _ => rfl, fun hne => absurd h0 hne⟩
      · simp only [hs, Bool.false_eq_true, if_false, Except.ok.injEq] at h
        subst h
        exact ⟨rfl, rfl, fun _ => rfl, fun hne => absurd h0 hne⟩
    | _ => cases h

/-- The bytes a signature check consumes. -/
def signatureLength (st : ChainState) : Nat := if st.journalSealed then 64 else 0

theorem checkSignature_ok {st : ChainState} {recordBytes rest rest' : Bytes}
    (h : checkSignature cr st recordBytes rest = .ok rest') :
    rest' = rest.drop (signatureLength st) ∧ signatureLength st ≤ rest.length := by
  unfold checkSignature at h
  unfold signatureLength
  split at h
  · next hs =>
    rw [if_pos hs]
    split at h
    · cases h
    · next sig rest'' hread =>
      obtain rfl := readBlock_eq_some.mp hread
      split at h
      · split at h
        · cases h
          exact ⟨(List.drop_left' sig.size).symm, by simp [sig.size]⟩
        · cases h
      · cases h
  · next hs =>
    rw [if_neg hs]
    cases h
    exact ⟨rfl, Nat.zero_le _⟩

/-- **What one accepted record is**: a length word, that many record bytes, their chained
digest and, in a sealed journal, a signature; the parsed record advances the state. -/
theorem readRecord_next_inv {st st' : ChainState} {rest rest' : Bytes} {record : JournalRecord}
    (h : readRecord cr codec st rest = .ok (.next record st' rest')) :
    ∃ lenBuf recordBytes hash sig,
      rest = lenBuf ++ (recordBytes ++ (hash ++ (sig ++ rest')))
      ∧ lenBuf.length = 4 ∧ ofLe lenBuf = recordBytes.length ∧ 0 < recordBytes.length
      ∧ hash.length = 32
      ∧ sig.length = signatureLength st'
      ∧ codec.fromSlice recordBytes = .ok record
      ∧ st'.prevHash = link cr.blake3 st.prevHash recordBytes
      ∧ st'.recordIdx = st.recordIdx + 1
      ∧ (st.recordIdx ≠ 0 → st'.journalSealed = st.journalSealed) := by
  unfold readRecord at h
  split at h
  · cases h
  next lenBuf afterLen hlen =>
  obtain ⟨rfl, hlen4⟩ := readExact_eq_some.mp hlen
  simp only at h
  split at h
  · cases h
  next hzero =>
  split at h
  · cases h
  split at h
  · cases h
  split at h
  · cases h
  next recordBytes afterRecord hrec =>
  obtain ⟨rfl, hreclen⟩ := readExact_eq_some.mp hrec
  split at h
  · cases h
  next hash afterHash hhash =>
  obtain rfl := readBlock_eq_some.mp hhash
  split at h
  · cases h
  next hchain =>
  split at h
  · cases h
  next rec hparse =>
  cases hin : inspectHeader cr st rec with
  | error e => simp [hin, bind, Except.bind] at h
  | ok st₁ =>
    cases hsig : checkSignature cr st₁ recordBytes afterHash with
    | error e => simp [hin, hsig, bind, Except.bind] at h
    | ok r =>
      simp only [hin, hsig, bind, Except.bind, Except.ok.injEq, RecordRead.next.injEq] at h
      obtain ⟨rfl, rfl, rfl⟩ := h
      obtain ⟨hprev, hidx, -, hsame⟩ := inspectHeader_ok cr hin
      obtain ⟨rfl, hsiglen⟩ := checkSignature_ok cr hsig
      refine ⟨lenBuf, recordBytes, hash.bytes, afterHash.take (signatureLength st₁), ?_, hlen4,
        hreclen.symm, by omega, hash.size, ?_, hparse, not_not.mp hchain, ?_, ?_⟩
      · rw [List.take_append_drop]
      · simpa [signatureLength] using hsiglen
      · simp [hidx]
      · intro hne
        simp [hsame hne]

/-- Every accepted record consumes bytes, so the loop ends. -/
theorem readRecord_next_length_lt {st st' : ChainState} {rest rest' : Bytes}
    {record : JournalRecord} (h : readRecord cr codec st rest = .ok (.next record st' rest')) :
    rest'.length < rest.length := by
  obtain ⟨lenBuf, recordBytes, hash, sig, rfl, hlen4, -⟩ := readRecord_next_inv cr codec h
  simp only [List.length_append]
  omega

/-- A record over the cap is refused, whatever state the loop is in. -/
theorem readRecord_too_large (st : ChainState) {recordBytes : Bytes} (rest : Bytes)
    (hbig : journalMaxRecordBytes < recordBytes.length) (hword : recordBytes.length < 2 ^ 32) :
    ∃ e, readRecord cr codec st (le32 recordBytes.length ++ rest) = .error e := by
  have hpos : journalMaxRecordBytes ≠ 0 := by decide
  rw [readRecord, readExact_append_of_length (le32_length _)]
  simp only [ofLe_le32 hword]
  rw [if_neg (by omega), if_pos hbig]
  exact ⟨_, rfl⟩

/-! ### The whole file -/

/-- The reading loop; what it leaves unread is the torn tail. -/
def readLoop (st : ChainState) (records : List JournalRecord) (rest : Bytes) :
    Except DcError (List JournalRecord × ChainState × Bytes) :=
  if rest = [] then .ok (records, st, [])
  else
    match h : readRecord cr codec st rest with
    | .error e => .error e
    | .ok .torn => .ok (records, st, rest)
    | .ok (.next record st' rest') =>
      have := readRecord_next_length_lt cr codec h
      readLoop st' (records ++ [record]) rest'
termination_by rest.length

def readAndVerifyChain (path : String) (file : Bytes) :
    Except DcError (List JournalRecord × JournalChainSummary) :=
  if journalMaxFileBytes < file.length then
    .error (.journalCorrupt 0 "FILE_TOO_LARGE: Journal file exceeds 64 MiB limit")
  else
    match readExact 4 file with
    | none =>
      .error (.journalCorrupt 0 "Cannot read journal magic: failed to fill whole buffer")
    | some (magic, rest) =>
      if magic ≠ journalMagic then .error (.journalCorrupt 0 "Invalid journal magic")
      else do
        let (records, st, tail) ← readLoop cr codec (ChainState.initial cr) [] rest
        if 0 < tail.length ∧ 4 ≤ tail.length ∧ tail.all (· = 0) then
          .error (.journalCorrupt st.recordIdx
            ("JOURNAL_ZERO_TAIL: File ends in " ++ toString tail.length
              ++ " trailing zero bytes (power-loss signature)"))
        else
          .ok (records,
            { path
              chainHead := hexEncode st.prevHash.bytes
              recordCount := records.length
              discardedTailBytes := tail.length
              uuid := st.journalUuid
              sealed := st.journalSealed })

end JournalReader

end DiscCleaner
