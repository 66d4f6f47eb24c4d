import DiscCleaner.Core.Journal

/-!
# DiscCleaner — reading back what the journal writer wrote

`JournalReader` against `JournalWriter`. The reader's state after a log is a function of
the log (`readerState`); one frame advances it by one record (`readRecord_frame`), so a
whole log is read back by induction (`readLoop_frames`). A cut leaves a proper prefix of
one more frame, which the reader discards as a torn tail — except where the cut falls
into the signature of the Header record (`readRecord_torn`, `readRecord_torn_signature`).
-/

namespace DiscCleaner

open ByteLib ChainLog JournalWriter JournalReader

variable (cr : Crypto) (codec : JournalCodec)

/-! ## What the writer produces -/

/-- The frames a writer holding `key` appends after the chain head `prev`. -/
def recordFrames (key : Option SigningKey) (prev : Digest) (records : List JournalRecord) :
    List Bytes :=
  frames cr.blake3 (trailer cr key) prev (records.map JournalRecord.toVec)

/-- The chain head of a log. -/
def chainHead (records : List JournalRecord) : Digest :=
  head cr.blake3 (cr.blake3 journalMagic) (records.map JournalRecord.toVec)

/-- The file of a log. -/
def journalFile (key : Option SigningKey) (records : List JournalRecord) : Bytes :=
  journalMagic ++ (recordFrames cr key (cr.blake3 journalMagic) records).flatten

theorem append_eq (w : JournalWriter) (r : JournalRecord) :
    (w.append cr r).1 =
      { w with
        file := w.file ++ frame cr.blake3 (trailer cr w.signingKey) w.prevHash r.toVec
        prevHash := link cr.blake3 w.prevHash r.toVec
        recordCount := w.recordCount + 1 } := rfl

/-- A run of appends adds the frames of its records and moves the chain head over them. -/
theorem appendAll_eq (w : JournalWriter) (records : List JournalRecord) :
    w.appendAll cr records =
      { w with
        file := w.file ++ (recordFrames cr w.signingKey w.prevHash records).flatten
        prevHash := head cr.blake3 w.prevHash (records.map JournalRecord.toVec)
        recordCount := w.recordCount + records.length } := by
  induction records generalizing w with
  | nil => simp [appendAll, recordFrames, frames]
  | cons r records ih =>
    show ((w.append cr r).1).appendAll cr records = _
    rw [ih, append_eq]
    simp only [recordFrames, List.map_cons, frames, List.flatten_cons, List.append_assoc,
      List.length_cons, head_cons, Nat.add_assoc, Nat.add_comm 1]

theorem createNew_eq {existing : Option Bytes} {locked : Bool} {path uuid : String}
    {key : Option SigningKey} {w : JournalWriter}
    (h : createNew cr existing locked path uuid key = .ok w) :
    w = ⟨journalMagic, path, cr.blake3 journalMagic, 0, key, uuid, key.isSome⟩ := by
  unfold createNew at h
  split at h
  · cases h
  · split at h
    · cases h
    · exact (Except.ok.inj h).symm

/-- **The file of a run of appends** to a new journal. -/
theorem createNew_appendAll {existing : Option Bytes} {locked : Bool} {path uuid : String}
    {key : Option SigningKey} {w : JournalWriter}
    (h : createNew cr existing locked path uuid key = .ok w) (records : List JournalRecord) :
    w.appendAll cr records =
      ⟨journalFile cr key records, path, chainHead cr records, records.length, key,
        uuid, key.isSome⟩ := by
  obtain rfl := createNew_eq cr h
  rw [appendAll_eq, Nat.zero_add]
  rfl

theorem chainHead_append (as bs : List JournalRecord) :
    chainHead cr (as ++ bs)
      = head cr.blake3 (chainHead cr as) (bs.map JournalRecord.toVec) := by
  rw [chainHead, List.map_append, head_append]
  rfl

theorem journalFile_append (key : Option SigningKey) (as bs : List JournalRecord) :
    journalFile cr key (as ++ bs)
      = journalFile cr key as ++ (recordFrames cr key (chainHead cr as) bs).flatten := by
  rw [journalFile, recordFrames, List.map_append, frames_append, List.flatten_append,
    ← List.append_assoc]
  rfl

/-- The fixed bytes a writer puts around a record. -/
def frameOverhead (key : Option SigningKey) : Nat := if key.isSome then 100 else 36

theorem recordFrame_length (key : Option SigningKey) (prev : Digest) (r : JournalRecord) :
    (frame cr.blake3 (trailer cr key) prev r.toVec).length
      = frameOverhead key + r.toVec.length := by
  rw [frame_length]
  cases key with
  | none =>
    show 4 + r.toVec.length + 32 + 0 = 36 + r.toVec.length
    omega
  | some sk =>
    have hsig := (cr.ed25519Sign sk (r.toVec ++ prev.bytes)).size
    show 4 + r.toVec.length + 32 + (cr.ed25519Sign sk (r.toVec ++ prev.bytes)).bytes.length
      = 100 + r.toVec.length
    omega

theorem recordFrames_flatten_length (key : Option SigningKey) (prev : Digest)
    (records : List JournalRecord) :
    (recordFrames cr key prev records).flatten.length
      = (records.map fun r => frameOverhead key + r.toVec.length).sum := by
  induction records generalizing prev with
  | nil => rfl
  | cons r records ih =>
    rw [List.map_cons, List.sum_cons, ← ih (link cr.blake3 prev r.toVec),
      ← recordFrame_length cr key prev r, ← List.length_append]
    rfl

theorem journalFile_length (key : Option SigningKey) (records : List JournalRecord) :
    (journalFile cr key records).length
      = 4 + (records.map fun r => frameOverhead key + r.toVec.length).sum := by
  rw [journalFile, List.length_append, recordFrames_flatten_length]
  rfl

/-! ## Logs the reader admits -/

/-- The Header announces the writer's key. -/
def Header.Matches (h : Header) (key : Option SigningKey) : Prop :=
  h.sealed = key.isSome
    ∧ ∀ sk ∈ key, h.operatorPubkey.bind hexDecode = some (cr.ed25519Public sk).bytes

/-- **A log written within the format's rules**: record 0 is a Header that announces the
signing key, every record fits the reader's cap and survives its codec, and the key signs
correctly. -/
structure WritableLog (key : Option SigningKey) (records : List JournalRecord) : Prop where
  headed : ∀ r, records.head? = some r → ∃ h, r = .header h ∧ h.Matches cr key
  fits : ∀ r ∈ records, r.toVec.length ≤ journalMaxRecordBytes
  roundTrips : ∀ r ∈ records, codec.RoundTrips r
  signs : ∀ sk ∈ key, cr.Ed25519Correct sk

theorem WritableLog.left {key : Option SigningKey} {as bs : List JournalRecord}
    (h : WritableLog cr codec key (as ++ bs)) : WritableLog cr codec key as where
  headed r hr := h.headed r (by cases as with
    | nil => cases hr
    | cons a as => exact hr)
  fits r hr := h.fits r (List.mem_append_left _ hr)
  roundTrips r hr := h.roundTrips r (List.mem_append_left _ hr)
  signs := h.signs

/-- The UUID the Header carries. -/
def headerUuid (records : List JournalRecord) : String :=
  match records.head? with
  | some (.header h) => h.uuid
  | _ => ""

/-- **The reader's state after a log.** Sealing is only known once the Header is read. -/
def readerState (key : Option SigningKey) (records : List JournalRecord) : ChainState where
  prevHash := chainHead cr records
  recordIdx := records.length
  journalUuid := headerUuid records
  journalSealed := !records.isEmpty && key.isSome
  opVerifyingKey := if records.isEmpty then none else key.map cr.ed25519Public

theorem readerState_nil (key : Option SigningKey) :
    readerState cr key [] = ChainState.initial cr := rfl

theorem chainHead_concat (records : List JournalRecord) (r : JournalRecord) :
    chainHead cr (records ++ [r])
      = link cr.blake3 (chainHead cr records) r.toVec :=
  chainHead_append cr records [r]

/-- A Header that announces the key yields the key's public half. -/
theorem operatorKey_of_matches {h : Header} {sk : SigningKey} (hm : h.Matches cr (some sk))
    (hcorrect : cr.Ed25519Correct sk) :
    operatorKey cr h.operatorPubkey = .ok (cr.ed25519Public sk) := by
  obtain ⟨pkHex, hpk, hdec⟩ := Option.bind_eq_some_iff.mp (hm.2 sk rfl)
  simp only [operatorKey, hpk, hdec, Block.ofBytes?_bytes, hcorrect.1, if_true]

/-- Inspecting the next record of an admitted log moves sealing, key and UUID to the state
after that record. -/
theorem inspectHeader_readerState {key : Option SigningKey} (records : List JournalRecord)
    {r : JournalRecord} (hlog : WritableLog cr codec key (records ++ [r])) :
    inspectHeader cr (readerState cr key records) r
      = .ok { readerState cr key (records ++ [r]) with
          prevHash := chainHead cr records
          recordIdx := records.length } := by
  cases records with
  | cons a as =>
    -- only record 0 is inspected
    have hne : (readerState cr key (a :: as)).recordIdx ≠ 0 := by
      show as.length + 1 ≠ 0
      omega
    unfold inspectHeader
    rw [if_pos hne]
    rfl
  | nil =>
    obtain ⟨h, rfl, hm⟩ := hlog.headed r rfl
    have h0 : ¬ (readerState cr key []).recordIdx ≠ 0 := fun hne => hne rfl
    unfold inspectHeader
    rw [if_neg h0]
    cases key with
    | none =>
      have hs : h.sealed = false := hm.1
      simp only [hs, Bool.false_eq_true, if_false]
      rfl
    | some sk =>
      have hs : h.sealed = true := hm.1
      have hkey := operatorKey_of_matches cr hm (hlog.signs sk rfl)
      simp only [hs, if_true, hkey]
      rfl

/-! ## Reading one frame -/

/-- A turn of the loop on bytes that start with a whole record and its digest: what is left
to decide is the Header and the signature. -/
theorem readRecord_body (st : ChainState) (r : JournalRecord) (tail : Bytes)
    (hfits : r.toVec.length ≤ journalMaxRecordBytes) (hrt : codec.RoundTrips r)
    (hover : recordOverhead st ≤ 36 + tail.length) :
    readRecord cr codec st (le32 r.toVec.length ++ (r.toVec
        ++ ((link cr.blake3 st.prevHash r.toVec).bytes ++ tail)))
      = (do
          let st' ← inspectHeader cr st r
          let rest' ← checkSignature cr st' r.toVec tail
          .ok (.next r
            { st' with
              prevHash := link cr.blake3 st.prevHash r.toVec
              recordIdx := st'.recordIdx + 1 } rest')) := by
  have hpos := r.toVec_length_pos
  have hmax : journalMaxRecordBytes < 2 ^ 32 := by decide
  have hval : ofLe (le32 r.toVec.length) = r.toVec.length :=
    ofLe_le32 (by omega)
  have hlen : ¬ (le32 r.toVec.length ++ (r.toVec
      ++ ((link cr.blake3 st.prevHash r.toVec).bytes ++ tail))).length
        < recordOverhead st + r.toVec.length := by
    simp only [List.length_append, le32_length, Block.size]
    omega
  rw [readRecord, readExact_append_of_length (le32_length _)]
  simp only [hval]
  rw [if_neg (by omega), if_neg (by omega), if_neg hlen, readExact_append]
  simp only [readBlock_append, link, ne_eq, not_true_eq_false, if_false]
  rw [show codec.fromSlice r.toVec = .ok r from hrt]

/-- The signature the writer made is the one the reader checks. -/
theorem checkSignature_trailer {key : Option SigningKey} {records : List JournalRecord}
    {r : JournalRecord} (hsigns : ∀ sk ∈ key, cr.Ed25519Correct sk) (rest : Bytes) :
    checkSignature cr
        { readerState cr key (records ++ [r]) with
          prevHash := chainHead cr records
          recordIdx := records.length }
        r.toVec
        (trailer cr key (chainHead cr records) r.toVec ++ rest)
      = .ok rest := by
  cases key with
  | none => simp [checkSignature, readerState, trailer]
  | some sk =>
    have hverify := (hsigns sk rfl).2 (r.toVec ++ (chainHead cr records).bytes)
    simp [checkSignature, readerState, trailer, hverify]

/-- **Step lemma**: the reader takes exactly one frame and moves to the state after its
record. -/
theorem readRecord_frame {key : Option SigningKey} {records : List JournalRecord}
    {r : JournalRecord} (hlog : WritableLog cr codec key (records ++ [r])) (rest : Bytes) :
    readRecord cr codec (readerState cr key records)
        (frame cr.blake3 (trailer cr key) (chainHead cr records) r.toVec ++ rest)
      = .ok (.next r (readerState cr key (records ++ [r])) rest) := by
  have hmem : r ∈ records ++ [r] := by simp
  have hover : recordOverhead (readerState cr key records)
      ≤ 36 + (trailer cr key (chainHead cr records) r.toVec ++ rest).length := by
    cases key with
    | none => simp [recordOverhead, readerState]
    | some sk =>
      simp only [recordOverhead, trailer, List.length_append, Block.size]
      split <;> omega
  have hbody := readRecord_body cr codec (readerState cr key records) _
    (trailer cr key (chainHead cr records) r.toVec ++ rest)
    (hlog.fits r hmem) (hlog.roundTrips r hmem) hover
  rw [frame, List.append_assoc, List.append_assoc, List.append_assoc]
  refine hbody.trans ?_
  rw [inspectHeader_readerState cr codec _ hlog]
  simp only [bind, Except.bind]
  rw [checkSignature_trailer cr hlog.signs]
  rw [show (readerState cr key records).prevHash = chainHead cr records from rfl,
    ← chainHead_concat]
  simp [readerState]

/-! ## Reading a whole log -/

theorem readLoop_nil (st : ChainState) (acc : List JournalRecord) :
    readLoop cr codec st acc [] = .ok (acc, st, []) := by
  rw [readLoop, if_pos rfl]

theorem readLoop_torn {st : ChainState} {rest : Bytes}
    (h : readRecord cr codec st rest = .ok .torn) (acc : List JournalRecord) :
    readLoop cr codec st acc rest = .ok (acc, st, rest) := by
  rw [readLoop]
  split
  · next hnil => rw [hnil]
  · split
    · next h' => simp [h] at h'
    · rfl
    · next h' => simp [h] at h'

theorem readLoop_error {st : ChainState} {rest : Bytes} {e : DcError} (hne : rest ≠ [])
    (h : readRecord cr codec st rest = .error e) (acc : List JournalRecord) :
    readLoop cr codec st acc rest = .error e := by
  rw [readLoop, if_neg hne]
  split
  · next h' => exact congrArg Except.error (Except.error.inj (h'.symm.trans h))
  · next h' => simp [h] at h'
  · next h' => simp [h] at h'

theorem readLoop_next {st st' : ChainState} {rest rest' : Bytes} {r : JournalRecord}
    (h : readRecord cr codec st rest = .ok (.next r st' rest')) (acc : List JournalRecord) :
    readLoop cr codec st acc rest = readLoop cr codec st' (acc ++ [r]) rest' := by
  have hne : rest ≠ [] := by
    rintro rfl
    exact absurd (readRecord_next_length_lt cr codec h) (Nat.not_lt_zero _)
  rw [readLoop, if_neg hne]
  split
  · next h' => simp [h] at h'
  · next h' => simp [h] at h'
  · next h' =>
    rw [h] at h'
    simp only [Except.ok.injEq, RecordRead.next.injEq] at h'
    obtain ⟨rfl, rfl, rfl⟩ := h'
    rfl

/-- **Run lemma**: the reader takes a run of frames record by record. Induction on the
records still to be read. -/
theorem readLoop_frames {key : Option SigningKey} (as : List JournalRecord)
    {bs : List JournalRecord}
    (hlog : WritableLog cr codec key (as ++ bs)) (acc : List JournalRecord) (tail : Bytes) :
    readLoop cr codec (readerState cr key as) acc
        ((recordFrames cr key (chainHead cr as) bs).flatten ++ tail)
      = readLoop cr codec (readerState cr key (as ++ bs)) (acc ++ bs) tail := by
  induction bs generalizing as acc with
  | nil => simp [recordFrames, frames]
  | cons b bs ih =>
    have hsplit : as ++ b :: bs = (as ++ [b]) ++ bs := by simp
    rw [hsplit] at hlog
    have hstep := readRecord_frame cr codec (WritableLog.left cr codec hlog)
      ((recordFrames cr key (chainHead cr (as ++ [b])) bs).flatten ++ tail)
    have hframes : recordFrames cr key (chainHead cr as) (b :: bs)
        = frame cr.blake3 (trailer cr key) (chainHead cr as) b.toVec
          :: recordFrames cr key (chainHead cr (as ++ [b])) bs := by
      rw [chainHead_concat]
      rfl
    rw [hframes, List.flatten_cons, List.append_assoc, readLoop_next cr codec hstep,
      ih _ hlog (acc ++ [b]), hsplit]
    simp

/-! ## A sample log

The sealed log of two records under the key `[7; 32]`, with the digests and signatures
BLAKE3 and Ed25519 give for it. -/

def sampleKey : SigningKey := ⟨List.replicate 32 7, rfl⟩

def samplePublicKey : PublicKey :=
  Block.ofNat 32 0xea4a6c63e29c520abef5507b132ec5f9954776aebebe7b92421eea691446d22c

def sampleStable : StableIdentity where
  model := some "UnitTestSSD"
  serial := some "SN-UNIT"
  wwn := none
  sizeBytes := 1073741824
  bus := .nvme
  dmName := none
  dmUuid := none

def samplePlan : SanitizationPlan where
  planSchema := "dc-plan/1"
  target := sampleStable
  mechanism := .logicalOverwrite [⟨.zero, "NIST SP 800-88 Clear (logical zero overwrite)"⟩]
  verification := .full
  windowBytes := 2097152
  fastPath := .preferWriteZeroes
  strategyLadder := none
  legacyNote := none

def sampleHeader : Header where
  uuid := "unit-uuid"
  sealed := true
  operatorPubkey := some (hexEncode samplePublicKey.bytes)
  plan := samplePlan
  planHash := "unit-plan-hash"
  identity :=
    { stable := sampleStable
      kernel := ⟨259, 0⟩
      kernelName := "nvme0n1"
      devPath := "/dev/nvme0n1"
      logicalBlockSize := 512
      physicalBlockSize := 4096 }
  tool := ⟨"dc-core", "0.13.0", "development-build-0000000000000000", "x86_64"⟩
  engine := "sync"
  tuning := ⟨64, 128, 2097152, 512, 5000⟩
  argvHash := "unit"
  startedUtc := "2026-01-01T00:00:00Z"

def sampleArmed : JournalRecord := .armed [] [] "t0"

def sampleSeed : Digest :=
  Block.ofNat 32 0x7713a7c5c7c204bf672cf7dccd76d50d95b9e0a7beb322e5979108f97bf2c200

def sampleHead1 : Digest :=
  Block.ofNat 32 0x9cef9c152dbf27299f069efb447c8e03c6b45d6772c8fb00a412fbef71178ed2

def sampleHead2 : Digest :=
  Block.ofNat 32 0x43716c5ce50b51bb0c88d5394066a52f8a13b664659014d19b3c0dd8bd58a6c1

def sampleCrypto : Crypto :=
  tableCrypto samplePublicKey
    [(journalMagic, sampleSeed),
     ((JournalRecord.header sampleHeader).toVec ++ sampleSeed.bytes, sampleHead1),
     (sampleArmed.toVec ++ sampleHead1.bytes, sampleHead2)]
    [((JournalRecord.header sampleHeader).toVec ++ sampleSeed.bytes,
      (Block.ofNat 32 0x28eb80f1501efa166289e30136aa52e4a2329ba5a580748774b78a8ef6948909).append
        (Block.ofNat 32 0x7dfb45df290f4cc94af47ce60df5b30f4154a5d9e809376473efd79112b4220e)),
     (sampleArmed.toVec ++ sampleHead1.bytes,
      (Block.ofNat 32 0xf6694c6d6929e200e9582952e594dd95c03260a2ea67db57b78ec2df97383ec9).append
        (Block.ofNat 32 0xa0ac646ea45df2ed52d9bc703e574d761a0e5dfd8b6264e9f478323adf81bf02))]

def sampleLog : List JournalRecord := [.header sampleHeader, sampleArmed]

def sampleCodec : JournalCodec := tableCodec sampleLog

theorem sampleHeader_length : (JournalRecord.header sampleHeader).toVec.length = 1132 := by
  decide +kernel

theorem sampleArmed_length : sampleArmed.toVec.length = 57 := by decide

theorem sampleHeader_matches : sampleHeader.Matches sampleCrypto (some sampleKey) := by
  refine ⟨rfl, ?_⟩
  rintro sk -
  exact hexDecode_hexEncode samplePublicKey.bytes

theorem sampleLog_writable : WritableLog sampleCrypto sampleCodec (some sampleKey) sampleLog where
  headed r hr := ⟨sampleHeader, (Option.some.inj hr).symm, sampleHeader_matches⟩
  fits r hr := by
    rcases List.mem_pair.mp hr with rfl | rfl
    · rw [sampleHeader_length]; decide
    · rw [sampleArmed_length]; decide
  roundTrips r hr := by
    have hne : (JournalRecord.header sampleHeader).toVec ≠ sampleArmed.toVec := by
      intro h
      have := congrArg List.length h
      rw [sampleHeader_length, sampleArmed_length] at this
      omega
    rcases List.mem_pair.mp hr with rfl | rfl
    · simp [JournalCodec.RoundTrips, sampleCodec, tableCodec, sampleLog]
    · simp [JournalCodec.RoundTrips, sampleCodec, tableCodec, sampleLog, hne]
  signs sk _ := tableCrypto_correct _ _ _ sk

end DiscCleaner
