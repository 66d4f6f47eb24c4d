import DiscCleaner.Core.JournalTorn

/-!
# DiscCleaner — the chain head binds the journal

Whatever file the reader accepts, its chain head is the head of the record strings that lie
in the file (`readLoop_inv`). Under a hash without collisions among the strings the two
chains hashed, equal heads therefore mean equal record strings (`ChainLog.head_injOn`), and
reconciling a certificate's chain head admits one journal content only.
-/

namespace DiscCleaner

open ByteLib ChainLog JournalWriter JournalReader

variable (cr : Crypto) (codec : JournalCodec)

/-! ## The record strings of a file -/

/-- The record strings of the next `n` frames; after each come its digest and, in a sealed
journal, its signature. -/
def splitRecords (sealed : Bool) : Nat → Bytes → List Bytes :=
  splitBodies (32 + if sealed then 64 else 0)

/-- The record strings in an accepted file, at the places its summary gives. -/
def recordStrings (summary : JournalChainSummary) (file : Bytes) : List Bytes :=
  splitRecords summary.sealed summary.recordCount (file.drop 4)

theorem splitRecords_succ {sealed : Bool} {n : Nat} {lenBuf body hash sig rest : Bytes}
    (hlen4 : lenBuf.length = 4) (hlen : ofLe lenBuf = body.length) (hhash : hash.length = 32)
    (hsig : sig.length = if sealed then 64 else 0) :
    splitRecords sealed (n + 1) (lenBuf ++ (body ++ (hash ++ (sig ++ rest))))
      = body :: splitRecords sealed n rest := by
  have hafter : (hash ++ sig).length = 32 + if sealed then 64 else 0 := by
    rw [List.length_append, hhash, hsig]
  rw [← List.append_assoc hash]
  exact splitBodies_succ _ _ hlen4 hlen hafter

/-- The writer's frames hold the records it was given. -/
theorem splitRecords_frames (key : Option SigningKey) {prev : Digest}
    {records : List JournalRecord} (hfits : ∀ r ∈ records, r.toVec.length < 2 ^ 32)
    (tail : Bytes) :
    splitRecords key.isSome records.length
        ((recordFrames cr key prev records).flatten ++ tail)
      = records.map JournalRecord.toVec := by
  induction records generalizing prev with
  | nil => rfl
  | cons r records ih =>
    have hsig : (trailer cr key prev r.toVec).length = if key.isSome then 64 else 0 := by
      cases key with
      | none => rfl
      | some sk => exact (cr.ed25519Sign sk (r.toVec ++ prev.bytes)).size
    have hrest := @ih (link cr.blake3 prev r.toVec)
      (fun x hx => hfits x (List.mem_cons_of_mem r hx))
    have hframes : (recordFrames cr key prev (r :: records)).flatten ++ tail
        = le32 r.toVec.length ++ (r.toVec ++ ((link cr.blake3 prev r.toVec).bytes
          ++ (trailer cr key prev r.toVec
            ++ ((recordFrames cr key (link cr.blake3 prev r.toVec) records).flatten
              ++ tail)))) := by
      simp [recordFrames, frames, frame]
    rw [hframes, List.length_cons, splitRecords_succ (le32_length _)
      (ofLe_le32 (hfits r (List.mem_cons_self))) (Block.size _) hsig, hrest]
    rfl

/-! ## What the loop has read -/

/-- **Run lemma.** When the loop ends without an error, its state's head is the head of the
record strings it passed over, the records are those strings parsed, and sealing has not
changed since the Header. Induction on the bytes still to be read. -/
theorem readLoop_inv {st st' : ChainState} {acc records : List JournalRecord}
    {rest tail : Bytes} (h : readLoop cr codec st acc rest = .ok (records, st', tail)) :
    ∃ new, records = acc ++ new
      ∧ (st.recordIdx ≠ 0 → st'.journalSealed = st.journalSealed)
      ∧ st'.prevHash
          = head cr.blake3 st.prevHash (splitRecords st'.journalSealed new.length rest)
      ∧ (splitRecords st'.journalSealed new.length rest).map codec.fromSlice
          = new.map Except.ok := by
  induction hn : rest.length using Nat.strong_induction_on generalizing st acc rest with
  | _ n ih =>
    by_cases hnil : rest = []
    · subst hnil
      rw [readLoop_nil] at h
      cases h
      exact ⟨[], (List.append_nil _).symm, fun _ => rfl, rfl, rfl⟩
    · cases hread : readRecord cr codec st rest with
      | error e =>
        rw [readLoop_error cr codec hnil hread] at h
        cases h
      | ok step =>
        cases step with
        | torn =>
          rw [readLoop_torn cr codec hread] at h
          cases h
          exact ⟨[], (List.append_nil _).symm, fun _ => rfl, rfl, rfl⟩
        | next record st₁ rest₁ =>
          rw [readLoop_next cr codec hread] at h
          have hlt := readRecord_next_length_lt cr codec hread
          obtain ⟨new, hnew, hsealed, hhead, hparsed⟩ := ih rest₁.length (by omega) h rfl
          obtain ⟨lenBuf, body, hash, sig, rfl, hlen4, hlen, -, hhash, hsig, hparse, hprev,
            hidx, hkeep⟩ := readRecord_next_inv cr codec hread
          have hsame : st'.journalSealed = st₁.journalSealed := hsealed (by omega)
          have hsplit : splitRecords st'.journalSealed (record :: new).length
              (lenBuf ++ (body ++ (hash ++ (sig ++ rest₁))))
                = body :: splitRecords st'.journalSealed new.length rest₁ :=
            splitRecords_succ hlen4 hlen hhash (by rw [hsame]; exact hsig)
          refine ⟨record :: new, by rw [hnew]; simp, ?_, ?_, ?_⟩
          · intro hne
            rw [hsame, hkeep hne]
          · rw [hsplit, head_cons, hhead, hprev]
          · rw [hsplit, List.map_cons, List.map_cons, hparse, hparsed]

/-- **An accepted file**: its chain head is the head of its record strings, and its records
are those strings parsed. -/
theorem readAndVerifyChain_inv {path : String} {file : Bytes} {records : List JournalRecord}
    {summary : JournalChainSummary}
    (h : readAndVerifyChain cr codec path file = .ok (records, summary)) :
    summary.chainHead = hexEncode
        (head cr.blake3 (cr.blake3 journalMagic) (recordStrings summary file)).bytes
      ∧ (recordStrings summary file).map codec.fromSlice = records.map Except.ok := by
  unfold readAndVerifyChain at h
  split at h
  · cases h
  split at h
  · cases h
  next magic rest hmagic =>
  obtain ⟨rfl, hlen4⟩ := readExact_eq_some.mp hmagic
  split at h
  · cases h
  cases hloop : readLoop cr codec (ChainState.initial cr) [] rest with
  | error e => simp [hloop, bind, Except.bind] at h
  | ok out =>
    obtain ⟨records', st, tail⟩ := out
    simp only [hloop, bind, Except.bind] at h
    split at h
    · cases h
    · cases h
      obtain ⟨new, hnew, -, hhead, hparsed⟩ := readLoop_inv cr codec hloop
      rw [List.nil_append] at hnew
      subst hnew
      simp only [recordStrings, List.drop_left' hlen4]
      exact ⟨by rw [hhead]; rfl, hparsed⟩

/-! ## Reconciling a certificate with a journal (`cmd_cert`) -/

/-- The `--journal` check of `dc cert verify`, on the certificate's journal reference. -/
def reconcileJournal (certChainHead certUuid path : String) (file : Bytes) :
    Except DcError Unit := do
  let (_records, summary) ← readAndVerifyChain cr codec path file
  if certChainHead ≠ summary.chainHead then
    .error (.certInvalid ("Journal chain_head mismatch! Cert: " ++ certChainHead
      ++ ", Journal: " ++ summary.chainHead))
  else if certUuid ≠ summary.uuid then .error (.certInvalid "Journal UUID mismatch")
  else .ok ()

theorem reconcileJournal_ok {certChainHead certUuid path : String} {file : Bytes}
    (h : reconcileJournal cr codec certChainHead certUuid path file = .ok ()) :
    ∃ records summary, readAndVerifyChain cr codec path file = .ok (records, summary)
      ∧ summary.chainHead = certChainHead ∧ summary.uuid = certUuid := by
  unfold reconcileJournal at h
  cases hread : readAndVerifyChain cr codec path file with
  | error e => simp [hread, bind, Except.bind] at h
  | ok out =>
    simp only [hread, bind, Except.bind] at h
    split at h
    · cases h
    next hhead =>
    split at h
    · cases h
    next huuid =>
    exact ⟨out.1, out.2, rfl, (not_not.mp hhead).symm, (not_not.mp huuid).symm⟩

/-! ## Binding -/

/-- The strings BLAKE3 hashed while an accepted file was checked. -/
def hashedStrings (summary : JournalChainSummary) (file : Bytes) : Set Bytes :=
  logInputs cr.blake3 journalMagic (recordStrings summary file)

/-- **The chain head binds the whole journal.** Two accepted files with the same chain head
hold the same record strings, whatever their lengths and discarded tails, when BLAKE3 has no
collision among the strings hashed for them; so a certificate's chain head reconciles with
one journal content only. -/
theorem chainHead_binds_records {file₁ file₂ : Bytes} {path₁ path₂ : String}
    {records₁ records₂ : List JournalRecord} {summary₁ summary₂ : JournalChainSummary}
    (h₁ : readAndVerifyChain cr codec path₁ file₁ = .ok (records₁, summary₁))
    (h₂ : readAndVerifyChain cr codec path₂ file₂ = .ok (records₂, summary₂))
    (hinj : Set.InjOn cr.blake3
      (hashedStrings cr summary₁ file₁ ∪ hashedStrings cr summary₂ file₂)) :
    (summary₁.chainHead = summary₂.chainHead →
        recordStrings summary₁ file₁ = recordStrings summary₂ file₂ ∧ records₁ = records₂)
      ∧ (∀ certChainHead certUuid₁ certUuid₂,
          reconcileJournal cr codec certChainHead certUuid₁ path₁ file₁ = .ok () →
          reconcileJournal cr codec certChainHead certUuid₂ path₂ file₂ = .ok () →
          recordStrings summary₁ file₁ = recordStrings summary₂ file₂ ∧ records₁ = records₂) := by
  obtain ⟨hhead₁, hparsed₁⟩ := readAndVerifyChain_inv cr codec h₁
  obtain ⟨hhead₂, hparsed₂⟩ := readAndVerifyChain_inv cr codec h₂
  have hbind : summary₁.chainHead = summary₂.chainHead →
      recordStrings summary₁ file₁ = recordStrings summary₂ file₂ ∧ records₁ = records₂ := by
    intro heq
    rw [hhead₁, hhead₂] at heq
    have hstrings : recordStrings summary₁ file₁ = recordStrings summary₂ file₂ :=
      head_injOn cr.blake3 (by decide) hinj (Block.ext (hexEncode_injective heq))
    refine ⟨hstrings, ?_⟩
    rw [hstrings, hparsed₂] at hparsed₁
    exact List.map_injective_iff.mpr (fun a b => Except.ok.inj) hparsed₁.symm
  refine ⟨hbind, ?_⟩
  intro certChainHead certUuid₁ certUuid₂ hrec₁ hrec₂
  obtain ⟨r₁, s₁, hr₁, hc₁, -⟩ := reconcileJournal_ok cr codec hrec₁
  obtain ⟨r₂, s₂, hr₂, hc₂, -⟩ := reconcileJournal_ok cr codec hrec₂
  rw [h₁] at hr₁
  rw [h₂] at hr₂
  cases hr₁
  cases hr₂
  exact hbind (hc₁.trans hc₂.symm)

/-! ### The sample log, whole and with a torn tail -/

theorem sampleCrypto_magic : sampleCrypto.blake3 journalMagic = sampleSeed := by decide

theorem sampleCrypto_header :
    sampleCrypto.blake3 ((JournalRecord.header sampleHeader).toVec ++ sampleSeed.bytes)
      = sampleHead1 := by
  decide +kernel

theorem sampleCrypto_armed :
    sampleCrypto.blake3 (sampleArmed.toVec ++ sampleHead1.bytes) = sampleHead2 := by
  decide

def sampleFile : Bytes := journalFile sampleCrypto (some sampleKey) sampleLog

def sampleSummary (tail : Nat) : JournalChainSummary :=
  logSummary sampleCrypto "unit.dcj" (some sampleKey) sampleLog tail

theorem sampleFile_read (tail : Bytes) (htail : tail.length < 4) :
    readAndVerifyChain sampleCrypto sampleCodec "unit.dcj" (sampleFile ++ tail)
      = .ok (sampleLog, sampleSummary tail.length) := by
  apply readAndVerifyChain_log sampleCrypto sampleCodec _ _ sampleLog_writable
  · rw [List.length_append, journalFile_length]
    have hsum : (sampleLog.map fun r => frameOverhead (some sampleKey) + r.toVec.length).sum
        = 1389 := by
      simp [sampleLog, sampleHeader_length, sampleArmed_length, frameOverhead]
    rw [hsum, journalMaxFileBytes]
    omega
  · right
    rw [readRecord, readExact_eq_none.mpr htail]
  · intro h
    omega

theorem sampleFile_strings (tail : Bytes) :
    recordStrings (sampleSummary tail.length) (sampleFile ++ tail)
      = [(JournalRecord.header sampleHeader).toVec, sampleArmed.toVec] := by
  have hfits : ∀ r ∈ sampleLog, r.toVec.length < 2 ^ 32 := by
    intro r hr
    have hmax : journalMaxRecordBytes < 2 ^ 32 := by decide
    have := sampleLog_writable.fits r hr
    omega
  exact splitRecords_frames sampleCrypto (some sampleKey) hfits tail

theorem sampleFile_hashedStrings (tail : Bytes) :
    hashedStrings sampleCrypto (sampleSummary tail.length) (sampleFile ++ tail)
      = {journalMagic, (JournalRecord.header sampleHeader).toVec ++ sampleSeed.bytes,
          sampleArmed.toVec ++ sampleHead1.bytes} := by
  rw [hashedStrings, sampleFile_strings]
  ext x
  simp only [logInputs, chainInputs, link, sampleCrypto_magic, sampleCrypto_header,
    List.mem_cons, List.not_mem_nil, or_false, Set.mem_ofPred_eq, Set.mem_insert_iff,
    Set.mem_singleton_iff]

theorem sampleCrypto_injOn :
    Set.InjOn sampleCrypto.blake3
      {journalMagic, (JournalRecord.header sampleHeader).toVec ++ sampleSeed.bytes,
        sampleArmed.toVec ++ sampleHead1.bytes} := by
  have h01 : sampleSeed ≠ sampleHead1 := by decide
  have h02 : sampleSeed ≠ sampleHead2 := by decide
  have h12 : sampleHead1 ≠ sampleHead2 := by decide
  simp only [Set.InjOn, Set.mem_insert_iff, Set.mem_singleton_iff]
  intro x hx y hy hxy
  rcases hx with rfl | rfl | rfl <;> rcases hy with rfl | rfl | rfl <;>
    simp_all [sampleCrypto_magic, sampleCrypto_header, sampleCrypto_armed]

/-- The sample journal and the same journal with a torn length word. -/
theorem chainHead_binds_records_sample :
    recordStrings (sampleSummary 0) (sampleFile ++ [])
      = recordStrings (sampleSummary 3) (sampleFile ++ [0, 1, 2]) := by
  have hinj : Set.InjOn sampleCrypto.blake3
      (hashedStrings sampleCrypto (sampleSummary 0) (sampleFile ++ [])
        ∪ hashedStrings sampleCrypto (sampleSummary 3) (sampleFile ++ [0, 1, 2])) := by
    have hwhole := sampleFile_hashedStrings []
    have htorn := sampleFile_hashedStrings [0, 1, 2]
    rw [List.length_nil] at hwhole
    rw [show ([0, 1, 2] : Bytes).length = 3 from rfl] at htorn
    rw [hwhole, htorn, Set.union_self]
    exact sampleCrypto_injOn
  exact ((chainHead_binds_records sampleCrypto sampleCodec
    (sampleFile_read [] (by decide))
    (sampleFile_read [0, 1, 2] (by decide)) hinj).1 rfl).1

end DiscCleaner
