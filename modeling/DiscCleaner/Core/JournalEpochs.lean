import DiscCleaner.Core.JournalBinding

/-!
# DiscCleaner — journals written over several epochs

A journal is written by one `createNew` epoch and any number of `openForResume` epochs. A
crash between two epochs keeps the first bytes of the file and may leave anything behind
them; the next epoch opens what the reader accepts, at the summary the reader returns, and
cuts the discarded tail off. `JournalRun` is the relation of such runs to the records that
survive them, and `JournalRun.writer_eq` the invariant: after every epoch the writer's file,
chain head and record count are those of the surviving records written in one go.
-/

namespace DiscCleaner

open ByteLib ChainLog JournalWriter JournalReader

variable (cr : Crypto) (codec : JournalCodec)

/-! ## Opening an accepted file -/

/-- When the loop returns no new record, it stopped where it was. -/
theorem readLoop_stops {st st' : ChainState} {acc : List JournalRecord} {rest tail : Bytes}
    (h : readLoop cr codec st acc rest = .ok (acc, st', tail)) : st' = st ∧ tail = rest := by
  by_cases hnil : rest = []
  · subst hnil
    rw [readLoop_nil] at h
    cases h
    exact ⟨rfl, rfl⟩
  · cases hread : readRecord cr codec st rest with
    | error e =>
      rw [readLoop_error cr codec hnil hread] at h
      cases h
    | ok step =>
      cases step with
      | torn =>
        rw [readLoop_torn cr codec hread] at h
        cases h
        exact ⟨rfl, rfl⟩
      | next record st₁ rest₁ =>
        rw [readLoop_next cr codec hread] at h
        obtain ⟨new, hnew, -⟩ := readLoop_inv cr codec h
        have hlen := congrArg List.length hnew
        simp only [List.length_append, List.length_cons, List.length_nil] at hlen
        omega

/-- When the reader returns exactly the records of a log from a file that starts with it, the
rest of the file is the discarded tail. -/
theorem readAndVerifyChain_log_inv {path : String} {key : Option SigningKey}
    {records : List JournalRecord} {tail : Bytes} {summary : JournalChainSummary}
    (hlog : WritableLog cr codec key records)
    (h : readAndVerifyChain cr codec path (journalFile cr key records ++ tail)
      = .ok (records, summary)) :
    summary = logSummary cr path key records tail.length := by
  rw [journalFile, List.append_assoc] at h
  unfold readAndVerifyChain at h
  split at h
  · cases h
  rw [readExact_append_of_length (by rfl)] at h
  simp only [ne_eq, not_true_eq_false, if_false] at h
  have hframes := readLoop_frames cr codec [] hlog [] tail
  rw [readerState_nil, List.nil_append] at hframes
  rw [show cr.blake3 journalMagic = chainHead cr [] from rfl, hframes] at h
  cases hloop : readLoop cr codec (readerState cr key records) records tail with
  | error e => simp [hloop, bind, Except.bind] at h
  | ok out =>
    obtain ⟨records', st, tail'⟩ := out
    simp only [hloop, bind, Except.bind] at h
    split at h
    · cases h
    · simp only [Except.ok.injEq, Prod.mk.injEq] at h
      obtain ⟨rfl, rfl⟩ := h
      obtain ⟨rfl, rfl⟩ := readLoop_stops cr codec hloop
      rfl

/-- How `cmd_resume` opens the journal it has just read. -/
def reopenForResume (key : Option SigningKey) (path : String) (file : Bytes)
    (summary : JournalChainSummary) : Reopened :=
  openForResume file false path summary.chainHead summary.recordCount
    (if 0 < summary.discardedTailBytes then some (file.length - summary.discardedTailBytes)
      else none)
    summary.uuid summary.sealed key

/-- What is left of a file after the truncation of `openForResume`. -/
def truncated (file : Bytes) : Option Nat → Bytes
  | some n => setLen file n
  | none => file

theorem openForResume_writer (file : Bytes) (path uuid : String) (prev : Digest)
    (recordCount : Nat) (offset : Option Nat) {sealed : Bool} {key : Option SigningKey}
    (hkeyed : ¬ (sealed = true ∧ key.isNone = true)) :
    (openForResume file false path (hexEncode prev.bytes) recordCount offset uuid sealed
        key).writer
      = .ok ⟨truncated file offset, path, prev, recordCount, key, uuid, sealed⟩ := by
  unfold openForResume
  rw [if_neg hkeyed, if_neg Bool.false_ne_true, hexDecode_hexEncode]
  simp only [Block.ofBytes?_bytes]
  cases offset <;> rfl

/-- **Truncation removes exactly the tail**, and hands the chain over at its head. -/
theorem reopenForResume_log (path : String) (key : Option SigningKey)
    (records : List JournalRecord) (tail : Bytes) :
    (reopenForResume key path (journalFile cr key records ++ tail)
        (logSummary cr path key records tail.length)).writer
      = .ok ⟨journalFile cr key records, path, chainHead cr records, records.length, key,
          headerUuid records, !records.isEmpty && key.isSome⟩ := by
  have hkeyed : ¬ ((!records.isEmpty && key.isSome) = true ∧ key.isNone = true) := by
    cases key <;> simp
  have hfile : truncated (journalFile cr key records ++ tail)
      (if 0 < tail.length then some ((journalFile cr key records ++ tail).length - tail.length)
        else none) = journalFile cr key records := by
    have hlen : (journalFile cr key records ++ tail).length - tail.length
        = (journalFile cr key records).length := by
      rw [List.length_append]
      omega
    have hpad : (journalFile cr key records).length
        - (journalFile cr key records ++ tail).length = 0 := by
      rw [List.length_append]
      omega
    by_cases htail : 0 < tail.length
    · rw [if_pos htail, hlen, truncated, setLen, hpad, List.take_left' rfl, List.replicate_zero,
        List.append_nil]
    · rw [if_neg htail, truncated, List.length_eq_zero_iff.mp (Nat.eq_zero_of_not_pos htail),
        List.append_nil]
  have hopen := openForResume_writer (journalFile cr key records ++ tail) path
    (headerUuid records) (chainHead cr records) records.length
    (if 0 < tail.length then some ((journalFile cr key records ++ tail).length - tail.length)
      else none) hkeyed
  rw [hfile] at hopen
  exact hopen

/-! ## Runs -/

/-- **Runs of a journal**: `JournalRun … records w` when some sequence of epochs within the
format's rules leaves the writer `w` and the surviving records `records`. A crash keeps the
first `n` bytes of the file and puts any `garbage` after them; the next epoch starts when the
reader accepts that file with the records that were whole. -/
inductive JournalRun (key : Option SigningKey) (path uuid : String) :
    List JournalRecord → JournalWriter → Prop where
  | create {w : JournalWriter} {records : List JournalRecord}
      (hnew : createNew cr none false path uuid key = .ok w)
      (hlog : WritableLog cr codec key records) :
      JournalRun key path uuid records (w.appendAll cr records)
  | resume {w₀ w w' : JournalWriter} {survivors records : List JournalRecord} {n : Nat}
      {garbage : Bytes} {summary : JournalChainSummary}
      (hrun : JournalRun key path uuid survivors w)
      (hnew : createNew cr none false path uuid key = .ok w₀) (hn : 4 ≤ n)
      (hread : readAndVerifyChain cr codec path (w.file.take n ++ garbage)
        = .ok (recordsBefore cr n w₀ survivors, summary))
      (hopen : (reopenForResume key path (w.file.take n ++ garbage) summary).writer = .ok w')
      (hlog : WritableLog cr codec key (recordsBefore cr n w₀ survivors ++ records)) :
      JournalRun key path uuid (recordsBefore cr n w₀ survivors ++ records)
        (w'.appendAll cr records)

/-- **Epoch step**: an epoch that opens a file of the surviving records plus a torn tail
continues the log as if it had never been interrupted. -/
theorem resume_step {path : String} {key : Option SigningKey} {kept : List JournalRecord}
    {tail : Bytes} {summary : JournalChainSummary} {w : JournalWriter}
    (hlog : WritableLog cr codec key kept)
    (hread : readAndVerifyChain cr codec path (journalFile cr key kept ++ tail)
      = .ok (kept, summary))
    (hopen : (reopenForResume key path (journalFile cr key kept ++ tail) summary).writer = .ok w)
    (records : List JournalRecord) :
    (w.appendAll cr records).file = journalFile cr key (kept ++ records)
      ∧ (w.appendAll cr records).prevHash = chainHead cr (kept ++ records)
      ∧ (w.appendAll cr records).recordCount = (kept ++ records).length := by
  obtain rfl := readAndVerifyChain_log_inv cr codec hlog hread
  rw [reopenForResume_log] at hopen
  cases hopen
  rw [appendAll_eq, journalFile_append, chainHead_append]
  exact ⟨rfl, rfl, List.length_append.symm⟩

/-- **Run invariant**: after any run the writer is where one uninterrupted run over the
surviving records would have left it. Induction over the epochs. -/
theorem JournalRun.writer_eq {path uuid : String} {key : Option SigningKey}
    {records : List JournalRecord} {w : JournalWriter}
    (h : JournalRun cr codec key path uuid records w) :
    WritableLog cr codec key records ∧ w.file = journalFile cr key records
      ∧ w.prevHash = chainHead cr records ∧ w.recordCount = records.length := by
  induction h with
  | create hnew hlog =>
    rw [createNew_appendAll cr hnew]
    exact ⟨hlog, rfl, rfl, rfl⟩
  | @resume w₀ w w' survivors records n garbage summary hrun hnew hn hread hopen hlog ih =>
    obtain ⟨-, hfile, -, -⟩ := ih
    obtain ⟨t, htake, -⟩ := take_journalFile cr hnew survivors hn
    have hkept := WritableLog.of_initial cr codec hlog (List.prefix_append _ records)
    rw [hfile, htake, List.append_assoc] at hread hopen
    exact ⟨hlog, resume_step cr codec hkept hread hopen records⟩

/-- The writer's file reads back as these records, under the head and count it reports. -/
def ReadsBack (path : String) (records : List JournalRecord) (w : JournalWriter) : Prop :=
  ∃ summary, readAndVerifyChain cr codec path w.file = .ok (records, summary)
    ∧ summary.chainHead = w.currentChainHead ∧ summary.recordCount = w.recordCount
    ∧ summary.discardedTailBytes = 0

/-- **Round trip across epochs.** The final file of any run reads back as exactly the
surviving records, with the chain head and the record count the last writer reports. -/
theorem journalRun_reads_back {path uuid : String} {key : Option SigningKey}
    {records : List JournalRecord} {w : JournalWriter}
    (h : JournalRun cr codec key path uuid records w)
    (hsize : w.file.length ≤ journalMaxFileBytes) : ReadsBack cr codec path records w := by
  obtain ⟨hlog, hfile, hhead, hcount⟩ := h.writer_eq cr codec
  rw [hfile] at hsize
  have hread := readAndVerifyChain_log cr codec path [] hlog
    (by rw [List.append_nil]; exact hsize) (Or.inl rfl) (fun h => absurd h (by decide))
  rw [List.append_nil] at hread
  unfold ReadsBack
  rw [hfile]
  exact ⟨_, hread, by rw [currentChainHead, hhead]; rfl, hcount.symm, rfl⟩

/-! ## Logs the reader refuses -/

/-- A writer's file that no reader accepts. -/
def Refused (codec : JournalCodec) (cr : Crypto) (w : JournalWriter) : Prop :=
  ∀ path records, ¬ ReadsBack cr codec path records w

theorem refused_of_error {w : JournalWriter}
    (h : ∀ path, ∃ e, readAndVerifyChain cr codec path w.file = .error e) :
    Refused codec cr w := by
  rintro path records ⟨summary, hread, -⟩
  obtain ⟨e, he⟩ := h path
  rw [he] at hread
  cases hread

theorem readAndVerifyChain_readLoop_error {rest : Bytes} {e : DcError}
    (hloop : readLoop cr codec (ChainState.initial cr) [] rest = .error e) (path : String) :
    ∃ e', readAndVerifyChain cr codec path (journalMagic ++ rest) = .error e' := by
  unfold readAndVerifyChain
  split
  · exact ⟨_, rfl⟩
  · rw [readExact_append_of_length (by rfl)]
    simp only [ne_eq, not_true_eq_false, if_false, hloop, bind, Except.bind]
    exact ⟨_, rfl⟩

section Refused

variable {cr codec} {path uuid : String} {key : Option SigningKey} {w : JournalWriter}
  (hnew : createNew cr none false path uuid key = .ok w)

include hnew

/-- A sealed Header without a public key is refused at record 0. -/
theorem refused_of_keyless {h : Header} (hsealed : h.sealed = true)
    (hkeyless : h.operatorPubkey = none) (hrt : codec.RoundTrips (.header h))
    (hfits : (JournalRecord.header h).toVec.length ≤ journalMaxRecordBytes) :
    Refused codec cr (w.appendAll cr [.header h]) := by
  apply refused_of_error
  intro path
  rw [createNew_appendAll cr hnew]
  have hheader : ∃ e, inspectHeader cr (ChainState.initial cr) (.header h) = .error e := by
    unfold inspectHeader
    rw [if_neg (fun hne => hne rfl)]
    simp only [hsealed, if_true, hkeyless]
    exact ⟨_, rfl⟩
  obtain ⟨e, he⟩ := hheader
  have hbody := readRecord_body cr codec (ChainState.initial cr) (.header h)
    (trailer cr key (cr.blake3 journalMagic) (JournalRecord.header h).toVec) hfits hrt
    (Nat.le_add_right 36 _)
  rw [he] at hbody
  apply readAndVerifyChain_readLoop_error
  apply readLoop_error
  · exact List.cons_ne_nil _ _
  · show readRecord cr codec _ (frame cr.blake3 (trailer cr key) _ _ ++ []) = _
    rw [List.append_nil]
    exact hbody

/-- A record over the cap is refused, after the records before it. -/
theorem refused_of_longRecord {records : List JournalRecord} {r : JournalRecord}
    (hlog : WritableLog cr codec key records) (hbig : journalMaxRecordBytes < r.toVec.length)
    (hword : r.toVec.length < 2 ^ 32) : Refused codec cr (w.appendAll cr (records ++ [r])) := by
  apply refused_of_error
  intro path
  rw [createNew_appendAll cr hnew]
  obtain ⟨e, he⟩ := readRecord_too_large cr codec (readerState cr key records)
    (r.toVec ++ ((link cr.blake3 (chainHead cr records) r.toVec).bytes
      ++ trailer cr key (chainHead cr records) r.toVec)) hbig hword
  have hloop : readLoop cr codec (readerState cr key records) records
      (recordFrames cr key (chainHead cr records) [r]).flatten = .error e := by
    apply readLoop_error
    · exact List.cons_ne_nil _ _
    · show readRecord cr codec _ (frame cr.blake3 (trailer cr key) _ _ ++ []) = _
      rw [List.append_nil]
      exact he
  have hframes := readLoop_frames cr codec [] hlog []
    (recordFrames cr key (chainHead cr records) [r]).flatten
  rw [readerState_nil] at hframes
  show ∃ e, readAndVerifyChain cr codec path (journalFile cr key (records ++ [r])) = .error e
  rw [journalFile_append, journalFile, List.append_assoc]
  exact readAndVerifyChain_readLoop_error cr codec (hframes.trans hloop) path

/-- A file over the cap is refused before anything is read. -/
theorem refused_of_longFile {records : List JournalRecord}
    (hbig : journalMaxFileBytes < (journalFile cr key records).length) :
    Refused codec cr (w.appendAll cr records) := by
  apply refused_of_error
  intro path
  rw [createNew_appendAll cr hnew]
  exact ⟨_, if_pos hbig⟩

end Refused

/-! ### The sample log in two epochs

The Header is written, the crash leaves three bytes of the next length word, and the second
epoch appends the Armed record. -/

def sampleHeaderLog : List JournalRecord := [.header sampleHeader]

theorem sampleHeaderLog_writable :
    WritableLog sampleCrypto sampleCodec (some sampleKey) sampleHeaderLog :=
  WritableLog.of_initial sampleCrypto sampleCodec sampleLog_writable ⟨[sampleArmed], rfl⟩

theorem sampleHeaderFile_length :
    (journalFile sampleCrypto (some sampleKey) sampleHeaderLog).length = 1236 := by
  rw [journalFile_length]
  simp [sampleHeaderLog, sampleHeader_length, frameOverhead]

theorem sampleHeaderLog_before :
    recordsBefore sampleCrypto 1236 sampleWriter sampleHeaderLog = sampleHeaderLog := by
  have hlen := sampleHeaderFile_length
  have hfile := createNew_appendAll sampleCrypto sampleWriter_eq sampleHeaderLog
  have hwriter : (sampleWriter.append sampleCrypto (.header sampleHeader)).1.file
      = journalFile sampleCrypto (some sampleKey) sampleHeaderLog := congrArg _ hfile
  rw [sampleHeaderLog, recordsBefore, hwriter, if_pos (by rw [hlen]), recordsBefore]

def sampleResumed : JournalWriter where
  file := journalFile sampleCrypto (some sampleKey) sampleHeaderLog
  path := "unit.dcj"
  prevHash := chainHead sampleCrypto sampleHeaderLog
  recordCount := 1
  signingKey := some sampleKey
  uuid := "unit-uuid"
  sealed := true

theorem sampleRun :
    JournalRun sampleCrypto sampleCodec (some sampleKey) "unit.dcj" "unit-uuid" sampleLog
      (sampleResumed.appendAll sampleCrypto [sampleArmed]) := by
  have hcreate : JournalRun sampleCrypto sampleCodec (some sampleKey) "unit.dcj" "unit-uuid"
      sampleHeaderLog (sampleWriter.appendAll sampleCrypto sampleHeaderLog) :=
    JournalRun.create sampleWriter_eq sampleHeaderLog_writable
  have hdisk : (sampleWriter.appendAll sampleCrypto sampleHeaderLog).file.take 1236 ++ [0, 1, 2]
      = journalFile sampleCrypto (some sampleKey) sampleHeaderLog ++ [0, 1, 2] := by
    rw [createNew_appendAll sampleCrypto sampleWriter_eq]
    show (journalFile sampleCrypto (some sampleKey) sampleHeaderLog).take 1236 ++ _ = _
    rw [← sampleHeaderFile_length, List.take_length]
  have hread : readAndVerifyChain sampleCrypto sampleCodec "unit.dcj"
      (journalFile sampleCrypto (some sampleKey) sampleHeaderLog ++ [0, 1, 2])
        = .ok (sampleHeaderLog, logSummary sampleCrypto "unit.dcj" (some sampleKey)
            sampleHeaderLog 3) := by
    apply readAndVerifyChain_log sampleCrypto sampleCodec _ _ sampleHeaderLog_writable
    · rw [List.length_append, sampleHeaderFile_length]
      decide
    · exact Or.inr rfl
    · decide
  have hopen := reopenForResume_log sampleCrypto "unit.dcj" (some sampleKey)
    sampleHeaderLog [0, 1, 2]
  have hrun := @JournalRun.resume _ _ _ _ _ _ _ _ _ [sampleArmed] 1236 [0, 1, 2] _ hcreate
    sampleWriter_eq (by decide)
    (by rw [hdisk, sampleHeaderLog_before]; exact hread) (by rw [hdisk]; exact hopen)
    (by rw [sampleHeaderLog_before]; exact sampleLog_writable)
  rw [sampleHeaderLog_before] at hrun
  exact hrun

theorem journalRun_reads_back_sample :
    ReadsBack sampleCrypto sampleCodec "unit.dcj" sampleLog
      (sampleResumed.appendAll sampleCrypto [sampleArmed]) :=
  journalRun_reads_back sampleCrypto sampleCodec sampleRun (by
    obtain ⟨-, hfile, -, -⟩ := sampleRun.writer_eq
    rw [hfile, journalFile_length]
    simp [sampleLog, sampleHeader_length, sampleArmed_length, frameOverhead, journalMaxFileBytes])

/-! ### Three logs against the rules

The writer writes each without complaint: a sealed Header that does not announce its key, a
record over the 8 MiB cap, and a file over the 64 MiB cap. -/

/-- The sample Header without its key. -/
def keylessHeader : Header := { sampleHeader with operatorPubkey := none }

def keylessCrypto : Crypto :=
  tableCrypto samplePublicKey
    [(journalMagic, sampleSeed),
     ((JournalRecord.header keylessHeader).toVec ++ sampleSeed.bytes,
      Block.ofNat 32 0x9359e5306468f47243fb1dcf3f395746a20fef607cdd0b9f8fb9d1c4ea6da3d4)]
    [((JournalRecord.header keylessHeader).toVec ++ sampleSeed.bytes,
      (Block.ofNat 32 0xf1460bbf63f7ef3f78380fc22756aad044707bebeb690a3721e8935f97127c81).append
        (Block.ofNat 32 0x2539ce02883533afdc35e51337aeeb5b019c1add547f910bbf4fa57ea4462c0c))]

/-- An Armed record whose timestamp is `n` letters. -/
def longArmed (n : Nat) : JournalRecord := .armed [] [] (String.ofList (List.replicate n 'a'))

theorem longArmed_length (n : Nat) : (longArmed n).toVec.length = n + 55 := by
  have hletter : Json.escapeChar 'a' = [97] := by decide
  have htext : (Json.string (String.ofList (List.replicate n 'a'))).length = n + 2 := by
    simp [Json.string, List.length_flatMap, hletter]
  have htype : (Json.string "type").length = 6 := by decide
  have harmed : (Json.string "armed").length = 7 := by decide
  have hoverrides : (Json.string "overrides").length = 11 := by decide
  have hlocks : (Json.string "locks_held").length = 12 := by decide
  have hat : (Json.string "at").length = 4 := by decide
  have hempty : (Json.array []).length = 2 := rfl
  simp only [longArmed, JournalRecord.toVec, JournalRecord.members, Json.object, Json.member,
    Json.commaSep, List.map_cons, List.map_nil, List.length_cons, List.length_append,
    List.length_nil, htype, harmed, hoverrides, hlocks, hat, hempty, htext]
  omega

theorem keylessHeader_length : (JournalRecord.header keylessHeader).toVec.length = 1070 := by
  decide +kernel

theorem keylessCrypto_magic :
    keylessCrypto.blake3 journalMagic = sampleCrypto.blake3 journalMagic := by
  decide +kernel

theorem keylessWriter_eq :
    createNew keylessCrypto none false "unit.dcj" "unit-uuid" (some sampleKey)
      = .ok sampleWriter := by
  rw [sampleWriter, ← keylessCrypto_magic]
  rfl

theorem longFile_length (n : Nat) :
    (journalFile sampleCrypto (some sampleKey)
      (.header sampleHeader :: List.replicate 8 (longArmed n))).length = 8 * n + 2476 := by
  rw [journalFile_length]
  simp only [List.map_cons, List.map_replicate, List.sum_cons, List.sum_replicate_nat,
    sampleHeader_length, longArmed_length, frameOverhead, Option.isSome_some, if_true]
  omega

/-- **The round trip fails without the format's rules**: each of the three logs starts with a
Header whose sealed flag matches the writer's key, and none of their files is read back. -/
theorem unruled_logs_not_read_back :
    (createNew keylessCrypto none false "unit.dcj" "unit-uuid" (some sampleKey)
          = .ok sampleWriter
        ∧ keylessHeader.sealed = (some sampleKey).isSome
        ∧ Refused (tableCodec [.header keylessHeader]) keylessCrypto
            (sampleWriter.appendAll keylessCrypto [.header keylessHeader]))
      ∧ (createNew sampleCrypto none false "unit.dcj" "unit-uuid" (some sampleKey)
          = .ok sampleWriter
        ∧ sampleHeader.sealed = (some sampleKey).isSome
        ∧ Refused sampleCodec sampleCrypto
            (sampleWriter.appendAll sampleCrypto (sampleHeaderLog ++ [longArmed 8388608]))
        ∧ Refused sampleCodec sampleCrypto
            (sampleWriter.appendAll sampleCrypto
              (.header sampleHeader :: List.replicate 8 (longArmed 8388553)))) := by
  have hrecord : journalMaxRecordBytes < 8388608 + 55 := by decide
  have hfile : journalMaxFileBytes < 8 * 8388553 + 2476 := by decide
  refine ⟨⟨keylessWriter_eq, rfl, ?_⟩, sampleWriter_eq, rfl, ?_, ?_⟩
  · exact refused_of_keyless keylessWriter_eq rfl rfl
      (by simp [JournalCodec.RoundTrips, tableCodec])
      (by rw [keylessHeader_length]; decide)
  · exact refused_of_longRecord sampleWriter_eq sampleHeaderLog_writable
      (by rw [longArmed_length]; exact hrecord) (by rw [longArmed_length]; omega)
  · exact refused_of_longFile sampleWriter_eq (by rw [longFile_length]; exact hfile)

end DiscCleaner
