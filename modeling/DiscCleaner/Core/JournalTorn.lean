import DiscCleaner.Core.JournalRecovery

/-!
# DiscCleaner — torn-write recovery of the DCJ1 journal

A journal file cut at any byte is a log of the whole records followed by a proper prefix
of the next frame. The reader discards that prefix as a torn tail, with one exception: the
bounds check counts a signature only once the Header has been read, so a cut inside the
Header's own signature is reported as corruption.
-/

namespace DiscCleaner

open ByteLib ChainLog JournalWriter JournalReader

variable (cr : Crypto) (codec : JournalCodec)

/-! ## Torn frames -/

/-- A prefix of a frame that reaches past the digest is the record, the digest, and a
prefix of the signature. -/
theorem torn_past_digest {trailer : Digest → Bytes → Bytes} {prev : Digest} {body t : Bytes}
    (hpre : t <+: frame cr.blake3 trailer prev body) (hlen : 36 + body.length ≤ t.length) :
    ∃ s, t = le32 body.length ++ (body ++ ((link cr.blake3 prev body).bytes ++ s))
      ∧ s <+: trailer prev body := by
  obtain ⟨u, hu⟩ := hpre
  have hfront : frame cr.blake3 trailer prev body
      = (le32 body.length ++ (body ++ (link cr.blake3 prev body).bytes))
        ++ trailer prev body := by
    simp [frame]
  have hfrontlen : (le32 body.length ++ (body ++ (link cr.blake3 prev body).bytes)).length
      = 36 + body.length := by
    simp only [List.length_append, le32_length, Block.size]
    omega
  obtain ⟨s, hs⟩ : le32 body.length ++ (body ++ (link cr.blake3 prev body).bytes) <+: t :=
    List.prefix_of_prefix_length_le ⟨trailer prev body, hfront.symm⟩ ⟨u, hu⟩ (by omega)
  refine ⟨s, by rw [← hs]; simp, u, ?_⟩
  rw [hfront, ← hs, List.append_assoc] at hu
  exact List.append_cancel_left hu

/-- **A torn frame is recoverable**: the loop stops at it without an error, unless it is the
Header's and keeps the whole digest of a sealed journal. -/
theorem readRecord_torn {key : Option SigningKey} {records : List JournalRecord}
    {r : JournalRecord} {t : Bytes} (hlog : WritableLog cr codec key (records ++ [r]))
    (hpre : t <+: frame cr.blake3 (trailer cr key) (chainHead cr records) r.toVec)
    (hlt : t.length
      < (frame cr.blake3 (trailer cr key) (chainHead cr records) r.toVec).length)
    (hsig : ¬ (records = [] ∧ key.isSome = true ∧ 36 + r.toVec.length ≤ t.length)) :
    readRecord cr codec (readerState cr key records) t = .ok .torn := by
  have hfits : r.toVec.length ≤ journalMaxRecordBytes := hlog.fits r (by simp)
  have hpos := r.toVec_length_pos
  have hmax : journalMaxRecordBytes < 2 ^ 32 := by decide
  rw [recordFrame_length] at hlt
  by_cases h4 : t.length < 4
  · rw [readRecord, readExact_eq_none.mpr h4]
  · obtain ⟨t', rfl⟩ := torn_starts_with_length cr.blake3 (trailer cr key) hpre (by omega)
    have hval : ofLe (le32 r.toVec.length) = r.toVec.length :=
      ofLe_le32 (by omega)
    -- the bounds check sees the missing bytes
    have hshort : (le32 r.toVec.length ++ t').length
        < recordOverhead (readerState cr key records) + r.toVec.length := by
      cases records with
      | nil =>
        cases key with
        | none => exact hlt
        | some sk =>
          show _ < 36 + r.toVec.length
          by_contra hge
          exact hsig ⟨rfl, rfl, not_lt.mp hge⟩
      | cons a as =>
        cases key with
        | none => exact hlt
        | some sk => exact hlt
    rw [readRecord, readExact_append_of_length (le32_length _)]
    simp only [hval]
    rw [if_neg (by omega), if_neg (by omega), if_pos hshort]

/-- **The exception**: a cut inside the Header's signature. The Header is read, and with it
the seal; only then is the signature found missing. -/
theorem readRecord_torn_signature {sk : SigningKey} {r : JournalRecord} {t : Bytes}
    (hlog : WritableLog cr codec (some sk) [r])
    (hpre : t <+: frame cr.blake3 (trailer cr (some sk)) (chainHead cr [])
      r.toVec)
    (hlt : t.length < (frame cr.blake3 (trailer cr (some sk)) (chainHead cr [])
      r.toVec).length)
    (hsig : 36 + r.toVec.length ≤ t.length) :
    readRecord cr codec (ChainState.initial cr) t
      = .error (.journalCorrupt 0
          "Missing Ed25519 signature in sealed journal record") := by
  have hmem : r ∈ [r] := by simp
  obtain ⟨s, rfl, -⟩ := torn_past_digest cr hpre hsig
  have hshort : s.length < 64 := by
    rw [recordFrame_length] at hlt
    simp only [List.length_append, le32_length, Block.size, frameOverhead, Option.isSome_some,
      if_true] at hlt
    omega
  have hover : recordOverhead (ChainState.initial cr) ≤ 36 + s.length := by
    show 36 ≤ 36 + s.length
    omega
  refine (readRecord_body cr codec (ChainState.initial cr) _ s (hlog.fits r hmem)
    (hlog.roundTrips r hmem) hover).trans ?_
  rw [← readerState_nil cr (some sk),
    inspectHeader_readerState cr codec [] hlog]
  simp [bind, Except.bind, checkSignature, readerState, readBlock_eq_none.mpr hshort]

/-- A torn frame never looks like a power-loss tail: its length word is not zero. -/
theorem torn_not_zero {trailer : Digest → Bytes → Bytes} {prev : Digest} {body t : Bytes}
    (hpre : t <+: frame cr.blake3 trailer prev body) (hpos : 0 < body.length)
    (hmax : body.length < 2 ^ 32) (h4 : 4 ≤ t.length) : ¬ t.all (· = 0) = true := by
  intro hzero
  obtain ⟨t', rfl⟩ := torn_starts_with_length cr.blake3 trailer hpre h4
  have hword : ofLe (le32 body.length) = 0 := by
    apply ofLe_eq_zero_of_all_zero
    intro b hb
    simpa using List.all_eq_true.mp hzero b (List.mem_append_left _ hb)
  rw [ofLe_le32 hmax] at hword
  omega

/-! ## Reading a log with a tail -/

/-- The summary of a log whose file ends in `tail` unread bytes. -/
def logSummary (path : String) (key : Option SigningKey) (records : List JournalRecord)
    (tail : Nat) : JournalChainSummary where
  path := path
  chainHead := hexEncode (chainHead cr records).bytes
  recordCount := records.length
  discardedTailBytes := tail
  uuid := headerUuid records
  sealed := !records.isEmpty && key.isSome

theorem readAndVerifyChain_of_loop {path : String} {rest tail : Bytes}
    {records : List JournalRecord} {st : ChainState}
    (hsize : (journalMagic ++ rest).length ≤ journalMaxFileBytes)
    (hloop : readLoop cr codec (ChainState.initial cr) [] rest = .ok (records, st, tail))
    (hzero : 4 ≤ tail.length → ¬ tail.all (· = 0) = true) :
    readAndVerifyChain cr codec path (journalMagic ++ rest)
      = .ok (records,
          { path
            chainHead := hexEncode st.prevHash.bytes
            recordCount := records.length
            discardedTailBytes := tail.length
            uuid := st.journalUuid
            sealed := st.journalSealed }) := by
  have hguard : ¬ (0 < tail.length ∧ 4 ≤ tail.length ∧ tail.all (· = 0) = true) :=
    fun h => hzero h.2.1 h.2.2
  rw [readAndVerifyChain, if_neg (by omega), readExact_append_of_length (by rfl)]
  simp only [ne_eq, not_true_eq_false, if_false, hloop, bind, Except.bind]
  rw [if_neg hguard]

/-- A log followed by bytes the loop stops at is read back whole. -/
theorem readAndVerifyChain_log (path : String) {key : Option SigningKey}
    {records : List JournalRecord} (tail : Bytes) (hlog : WritableLog cr codec key records)
    (hsize : (journalFile cr key records ++ tail).length ≤ journalMaxFileBytes)
    (htail : tail = [] ∨ readRecord cr codec (readerState cr key records) tail = .ok .torn)
    (hzero : 4 ≤ tail.length → ¬ tail.all (· = 0) = true) :
    readAndVerifyChain cr codec path (journalFile cr key records ++ tail)
      = .ok (records, logSummary cr path key records tail.length) := by
  have hloop : readLoop cr codec (ChainState.initial cr) []
      ((recordFrames cr key (chainHead cr []) records).flatten ++ tail)
        = .ok (records, readerState cr key records, tail) := by
    rw [← readerState_nil cr key, readLoop_frames cr codec [] hlog]
    rcases htail with rfl | htorn
    · exact readLoop_nil cr codec _ _
    · exact readLoop_torn cr codec htorn _
  rw [journalFile, List.append_assoc] at hsize ⊢
  exact readAndVerifyChain_of_loop cr codec hsize hloop hzero

/-! ## Cutting a journal file -/

/-- The records of a run of appends that lie wholly in the first `cut` bytes of the file. -/
def recordsBefore (cut : Nat) : JournalWriter → List JournalRecord → List JournalRecord
  | _, [] => []
  | w, r :: records =>
    let w' := (w.append cr r).1
    if w'.file.length ≤ cut then r :: recordsBefore cut w' records else []

/-- The records before a cut are those whose frames are whole. -/
theorem recordsBefore_eq (w : JournalWriter) (records : List JournalRecord) (cut : Nat)
    (hcut : w.file.length ≤ cut) :
    recordsBefore cr cut w records
      = records.take (cutFrames (recordFrames cr w.signingKey w.prevHash records)
          (cut - w.file.length)).1.length := by
  induction records generalizing w with
  | nil => simp [recordsBefore]
  | cons r records ih =>
    have hfile : (w.append cr r).1.file.length = w.file.length
        + (frame cr.blake3 (trailer cr w.signingKey) w.prevHash r.toVec).length := by
      rw [append_eq]
      exact List.length_append
    have hframes : recordFrames cr w.signingKey w.prevHash (r :: records)
        = frame cr.blake3 (trailer cr w.signingKey) w.prevHash r.toVec
          :: recordFrames cr w.signingKey (link cr.blake3 w.prevHash r.toVec)
              records := rfl
    rw [hframes]
    by_cases hle : (w.append cr r).1.file.length ≤ cut
    · have hfit : (frame cr.blake3 (trailer cr w.signingKey) w.prevHash r.toVec).length
          ≤ cut - w.file.length := by omega
      have ih' := ih (w.append cr r).1 hle
      rw [recordsBefore, if_pos hle, ih', cutFrames, if_pos hfit, hfile, ← Nat.sub_sub]
      rfl
    · have hfit : ¬ (frame cr.blake3 (trailer cr w.signingKey) w.prevHash r.toVec).length
          ≤ cut - w.file.length := by omega
      rw [recordsBefore, if_neg hle, cutFrames, if_neg hfit]
      rfl

/-- **A cut journal file** is the file of the records before the cut, followed by a proper
prefix of the next record's frame (or nothing). -/
theorem take_journalFile {path uuid : String} {key : Option SigningKey} {w : JournalWriter}
    (hnew : createNew cr none false path uuid key = .ok w) (records : List JournalRecord)
    {cut : Nat} (h4 : 4 ≤ cut) :
    ∃ t, (journalFile cr key records).take cut
        = journalFile cr key (recordsBefore cr cut w records) ++ t
      ∧ (t = [] ∨ ∃ r rest, records = recordsBefore cr cut w records ++ r :: rest
        ∧ t <+: frame cr.blake3 (trailer cr key)
            (chainHead cr (recordsBefore cr cut w records)) r.toVec
        ∧ t.length < (frame cr.blake3 (trailer cr key)
            (chainHead cr (recordsBefore cr cut w records))
            r.toVec).length) := by
  obtain rfl := createNew_eq cr hnew
  have hkept := recordsBefore_eq cr
    ⟨journalMagic, path, cr.blake3 journalMagic, 0, key, uuid, key.isSome⟩ records
    cut h4
  set kept := recordsBefore cr cut
    ⟨journalMagic, path, cr.blake3 journalMagic, 0, key, uuid, key.isSome⟩ records with hdef
  have hbodies : kept.map JournalRecord.toVec
      = wholeBodies cr.blake3 (trailer cr key) (cr.blake3 journalMagic)
          (records.map JournalRecord.toVec) (cut - 4) := by
    rw [hkept, List.map_take]
    rfl
  refine ⟨tornBytes cr.blake3 (trailer cr key) (cr.blake3 journalMagic)
    (records.map JournalRecord.toVec) (cut - 4), ?_, ?_⟩
  · rw [journalFile, List.take_append, List.take_of_length_le (by exact h4), journalFile,
      recordFrames, recordFrames, hbodies, List.append_assoc, ← take_frames_eq]
    rfl
  · rcases tornBytes_cases cr.blake3 (trailer cr key) (cr.blake3 journalMagic)
      (records.map JournalRecord.toVec) (cut - 4) with hnil | ⟨b, hb, hpre, hlt⟩
    · exact Or.inl hnil
    · right
      rw [← hbodies] at hb hpre hlt
      rw [List.length_map, List.getElem?_map] at hb
      obtain ⟨r, hr, rfl⟩ := Option.map_eq_some_iff.mp hb
      obtain ⟨hlen, hget⟩ := List.getElem?_eq_some_iff.mp hr
      refine ⟨r, records.drop (kept.length + 1), ?_, hpre, hlt⟩
      have hkept' : kept = records.take kept.length := by
        apply List.prefix_iff_eq_take.mp
        rw [hkept]
        exact List.take_prefix _ _
      calc records = records.take kept.length ++ records.drop kept.length :=
            (List.take_append_drop _ _).symm
        _ = kept ++ r :: records.drop (kept.length + 1) := by
            rw [← hkept', List.drop_eq_getElem_cons hlen, hget]

/-! ## Recovery at every cut -/

/-- The reader recovers a file cut at `cut`: exactly the records wholly before the cut, the
chain head they end in, and the rest counted as discarded. -/
def RecoversCut (w : JournalWriter) (records : List JournalRecord) (cut : Nat) : Prop :=
  let kept := recordsBefore cr cut w records
  ∃ summary, readAndVerifyChain cr codec w.path
      ((w.appendAll cr records).file.take cut) = .ok (kept, summary)
    ∧ summary.chainHead = (w.appendAll cr kept).currentChainHead
    ∧ summary.discardedTailBytes = cut - (w.appendAll cr kept).file.length

/-- The cut lies in the signature of the Header record of a sealed journal: past the magic,
the length word, the record and its digest, but before the end of the signature. -/
def CutsHeaderSignature (key : Option SigningKey) (records : List JournalRecord) (cut : Nat) :
    Prop :=
  key.isSome = true ∧ ∃ r rest, records = r :: rest
    ∧ 4 + (36 + r.toVec.length) ≤ cut ∧ cut < 4 + (100 + r.toVec.length)

theorem journalFile_nil (key : Option SigningKey) : journalFile cr key [] = journalMagic :=
  List.append_nil _

/-- In a cut of the Header's signature no record is whole. -/
theorem recordsBefore_of_cutsHeaderSignature {path uuid : String} {key : Option SigningKey}
    {w : JournalWriter} (hnew : createNew cr none false path uuid key = .ok w)
    {records : List JournalRecord} {cut : Nat} (h : CutsHeaderSignature key records cut) :
    recordsBefore cr cut w records = [] := by
  obtain ⟨hkey, r, rest, rfl, -, hlt⟩ := h
  obtain rfl := createNew_eq cr hnew
  have hlen := recordFrame_length cr key (cr.blake3 journalMagic) r
  have hover : frameOverhead key = 100 := if_pos hkey
  rw [recordsBefore, append_eq, if_neg]
  show ¬ (journalMagic ++ frame cr.blake3 (trailer cr key) (cr.blake3 journalMagic)
    r.toVec).length ≤ cut
  rw [List.length_append, hlen, hover]
  show ¬ 4 + (100 + r.toVec.length) ≤ cut
  omega

theorem recordsBefore_initial {path uuid : String} {key : Option SigningKey} {w : JournalWriter}
    (hnew : createNew cr none false path uuid key = .ok w) (records : List JournalRecord)
    {cut : Nat} (h4 : 4 ≤ cut) : recordsBefore cr cut w records <+: records := by
  rw [recordsBefore_eq cr w records _ (by rw [createNew_eq cr hnew]; exact h4)]
  exact List.take_prefix _ _

theorem WritableLog.of_initial {key : Option SigningKey} {as bs : List JournalRecord}
    (h : WritableLog cr codec key bs) (hpre : as <+: bs) : WritableLog cr codec key as := by
  obtain ⟨rest, rfl⟩ := hpre
  exact WritableLog.left cr codec h

section Cut

variable {cr codec} {path uuid : String} {key : Option SigningKey} {w : JournalWriter}
  (hnew : createNew cr none false path uuid key = .ok w) {records : List JournalRecord}
  (hlog : WritableLog cr codec key records)
  (hsize : (journalFile cr key records).length ≤ journalMaxFileBytes) {cut : Nat}
  (h4 : 4 ≤ cut) (hcut : cut ≤ (journalFile cr key records).length)

include hnew hlog h4 hcut

/-- A cut in the Header's signature is reported as corruption. -/
theorem readAndVerifyChain_cutsHeaderSignature
    (hsig : CutsHeaderSignature key records cut) :
    ∃ e, readAndVerifyChain cr codec path ((journalFile cr key records).take cut)
      = .error e := by
  obtain ⟨t, htake, ht⟩ := take_journalFile cr hnew records h4
  have hnone := recordsBefore_of_cutsHeaderSignature cr hnew hsig
  rw [hnone, journalFile_nil] at htake
  have hcutlen : journalMagic.length + t.length = cut := by
    rw [← List.length_append, ← htake, List.length_take]
    exact Nat.min_eq_left hcut
  have hmagic : journalMagic.length = 4 := rfl
  obtain ⟨hkey, r, rest, rfl, hge, hlt⟩ := hsig
  obtain ⟨sk, rfl⟩ := Option.isSome_iff_exists.mp hkey
  have hne : t ≠ [] := by
    rintro rfl
    rw [List.length_nil] at hcutlen
    omega
  rcases ht with rfl | ⟨r', rest', hsplit, hpre, hshort⟩
  · exact absurd rfl hne
  · rw [hnone, List.nil_append, List.cons.injEq] at hsplit
    obtain ⟨rfl, rfl⟩ := hsplit
    rw [hnone] at hpre hshort
    have herr := readRecord_torn_signature cr codec
      (WritableLog.of_initial cr codec hlog ⟨rest, rfl⟩) hpre hshort (by omega)
    rw [htake, readAndVerifyChain]
    split
    · exact ⟨_, rfl⟩
    · rw [readExact_append_of_length (by rfl)]
      simp only [ne_eq, not_true_eq_false, if_false, readLoop_error cr codec hne herr, bind,
        Except.bind]
      exact ⟨_, rfl⟩

include hsize

/-- Everywhere else the whole records are read back and the torn frame is discarded. -/
theorem readAndVerifyChain_take (hsig : ¬ CutsHeaderSignature key records cut) :
    readAndVerifyChain cr codec path ((journalFile cr key records).take cut)
      = .ok (recordsBefore cr cut w records,
          logSummary cr path key (recordsBefore cr cut w records)
            (cut - (journalFile cr key (recordsBefore cr cut w records)).length)) := by
  obtain ⟨t, htake, ht⟩ := take_journalFile cr hnew records h4
  have hkept := recordsBefore_initial cr hnew records h4
  set kept := recordsBefore cr cut w records
  have hcutlen : (journalFile cr key kept).length + t.length = cut := by
    rw [← List.length_append, ← htake, List.length_take]
    exact Nat.min_eq_left hcut
  have htlen : cut - (journalFile cr key kept).length = t.length := by omega
  have hsize' : (journalFile cr key kept ++ t).length ≤ journalMaxFileBytes := by
    rw [List.length_append, hcutlen]
    exact hcut.trans hsize
  rw [htake, htlen]
  apply readAndVerifyChain_log cr codec _ _ (WritableLog.of_initial cr codec hlog hkept) hsize'
  · rcases ht with rfl | ⟨r, rest, hsplit, hpre, hshort⟩
    · exact Or.inl rfl
    · right
      have hnext : kept ++ [r] <+: records := ⟨rest, by rw [hsplit]; simp⟩
      apply readRecord_torn cr codec (WritableLog.of_initial cr codec hlog hnext) hpre hshort
      -- a whole digest of record 0 would put the cut into its signature
      rintro ⟨hnone, hkey, hge⟩
      have hmagic : journalMagic.length = 4 := rfl
      rw [hnone, journalFile_nil] at hcutlen
      rw [hnone, recordFrame_length, frameOverhead, if_pos hkey] at hshort
      exact hsig ⟨hkey, r, rest, by rw [hsplit, hnone]; rfl, by omega, by omega⟩
  · rcases ht with rfl | ⟨r, rest, hsplit, hpre, -⟩
    · intro h
      exact absurd h (by decide)
    · have hfits : r.toVec.length ≤ journalMaxRecordBytes :=
        hlog.fits r (by rw [hsplit]; simp)
      have hmax : journalMaxRecordBytes < 2 ^ 32 := by decide
      exact torn_not_zero cr hpre (r.toVec_length_pos) (by omega)

end Cut

theorem not_recoversCut {path uuid : String} {key : Option SigningKey} {w : JournalWriter}
    (hnew : createNew cr none false path uuid key = .ok w) {records : List JournalRecord}
    (hlog : WritableLog cr codec key records) {cut : Nat} (h4 : 4 ≤ cut)
    (hcut : cut ≤ (w.appendAll cr records).file.length)
    (hsig : CutsHeaderSignature key records cut) : ¬ RecoversCut cr codec w records cut := by
  rintro ⟨summary, hread, -, -⟩
  have hpath : w.path = path := by rw [createNew_eq cr hnew]
  rw [createNew_appendAll cr hnew] at hcut hread
  obtain ⟨e, herr⟩ := readAndVerifyChain_cutsHeaderSignature hnew hlog h4 hcut hsig
  rw [hpath, herr] at hread
  cases hread

/-- **Torn-write recovery, exactly.** A journal written within the format's rules is
recovered at a cut if and only if the cut does not fall into the Header's signature. -/
theorem recoversCut_iff {path uuid : String} {key : Option SigningKey} {w : JournalWriter}
    (hnew : createNew cr none false path uuid key = .ok w) {records : List JournalRecord}
    (hlog : WritableLog cr codec key records)
    (hsize : (w.appendAll cr records).file.length ≤ journalMaxFileBytes) {cut : Nat}
    (h4 : 4 ≤ cut) (hcut : cut ≤ (w.appendAll cr records).file.length) :
    RecoversCut cr codec w records cut ↔ ¬ CutsHeaderSignature key records cut := by
  constructor
  · intro hrec hsig
    exact not_recoversCut cr codec hnew hlog h4 hcut hsig hrec
  · intro hsig
    have hpath : w.path = path := by rw [createNew_eq cr hnew]
    rw [createNew_appendAll cr hnew] at hsize hcut
    simp only [RecoversCut, createNew_appendAll cr hnew, hpath]
    exact ⟨_, readAndVerifyChain_take hnew hlog hsize h4 hcut hsig, rfl, rfl⟩

/-! ## The sample log at two cuts -/

def sampleWriter : JournalWriter where
  file := journalMagic
  path := "unit.dcj"
  prevHash := sampleCrypto.blake3 journalMagic
  recordCount := 0
  signingKey := some sampleKey
  uuid := "unit-uuid"
  sealed := true

theorem sampleWriter_eq :
    createNew sampleCrypto none false "unit.dcj" "unit-uuid" (some sampleKey) = .ok sampleWriter :=
  rfl

theorem sampleFile_length :
    (sampleWriter.appendAll sampleCrypto sampleLog).file.length = 1393 := by
  rw [createNew_appendAll sampleCrypto sampleWriter_eq, journalFile_length]
  simp [sampleLog, sampleHeader_length, sampleArmed_length, frameOverhead]

/-- Cut at byte 1300, in the second record: the Header is recovered. -/
theorem recoversCut_iff_sample :
    RecoversCut sampleCrypto sampleCodec sampleWriter sampleLog 1300
      ↔ ¬ CutsHeaderSignature (some sampleKey) sampleLog 1300 :=
  recoversCut_iff sampleCrypto sampleCodec sampleWriter_eq sampleLog_writable
    (by rw [sampleFile_length]; decide) (by decide) (by rw [sampleFile_length]; decide)

/-- **Cut at byte 1200, in the Header's signature**: the journal is within every rule of the
format, and the cut file is not recovered. -/
theorem headerSignature_cut_not_recovered :
    createNew sampleCrypto none false "unit.dcj" "unit-uuid" (some sampleKey) = .ok sampleWriter
      ∧ WritableLog sampleCrypto sampleCodec (some sampleKey) sampleLog
      ∧ (sampleWriter.appendAll sampleCrypto sampleLog).file.length ≤ journalMaxFileBytes
      ∧ 1200 ≤ (sampleWriter.appendAll sampleCrypto sampleLog).file.length
      ∧ ¬ RecoversCut sampleCrypto sampleCodec sampleWriter sampleLog 1200 := by
  have hcut : 1200 ≤ (sampleWriter.appendAll sampleCrypto sampleLog).file.length := by
    rw [sampleFile_length]; decide
  have hsig : CutsHeaderSignature (some sampleKey) sampleLog 1200 :=
    ⟨rfl, .header sampleHeader, [sampleArmed], rfl, by rw [sampleHeader_length]; decide,
      by rw [sampleHeader_length]; decide⟩
  exact ⟨sampleWriter_eq, sampleLog_writable, by rw [sampleFile_length]; decide, hcut,
    not_recoversCut sampleCrypto sampleCodec sampleWriter_eq sampleLog_writable (by decide) hcut
      hsig⟩

end DiscCleaner
