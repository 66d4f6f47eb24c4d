import DiscCleaner.Core.Audit

/-!
# DiscCleaner — the audit log across crashes

An audit file after any number of sessions is the magic and the frames of the records logged
(`AuditSessions.file_eq`). Cut at a byte, it is the whole records followed by a torn frame.
`openOrCreate` recovers the chain head in front of the torn frame and leaves the frame in the
file, so the next record lands behind it: the log survives a cut only if nothing is torn, or
if at most three bytes are torn and nothing is logged any more (`survivesCrash_iff`).
-/

namespace DiscCleaner

open ByteLib ChainLog AuditLogger

variable (cr : Crypto)

/-! ## Sessions -/

/-- The frames of logged records. -/
def auditFrames (written : List (AuditRecord × Digest)) : List Bytes :=
  written.map fun w => recordFrame w.1.toVec w.2

theorem auditFrames_append (as bs : List (AuditRecord × Digest)) :
    (auditFrames (as ++ bs)).flatten = (auditFrames as).flatten ++ (auditFrames bs).flatten := by
  simp [auditFrames]

/-- The digest a log ends in. -/
def lastDigest (prev : Digest) (written : List (AuditRecord × Digest)) : Digest :=
  written.foldl (fun _ w => w.2) prev

/-- The digests are chained, as far as the 32-bit length words are exact. -/
def Chained : Digest → List (AuditRecord × Digest) → Prop
  | _, [] => True
  | prev, (r, d) :: rest =>
    d = link cr.blake3 prev r.toVec ∧ (r.toVec.length < 2 ^ 32 → Chained d rest)

/-- **Audit files**: what any number of `openOrCreate` / `log` sessions leave, with the
records logged and the digests they got. -/
inductive AuditSessions (path : String) : Bytes → List (AuditRecord × Digest) → Prop where
  | none : AuditSessions path [] []
  | session {file : Bytes} {written : List (AuditRecord × Digest)} {l : AuditLogger}
      (h : AuditSessions path file written) (hopen : openOrCreate cr file false path = .ok l)
      (records : List AuditRecord) :
      AuditSessions path (l.logAll cr records).1.file (written ++ (l.logAll cr records).2)

/-! ### Logging -/

theorem auditFrame_length (body : Bytes) (d : Digest) :
    (recordFrame body d).length = 36 + body.length := by
  simp only [recordFrame, List.length_append, le32_length, d.size]
  omega

theorem logAll_records (l : AuditLogger) (records : List AuditRecord) :
    (l.logAll cr records).2.map Prod.fst = records := by
  induction records generalizing l with
  | nil => rfl
  | cons r rs ih => rw [logAll, List.map_cons, ih]

/-- A run of `log` calls adds the frames of its records. -/
theorem logAll_file (l : AuditLogger) (records : List AuditRecord) :
    (l.logAll cr records).1.file
      = l.file ++ (auditFrames (l.logAll cr records).2).flatten := by
  induction records generalizing l with
  | nil => simp [logAll, auditFrames]
  | cons r rs ih =>
    rw [logAll]
    simp only [ih, auditFrames, List.map_cons, List.flatten_cons]
    simp only [log, List.append_assoc]

theorem logAll_chained (l : AuditLogger) (records : List AuditRecord) :
    Chained cr l.prevHash (l.logAll cr records).2 := by
  induction records generalizing l with
  | nil => trivial
  | cons r rs ih => exact ⟨rfl, fun _ => ih (l.log cr r).1⟩

theorem Chained.append {prev : Digest} {as bs : List (AuditRecord × Digest)}
    (ha : Chained cr prev as)
    (hb : (∀ w ∈ as, w.1.toVec.length < 2 ^ 32) → Chained cr (lastDigest prev as) bs) :
    Chained cr prev (as ++ bs) := by
  induction as generalizing prev with
  | nil => exact hb (by simp)
  | cons a as ih =>
    obtain ⟨hd, hrest⟩ := ha
    refine ⟨hd, fun hsmall => ih (hrest hsmall) ?_⟩
    intro hall
    apply hb
    intro w hw
    rcases List.mem_cons.mp hw with rfl | hw
    · exact hsmall
    · exact hall w hw

theorem Chained.take {prev : Digest} {ws : List (AuditRecord × Digest)} (h : Chained cr prev ws)
    (k : Nat) : Chained cr prev (ws.take k) := by
  induction ws generalizing prev k with
  | nil => rw [List.take_nil]; exact h
  | cons w ws ih =>
    cases k with
    | zero => trivial
    | succ k => exact ⟨h.1, fun hsmall => ih (h.2 hsmall) k⟩

/-! ### Scanning -/

theorem scanRecord_short {recStart : Nat} {rest : Bytes} (h : rest.length < 4) :
    scanRecord recStart rest = .ok .stop := by
  rw [scanRecord, readExact_eq_none.mpr h]

/-- A turn of the scan on a whole frame. -/
theorem scanRecord_frame (recStart : Nat) {body : Bytes} (d : Digest) (rest : Bytes)
    (hpos : 0 < body.length) (hword : body.length < 2 ^ 32) :
    scanRecord recStart (recordFrame body d ++ rest)
      = if auditMaxRecordBytes < body.length then .error (corruptLength body.length recStart)
        else .ok (.next body d rest) := by
  have hframe : recordFrame body d ++ rest = le32 body.length ++ (body ++ (d.bytes ++ rest)) := by
    simp [recordFrame]
  rw [hframe, scanRecord, readExact_append_of_length (le32_length _)]
  simp only [ofLe_le32 hword]
  by_cases hbig : auditMaxRecordBytes < body.length
  · rw [if_pos (Or.inr hbig), if_pos hbig]
  · rw [if_neg (by omega), if_neg hbig, readExact_append]
    simp only [readBlock_append]

theorem lastHash_stop {prev : Digest} {recStart : Nat} {rest : Bytes}
    (h : scanRecord recStart rest = .ok .stop) : lastHash prev recStart rest = .ok prev := by
  rw [lastHash]
  split
  · next h' => simp [h] at h'
  · rfl
  · next h' => simp [h] at h'

theorem lastHash_next {prev hash : Digest} {recStart : Nat} {rest record rest' : Bytes}
    (h : scanRecord recStart rest = .ok (.next record hash rest')) :
    lastHash prev recStart rest
      = lastHash hash (recStart + (4 + record.length + 32)) rest' := by
  rw [lastHash]
  split
  · next h' => simp [h] at h'
  · next h' => simp [h] at h'
  · next h' =>
    rw [h] at h'
    cases h'
    rfl

theorem lastHash_error {prev : Digest} {recStart : Nat} {rest : Bytes} {e : DcError}
    (h : scanRecord recStart rest = .error e) : lastHash prev recStart rest = .error e := by
  rw [lastHash]
  split
  · next h' => exact congrArg Except.error (Except.error.inj (h'.symm.trans h))
  · next h' => simp [h] at h'
  · next h' => simp [h] at h'

theorem auditFrames_cons (w : AuditRecord × Digest) (ws : List (AuditRecord × Digest))
    (tail : Bytes) :
    (auditFrames (w :: ws)).flatten ++ tail
      = recordFrame w.1.toVec w.2 ++ ((auditFrames ws).flatten ++ tail) := by
  simp [auditFrames]

/-- **Scan lemma**: when the scan accepts a log whose length words are exact, no record is
over the cap and the scan goes on behind it with the log's last digest. Induction on the
records. -/
theorem lastHash_frames {prev h : Digest} {recStart : Nat}
    {ws : List (AuditRecord × Digest)} {tail : Bytes}
    (hword : ∀ w ∈ ws, w.1.toVec.length < 2 ^ 32)
    (hscan : lastHash prev recStart ((auditFrames ws).flatten ++ tail) = .ok h) :
    (∀ w ∈ ws, w.1.toVec.length ≤ auditMaxRecordBytes)
      ∧ ∃ recStart', lastHash (lastDigest prev ws) recStart' tail = .ok h := by
  induction ws generalizing prev recStart with
  | nil => exact ⟨by simp, recStart, hscan⟩
  | cons w ws ih =>
    have hturn := scanRecord_frame recStart w.2 ((auditFrames ws).flatten ++ tail)
      w.1.toVec_length_pos (hword w (by simp))
    rw [auditFrames_cons] at hscan
    by_cases hbig : auditMaxRecordBytes < w.1.toVec.length
    · rw [if_pos hbig] at hturn
      rw [lastHash_error hturn] at hscan
      cases hscan
    · rw [if_neg hbig] at hturn
      rw [lastHash_next hturn] at hscan
      obtain ⟨hrest, recStart', hend⟩ := ih (fun x hx => hword x (by simp [hx])) hscan
      refine ⟨?_, recStart', hend⟩
      intro x hx
      rcases List.mem_cons.mp hx with rfl | hx
      · exact not_lt.mp hbig
      · exact hrest x hx

/-- The scan accepts a log within the cap. -/
theorem lastHash_frames_of_le (prev : Digest) (recStart : Nat)
    {ws : List (AuditRecord × Digest)} (tail : Bytes)
    (hle : ∀ w ∈ ws, w.1.toVec.length ≤ auditMaxRecordBytes) :
    ∃ recStart', lastHash prev recStart ((auditFrames ws).flatten ++ tail)
      = lastHash (lastDigest prev ws) recStart' tail := by
  have hmax : auditMaxRecordBytes < 2 ^ 32 := by decide
  induction ws generalizing prev recStart with
  | nil => exact ⟨recStart, rfl⟩
  | cons w ws ih =>
    have hw := hle w (by simp)
    obtain ⟨recStart', ih'⟩ := ih w.2
      (recStart + (4 + w.1.toVec.length + 32)) (fun x hx => hle x (by simp [hx]))
    have hturn := scanRecord_frame recStart w.2 ((auditFrames ws).flatten ++ tail)
      w.1.toVec_length_pos (by omega)
    rw [if_neg (by omega)] at hturn
    exact ⟨recStart', by rw [auditFrames_cons, lastHash_next hturn, ih']; rfl⟩

/-! ### The invariant of sessions -/

theorem openOrCreate_nil (path : String) :
    openOrCreate cr [] false path = .ok ⟨auditMagic, path, cr.blake3 auditMagic⟩ := rfl

/-- Opening a file that has its magic is scanning what follows it. -/
theorem openOrCreate_magic (rest : Bytes) (path : String) :
    openOrCreate cr (auditMagic ++ rest) false path
      = (lastHash (cr.blake3 auditMagic) 4 rest).map
          fun h => ⟨auditMagic ++ rest, path, h⟩ := by
  have hpos : 0 < (auditMagic ++ rest).length := Nat.succ_pos _
  rw [openOrCreate, if_neg Bool.false_ne_true, if_pos hpos, readExact_append_of_length (by rfl)]
  simp only [ne_eq, not_true_eq_false, if_false]
  cases lastHash (cr.blake3 auditMagic) 4 rest <;> rfl

/-- **Session invariant**: the file holds the frames of the records logged, chained from the
seed as far as the length words are exact. -/
theorem AuditSessions.file_eq {path : String} {file : Bytes}
    {written : List (AuditRecord × Digest)} (h : AuditSessions cr path file written) :
    (file = [] ∧ written = [] ∨ file = auditMagic ++ (auditFrames written).flatten)
      ∧ Chained cr (cr.blake3 auditMagic) written := by
  induction h with
  | none => exact ⟨Or.inl ⟨rfl, rfl⟩, trivial⟩
  | @session file written l _ hopen records ih =>
    obtain ⟨hfile, hchain⟩ := ih
    have hnew := logAll_chained cr l records
    rw [logAll_file, auditFrames_append]
    rcases hfile with ⟨rfl, rfl⟩ | rfl
    · rw [openOrCreate_nil] at hopen
      cases hopen
      exact ⟨Or.inr rfl, hnew⟩
    · rw [openOrCreate_magic] at hopen
      cases hscan : lastHash (cr.blake3 auditMagic) 4 (auditFrames written).flatten with
      | error e => rw [hscan] at hopen; cases hopen
      | ok head =>
        rw [hscan] at hopen
        cases hopen
        refine ⟨Or.inr (List.append_assoc _ _ _), Chained.append cr hchain ?_⟩
        intro hsmall
        rw [← List.append_nil (auditFrames written).flatten] at hscan
        obtain ⟨-, recStart', hend⟩ := lastHash_frames hsmall hscan
        rw [lastHash_stop (scanRecord_short (by decide))] at hend
        cases hend
        exact hnew

/-! ## Verifying -/

theorem verifyLoop_stop {count recStart : Nat} {prev : Digest} {rest : Bytes}
    (h : rest.length < 4) : verifyLoop cr count prev recStart rest = .ok (count, prev) := by
  have hturn : verifyRecord cr count prev recStart rest = .ok .stop := by
    rw [verifyRecord, readExact_eq_none.mpr h]
  rw [verifyLoop]
  split
  · next h' => simp [hturn] at h'
  · rfl
  · next h' => simp [hturn] at h'

/-- The verifier passes over one chained frame within the cap. -/
theorem verifyLoop_frame {count recStart : Nat} {prev : Digest} {body : Bytes} (rest : Bytes)
    (hpos : 0 < body.length) (hcap : body.length ≤ auditMaxRecordBytes) :
    verifyLoop cr count prev recStart
        (recordFrame body (link cr.blake3 prev body) ++ rest)
      = verifyLoop cr (count + 1) (link cr.blake3 prev body)
          (recStart + (4 + body.length + 32)) rest := by
  have hmax : auditMaxRecordBytes < 2 ^ 32 := by decide
  have hframe : recordFrame body (link cr.blake3 prev body) ++ rest
      = le32 body.length ++ (body ++ ((link cr.blake3 prev body).bytes ++ rest)) := by
    simp [recordFrame]
  have hlong : ¬ (le32 body.length
      ++ (body ++ ((link cr.blake3 prev body).bytes ++ rest))).length
        < 4 + body.length + 32 := by
    simp only [List.length_append, le32_length, Block.size]
    omega
  have hturn : verifyRecord cr count prev recStart
      (recordFrame body (link cr.blake3 prev body) ++ rest)
        = .ok (.next body (link cr.blake3 prev body) rest) := by
    rw [hframe, verifyRecord, readExact_append_of_length (le32_length _)]
    simp only [ofLe_le32 (show body.length < 2 ^ 32 by omega)]
    rw [if_neg (by omega), if_neg hlong, readExact_append]
    simp only [readBlock_append]
    exact if_neg (not_not.mpr rfl)
  rw [verifyLoop]
  split
  · next h' => simp [hturn] at h'
  · next h' => simp [hturn] at h'
  · next h' =>
    rw [hturn] at h'
    cases h'
    rfl

/-- **Run lemma**: the verifier passes over a chained log within the cap. -/
theorem verifyLoop_frames (count recStart : Nat) {prev : Digest}
    {ws : List (AuditRecord × Digest)} (tail : Bytes) (hchain : Chained cr prev ws)
    (hcap : ∀ w ∈ ws, w.1.toVec.length ≤ auditMaxRecordBytes) :
    ∃ recStart', verifyLoop cr count prev recStart ((auditFrames ws).flatten ++ tail)
      = verifyLoop cr (count + ws.length) (lastDigest prev ws) recStart' tail := by
  have hmax : auditMaxRecordBytes < 2 ^ 32 := by decide
  induction ws generalizing count prev recStart with
  | nil => exact ⟨recStart, rfl⟩
  | cons w ws ih =>
    obtain ⟨r, d⟩ := w
    obtain ⟨rfl, hrest⟩ := hchain
    have hr : r.toVec.length ≤ auditMaxRecordBytes :=
      hcap (r, link cr.blake3 prev r.toVec) List.mem_cons_self
    obtain ⟨recStart', ih'⟩ := ih (count + 1)
      (recStart + (4 + r.toVec.length + 32)) (hrest (lt_of_le_of_lt hr hmax))
      (fun x hx => hcap x (List.mem_cons_of_mem _ hx))
    refine ⟨recStart', ?_⟩
    rw [auditFrames_cons, verifyLoop_frame cr _ r.toVec_length_pos hr, ih', List.length_cons,
      Nat.add_assoc, Nat.add_comm 1]
    rfl

/-- The bytes of the frames around these record strings. -/
def framedLength (strings : List Bytes) : Nat := (strings.map fun s => 36 + s.length).sum

/-- **What the verifier accepts**: record strings within the cap that fill the file but for at
most three bytes. Induction on the bytes still to be read. -/
theorem verifyLoop_inv {count recStart n : Nat} {prev h : Digest} {rest : Bytes}
    (hok : verifyLoop cr count prev recStart rest = .ok (n, h)) :
    ∃ m, n = count + m
      ∧ (∀ s ∈ splitBodies 32 m rest, s.length ≤ auditMaxRecordBytes)
      ∧ framedLength (splitBodies 32 m rest) ≤ rest.length
      ∧ rest.length < framedLength (splitBodies 32 m rest) + 4 := by
  induction hn : rest.length using Nat.strong_induction_on generalizing count prev recStart rest with
  | _ k ih =>
    rw [verifyLoop] at hok
    split at hok
    · cases hok
    · next hstop =>
      cases hok
      have hshort := verifyRecord_stop_inv cr hstop
      exact ⟨0, rfl, by simp [splitBodies], by simp [framedLength, splitBodies],
        by simp [framedLength, splitBodies]; omega⟩
    · next record hash rest' hnext =>
      obtain ⟨hscan, -⟩ := verifyRecord_next_inv cr hnext
      have hlt := scanRecord_next_length_lt hscan
      obtain ⟨m, hm, hcap, hle, hge⟩ := ih rest'.length (by omega) hok rfl
      obtain ⟨lenBuf, rfl, hlen4, hlen, -, hreccap⟩ := scanRecord_next_inv hscan
      have hsplit := splitBodies_succ m rest' hlen4 hlen hash.size
      refine ⟨m + 1, by omega, ?_, ?_, ?_⟩
      · intro s hs
        rw [hsplit] at hs
        rcases List.mem_cons.mp hs with rfl | hs
        · exact hreccap
        · exact hcap s hs
      · rw [hsplit, ← hn]
        simp only [framedLength, List.map_cons, List.sum_cons, List.length_append, hlen4,
          hash.size] at hle ⊢
        omega
      · rw [hsplit, ← hn]
        simp only [framedLength, List.map_cons, List.sum_cons, List.length_append, hlen4,
          hash.size] at hge ⊢
        omega

/-! ## Cutting an audit file -/

/-- The records whose frames lie wholly in the first `cut` bytes. -/
def wholeRecords (written : List (AuditRecord × Digest)) (cut : Nat) :
    List (AuditRecord × Digest) :=
  written.take (cutFrames (auditFrames written) (cut - 4)).1.length

/-- What the cut leaves of the next frame. -/
def tornFrame (written : List (AuditRecord × Digest)) (cut : Nat) : Bytes :=
  (cutFrames (auditFrames written) (cut - 4)).2

theorem take_auditFile (written : List (AuditRecord × Digest)) {cut : Nat} (h4 : 4 ≤ cut) :
    (auditMagic ++ (auditFrames written).flatten).take cut
      = auditMagic ++ ((auditFrames (wholeRecords written cut)).flatten
          ++ tornFrame written cut) := by
  have hwhole : auditFrames (wholeRecords written cut)
      = (cutFrames (auditFrames written) (cut - 4)).1 := by
    rw [cutFrames_fst, auditFrames, wholeRecords, List.map_take]
    rfl
  rw [List.take_append, List.take_of_length_le (by exact h4), hwhole, tornFrame,
    ← take_flatten_eq]
  rfl

theorem splitBodies_auditFrames {ws : List (AuditRecord × Digest)} (n : Nat) (tail : Bytes)
    (hword : ∀ w ∈ ws, w.1.toVec.length < 2 ^ 32) :
    splitBodies 32 (ws.length + n) ((auditFrames ws).flatten ++ tail)
      = ws.map (fun w => w.1.toVec) ++ splitBodies 32 n tail := by
  induction ws with
  | nil => rw [List.length_nil, Nat.zero_add]; rfl
  | cons w ws ih =>
    have hframe : recordFrame w.1.toVec w.2 ++ ((auditFrames ws).flatten ++ tail)
        = le32 w.1.toVec.length
          ++ (w.1.toVec ++ (w.2.bytes ++ ((auditFrames ws).flatten ++ tail))) := by
      simp [recordFrame]
    have hlen : (w :: ws).length + n = (ws.length + n) + 1 := by
      rw [List.length_cons]
      omega
    rw [auditFrames_cons, hframe, hlen,
      splitBodies_succ _ _ (le32_length _) (ofLe_le32 (hword w List.mem_cons_self)) w.2.size,
      ih fun x hx => hword x (List.mem_cons_of_mem _ hx)]
    rfl

theorem auditFrames_flatten_length (ws : List (AuditRecord × Digest)) :
    (auditFrames ws).flatten.length = framedLength (ws.map fun w => w.1.toVec) := by
  induction ws with
  | nil => rfl
  | cons w ws ih =>
    have hcons := auditFrames_cons w ws []
    rw [List.append_nil, List.append_nil] at hcons
    rw [hcons, List.length_append, auditFrame_length, ih]
    rfl

theorem framedLength_append (as bs : List Bytes) :
    framedLength (as ++ bs) = framedLength as + framedLength bs := by
  simp [framedLength]

/-! ## Surviving a crash -/

/-- Re-opening a file cut at `cut` and logging `new` yields a file the verifier accepts and
whose records are the whole ones before the cut followed by the new ones. -/
def SurvivesCrash (path : String) (file : Bytes) (written : List (AuditRecord × Digest))
    (cut : Nat) (new : List AuditRecord) : Prop :=
  ∃ l, openOrCreate cr (file.take cut) false path = .ok l
    ∧ ∃ count head, verifyAuditFile cr (l.logAll cr new).1.file = .ok (count, head)
      ∧ splitBodies 32 count ((l.logAll cr new).1.file.drop 4)
          = (wholeRecords written cut).map (fun w => w.1.toVec) ++ new.map AuditRecord.toVec

/-- The cut is harmless: it empties the file, or it keeps the magic and tears nothing, or it
tears at most three bytes and nothing more is logged; and the whole records can be scanned. -/
def CrashSafe (written : List (AuditRecord × Digest)) (cut : Nat) (new : List AuditRecord) :
    Prop :=
  cut = 0 ∨ 4 ≤ cut ∧ (∀ w ∈ wholeRecords written cut, w.1.toVec.length ≤ auditMaxRecordBytes)
    ∧ (tornFrame written cut = [] ∨ new = [] ∧ (tornFrame written cut).length ≤ 3)

theorem verifyAuditFile_magic (rest : Bytes) :
    verifyAuditFile cr (auditMagic ++ rest)
      = (verifyLoop cr 0 (cr.blake3 auditMagic) 4 rest).map
          fun out => (out.1, hexEncode out.2.bytes) := by
  rw [verifyAuditFile, readExact_append_of_length (by rfl)]
  simp only [ne_eq, not_true_eq_false, if_false]
  cases verifyLoop cr 0 (cr.blake3 auditMagic) 4 rest <;> rfl

/-- The log after a cut that keeps `kept` and `torn`: what `openOrCreate` yields when it
accepts the file, and what is in the file after logging. -/
theorem logAll_after_cut {path : String} {kept : List (AuditRecord × Digest)} {torn : Bytes}
    {l : AuditLogger}
    (hopen : openOrCreate cr (auditMagic ++ ((auditFrames kept).flatten ++ torn)) false path
      = .ok l) (new : List AuditRecord) :
    (l.logAll cr new).1.file = auditMagic ++ ((auditFrames kept).flatten ++ (torn
      ++ (auditFrames (l.logAll cr new).2).flatten)) := by
  rw [openOrCreate_magic] at hopen
  cases hscan : lastHash (cr.blake3 auditMagic) 4 ((auditFrames kept).flatten ++ torn) with
  | error e => rw [hscan] at hopen; cases hopen
  | ok head =>
    rw [hscan] at hopen
    cases hopen
    rw [logAll_file]
    simp only [List.append_assoc]

theorem logAll_strings (l : AuditLogger) (new : List AuditRecord) :
    (l.logAll cr new).2.map (fun w => w.1.toVec) = new.map AuditRecord.toVec := by
  rw [← logAll_records cr l new, List.map_map]
  rw [logAll_records]
  rfl

/-- **A log written behind nothing but whole records verifies.** -/
theorem verifyAuditFile_logAll (path : String) (kept : List (AuditRecord × Digest))
    (torn : Bytes) (hchain : Chained cr (cr.blake3 auditMagic) kept)
    (hkept : ∀ w ∈ kept, w.1.toVec.length ≤ auditMaxRecordBytes)
    {new : List AuditRecord} (hnew : ∀ r ∈ new, r.toVec.length ≤ auditMaxRecordBytes)
    (htorn : torn = [] ∨ new = [] ∧ torn.length ≤ 3) :
    ∃ l, openOrCreate cr (auditMagic ++ ((auditFrames kept).flatten ++ torn)) false path = .ok l
      ∧ ∃ count head, verifyAuditFile cr (l.logAll cr new).1.file = .ok (count, head)
        ∧ splitBodies 32 count ((l.logAll cr new).1.file.drop 4)
            = kept.map (fun w => w.1.toVec) ++ new.map AuditRecord.toVec := by
  have hmax : auditMaxRecordBytes < 2 ^ 32 := by decide
  have hshort : torn.length < 4 := by
    rcases htorn with rfl | ⟨-, hle⟩
    · decide
    · omega
  obtain ⟨recStart, hscan⟩ := lastHash_frames_of_le (cr.blake3 auditMagic) 4
    torn hkept
  rw [lastHash_stop (scanRecord_short hshort)] at hscan
  have hopen : openOrCreate cr (auditMagic ++ ((auditFrames kept).flatten ++ torn)) false path
      = .ok ⟨auditMagic ++ ((auditFrames kept).flatten ++ torn), path,
          lastDigest (cr.blake3 auditMagic) kept⟩ := by
    rw [openOrCreate_magic, hscan]
    rfl
  refine ⟨_, hopen, ?_⟩
  rw [logAll_after_cut cr hopen]
  set l : AuditLogger := ⟨auditMagic ++ ((auditFrames kept).flatten ++ torn), path,
    lastDigest (cr.blake3 auditMagic) kept⟩
  have hchained := Chained.append cr hchain fun _ => logAll_chained cr l new
  have hstrings := logAll_strings cr l new
  have hlognew : ∀ w ∈ (l.logAll cr new).2, w.1.toVec.length ≤ auditMaxRecordBytes := by
    intro w hw
    apply hnew
    rw [← logAll_records cr l new]
    exact List.mem_map_of_mem hw
  have hall : ∀ w ∈ kept ++ (l.logAll cr new).2, w.1.toVec.length ≤ auditMaxRecordBytes := by
    intro w hw
    rcases List.mem_append.mp hw with hw | hw
    · exact hkept w hw
    · exact hlognew w hw
  -- the torn bytes are nothing, or they end the file
  have hrest : (auditFrames kept).flatten ++ (torn ++ (auditFrames (l.logAll cr new).2).flatten)
      = (auditFrames (kept ++ (l.logAll cr new).2)).flatten ++ torn := by
    rw [auditFrames_append]
    rcases htorn with rfl | ⟨rfl, -⟩
    · simp
    · simp [logAll, auditFrames]
  rw [hrest]
  obtain ⟨recStart', hverify⟩ := verifyLoop_frames cr 0 4 torn hchained hall
  rw [verifyLoop_stop cr hshort, Nat.zero_add] at hverify
  refine ⟨(kept ++ (l.logAll cr new).2).length,
    hexEncode (lastDigest (cr.blake3 auditMagic) (kept ++ (l.logAll cr new).2)).bytes, ?_, ?_⟩
  · rw [verifyAuditFile_magic, hverify]
    rfl
  · show splitBodies 32 (kept ++ (l.logAll cr new).2).length
      ((auditFrames (kept ++ (l.logAll cr new).2)).flatten ++ torn) = _
    have hsplit := splitBodies_auditFrames 0 torn
      (fun w hw => lt_of_le_of_lt (hall w hw) hmax)
    rw [Nat.add_zero] at hsplit
    rw [hsplit, List.map_append, hstrings]
    exact List.append_nil _

/-! ### What a torn frame does to the next record -/

theorem openOrCreate_short (file : Bytes) (hpos : 0 < file.length) (h4 : file.length < 4)
    (path : String) : ∃ e, openOrCreate cr file false path = .error e := by
  rw [openOrCreate, if_neg Bool.false_ne_true, if_pos hpos, readExact_eq_none.mpr h4]
  exact ⟨_, rfl⟩

/-- One to three torn bytes shift the next frame: its length word is read as the start of its
record. A record within the cap has small high length bytes, a record's text starts with a
brace and a quote, so the shifted bytes are not the record. -/
theorem shifted_ne_record {torn body more : Bytes} (hpos : 0 < torn.length)
    (hshort : torn.length < 4) (hcap : body.length ≤ auditMaxRecordBytes)
    (hhead : ∃ text, body = Json.openBrace :: Json.quoteByte :: text) (n : Nat) :
    ((torn ++ (le32 body.length ++ more)).drop 4).take n ≠ body := by
  obtain ⟨text, htext⟩ := hhead
  have hmax : auditMaxRecordBytes = 1048576 := rfl
  have hhigh : UInt8.ofNat (body.length / 16777216) = 0 := by
    rw [Nat.div_eq_of_lt (by omega)]
    rfl
  have hmid : UInt8.ofNat (body.length / 65536) ≠ Json.quoteByte := by
    intro h
    have hval := congrArg UInt8.toNat h
    rw [UInt8.toNat_ofNat'] at hval
    have hquote : Json.quoteByte.toNat = 34 := rfl
    omega
  intro heq
  have h := heq.trans htext
  match torn, hpos, hshort with
  | [a], _, _ =>
    cases n with
    | zero => cases h
    | succ n =>
      have hfirst : UInt8.ofNat (body.length / 16777216) = Json.openBrace :=
        (List.cons.inj h).1
      rw [hhigh] at hfirst
      exact absurd hfirst (by decide)
  | [a, b], _, _ =>
    match n with
    | 0 => cases h
    | 1 => cases (List.cons.inj h).2
    | n + 2 =>
      have hsecond : UInt8.ofNat (body.length / 16777216) = Json.quoteByte :=
        (List.cons.inj (List.cons.inj h).2).1
      rw [hhigh] at hsecond
      exact absurd hsecond (by decide)
  | [a, b, c], _, _ =>
    match n with
    | 0 => cases h
    | 1 => cases (List.cons.inj h).2
    | n + 2 => exact hmid (List.cons.inj (List.cons.inj h).2).1
  | _ :: _ :: _ :: _ :: _, _, hlong => simp at hlong; omega

/-- **What survival takes**: the verifier leaves at most three bytes of the file over, so no
more can be torn; and a torn frame of fewer bytes lets no further record through. -/
theorem crashSafe_of_survives {path : String} {kept : List (AuditRecord × Digest)}
    {torn : Bytes} {new : List AuditRecord}
    (hnew : ∀ r ∈ new, r.toVec.length ≤ auditMaxRecordBytes) {l : AuditLogger}
    (hopen : openOrCreate cr (auditMagic ++ ((auditFrames kept).flatten ++ torn)) false path
      = .ok l) {count : Nat} {head : String}
    (hverify : verifyAuditFile cr (l.logAll cr new).1.file = .ok (count, head))
    (hsplit : splitBodies 32 count ((l.logAll cr new).1.file.drop 4)
      = kept.map (fun w => w.1.toVec) ++ new.map AuditRecord.toVec) :
    (∀ w ∈ kept, w.1.toVec.length ≤ auditMaxRecordBytes)
      ∧ (torn = [] ∨ new = [] ∧ torn.length ≤ 3) := by
  have hmax : auditMaxRecordBytes < 2 ^ 32 := by decide
  rw [logAll_after_cut cr hopen] at hverify hsplit
  rw [verifyAuditFile_magic] at hverify
  rw [List.drop_left' (by rfl)] at hsplit
  set rest := (auditFrames kept).flatten ++ (torn ++ (auditFrames (l.logAll cr new).2).flatten)
  cases hloop : verifyLoop cr 0 (cr.blake3 auditMagic) 4 rest with
  | error e => rw [hloop] at hverify; cases hverify
  | ok out =>
    obtain ⟨n, h⟩ := out
    rw [hloop] at hverify
    cases hverify
    obtain ⟨m, hm, hcap, -, hge⟩ := verifyLoop_inv cr hloop
    rw [Nat.zero_add] at hm
    subst hm
    rw [hsplit] at hcap hge
    have hkept : ∀ w ∈ kept, w.1.toVec.length ≤ auditMaxRecordBytes := fun w hw =>
      hcap _ (List.mem_append_left _ (List.mem_map_of_mem hw))
    have hlen : rest.length = framedLength (kept.map fun w => w.1.toVec)
        + (torn.length + framedLength (new.map AuditRecord.toVec)) := by
      simp only [rest, List.length_append, auditFrames_flatten_length, logAll_strings]
    rw [framedLength_append, hlen] at hge
    refine ⟨hkept, ?_⟩
    by_cases htorn : torn = []
    · exact Or.inl htorn
    · right
      refine ⟨?_, by omega⟩
      cases new with
      | nil => rfl
      | cons r rs =>
        have hcount : n = kept.length + (rs.length + 1) := by
          have := congrArg List.length hsplit
          rw [splitBodies_length, List.length_append, List.length_map, List.length_map,
            List.length_cons] at this
          exact this
        rw [hcount, splitBodies_auditFrames _ _
          (fun w hw => lt_of_le_of_lt (hkept w hw) hmax)] at hsplit
        have hfirst := List.append_cancel_left hsplit
        have hframes : (auditFrames (l.logAll cr (r :: rs)).2).flatten
            = le32 r.toVec.length ++ (r.toVec
              ++ ((l.log cr r).2.bytes
                ++ (auditFrames ((l.log cr r).1.logAll cr rs).2).flatten)) := by
          simp [logAll, auditFrames, recordFrame]
        rw [hframes, splitBodies, List.map_cons] at hfirst
        exact absurd (List.cons.inj hfirst).1
          (shifted_ne_record (List.length_pos_iff.mpr htorn) (by omega) (hnew r List.mem_cons_self)
            r.toVec_head _)

/-- **Surviving a crash, exactly.** An audit file cut at any byte and re-opened goes on as a
log the verifier accepts, with all whole records and the new ones, if and only if the cut is
harmless. -/
theorem survivesCrash_iff {path : String} {file : Bytes}
    {written : List (AuditRecord × Digest)} (h : AuditSessions cr path file written) {cut : Nat}
    (hcut : cut ≤ file.length) {new : List AuditRecord}
    (hnew : ∀ r ∈ new, r.toVec.length ≤ auditMaxRecordBytes) :
    SurvivesCrash cr path file written cut new ↔ CrashSafe written cut new := by
  obtain ⟨hfile, hchain⟩ := h.file_eq
  by_cases hzero : cut = 0
  · -- an emptied file is a new log
    subst hzero
    refine ⟨fun _ => Or.inl rfl, fun _ => ?_⟩
    have hkept : wholeRecords written 0 = [] := by
      unfold wholeRecords
      cases written with
      | nil => rfl
      | cons w ws =>
        rw [auditFrames, List.map_cons, cutFrames, if_neg (by rw [auditFrame_length]; omega)]
        rfl
    have hnone := verifyAuditFile_logAll cr path [] [] trivial
      (by simp) hnew (Or.inl rfl)
    obtain ⟨l, hopen, hverify⟩ := hnone
    have hfresh : openOrCreate cr (auditMagic ++ ((auditFrames []).flatten ++ [])) false path
        = openOrCreate cr [] false path := by
      show openOrCreate cr (auditMagic ++ []) false path = _
      rw [openOrCreate_magic, lastHash_stop (scanRecord_short (by decide))]
      rfl
    rw [hfresh] at hopen
    unfold SurvivesCrash
    rw [hkept]
    exact ⟨l, hopen, hverify⟩
  · have hfile' : file = auditMagic ++ (auditFrames written).flatten := by
      rcases hfile with ⟨rfl, -⟩ | hfile
      · exact absurd (Nat.le_zero.mp hcut) hzero
      · exact hfile
    by_cases h4 : 4 ≤ cut
    · have htake := take_auditFile written h4
      rw [← hfile'] at htake
      constructor
      · rintro ⟨l, hopen, count, head, hverify, hsplit⟩
        rw [htake] at hopen
        exact Or.inr ⟨h4, crashSafe_of_survives cr hnew hopen hverify hsplit⟩
      · rintro (hcut0 | ⟨-, hkept, htorn⟩)
        · exact absurd hcut0 hzero
        · unfold SurvivesCrash
          rw [htake]
          exact verifyAuditFile_logAll cr _ _ _ (Chained.take cr hchain _) hkept hnew htorn
    · -- fewer than four bytes are no magic
      have hlen : (file.take cut).length = cut := List.length_take_of_le hcut
      obtain ⟨e, he⟩ := openOrCreate_short cr (file.take cut) (by omega) (by omega) path
      constructor
      · rintro ⟨l, hopen, -⟩
        rw [he] at hopen
        cases hopen
      · rintro (hcut0 | ⟨hle, -⟩)
        · exact absurd hcut0 hzero
        · exact absurd hle h4

/-! ### A log of one record, at two cuts -/

def sampleAuditRecord (tag : String) : AuditRecord where
  timestampUtc := "2026-01-01T00:00:00Z"
  argvHash := tag
  targetPath := none
  outcome := .planCompiled tag

def sampleAuditSeed : Digest :=
  Block.ofNat 32 0xf9f147525912faecd14b3ed9d9d2150515fea8f5625829c0a396ca9dbacfe097

def sampleAuditHead : Digest :=
  Block.ofNat 32 0x599998cb6c4a8585ca5aa73f130cd8a2b12e6e08199af131c7361d5d5b60a2c8

/-- BLAKE3 on the strings the two cuts hash. -/
def sampleAuditCrypto : Crypto :=
  tableCrypto (Block.ofNat 32 0)
    [(auditMagic, sampleAuditSeed),
     ((sampleAuditRecord "rec-1").toVec ++ sampleAuditSeed.bytes, sampleAuditHead),
     ((sampleAuditRecord "rec-2").toVec ++ sampleAuditHead.bytes,
      Block.ofNat 32 0xb66747456905ff23c53974ff1718fb058363b2569c78c5be6684dd5440c15979),
     ((sampleAuditRecord "rec-2").toVec ++ sampleAuditSeed.bytes,
      Block.ofNat 32 0x55edad1fdc113bbe57dee9b9f7c30fd534fb5b075f134f2b12f50bc27a82b674)]
    []

/-- The logger of a new audit file. -/
def sampleAuditLogger : AuditLogger :=
  ⟨auditMagic, "audit.log", sampleAuditCrypto.blake3 auditMagic⟩

def sampleAuditFile : Bytes :=
  (sampleAuditLogger.logAll sampleAuditCrypto [sampleAuditRecord "rec-1"]).1.file

def sampleAuditWritten : List (AuditRecord × Digest) :=
  (sampleAuditLogger.logAll sampleAuditCrypto [sampleAuditRecord "rec-1"]).2

theorem sampleAuditSessions :
    AuditSessions sampleAuditCrypto "audit.log" sampleAuditFile sampleAuditWritten :=
  AuditSessions.session AuditSessions.none (openOrCreate_nil sampleAuditCrypto "audit.log")
    [sampleAuditRecord "rec-1"]

theorem sampleAuditRecord_length :
    (sampleAuditRecord "rec-1").toVec.length = 134
      ∧ (sampleAuditRecord "rec-2").toVec.length = 134 := by
  decide +kernel

theorem sampleAuditFile_length : sampleAuditFile.length = 174 := by
  rw [sampleAuditFile, logAll_file, List.length_append, auditFrames_flatten_length,
    logAll_strings]
  simp [framedLength, sampleAuditRecord_length, sampleAuditLogger, auditMagic]

theorem sampleAuditNew_fits :
    ∀ r ∈ [sampleAuditRecord "rec-2"], r.toVec.length ≤ auditMaxRecordBytes := by
  intro r hr
  rw [List.mem_singleton.mp hr, sampleAuditRecord_length.2]
  decide

/-- The whole file, re-opened. -/
theorem survivesCrash_iff_sample :
    SurvivesCrash sampleAuditCrypto "audit.log" sampleAuditFile sampleAuditWritten 174
        [sampleAuditRecord "rec-2"]
      ↔ CrashSafe sampleAuditWritten 174 [sampleAuditRecord "rec-2"] :=
  survivesCrash_iff sampleAuditCrypto sampleAuditSessions (by rw [sampleAuditFile_length])
    sampleAuditNew_fits

/-- **Cut at byte 10, in the first record**: the file re-opens, the next record lands behind
the six torn bytes, and the log does not survive. -/
theorem torn_audit_record_poisons_log :
    AuditSessions sampleAuditCrypto "audit.log" sampleAuditFile sampleAuditWritten
      ∧ 10 ≤ sampleAuditFile.length
      ∧ (∀ r ∈ [sampleAuditRecord "rec-2"], r.toVec.length ≤ auditMaxRecordBytes)
      ∧ ¬ SurvivesCrash sampleAuditCrypto "audit.log" sampleAuditFile sampleAuditWritten 10
          [sampleAuditRecord "rec-2"] := by
  have hfile : sampleAuditFile = auditMagic ++ (auditFrames sampleAuditWritten).flatten :=
    logAll_file sampleAuditCrypto sampleAuditLogger [sampleAuditRecord "rec-1"]
  refine ⟨sampleAuditSessions, by rw [sampleAuditFile_length]; decide, sampleAuditNew_fits, ?_⟩
  rintro ⟨l, hopen, count, head, hverify, hsplit⟩
  rw [hfile, take_auditFile sampleAuditWritten (by decide)] at hopen
  have htorn : tornFrame sampleAuditWritten 10 ≠ [] := by
    have hlong : ¬ (recordFrame (sampleAuditRecord "rec-1").toVec
        (sampleAuditLogger.log sampleAuditCrypto (sampleAuditRecord "rec-1")).2).length
          ≤ 10 - 4 := by
      rw [auditFrame_length]
      omega
    show (cutFrames [recordFrame (sampleAuditRecord "rec-1").toVec
      (sampleAuditLogger.log sampleAuditCrypto (sampleAuditRecord "rec-1")).2] (10 - 4)).2 ≠ []
    rw [cutFrames, if_neg hlong]
    exact List.cons_ne_nil _ _
  obtain ⟨-, hnil | ⟨hnew, -⟩⟩ :=
    crashSafe_of_survives sampleAuditCrypto sampleAuditNew_fits hopen hverify hsplit
  · exact htorn hnil
  · exact absurd hnew (List.cons_ne_nil _ _)

end DiscCleaner
