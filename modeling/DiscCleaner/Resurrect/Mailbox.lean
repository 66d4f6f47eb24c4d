import DiscCleaner.Resurrect.Attest
import Mathlib.Data.List.Basic

/-!
# Reading the mailbox back (dc-resurrect `payload/fragments.rs`, `pipeline.rs`)

The kernel leaves one five-word record a block in SRAM and closes with a six-word summary whose last
word is the DONE marker. Two routes read the words back before anything is parsed: the Boot-ROM
route peeks word by word up to the first word that equals the marker, the SWD route reads 64-word
chunks up to the first chunk that holds such a word. A data word may equal the marker as well.
-/

namespace DiscCleaner.Resurrect

/-! ## What the kernel writes (`fragments.rs`) -/

/-- Mailbox record magic "RZAT". -/
def MB_REC_MAGIC : UInt32 := 0x525A4154
/-- Summary magic "RZDN". -/
def MB_SUM_MAGIC : UInt32 := 0x525A444E
/-- Summary end marker. -/
def MB_SUM_DONE : UInt32 := 0xA5A5A5A5

/-- The record writer: magic, die and block in one word, status, nonzero, CRC. -/
def emitRecord (r : BlockRecord) : List UInt32 :=
  [MB_REC_MAGIC, (r.die.toUInt32 <<< 16) + r.block, r.status.toUInt32, r.nonzero, r.crc32]

/-- The record of a die whose ID does not match; the block half of its word is all ones. -/
def emitDieIdFail (die : UInt8) : List UInt32 :=
  [MB_REC_MAGIC, (die.toUInt32 <<< 16) ||| 0xFFFF, ST_DIE_ID.toUInt32, 0, 0]

/-- The six words of a summary. -/
structure Summary where
  magic : UInt32 := MB_SUM_MAGIC
  total : UInt32
  erased : UInt32
  skipped : UInt32
  failed : UInt32
  done : UInt32 := MB_SUM_DONE
  deriving DecidableEq

def Summary.words (s : Summary) : List UInt32 :=
  [s.magic, s.total, s.erased, s.skipped, s.failed, s.done]

/-- The summary of a run that reached its end. -/
def emitSummary (total erased skipped failed : UInt32) : Summary :=
  { total, erased, skipped, failed }

/-- The words of a finished run. -/
def mailboxImage (records : List BlockRecord) (summary : Summary) : List UInt32 :=
  records.flatMap emitRecord ++ summary.words

/-- SRAM from the mailbox on: what the kernel wrote, and whatever stood there before behind it. -/
def mailboxMemory (image : List UInt32) (stale : Nat → UInt32) (i : Nat) : UInt32 :=
  image.getD i (stale i)

/-! ## The host's side (`pipeline.rs`) -/

structure Mailbox where
  records : List BlockRecord
  summary : Option Summary
  deriving DecidableEq

/-- `parse_mailbox`: records while the next word is their magic, then the summary. -/
def parseMailbox : List UInt32 → Mailbox
  | magic :: w1 :: w2 :: w3 :: w4 :: rest =>
    if magic = MB_REC_MAGIC then
      let mailbox := parseMailbox rest
      { mailbox with records := .fromMailbox w1 w2 w3 w4 :: mailbox.records }
    else if magic = MB_SUM_MAGIC then
      match rest with
      | w5 :: _ => ⟨[], some ⟨magic, w1, w2, w3, w4, w5⟩⟩
      | [] => ⟨[], none⟩
    else ⟨[], none⟩
  | _ => ⟨[], none⟩

/-- The words a route is ready to read. -/
def readbackCap (geo : NandGeometry) : Nat :=
  geo.totalBlocks.toNat * 5 + 5 * geo.luns.toNat + 16

/-- `run_via_brom`: one peek a word, up to the first that equals the marker. The second argument
counts the peeks that are left. -/
def bromWords (peek32 : Nat → UInt32) : Nat → Nat → List UInt32
  | _, 0 => []
  | i, left + 1 =>
    let w := peek32 i
    if w = MB_SUM_DONE then [w] else w :: bromWords peek32 (i + 1) left

/-- `read_block32`. -/
def readBlock32 (read32 : Nat → UInt32) (start count : Nat) : List UInt32 :=
  (List.range' start count).map read32

/-- `run_via_swd`: 64-word chunks, up to the first that holds the marker. Every turn reads at least
one word, so that `cap` turns are enough. -/
def swdChunks (read32 : Nat → UInt32) (cap : Nat) : Nat → Nat → List UInt32
  | _, 0 => []
  | got, turns + 1 =>
    if got < cap then
      let take := min 64 (cap - got)
      let chunk := readBlock32 read32 got take
      if chunk.contains MB_SUM_DONE then chunk
      else chunk ++ swdChunks read32 cap (got + take) turns
    else []

/-- The words of the SWD route: a buffer of zeros that the chunks are copied into. -/
def swdWords (read32 : Nat → UInt32) (cap : Nat) : List UInt32 :=
  let read := swdChunks read32 cap 0 cap
  read ++ List.replicate (cap - read.length) 0

/-- What a route makes of the words it has read. -/
def readback (unfinished : String) (words : List UInt32) :
    Except String (List BlockRecord × Summary) :=
  let mailbox := parseMailbox words
  match mailbox.summary with
  | some s => if s.done ≠ MB_SUM_DONE then .error unfinished else .ok (mailbox.records, s)
  | none => .error "no summary record in mailbox"

def bromReadback (peek32 : Nat → UInt32) (geo : NandGeometry) :
    Except String (List BlockRecord × Summary) :=
  readback "kernel summary incomplete (no DONE marker)" (bromWords peek32 0 (readbackCap geo))

def swdReadback (read32 : Nat → UInt32) (geo : NandGeometry) :
    Except String (List BlockRecord × Summary) :=
  readback "kernel summary incomplete" (swdWords read32 (readbackCap geo))

/-! ## One record -/

/-- What the host makes of the words of a record. -/
def BlockRecord.readBack (r : BlockRecord) : BlockRecord :=
  .fromMailbox ((r.die.toUInt32 <<< 16) + r.block) r.status.toUInt32 r.nonzero r.crc32

/-- The word of a die that failed its ID is the word of block `0xFFFF`. -/
theorem emitDieIdFail_eq (die : UInt8) :
    emitDieIdFail die = emitRecord ⟨die, 0xFFFF, ST_DIE_ID, 0, 0⟩ := by
  have hdie : die.toNat < 256 := die.toNat_lt
  have hshift : (die.toUInt32 <<< 16).toNat = 2 ^ 16 * die.toNat := by
    rw [UInt32.toNat_shiftLeft, UInt8.toNat_toUInt32]
    show die.toNat <<< 16 % 2 ^ 32 = 2 ^ 16 * die.toNat
    rw [Nat.shiftLeft_eq]
    omega
  have hword : (die.toUInt32 <<< 16) ||| (0xFFFF : UInt32) = (die.toUInt32 <<< 16) + 0xFFFF := by
    apply UInt32.toNat_inj.mp
    have hones : (0xFFFF : UInt32).toNat = 65535 := rfl
    rw [UInt32.toNat_or, UInt32.toNat_add, hshift, hones, ← Nat.two_pow_add_eq_or_of_lt (by decide)]
    omega
  rw [emitDieIdFail, hword]
  rfl

theorem toNat_dieBlock (die : UInt8) (block : UInt32) :
    ((die.toUInt32 <<< 16) + block).toNat = (die.toNat * 65536 + block.toNat) % 2 ^ 32 := by
  have hdie : die.toNat < 256 := die.toNat_lt
  have hshift : (die.toUInt32 <<< 16).toNat = die.toNat * 65536 := by
    rw [UInt32.toNat_shiftLeft, UInt8.toNat_toUInt32]
    show die.toNat <<< 16 % 2 ^ 32 = die.toNat * 65536
    rw [Nat.shiftLeft_eq]
    omega
  rw [UInt32.toNat_add, hshift]

/-- The block half of a record's word. -/
theorem toNat_readBack_block (r : BlockRecord) :
    r.readBack.block.toNat = r.block.toNat % 65536 := by
  show (((r.die.toUInt32 <<< 16) + r.block) &&& 0xFFFF).toNat = r.block.toNat % 65536
  have hmask : (0xFFFF : UInt32).toNat = 2 ^ 16 - 1 := rfl
  rw [UInt32.toNat_and, hmask, Nat.and_two_pow_sub_one_eq_mod, toNat_dieBlock]
  omega

/-- **A record survives its words exactly when the block number fits the half it is given.** -/
theorem readBack_eq_iff (r : BlockRecord) : r.readBack = r ↔ r.block.toNat < 65536 := by
  constructor
  · intro h
    have hblock := toNat_readBack_block r
    rw [h] at hblock
    omega
  · intro h
    have hdie : r.die.toNat < 256 := r.die.toNat_lt
    have hdieWord : r.readBack.die = r.die := by
      apply UInt8.toNat_inj.mp
      show (((r.die.toUInt32 <<< 16) + r.block) >>> 16).toUInt8.toNat = r.die.toNat
      rw [UInt32.toNat_toUInt8, UInt32.toNat_shiftRight, toNat_dieBlock]
      show (((r.die.toNat * 65536 + r.block.toNat) % 2 ^ 32) >>> 16) % 2 ^ 8 = r.die.toNat
      rw [Nat.shiftRight_eq_div_pow]
      omega
    have hblock : r.readBack.block = r.block := by
      apply UInt32.toNat_inj.mp
      rw [toNat_readBack_block, Nat.mod_eq_of_lt h]
    have hstatus : r.readBack.status = r.status := UInt8.toUInt8_toUInt32 r.status
    show (⟨r.readBack.die, r.readBack.block, r.readBack.status, r.nonzero, r.crc32⟩ : BlockRecord)
      = r
    rw [hdieWord, hblock, hstatus]

/-! ## Parsing -/

theorem parseMailbox_record (r : BlockRecord) (rest : List UInt32) :
    parseMailbox (emitRecord r ++ rest) =
      ⟨r.readBack :: (parseMailbox rest).records, (parseMailbox rest).summary⟩ := rfl

/-- **The image of a run is parsed to its records and its summary, whatever follows.** -/
theorem parseMailbox_image (records : List BlockRecord) (total erased skipped failed : UInt32)
    (rest : List UInt32) :
    parseMailbox (mailboxImage records (emitSummary total erased skipped failed) ++ rest) =
      ⟨records.map BlockRecord.readBack, some (emitSummary total erased skipped failed)⟩ := by
  induction records with
  | nil => rfl
  | cons r records ih =>
    rw [mailboxImage, List.flatMap_cons, List.append_assoc, List.append_assoc, parseMailbox_record,
      ← List.append_assoc, ← mailboxImage, ih, List.map_cons]

theorem parseMailbox_cons (magic w1 w2 w3 w4 : UInt32) (rest : List UInt32) :
    parseMailbox (magic :: w1 :: w2 :: w3 :: w4 :: rest) =
      if magic = MB_REC_MAGIC then
        ⟨.fromMailbox w1 w2 w3 w4 :: (parseMailbox rest).records, (parseMailbox rest).summary⟩
      else if magic = MB_SUM_MAGIC then
        ⟨[], rest.head?.map fun w5 => ⟨magic, w1, w2, w3, w4, w5⟩⟩
      else ⟨[], none⟩ := by
  cases rest <;> rfl

/-- Where a summary was found: behind five words for each record. -/
theorem parseMailbox_summary {words : List UInt32} {records : List BlockRecord} {s : Summary}
    (h : parseMailbox words = ⟨records, some s⟩) :
    ∃ rest, words.drop (5 * records.length) = s.words ++ rest := by
  match words with
  | magic :: w1 :: w2 :: w3 :: w4 :: rest =>
    rw [parseMailbox_cons] at h
    split at h
    · -- a record: the summary is the one behind it
      obtain ⟨hrecords, hsummary⟩ := Mailbox.mk.inj h
      have hrest : parseMailbox rest = ⟨(parseMailbox rest).records, some s⟩ := by rw [← hsummary]
      obtain ⟨tail, htail⟩ := parseMailbox_summary hrest
      rw [← hrecords, List.length_cons, Nat.mul_succ]
      exact ⟨tail, htail⟩
    · split at h
      · obtain ⟨hrecords, hsummary⟩ := Mailbox.mk.inj h
        cases rest with
        | nil => cases hsummary
        | cons w5 rest =>
          rw [← hrecords, ← Option.some.inj hsummary]
          exact ⟨rest, rfl⟩
      · cases (Mailbox.mk.inj h).2
  | [] | [_] | [_, _] | [_, _, _] | [_, _, _, _] => cases (Mailbox.mk.inj h).2

/-! ## Where the routes stop -/

theorem length_readBlock32 (mem : Nat → UInt32) (start count : Nat) :
    (readBlock32 mem start count).length = count := by
  rw [readBlock32, List.length_map, List.length_range']

theorem readBlock32_append (mem : Nat → UInt32) (start m n : Nat) :
    readBlock32 mem start m ++ readBlock32 mem (start + m) n = readBlock32 mem start (m + n) := by
  rw [readBlock32, readBlock32, readBlock32, ← List.map_append, List.range'_append_1]

theorem mem_readBlock32 {mem : Nat → UInt32} {start count : Nat} {w : UInt32} :
    w ∈ readBlock32 mem start count ↔ ∃ j, start ≤ j ∧ j < start + count ∧ mem j = w := by
  simp only [readBlock32, List.mem_map, List.mem_range'_1, and_assoc]

/-- The Boot-ROM route reads a prefix: no marker before its last word, and it stops early only at
one. -/
theorem bromWords_eq (mem : Nat → UInt32) (start left : Nat) :
    ∃ n, n ≤ left ∧ bromWords mem start left = readBlock32 mem start n ∧
      (∀ j, start ≤ j → j + 1 < start + n → mem j ≠ MB_SUM_DONE) ∧
      (n < left → 0 < n ∧ mem (start + n - 1) = MB_SUM_DONE) := by
  induction left generalizing start with
  | zero => exact ⟨0, Nat.le_refl 0, rfl, by omega, by omega⟩
  | succ left ih =>
    by_cases hdone : mem start = MB_SUM_DONE
    · refine ⟨1, by omega, ?_, by omega, fun _ => ⟨Nat.one_pos, hdone⟩⟩
      show (if mem start = MB_SUM_DONE then [mem start] else _) = [mem start]
      rw [if_pos hdone]
    · obtain ⟨n, hn, heq, hbefore, hlast⟩ := ih (start + 1)
      refine ⟨n + 1, by omega, ?_, ?_, ?_⟩
      · show (if mem start = MB_SUM_DONE then [mem start] else
          mem start :: bromWords mem (start + 1) left) = readBlock32 mem start (n + 1)
        rw [if_neg hdone, heq]
        rfl
      · intro j hj hlt
        rcases Nat.eq_or_lt_of_le hj with rfl | hj
        · exact hdone
        · exact hbefore j hj (by omega)
      · intro hlt
        obtain ⟨hpos, hmem⟩ := hlast (by omega)
        rw [← hmem]
        exact ⟨Nat.succ_pos n, congrArg mem (by omega)⟩

/-- The SWD route reads a prefix of whole chunks: no marker in a chunk before the last, and it stops
early only behind a chunk that holds one. -/
theorem swdChunks_eq (mem : Nat → UInt32) {cap got turns : Nat} (hgot : got ≤ cap)
    (haligned : got % 64 = 0 ∨ got = cap) (hturns : cap - got ≤ turns) :
    ∃ n, got ≤ n ∧ n ≤ cap ∧ swdChunks mem cap got turns = readBlock32 mem got (n - got) ∧
      (∀ j, got ≤ j → 64 * (j / 64) + 64 < n → mem j ≠ MB_SUM_DONE) ∧
      (n < cap → n % 64 = 0 ∧ ∃ j, n ≤ j + 64 ∧ j < n ∧ mem j = MB_SUM_DONE) := by
  induction turns generalizing got with
  | zero =>
    have hall : got = cap := by omega
    exact ⟨got, Nat.le_refl got, hgot, by rw [Nat.sub_self]; rfl, by omega, by omega⟩
  | succ turns ih =>
    by_cases hlt : got < cap
    · have hstep : swdChunks mem cap got (turns + 1) =
          if (readBlock32 mem got (min 64 (cap - got))).contains MB_SUM_DONE then
            readBlock32 mem got (min 64 (cap - got))
          else readBlock32 mem got (min 64 (cap - got)) ++
            swdChunks mem cap (got + min 64 (cap - got)) turns := if_pos hlt
      rw [hstep]
      by_cases hdone : MB_SUM_DONE ∈ readBlock32 mem got (min 64 (cap - got))
      · -- the marker is in this chunk
        rw [if_pos (List.contains_iff_mem.mpr hdone)]
        obtain ⟨j, hj, hjlt, hmem⟩ := mem_readBlock32.mp hdone
        refine ⟨got + min 64 (cap - got), by omega, by omega, ?_, ?_, ?_⟩
        · rw [Nat.add_sub_cancel_left]
        · intro j' hj' hchunk
          omega
        · intro hearly
          exact ⟨by omega, j, by omega, hjlt, hmem⟩
      · rw [if_neg (by rwa [List.contains_iff_mem])]
        obtain ⟨n, hle, hcap, heq, hbefore, hlast⟩ :=
          @ih (got + min 64 (cap - got)) (by omega) (by omega) (by omega)
        refine ⟨n, by omega, hcap, ?_, ?_, hlast⟩
        · rw [heq, readBlock32_append]
          exact congrArg (readBlock32 mem got) (by omega)
        · intro j hj hchunk
          by_cases hhere : j < got + min 64 (cap - got)
          · exact fun hmem => hdone (mem_readBlock32.mpr ⟨j, hj, hhere, hmem⟩)
          · exact hbefore j (by omega) hchunk
    · have hall : got = cap := by omega
      have hstop : swdChunks mem cap got (turns + 1) = [] := if_neg hlt
      exact ⟨got, Nat.le_refl got, hgot, by rw [hstop, Nat.sub_self]; rfl, by omega, by omega⟩

/-! ## The words of a finished run -/

section Run

variable {image : List UInt32} (stale : Nat → UInt32)

theorem mailboxMemory_of_lt {i : Nat} (h : i < image.length) :
    mailboxMemory image stale i = image[i] := List.getD_eq_getElem image (stale i) h

/-- Reading past the image gives the image and what stood there before. -/
theorem readBlock32_mailboxMemory {n : Nat} (h : image.length ≤ n) :
    ∃ rest, readBlock32 (mailboxMemory image stale) 0 n = image ++ rest := by
  have himage : readBlock32 (mailboxMemory image stale) 0 image.length = image := by
    apply List.ext_getElem (length_readBlock32 _ 0 _)
    intro i hi hi'
    rw [← mailboxMemory_of_lt stale hi']
    simp only [readBlock32, List.getElem_map, List.getElem_range', Nat.zero_add, Nat.one_mul]
  refine ⟨readBlock32 (mailboxMemory image stale) (0 + image.length) (n - image.length), ?_⟩
  have happend := readBlock32_append (mailboxMemory image stale) 0 image.length (n - image.length)
  rw [himage, Nat.add_sub_cancel' h] at happend
  exact happend.symm

end Run

theorem length_mailboxImage (records : List BlockRecord) (s : Summary) :
    (mailboxImage records s).length = 5 * records.length + 6 := by
  have hwords : (records.map fun r => (emitRecord r).length).sum = 5 * records.length := by
    induction records with
    | nil => rfl
    | cons r records ih =>
      rw [List.map_cons, List.sum_cons, ih, List.length_cons]
      show 5 + 5 * records.length = 5 * (records.length + 1)
      omega
  rw [mailboxImage, List.length_append, List.length_flatMap, hwords]
  rfl

/-- The last word of a finished run is the marker. -/
theorem mailboxImage_last (records : List BlockRecord) (total erased skipped failed : UInt32) :
    (mailboxImage records (emitSummary total erased skipped failed))[5 * records.length + 5]? =
      some MB_SUM_DONE := by
  have hlen : (records.flatMap emitRecord).length = 5 * records.length := by
    have h := length_mailboxImage records (emitSummary total erased skipped failed)
    rw [mailboxImage, List.length_append] at h
    exact Nat.add_right_cancel h
  rw [mailboxImage, List.getElem?_append_right (by omega), hlen, Nat.add_sub_cancel_left]
  rfl

/-- A parse with a summary has read five words a record and six words more; the last of them is the
summary's last. -/
theorem parseMailbox_reaches {words : List UInt32} {records : List BlockRecord} {s : Summary}
    (h : parseMailbox words = ⟨records, some s⟩) :
    5 * records.length + 6 ≤ words.length ∧ words[5 * records.length + 5]? = some s.done := by
  obtain ⟨rest, hdrop⟩ := parseMailbox_summary h
  have hlen := congrArg List.length hdrop
  rw [List.length_drop, List.length_append] at hlen
  have hsix : s.words.length = 6 := rfl
  refine ⟨by omega, ?_⟩
  rw [← List.getElem?_drop, hdrop]
  rfl

theorem readback_eq_ok {unfinished : String} {words : List UInt32} {records : List BlockRecord}
    {s : Summary} : readback unfinished words = .ok (records, s) ↔
      parseMailbox words = ⟨records, some s⟩ ∧ s.done = MB_SUM_DONE := by
  rcases hparse : parseMailbox words with ⟨records', _ | s'⟩
  · simp [readback, hparse]
  · by_cases hdone : s'.done = MB_SUM_DONE
    · simp only [readback, hparse, hdone, ne_eq, not_true, if_false, Except.ok.injEq, Prod.mk.injEq,
        Mailbox.mk.injEq, Option.some.injEq]
      exact ⟨fun h => ⟨h, h.2 ▸ hdone⟩, fun h => h.1⟩
    · simp only [readback, hparse, hdone, ne_eq, not_false_eq_true, if_true, reduceCtorEq, false_iff,
        Mailbox.mk.injEq, Option.some.injEq, not_and]
      rintro ⟨-, rfl⟩
      exact hdone

/-- Every block number fits the half of a word that the kernel gives it. -/
def NarrowBlocks (records : List BlockRecord) : Prop := ∀ r ∈ records, r.block.toNat < 65536

theorem map_readBack_eq_iff (records : List BlockRecord) :
    records.map BlockRecord.readBack = records ↔ NarrowBlocks records := by
  induction records with
  | nil => simp [NarrowBlocks]
  | cons r records ih =>
    rw [List.map_cons, List.cons.injEq, readBack_eq_iff, ih, NarrowBlocks, NarrowBlocks,
      List.forall_mem_cons]

/-- Words that begin with the image are read to the run exactly when its block numbers fit. -/
theorem readback_image_iff (unfinished : String) (records : List BlockRecord)
    (total erased skipped failed : UInt32) (rest : List UInt32) :
    readback unfinished (mailboxImage records (emitSummary total erased skipped failed) ++ rest) =
        .ok (records, emitSummary total erased skipped failed) ↔ NarrowBlocks records := by
  rw [readback_eq_ok, parseMailbox_image, Mailbox.mk.injEq, map_readBack_eq_iff]
  exact ⟨fun h => h.1.1, fun h => ⟨⟨h, rfl⟩, rfl⟩⟩

/-! ## What the two routes lose -/

section Routes

variable (geo : NandGeometry) (records : List BlockRecord) (total erased skipped failed : UInt32)
  (stale : Nat → UInt32)

theorem bromReadback_iff :
    let summary := emitSummary total erased skipped failed
    let image := mailboxImage records summary
    bromReadback (mailboxMemory image stale) geo = .ok (records, summary) ↔
      image.length ≤ readbackCap geo ∧ NarrowBlocks records ∧
        ∀ j, j + 1 < image.length → image[j]? ≠ some MB_SUM_DONE := by
  intro summary image
  have hlen : image.length = 5 * records.length + 6 := length_mailboxImage records summary
  have hword : ∀ j, (h : j < image.length) → image[j]? = some (mailboxMemory image stale j) :=
    fun j h => by rw [mailboxMemory_of_lt stale h, List.getElem?_eq_getElem h]
  have hlast : mailboxMemory image stale (image.length - 1) = MB_SUM_DONE := by
    have hend := hword (image.length - 1) (by omega)
    rw [hlen, show 5 * records.length + 6 - 1 = 5 * records.length + 5 from rfl,
      mailboxImage_last] at hend
    rw [hlen]
    exact (Option.some.inj hend).symm
  obtain ⟨n, hn, heq, hbefore, hstop⟩ :=
    bromWords_eq (mailboxMemory image stale) 0 (readbackCap geo)
  rw [bromReadback, heq]
  constructor
  · intro h
    have hparse := (readback_eq_ok.mp h).1
    have hreach := (parseMailbox_reaches hparse).1
    rw [length_readBlock32] at hreach
    have hin : image.length ≤ n := by omega
    obtain ⟨rest, hwords⟩ := readBlock32_mailboxMemory stale hin
    rw [hwords] at h
    refine ⟨by omega, (readback_image_iff _ _ _ _ _ _ _).mp h, fun j hj hmark => ?_⟩
    rw [hword j (by omega)] at hmark
    exact hbefore j (Nat.zero_le j) (by omega) (Option.some.inj hmark)
  · rintro ⟨hfits, hnarrow, hearly⟩
    have hin : image.length ≤ n := by
      -- a stop inside the image is a stop at an earlier marker
      by_contra hout
      obtain ⟨hpos, hmark⟩ := hstop (by omega)
      refine hearly (n - 1) (by omega) ?_
      rw [hword (n - 1) (by omega), ← hmark, Nat.zero_add]
    obtain ⟨rest, hwords⟩ := readBlock32_mailboxMemory stale hin
    rw [hwords]
    exact (readback_image_iff _ _ _ _ _ _ _).mpr hnarrow

theorem swdReadback_iff :
    let summary := emitSummary total erased skipped failed
    let image := mailboxImage records summary
    swdReadback (mailboxMemory image stale) geo = .ok (records, summary) ↔
      image.length ≤ readbackCap geo ∧ NarrowBlocks records ∧
        ∀ j, j / 64 < (image.length - 1) / 64 → image[j]? ≠ some MB_SUM_DONE := by
  intro summary image
  have hlen : image.length = 5 * records.length + 6 := length_mailboxImage records summary
  have hword : ∀ j, (h : j < image.length) → image[j]? = some (mailboxMemory image stale j) :=
    fun j h => by rw [mailboxMemory_of_lt stale h, List.getElem?_eq_getElem h]
  obtain ⟨n, -, hn, heq, hbefore, hstop⟩ := swdChunks_eq (mailboxMemory image stale)
    (Nat.zero_le (readbackCap geo)) (.inl rfl) (Nat.le_refl (readbackCap geo - 0))
  rw [Nat.sub_zero, Nat.sub_zero] at heq
  have hwords : swdWords (mailboxMemory image stale) (readbackCap geo) =
      readBlock32 (mailboxMemory image stale) 0 n ++ List.replicate (readbackCap geo - n) 0 := by
    rw [swdWords, heq, length_readBlock32]
  rw [swdReadback, hwords]
  constructor
  · intro h
    obtain ⟨hparse, -⟩ := readback_eq_ok.mp h
    obtain ⟨hreach, hdone⟩ := parseMailbox_reaches hparse
    rw [List.length_append, length_readBlock32, List.length_replicate] at hreach
    have hin : image.length ≤ n := by
      -- behind the chunks the buffer holds zeros, and the summary ends with the marker
      by_contra hout
      rw [List.getElem?_append_right (by rw [length_readBlock32]; omega), List.getElem?_replicate,
        length_readBlock32, if_pos (by omega)] at hdone
      have hzero : (0 : UInt32) ≠ MB_SUM_DONE := by decide
      exact hzero (Option.some.inj hdone)
    obtain ⟨rest, himage⟩ := readBlock32_mailboxMemory stale hin
    rw [himage, List.append_assoc] at h
    refine ⟨by omega, (readback_image_iff _ _ _ _ _ _ _).mp h, fun j hj hmark => ?_⟩
    rw [hword j (by omega)] at hmark
    exact hbefore j (Nat.zero_le j) (by omega) (Option.some.inj hmark)
  · rintro ⟨hfits, hnarrow, hearly⟩
    have hin : image.length ≤ n := by
      by_contra hout
      obtain ⟨haligned, j, hj, hjn, hmark⟩ := hstop (by omega)
      refine hearly j (by omega) ?_
      rw [hword j (by omega), hmark]
    obtain ⟨rest, himage⟩ := readBlock32_mailboxMemory stale hin
    rw [himage, List.append_assoc]
    exact (readback_image_iff _ _ _ _ _ _ _).mpr hnarrow

/-- **Both routes return the run exactly when it fits what they read, its block numbers fit their
half of a word, and no data word stops them early**: on the Boot-ROM route no word before the last
equals the marker, on the SWD route none in a 64-word chunk before the one that holds the last
word. -/
theorem mailbox_lossless_iff :
    let summary := emitSummary total erased skipped failed
    let image := mailboxImage records summary
    let memory := mailboxMemory image stale
    (bromReadback memory geo = .ok (records, summary) ↔
      image.length ≤ readbackCap geo ∧ NarrowBlocks records ∧
        ∀ j, j + 1 < image.length → image[j]? ≠ some MB_SUM_DONE) ∧
    (swdReadback memory geo = .ok (records, summary) ↔
      image.length ≤ readbackCap geo ∧ NarrowBlocks records ∧
        ∀ j, j / 64 < (image.length - 1) / 64 → image[j]? ≠ some MB_SUM_DONE) :=
  ⟨bromReadback_iff geo records total erased skipped failed stale,
    swdReadback_iff geo records total erased skipped failed stale⟩

end Routes

/-- A die of sixteen blocks; the CRC of the first block is the marker. -/
def markerGeometry : NandGeometry := ⟨2048, 64, 64, 16, 1⟩

def markerRecords : List BlockRecord :=
  .erased 0 0 0 MB_SUM_DONE :: (List.range' 1 15).map fun b => .erased 0 (UInt32.ofNat b) 0 0

/-- A CRC that equals the marker ends both readbacks before the summary. -/
theorem marker_crc_ends_readback :
    let memory := mailboxMemory (mailboxImage markerRecords (emitSummary 16 16 0 0)) fun _ => 0
    bromReadback memory markerGeometry = .error "no summary record in mailbox" ∧
      swdReadback memory markerGeometry = .error "no summary record in mailbox" := by
  decide +kernel

end DiscCleaner.Resurrect
