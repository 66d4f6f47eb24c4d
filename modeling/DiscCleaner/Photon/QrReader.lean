import DiscCleaner.Photon.QrLayout

/-!
# DiscCleaner — reading a QR symbol back (ISO/IEC 18004)

The standard's reader, as far as symbols without damage need it: format information from either
copy, then the data modules in zig-zag order, unmasked, de-interleaved and stripped of their
parity. The encoder writes both format copies with their bits in reverse, so no reader learns
the mask of a symbol from them.
-/

namespace DiscCleaner

open ByteLib ProgLib

namespace QrReader

/-- A symbol as it is seen: its side and its dark modules. -/
structure Picture where
  size : Nat
  dark : Nat → Nat → Bool

/-! ## Format information -/

inductive EcLevel where
  | L
  | M
  | Q
  | H
  deriving DecidableEq

def EcLevel.indicator : EcLevel → Nat
  | .L => 1
  | .M => 0
  | .Q => 3
  | .H => 2

/-- The format word of a level and a mask: BCH(15,5), XORed with the format mask; the most
significant bit first. -/
def formatWord (level : EcLevel) (mask : Nat) : List Bool :=
  let data := level.indicator <<< 3 ||| mask
  let word := (data <<< 10 ||| Qr.bchRemainder 0x537 10 15 (data <<< 10)) ^^^ 0x5412
  (List.range 15).map fun i => word.testBit (14 - i)

/-- The modules of the first copy, from bit 14 down to bit 0. -/
def firstCopy : List (Nat × Nat) :=
  [(8, 0), (8, 1), (8, 2), (8, 3), (8, 4), (8, 5), (8, 7), (8, 8), (7, 8),
   (5, 8), (4, 8), (3, 8), (2, 8), (1, 8), (0, 8)]

/-- The modules of the second copy: seven from the bottom up, then eight to the right edge. -/
def secondCopy (size : Nat) : List (Nat × Nat) :=
  (List.range 7).map (fun i => (size - 1 - i, 8)) ++ (List.range 8).map fun i => (8, size - 8 + i)

def Picture.word (p : Picture) (cells : List (Nat × Nat)) : List Bool :=
  cells.map fun cell => p.dark cell.1 cell.2

def distance (w w' : List Bool) : Nat := (List.zipWith xor w w').count true

/-- The format whose word is at most three bits away, as far as the code corrects. -/
def decodeFormat (word : List Bool) : Option (EcLevel × Nat) :=
  ([EcLevel.L, .M, .Q, .H].flatMap fun level => (List.range 8).map fun mask => (level, mask)).find?
    fun format => distance word (formatWord format.1 format.2) ≤ 3

/-- One of the two copies reads as the format. -/
def Picture.ReadsFormat (p : Picture) (format : EcLevel × Nat) : Prop :=
  decodeFormat (p.word firstCopy) = some format
    ∨ decodeFormat (p.word (secondCopy p.size)) = some format

/-! ## Data -/

/-- Whether `a` is at most `r` away from `b`. -/
def near (r a b : Nat) : Bool := decide (a ≤ b + r ∧ b ≤ a + r)

/-- The function modules of a version: finders with separators and format regions, timing
patterns, alignment patterns, version information. -/
def standardFunction (version row col : Nat) : Bool :=
  let size := 17 + 4 * version
  let centers := Qr.alignment.getD (version - 1) []
  let last := size - 7
  decide (row ≤ 8 ∧ col ≤ 8) || decide (row ≤ 8 ∧ size - 8 ≤ col)
    || decide (size - 8 ≤ row ∧ col ≤ 8)
    || decide (row = 6) || decide (col = 6)
    || centers.any (fun r => centers.any fun c =>
        !(decide (r = 6 ∧ c = 6) || decide (r = 6 ∧ c = last) || decide (r = last ∧ c = 6))
          && near 2 row r && near 2 col c)
    || decide (7 ≤ version) && (decide (row ≤ 5 ∧ size - 11 ≤ col) || decide (size - 11 ≤ row ∧ col ≤ 5))

/-- The mask conditions, for row `i` and column `j`. -/
def standardMask (mask i j : Nat) : Bool :=
  match mask with
  | 0 => (i + j) % 2 == 0
  | 1 => i % 2 == 0
  | 2 => j % 3 == 0
  | 3 => (i + j) % 3 == 0
  | 4 => (i / 2 + j / 3) % 2 == 0
  | 5 => (i * j) % 2 + (i * j) % 3 == 0
  | 6 => ((i * j) % 2 + (i * j) % 3) % 2 == 0
  | 7 => ((i + j) % 2 + (i * j) % 3) % 2 == 0
  | _ => false

/-- The right columns of the column pairs, from the right edge; the timing column is left out. -/
def pairColumns (size : Nat) : List Nat :=
  ((List.range ((size - 7) / 2)).map fun k => size - 1 - 2 * k) ++ [5, 3, 1]

/-- The walk over all column pairs, up and down by turns. -/
def standardWalk (size : Nat) : List (Nat × Nat) :=
  (pairColumns size).zipIdx.flatMap fun (col, k) =>
    (List.range size).flatMap fun i =>
      let row := if k % 2 = 0 then size - 1 - i else i
      [(row, col), (row, col - 1)]

/-- The bits of the data modules in walking order, unmasked. -/
def Picture.dataBits (p : Picture) (version mask : Nat) : List Bool :=
  ((standardWalk p.size).filter fun cell => !standardFunction version cell.1 cell.2).map fun cell =>
    xor (p.dark cell.1 cell.2) (standardMask mask cell.1 cell.2)

/-- Where codeword `i` of block `b` stands among interleaved blocks of the given sizes. -/
def interleavedIndex (sizes : List Nat) (b i : Nat) : Nat :=
  ((List.range i).map fun i' => sizes.countP fun n => i' < n).sum
    + (sizes.take b).countP fun n => i < n

/-- The blocks, in order, of an interleaved sequence of codewords. -/
def deinterleave (sizes : List Nat) (codewords : Bytes) : Option Bytes :=
  (sizes.zipIdx.flatMap fun (n, b) =>
    (List.range n).map fun i => codewords[interleavedIndex sizes b i]?).mapM id

def natOfBits (bits : List Bool) : Nat := bits.foldl (fun v b => 2 * v + b.toNat) 0

/-- A byte-mode segment at the start of the data. -/
def parseSegment (version : Nat) (bits : List Bool) : Option Bytes :=
  if natOfBits (bits.take 4) ≠ 4 then none
  else
    let count := natOfBits ((bits.drop 4).take (Qr.lenBits version))
    let body := bits.drop (4 + Qr.lenBits version)
    if body.length < 8 * count then none else some (Qr.bytesOfBits count body)

/-- The payload of a symbol of level M with the given mask. -/
def Picture.payload (p : Picture) (mask : Nat) : Option Bytes :=
  let version := (p.size - 17) / 4
  let sizes := (Qr.blocksOf version).map Prod.snd
  let total := ((Qr.blocksOf version).map Prod.fst).sum
  let codewords := Qr.bytesOfBits total (p.dataBits version mask)
  (deinterleave sizes codewords).bind fun data =>
    parseSegment version (data.flatMap fun b => Qr.pushBits b.toNat 8)

end QrReader

namespace Qr

open QrMatrix QrReader

/-- The symbol as it is seen. -/
def picture (m : QrMatrix) : Picture := ⟨m.size, m.get⟩

/-- The symbol carries its payload: level M, the mask applied, and the payload's bytes. -/
def ReadsBack (m : QrMatrix) (payload : Bytes) : Prop :=
  (picture m).ReadsFormat (.M, m.mask) ∧ (picture m).payload m.mask = some payload

/-! ## The format copies -/

/-- The cells of the format info with the number of the bit each holds. -/
def formatPlan (size : Nat) : List (Nat × Nat × Nat) :=
  (List.range 15).flatMap fun i => (formatCellsAt size 0 i).map fun cell => (cell.1, cell.2.1, i)

theorem formatCells_eq (size mask : Nat) :
    formatCells size mask
      = (formatPlan size).map fun cell => (cell.1, cell.2.1, (formatBits mask).testBit cell.2.2) := by
  rw [formatCells, formatPlan, List.map_flatMap]
  refine congrArg List.flatten (List.map_congr_left fun i _ => ?_)
  unfold formatCellsAt
  split_ifs <;> rfl

/-- The index of a module in the symbol of a version. -/
def indexIn (version : Nat) (cell : Nat × Nat) : Nat := cell.1 * versionSide version + cell.2

/-- The first copy holds bit `k` where bit `14 - k` is read. -/
theorem formatPlan_firstCopy : ∀ version ∈ versions,
    firstCopy.map (fun cell =>
        lastAt (versionSide version) (formatPlan (versionSide version))
          (indexIn version cell))
      = (List.range 15).map some := by
  decide

/-- So does the second, but for one module that no bit is written to. -/
theorem formatPlan_secondCopy : ∀ version ∈ versions,
    (secondCopy (versionSide version)).map (fun cell =>
        lastAt (versionSide version) (formatPlan (versionSide version))
          (indexIn version cell))
      = (List.range 15).map fun k => if k = 7 then none else some k := by
  decide

/-- The dark module is in neither copy, and nothing is drawn on a reserved module without a bit. -/
theorem copies_apart : ∀ version ∈ versions, ∀ cell ∈ firstCopy ++ secondCopy (versionSide version),
    lastAt (versionSide version) [darkModule (versionSide version)] (indexIn version cell) = none
      ∧ (lastAt (versionSide version) (formatPlan (versionSide version)) (indexIn version cell) = none →
          lastAt (versionSide version) (versionCells version (versionSide version))
              (indexIn version cell) = none
            ∧ lastAt (versionSide version) (patternCells version) (indexIn version cell) = none
            ∧ indexIn version cell
                ∈ (reservedCells (versionSide version)).map fun cell => indexIn version cell)
      ∧ indexIn version cell < versionSide version * versionSide version := by
  decide +kernel

/-- Read in the standard's order, the bits of the word come from the lowest up. -/
def reversedWord (mask : Nat) : List Bool := (List.range 15).map fun k => (formatBits mask).testBit k

def reversedWordLost (mask : Nat) : List Bool :=
  (List.range 15).map fun k => if k = 7 then false else (formatBits mask).testBit k

/-- **No reversed word is close to its own format**, with or without the lost bit. -/
theorem decodeFormat_reversed : ∀ mask ∈ List.range 8,
    decodeFormat (reversedWord mask) ≠ some (.M, mask)
      ∧ decodeFormat (reversedWordLost mask) ≠ some (.M, mask) := by
  decide

/-- **A module of a format copy** shows the bit the plan has for it, and is light without one. -/
theorem get_formatCopy {version : Nat} (h : version ∈ versions) {interleaved : Bytes} {mask : Nat}
    {m : QrMatrix} (hsymbol : symbol version interleaved mask = some m) {cell : Nat × Nat}
    (hcell : cell ∈ firstCopy ++ secondCopy (versionSide version)) :
    m.get cell.1 cell.2
      = ((lastAt (versionSide version) (formatPlan (versionSide version)) (indexIn version cell)).map
          fun k => (formatBits mask).testBit k).getD false := by
  obtain ⟨built, m', hbuilt, hsymbol', hkeep, hsize, -, -⟩ := symbol_spec h interleaved mask
  obtain ⟨built', hbuilt', -, -, hmodules, hfunction⟩ := buildMatrix_spec h mask
  obtain rfl := Option.some.inj (hsymbol.symm.trans hsymbol')
  obtain rfl := Option.some.inj (hbuilt.symm.trans hbuilt')
  obtain ⟨hdark, hlost, hlt⟩ := copies_apart version h cell hcell
  have hinfo : lastAt (versionSide version) (infoCells version mask) (indexIn version cell)
      = ((lastAt (versionSide version) (formatPlan (versionSide version)) (indexIn version cell)).map
          fun k => (formatBits mask).testBit k).or
        (lastAt (versionSide version) (versionCells version (versionSide version))
          (indexIn version cell)) := by
    rw [infoCells, lastAt_append, hdark, Option.none_or, lastAt_append, formatCells_eq, lastAt_map]
  have hblank : (blank version (versionSide version) mask).modules[indexIn version cell]?
      = some false := by
    rw [blank, List.getElem?_replicate, if_pos hlt]
  rw [QrMatrix.get, hsize, List.getD_eq_getElem?_getD]
  show (m.modules[indexIn version cell]?).getD false = _
  cases hplan : lastAt (versionSide version) (formatPlan (versionSide version))
      (indexIn version cell) with
  | some k =>
    rw [hplan, Option.map_some, Option.some_or] at hinfo
    rw [hkeep.colours _ (by rw [hfunction, hinfo]; rfl), hmodules, drawn, hinfo]
    rfl
  | none =>
    obtain ⟨hversion, hpattern, hreserved⟩ := hlost hplan
    rw [hplan, hversion] at hinfo
    rw [hkeep.colours _ (by rw [hfunction, hinfo]; exact if_pos hreserved), hmodules, drawn, hinfo,
      hpattern, hblank]
    rfl

theorem word_eq {version : Nat} (h : version ∈ versions) {interleaved : Bytes} {mask : Nat}
    {m : QrMatrix} (hsymbol : symbol version interleaved mask = some m) {cells : List (Nat × Nat)}
    (hsub : ∀ cell ∈ cells, cell ∈ firstCopy ++ secondCopy (versionSide version)) :
    (picture m).word cells
      = (cells.map fun cell => lastAt (versionSide version) (formatPlan (versionSide version))
          (indexIn version cell)).map
        fun bit => (bit.map fun k => (formatBits mask).testBit k).getD false := by
  rw [List.map_map]
  exact List.map_congr_left fun cell hcell => get_formatCopy h hsymbol (hsub cell hcell)

/-- **Neither copy reads as the symbol's format.** -/
theorem not_readsFormat {version : Nat} (h : version ∈ versions) {interleaved : Bytes} {mask : Nat}
    (hmask : mask ∈ List.range 8) {m : QrMatrix}
    (hsymbol : symbol version interleaved mask = some m) :
    ¬ (picture m).ReadsFormat (.M, m.mask) := by
  obtain ⟨-, m', -, hsymbol', -, hsize, hmask', -⟩ := symbol_spec h interleaved mask
  obtain rfl := Option.some.inj (hsymbol.symm.trans hsymbol')
  obtain ⟨hfirst, hsecond⟩ := decodeFormat_reversed mask hmask
  rw [hmask']
  have hword : (picture m).word firstCopy = reversedWord mask := by
    rw [word_eq h hsymbol fun cell hcell => List.mem_append_left _ hcell,
      formatPlan_firstCopy version h, List.map_map]
    rfl
  have hword' : (picture m).word (secondCopy (picture m).size) = reversedWordLost mask := by
    rw [show (picture m).size = versionSide version from hsize,
      word_eq h hsymbol fun cell hcell => List.mem_append_right _ hcell,
      formatPlan_secondCopy version h, List.map_map]
    refine List.map_congr_left fun k _ => ?_
    show Option.getD (Option.map _ (if k = 7 then none else some k)) false = _
    split <;> rfl
  rintro (hreads | hreads)
  · exact hfirst (hword ▸ hreads)
  · exact hsecond (hword' ▸ hreads)

/-- No symbol reads back, whatever its payload. -/
theorem encode_not_readsBack {payload : Bytes} (h : payload.length ≤ maxBytePayloadV10M) :
    ∃ m, encode payload = .ok m ∧ ¬ ReadsBack m payload := by
  obtain ⟨version, hversion, interleaved, mask, hmask, m, -, -, -, hsymbol, hencode⟩ := encode_spec h
  exact ⟨m, hencode, fun hreads => not_readsFormat hversion hmask hsymbol hreads.1⟩

/-- **A symbol never reads back**: every payload the encoder accepts gets a symbol, and in none
of them does a format copy give level M with the mask that was applied. -/
theorem readsBack_never (payload : Bytes) (h : payload.length ≤ maxBytePayloadV10M) :
    ∃ m, encode payload = .ok m ∧ ¬ ReadsBack m payload :=
  encode_not_readsBack h

theorem readsBack_never_one_byte : ∃ m, encode [0x41] = .ok m ∧ ¬ ReadsBack m [0x41] :=
  readsBack_never [0x41] (by decide)

/-- The symbol of one byte does not read back. -/
theorem one_byte_not_readsBack :
    ¬ ∀ payload : Bytes, payload.length ≤ maxBytePayloadV10M →
      ∃ m, encode payload = .ok m ∧ ReadsBack m payload := by
  intro hclaim
  obtain ⟨m, hm, hreads⟩ := hclaim [0x41] (by decide)
  obtain ⟨m', hm', hnot⟩ := @encode_not_readsBack [0x41] (by decide)
  rw [hm, Outcome.ok.injEq] at hm'
  exact hnot (hm' ▸ hreads)

end Qr

end DiscCleaner
