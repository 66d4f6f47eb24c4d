import DiscCleaner.Lib.Bytes
import DiscCleaner.Lib.Prog
import Mathlib.Data.List.Range
import Mathlib.Logic.Function.Iterate

/-!
# DiscCleaner — the QR encoder (`qr.rs`)

Byte mode at level M, versions 1 to 10: bit stream, Reed–Solomon parity, interleaving, function
modules, zig-zag placement and the lowest-penalty mask. A module index outside the grid is a
panic.
-/

namespace DiscCleaner

open ByteLib ProgLib

inductive QrError where
  | tooLarge (len : Nat)
  | internal (reason : String)
  deriving DecidableEq

namespace Qr

def maxBytePayloadV10M : Nat := 213

/-- The codewords of a version and its blocks, as total and data codewords. -/
def versionBlocksM : List (Nat × List (Nat × Nat)) :=
  [(26, [(26, 16)]),
   (44, [(44, 28)]),
   (70, [(70, 44)]),
   (100, [(50, 32), (50, 32)]),
   (134, [(67, 43), (67, 43)]),
   (172, [(43, 27), (43, 27), (43, 27), (43, 27)]),
   (196, [(49, 31), (49, 31), (49, 31), (49, 31)]),
   (242, [(60, 38), (60, 38), (61, 39), (61, 39)]),
   (292, [(58, 36), (58, 36), (58, 36), (59, 37), (59, 37)]),
   (346, [(69, 43), (69, 43), (69, 43), (69, 43), (70, 44)])]

/-- The centres of the alignment patterns. -/
def alignment : List (List Nat) :=
  [[], [6, 18], [6, 22], [6, 26], [6, 30], [6, 34], [6, 22, 38], [6, 24, 42], [6, 26, 46],
   [6, 28, 50]]

def versionSide (version : Nat) : Nat := 17 + 4 * version

/-- The blocks of a version from 1 to 10. -/
def blocksOf (version : Nat) : List (Nat × Nat) := (versionBlocksM.getD (version - 1) (0, [])).2

def dataCapacity (version : Nat) : Nat := ((blocksOf version).map Prod.snd).sum

/-- The bits of the length field. -/
def lenBits (version : Nat) : Nat := if version ≤ 9 then 8 else 16

def pickVersion (payloadLen : Nat) : Except QrError Nat :=
  match (List.range' 1 10).find? fun v =>
    4 + lenBits v + payloadLen * 8 ≤ dataCapacity v * 8 with
  | some v => .ok v
  | none => .error (.tooLarge payloadLen)

/-! ## Reed–Solomon parity over GF(256) -/

/-- The next power of the generator; the value is a `u16` below 256. -/
def gfStep (x : Nat) : Nat :=
  let x := x <<< 1
  if x &&& 0x100 ≠ 0 then x ^^^ 0x11D else x

def gfExp : Bytes :=
  (List.range' 255 257).foldl (fun exp i => exp ++ [exp.getD (i - 255) 0])
    ((List.range 255).map fun i => UInt8.ofNat (gfStep^[i] 1))

def gfLog : Bytes :=
  (List.range 255).foldl (fun log i => log.set (gfStep^[i] 1) (UInt8.ofNat i))
    (List.replicate 256 0)

/-- A product by logarithms; the tables have 512 and 256 entries, so no index is past them. -/
def gfMul (a b : UInt8) : UInt8 :=
  if a = 0 ∨ b = 0 then 0
  else gfExp.getD ((gfLog.getD a.toNat 0).toNat + (gfLog.getD b.toNat 0).toNat) 0

/-- One factor `x + α^i`: the polynomial times the constant, plus itself one degree up. -/
def rsTimes (poly : Bytes) (i : Nat) : Bytes :=
  List.zipWith (· ^^^ ·) (poly.map (gfMul · (gfExp.getD i 0)) ++ [0]) (0 :: poly)

def rsGenerator (n : Nat) : Bytes := (List.range n).foldl rsTimes [1]

/-- Eliminate the coefficient at `i` against the generator. -/
def rsEliminate (generator : Bytes) (ecLen : Nat) (out : Bytes) (i : Nat) : Bytes :=
  let factor := out.getD i 0
  if factor = 0 then out
  else
    (List.range ecLen).foldl
      (fun out jp =>
        let g := generator.getD (ecLen - 1 - jp) 0
        if g ≠ 0 then out.modify (i + jp + 1) (· ^^^ gfMul factor g) else out)
      out

def rsEncode (data : Bytes) (ecLen : Nat) : Bytes :=
  let generator := rsGenerator ecLen
  let out := data ++ List.replicate ecLen 0
  ((List.range data.length).foldl (rsEliminate generator ecLen) out).drop data.length

/-! ## Format and version information -/

/-- The remainder of `v` by the generator `g` of degree `deg`, from the top bit down. -/
def bchRemainder (g deg top : Nat) (v : Nat) : Nat :=
  (List.range' deg (top - deg)).reverse.foldl
    (fun v i => if (v >>> i) &&& 1 = 1 then v ^^^ (g <<< (i - deg)) else v) v

/-- 15 bits: level M is `00`. -/
def formatBits (mask : Nat) : Nat :=
  let data := mask
  let v := bchRemainder 0x537 10 15 (data <<< 10)
  ((data <<< 10) ||| (v &&& 0x3FF)) ^^^ 0x5412

def versionBits (version : Nat) : Nat :=
  let rem := bchRemainder 0x1F25 12 18 (version <<< 12)
  (version <<< 12) ||| (rem &&& 0xFFF)

end Qr

/-! ## The matrix -/

structure QrMatrix where
  size : Nat
  modules : List Bool
  mask : Nat
  version : Nat
  function : List Bool
  deriving DecidableEq

namespace QrMatrix

def get (m : QrMatrix) (row col : Nat) : Bool := m.modules.getD (row * m.size + col) false

def set (m : QrMatrix) (row col : Nat) (v : Bool) : Option QrMatrix :=
  let i := row * m.size + col
  if i < m.modules.length then some { m with modules := m.modules.set i v } else none

/-- `m.function[row * size + col] = true`. -/
def reserve (m : QrMatrix) (row col : Nat) : Option QrMatrix :=
  let i := row * m.size + col
  if i < m.function.length then some { m with function := m.function.set i true } else none

def setFunction (m : QrMatrix) (row col : Nat) (v : Bool) : Option QrMatrix :=
  (m.set row col v).bind fun m => m.reserve row col

end QrMatrix

namespace Qr

/-- A light grid without function modules. -/
def blank (version size mask : Nat) : QrMatrix :=
  ⟨size, List.replicate (size * size) false, mask, version, List.replicate (size * size) false⟩

/-- A module to set, as row, column and colour. -/
abbrev Cell : Type := Nat × Nat × Bool

/-- Finder patterns with their separators. -/
def finderCells (size : Nat) : List Cell :=
  [(0, 0), (0, size - 8), (size - 8, 0)].flatMap fun (r, c) =>
    (List.range 8).flatMap fun dr => (List.range 8).map fun dc =>
      let dark :=
        if dr = 7 ∨ dc = 7 then false
        else if dr = 0 ∨ dr = 6 ∨ dc = 0 ∨ dc = 6 then true
        else decide ((2 ≤ dr ∧ dr ≤ 4) ∧ 2 ≤ dc ∧ dc ≤ 4)
      (r + dr, c + dc, dark)

def timingCells (size : Nat) : List Cell :=
  (List.range' 8 (size - 8 - 8)).flatMap fun i => [(6, i, i % 2 == 0), (i, 6, i % 2 == 0)]

/-- The 5×5 pattern around a centre; `dr` and `dc` are offset by two. -/
def alignmentAt (cr cc : Nat) : List Cell :=
  (List.range 5).flatMap fun dr => (List.range 5).map fun dc =>
    (cr + dr - 2, cc + dc - 2,
      decide (dr = 0 ∨ dr = 4 ∨ dc = 0 ∨ dc = 4 ∨ dr = 2 ∧ dc = 2))

def alignmentCells (version size : Nat) : List Cell :=
  let centers := alignment.getD (version - 1) []
  centers.flatMap fun cr => centers.flatMap fun cc =>
    if cr ≤ 8 ∧ cc ≤ 8 ∨ cr ≤ 8 ∧ size - 9 ≤ cc ∨ size - 9 ≤ cr ∧ cc ≤ 8 then []
    else alignmentAt cr cc

/-- The format-info regions, reserved before their content is known. -/
def reservedCells (size : Nat) : List (Nat × Nat) :=
  ((List.range 9).flatMap fun i => if i ≠ 6 then [(8, i), (i, 8)] else [])
    ++ (List.range 8).flatMap fun i => [(8, size - 1 - i), (size - 1 - i, 8)]

def versionCells (version size : Nat) : List Cell :=
  if 7 ≤ version then
    (List.range 18).flatMap fun i =>
      let bit := (versionBits version).testBit i
      let a := i / 3
      let b := size - 11 + i % 3
      [(a, b, bit), (b, a, bit)]
  else []

/-- Bit `i` of the format info, in both copies. -/
def formatCellsAt (size fmt i : Nat) : List Cell :=
  let bit := fmt.testBit i
  let first :=
    if i ≤ 5 then (8, i, bit)
    else if i = 6 then (8, 7, bit)
    else if i = 7 then (8, 8, bit)
    else if i = 8 then (7, 8, bit)
    else (14 - i, 8, bit)
  let second := if i < 8 then (size - 1 - i, 8, bit) else (8, size - 15 + i, bit)
  [first, second]

def formatCells (size mask : Nat) : List Cell :=
  (List.range 15).flatMap (formatCellsAt size (formatBits mask))

/-- The dark module comes after the format info: one cell of the second copy is the same. -/
def darkModule (size : Nat) : Cell := (size - 8, 8, true)

def drawCells (cells : List Cell) (m : QrMatrix) : Option QrMatrix :=
  cells.foldlM (fun m cell => m.setFunction cell.1 cell.2.1 cell.2.2) m

def reserveCells (cells : List (Nat × Nat)) (m : QrMatrix) : Option QrMatrix :=
  cells.foldlM (fun m cell => m.reserve cell.1 cell.2) m

def buildMatrix (version size mask : Nat) : Option QrMatrix := do
  let m := blank version size mask
  let m ← drawCells (finderCells size ++ timingCells size ++ alignmentCells version size) m
  let m ← reserveCells (reservedCells size) m
  drawCells (versionCells version size ++ formatCells size mask ++ [darkModule size]) m

/-! ## Placement and masks -/

/-- The two modules of each row in a column pair, in walking order. -/
def pairCells (size col : Nat) (upward : Bool) : List (Nat × Nat) :=
  (List.range size).flatMap fun i =>
    let row := if upward then size - 1 - i else i
    [(row, col), (row, col - 1)]

/-- The zig-zag from column `col` on. The column is an `i32` that may end below zero. -/
def zigzagFrom (size col : Nat) (upward : Bool) : List (Nat × Nat) :=
  if col = 0 then []
  else
    let col' := if col = 6 then col - 1 else col
    pairCells size col' upward ++ zigzagFrom size (col' - 2) (!upward)
termination_by col
decreasing_by
  split <;> omega

def zigzag (size : Nat) : List (Nat × Nat) := zigzagFrom size (size - 1) true

def codewordBit (codewords : Bytes) (bitIndex : Nat) : Bool :=
  match codewords[bitIndex / 8]? with
  | some codeword => codeword.toNat.testBit (7 - bitIndex % 8)
  | none => false

/-- Place the codewords' bits on the modules of a walk that are not function modules. -/
def placeFrom (codewords : Bytes) : List (Nat × Nat) → Nat → QrMatrix → Option QrMatrix
  | [], _, m => some m
  | (row, col) :: walk, bitIndex, m =>
    match m.function[row * m.size + col]? with
    | none => none
    | some true => placeFrom codewords walk bitIndex m
    | some false =>
      (m.set row col (codewordBit codewords bitIndex)).bind
        (placeFrom codewords walk (bitIndex + 1))

def placeData (m : QrMatrix) (codewords : Bytes) : Option QrMatrix :=
  placeFrom codewords (zigzag m.size) 0 m

def maskFlips (mask row col : Nat) : Bool :=
  let y := row
  let x := col
  match mask with
  | 0 => (x + y) % 2 == 0
  | 1 => y % 2 == 0
  | 2 => x % 3 == 0
  | 3 => (x + y) % 3 == 0
  | 4 => (x / 2 + y / 3) % 2 == 0
  | 5 => (x * y) % 2 + (x * y) % 3 == 0
  | 6 => ((x * y) % 2 + (x * y) % 3) % 2 == 0
  | 7 => ((x + y) % 2 + (x * y) % 3) % 2 == 0
  | _ => false

def allCells (size : Nat) : List (Nat × Nat) :=
  (List.range size).flatMap fun row => (List.range size).map fun col => (row, col)

def maskFrom (mask : Nat) : List (Nat × Nat) → QrMatrix → Option QrMatrix
  | [], m => some m
  | (row, col) :: cells, m =>
    match m.function[row * m.size + col]? with
    | none => none
    | some true => maskFrom mask cells m
    | some false =>
      if maskFlips mask row col then (m.set row col (!m.get row col)).bind (maskFrom mask cells)
      else maskFrom mask cells m

def applyMask (m : QrMatrix) (mask : Nat) : Option QrMatrix := maskFrom mask (allCells m.size) m

/-! ## The penalty of a mask -/

/-- What a finished run of one colour costs. -/
def runPenalty (run : Nat) : Nat := if 5 ≤ run then 3 + (run - 5) else 0

def scanRuns : List Bool → Nat → Option Bool → Nat
  | [], run, _ => runPenalty run
  | v :: vs, run, prev =>
    if prev = some v then scanRuns vs (run + 1) prev
    else runPenalty run + scanRuns vs 1 (some v)

def finderPattern : List Bool := [true, false, true, true, true, false, true]

/-- N1: runs of one colour in the rows, then in the columns. -/
def penaltyRuns (m : QrMatrix) : Nat :=
  ((List.range m.size).map fun row =>
      scanRuns ((List.range m.size).map fun col => m.get row col) 0 none).sum
    + ((List.range m.size).map fun col =>
      scanRuns ((List.range m.size).map fun row => m.get row col) 0 none).sum

/-- N2: 2×2 blocks of one colour. -/
def penaltyBlocks (m : QrMatrix) : Nat :=
  ((List.range (m.size - 1)).map fun row => ((List.range (m.size - 1)).map fun col =>
    let a := m.get row col
    if a = m.get row (col + 1) ∧ a = m.get (row + 1) col ∧ a = m.get (row + 1) (col + 1) then 3
    else 0).sum).sum

/-- The cells `0..n` all satisfy `p`. -/
def allBelow (n : Nat) (p : Nat → Bool) : Bool := (List.range n).all p

/-- N3: finder-like patterns with four light modules on a side, along a row or a column. -/
def penaltyFinders (m : QrMatrix) : Nat :=
  ((List.range m.size).map fun row => ((List.range (m.size - 6)).map fun col =>
    let across :=
      allBelow 7 (fun k => m.get row (col + k) == finderPattern.getD k false)
        && (decide (col + 4 ≤ m.size)
              && allBelow 4 (fun k => decide (4 ≤ col) && !m.get row (col - 4 + k))
            || decide (col + 11 ≤ m.size) && allBelow 4 (fun k => !m.get row (col + 7 + k)))
    let down :=
      decide (row + 7 ≤ m.size)
        && allBelow 7 (fun k => m.get (row + k) col == finderPattern.getD k false)
        && (decide (row + 4 ≤ m.size)
              && allBelow 4 (fun k => decide (4 ≤ row) && !m.get (row - 4 + k) col)
            || decide (row + 11 ≤ m.size) && allBelow 4 (fun k => !m.get (row + 7 + k) col))
    (if across then 40 else 0) + (if down then 40 else 0)).sum).sum

/-- N4: how far the share of dark modules is from half, in steps of five percent. -/
def penaltyBalance (m : QrMatrix) : Nat :=
  let dark := m.modules.count true
  let percent := dark * 100 / (m.size * m.size)
  let prev5 := percent / 5 * 5
  let next5 := prev5 + 5
  let d1 := ((prev5 : Int) - 50).natAbs / 5
  let d2 := ((next5 : Int) - 50).natAbs / 5
  min d1 d2 * 10

def penaltyScore (m : QrMatrix) : Nat :=
  penaltyRuns m + penaltyBlocks m + penaltyFinders m + penaltyBalance m

/-! ## Encoding -/

def pushBits (value count : Nat) : List Bool :=
  (List.range count).reverse.map fun i => value.testBit i

/-- A chunk of bits, most significant first. -/
def byteOfBits (chunk : List Bool) : UInt8 :=
  chunk.foldl (fun v b => (v <<< 1) ||| (if b then 1 else 0)) 0

/-- The bytes of `n` chunks of eight bits. -/
def bytesOfBits : Nat → List Bool → Bytes
  | 0, _ => []
  | n + 1, bits => byteOfBits (bits.take 8) :: bytesOfBits n (bits.drop 8)

def padBytes : Nat → UInt8 → Bytes
  | 0, _ => []
  | n + 1, pad => pad :: padBytes n (if pad = 0xEC then 0x11 else 0xEC)

/-- Mode, length, payload, terminator, and zeros up to a whole byte. -/
def bitStream (version : Nat) (payload : Bytes) : List Bool :=
  let capacity := dataCapacity version
  let bits := pushBits 0b0100 4 ++ pushBits payload.length (lenBits version)
    ++ payload.flatMap fun b => pushBits b.toNat 8
  let bits := bits ++ List.replicate (min 4 (capacity * 8 - bits.length)) false
  bits ++ List.replicate ((8 - bits.length % 8) % 8) false

/-- The data codewords. -/
def dataBytes (version : Nat) (payload : Bytes) : Bytes :=
  let bits := bitStream version payload
  let bytes := bytesOfBits ((bits.length + 7) / 8) bits
  bytes ++ padBytes (dataCapacity version - bytes.length) 0xEC

/-- Cut the data into the blocks; a slice past the end is a panic. -/
def splitBlocks : List (Nat × Nat) → Bytes → Option (List Bytes)
  | [], _ => some []
  | (_, blockData) :: blocks, bytes =>
    if blockData ≤ bytes.length then
      (splitBlocks blocks (bytes.drop blockData)).map (bytes.take blockData :: ·)
    else none

def parityBlocks (blocks : List (Nat × Nat)) (dataBlocks : List Bytes) : List Bytes :=
  List.zipWith (fun (block : Nat × Nat) data => rsEncode data (block.1 - block.2)) blocks dataBlocks

/-- The first codeword of every block, then the second, and so on. -/
def interleave (blocks : List Bytes) : Bytes :=
  (List.range ((blocks.map List.length).foldl max 0)).flatMap fun i =>
    blocks.filterMap fun b => b[i]?

/-- The codewords in the order of placement. -/
def codewords (version : Nat) (payload : Bytes) : Option Bytes :=
  let blocks := blocksOf version
  (splitBlocks blocks (dataBytes version payload)).map fun dataBlocks =>
    interleave dataBlocks ++ interleave (parityBlocks blocks dataBlocks)

/-- The symbol with one mask. -/
def symbol (version : Nat) (interleaved : Bytes) (mask : Nat) : Option QrMatrix := do
  let m ← buildMatrix version (versionSide version) mask
  let m ← placeData m interleaved
  applyMask m mask

/-- The symbol of lowest penalty among the masks, the first of equals. -/
def bestSymbol (version : Nat) (interleaved : Bytes) :
    List Nat → Option (QrMatrix × Nat) → Option (Option (QrMatrix × Nat))
  | [], best => some best
  | mask :: masks, best =>
    match symbol version interleaved mask with
    | none => none
    | some m =>
      let penalty := penaltyScore m
      match best with
      | some (_, p) =>
        bestSymbol version interleaved masks (if penalty < p then some (m, penalty) else best)
      | none => bestSymbol version interleaved masks (some (m, penalty))

def encode (payload : Bytes) : Outcome QrError QrMatrix :=
  if maxBytePayloadV10M < payload.length then .err (.tooLarge payload.length)
  else
    match pickVersion payload.length with
    | .error e => .err e
    | .ok version =>
      match codewords version payload with
      | none => .panic
      | some interleaved =>
        match bestSymbol version interleaved (List.range 8) none with
        | none => .panic
        | some none => .err (.internal "mask selection failed")
        | some (some (m, _)) => .ok m

end Qr

end DiscCleaner
