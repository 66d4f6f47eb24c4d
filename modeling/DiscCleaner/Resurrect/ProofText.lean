import DiscCleaner.Lib.LineText
import DiscCleaner.Resurrect.Attest
import DiscCleaner.Resurrect.Wire

/-!
# The erasure proof and its text (dc-resurrect `attest.rs`)

A proof document names what was erased and how, lists a leaf for each record, and carries a few
sampled inclusion proofs. `writeFile` prints it; `verifyStr` reads the text again line by line, checks
each leaf against its record, the root against the leaves, each sample against the root, and the
counts against the geometry.
-/

namespace DiscCleaner.Resurrect

open ByteLib TextLib

/-! ## The document -/

/-- The profile of a controller, as far as a proof names it. -/
structure ControllerProfile where
  name : String
  profileSha256 : String

inductive Stage where
  | probe
  | kernel

def Stage.name : Stage → String
  | probe => "stage-1-probe"
  | kernel => "stage-2-kernel"

inductive VerifyMode where
  | off
  | sampled
  | full

/-- What the `verify_mode` line says. -/
def VerifyMode.text : VerifyMode → String
  | off => "off"
  | sampled => "sampled"
  | full => "full"

/-- The erasure proof document. -/
structure ErasureProof where
  scenario : String
  controller : String
  controllerSha256 : String
  payloadStage : String
  payloadSha256 : Block 32
  payloadLen : UInt32
  payloadCrc32 : UInt32
  geometry : NandGeometry
  verifyMode : VerifyMode
  records : List BlockRecord
  merkleRoot : Block 32
  sampled : List InclusionProof
  nonce : UInt64
  timestampUnix : UInt64
  rig : String
  coreInstructions : UInt64

namespace ErasureProof

section Build

variable (sha256 : Bytes → Block 32)

/-- The inclusion proofs of `n` leaves that the generator picks. -/
def sample (leaves : List (Block 32)) : Nat → XorShift → Option (List InclusionProof × XorShift)
  | 0, rng => some ([], rng)
  | n + 1, rng => do
    let (index, rng) := rng.below (UInt64.ofNat leaves.length)
    let proof ← inclusionProof sha256 leaves index
    let (proofs, rng) ← sample leaves n rng
    some (proof :: proofs, rng)

/-- Eight inclusion proofs, or fewer for small sets. -/
def sampler (leaves : List (Block 32)) (rng : XorShift) : Option (List InclusionProof × XorShift) :=
  if leaves = [] then some ([], rng) else sample sha256 leaves (min leaves.length 8) rng

/-- A proof over the records of a run. The clock gives no time when it stands before the epoch. -/
def build (clock : Option UInt64) (scenario : String) (controller : ControllerProfile)
    (stage : Stage) (payloadSha256 : Block 32) (payloadLen payloadCrc32 : UInt32)
    (geometry : NandGeometry) (verifyMode : VerifyMode) (records : List BlockRecord)
    (seed coreInstructions : UInt64) : Option ErasureProof := do
  let leaves := records.map (BlockRecord.leafHash sha256)
  let (sampled, rng) ← sampler sha256 leaves (XorShift.new (seed ^^^ 0xD15EA5E))
  some {
    scenario := scenario
    controller := controller.name
    controllerSha256 := controller.profileSha256
    payloadStage := stage.name
    payloadSha256 := payloadSha256
    payloadLen := payloadLen
    payloadCrc32 := payloadCrc32
    geometry := geometry
    verifyMode := verifyMode
    records := records
    merkleRoot := Resurrect.merkleRoot sha256 leaves
    sampled := sampled
    nonce := rng.nextU64.1
    timestampUnix := clock.getD 0
    rig := "dc-resurrect 0.15.0 (sim transport)"
    coreInstructions := coreInstructions }

end Build

def stats (p : ErasureProof) : BlockStats :=
  BlockStats.fromRecords p.records p.geometry.totalBlocks

/-! ## Writing -/

/-- `key: value` -/
def keyed (key : String) (value : Text) : Text := key.toList ++ ':' :: ' ' :: value

/-- `hex` -/
def hexText (b : Block 32) : Text := (hexEncode b.bytes).toList

/-- The parts of the `geometry` line, which a bar stands between. -/
def geometryParts (geo : NandGeometry) : List Text :=
  [decimal geo.bytesPerPage.toNat ++ '+' :: decimal geo.spareBytes.toNat ++ " B/page ".toList,
    ' ' :: decimal geo.pagesPerBlock.toNat ++ " ppb ".toList,
    ' ' :: decimal geo.blocksPerLun.toNat ++ " blk/LUN ".toList,
    ' ' :: decimal geo.luns.toNat ++ " LUN ".toList,
    ' ' :: decimal geo.capacity.toNat ++ " bytes".toList]

def headerLines (p : ErasureProof) : List Text :=
  [keyed "scenario" p.scenario.toList,
    keyed "controller" p.controller.toList,
    keyed "controller_sha256" p.controllerSha256.toList,
    keyed "payload_stage" p.payloadStage.toList,
    keyed "payload_sha256" (hexText p.payloadSha256),
    keyed "payload_len" (decimal p.payloadLen.toNat),
    keyed "payload_crc32" (hexPad 8 p.payloadCrc32.toNat),
    keyed "geometry" (['|'].intercalate (geometryParts p.geometry)),
    keyed "verify_mode" p.verifyMode.text.toList,
    keyed "blocks_total" (decimal p.stats.total.toNat),
    keyed "blocks_erased" (decimal p.stats.erased.toNat),
    keyed "blocks_skipped_bad" (decimal p.stats.skippedBad.toNat),
    keyed "blocks_failed" (decimal p.stats.failed.toNat),
    keyed "die_id_fail" (decimal p.stats.dieIdFail.toNat),
    keyed "merkle_root" (hexText p.merkleRoot),
    keyed "nonce" (hexPad 16 p.nonce.toNat),
    keyed "timestamp_unix" (decimal p.timestampUnix.toNat),
    keyed "core_instructions" (decimal p.coreInstructions.toNat),
    keyed "rig" p.rig.toList]

def leafLine (sha256 : Bytes → Block 32) (r : BlockRecord) : Text :=
  unwords [hexPad 2 r.die.toNat, hexPad 8 r.block.toNat, decimal r.status.toNat,
    hexPad 8 r.nonzero.toNat, hexPad 8 r.crc32.toNat, hexText (r.leafHash sha256)]

def recordLine (r : BlockRecord) : Text :=
  unwords ["die".toList, decimal r.die.toNat, "block".toList, decimal r.block.toNat,
    r.statusName.toList, "nonzero".toList, decimal r.nonzero.toNat, "crc32".toList,
    hexPad 8 r.crc32.toNat]

def siblingLine (step : Block 32 × Bool) : Text :=
  keyed "sibling" (unwords [hexText step.1, if step.2 then "right".toList else "left".toList])

def inclusionLines (proof : InclusionProof) : List Text :=
  keyed "index" (decimal proof.index.toNat) :: keyed "leaf" (hexText proof.leaf) ::
    proof.path.map siblingLine

/-- The section of the full records, when there is one. -/
def recordSection (records : List BlockRecord) (fullRecords : Bool) : List Text :=
  if fullRecords then [[], "[records]".toList] ++ records.map recordLine else []

/-- The lines that `write_file` puts out, each of which a line feed ends. -/
def fileLines (sha256 : Bytes → Block 32) (p : ErasureProof) (fullRecords : Bool) : List Text :=
  "DC-RESURRECT ERASURE PROOF v1".toList :: p.headerLines
    ++ [[], "[leaves]".toList] ++ p.records.map (leafLine sha256)
    ++ recordSection p.records fullRecords
    ++ [[], "[inclusion-proofs]".toList] ++ p.sampled.flatMap inclusionLines
    ++ [[], "[end]".toList]

/-- The text that `write_file` writes. -/
def writeFile (sha256 : Bytes → Block 32) (p : ErasureProof) (fullRecords : Bool) : String :=
  String.ofList ((p.fileLines sha256 fullRecords).flatMap (· ++ ['\n']))

end ErasureProof

/-! ## Reading -/

inductive ProofError where
  | malformed (what : String)
  | rootMismatch
  | inclusionFailed
  | incomplete
  deriving DecidableEq

/-- How reading ends without a report: with an error, or with an unwind, when a slice of the text
cuts a character. -/
inductive Halt where
  | panicked
  | failed (error : ProofError)
  deriving DecidableEq

structure VerifyReport where
  controller : String
  stats : BlockStats
  merkleRoot : Block 32
  leavesChecked : Nat
  inclusionsChecked : Nat
  payloadSha256 : Block 32
  deriving DecidableEq

/-- What the reader has gathered from the lines so far. -/
structure Scan where
  controller : Text := []
  rootHex : Text := []
  payloadSha : Block 32 := zeroHash
  total : UInt32 := 0
  ppb : UInt32 := 0
  bpl : UInt32 := 0
  luns : UInt32 := 0
  leaves : List (Block 32) := []
  records : List BlockRecord := []
  proofs : List InclusionProof := []
  within : Text := []
  curProof : Option InclusionProof := none
  deriving DecidableEq

def malformed {α : Type} (what : String) : Except Halt α := .error (.failed (.malformed what))

/-- The number of a numeral, or the error that names it. -/
def numeral (what : String) (radix bound : Nat) (t : Text) : Except Halt Nat :=
  match fromStrRadix radix bound t with
  | some n => .ok n
  | none => malformed what

/-- `len` of a text: its size in bytes. -/
def byteLen (t : Text) : Nat := (t.map Char.utf8Size).sum

/-- The slice of the next two bytes and what follows it; none when an end cuts a character. -/
def takePair : Text → Option (Text × Text)
  | [] => none
  | c :: t =>
    if c.utf8Size = 2 then some ([c], t)
    else if c.utf8Size = 1 then
      match t with
      | d :: t => if d.utf8Size = 1 then some ([c, d], t) else none
      | [] => none
    else none

/-- The bytes of a hexadecimal field, from one slice of two bytes each. -/
def hexBytes (what : String) : (n : Nat) → Text → Except Halt (Block n)
  | 0, _ => .ok ⟨[], rfl⟩
  | n + 1, t =>
    match takePair t with
    | none => .error .panicked
    | some (pair, t) => do
      let b ← numeral what 16 256 pair
      let block ← hexBytes what n t
      .ok ⟨UInt8.ofNat b :: block.bytes, by rw [List.length_cons, block.size]⟩

/-- The hash that a field of 64 bytes spells; a field of another size spells none. -/
def hexHash (what : String) (t : Text) : Except Halt (Option (Block 32)) :=
  if byteLen t = 64 then (hexBytes what 32 t).map some else .ok none

/-- What a line says for a key. -/
def get (key : String) (line : Text) : Option Text :=
  (stripPrefix (key.toList ++ [':']) line).map trim

def endsWith (suffix : String) (t : Text) : Bool := suffix.toList.isSuffixOf t

/-- The first word of a part as a number, or zero. -/
def firstNumber (part : Text) : UInt32 :=
  UInt32.ofNat ((fromStrRadix 10 (2 ^ 32) ((words part).headD ['0'])).getD 0)

namespace Scan

/-- One part of the geometry line. -/
def geometryPart (s : Scan) (part : Text) : Scan :=
  let part := trim part
  if endsWith "ppb" part then { s with ppb := firstNumber part }
  else if endsWith "blk/LUN" part then { s with bpl := firstNumber part }
  else if endsWith "LUN" part then { s with luns := firstNumber part }
  else s

/-- A line before the first section. -/
def headerLine (s : Scan) (line : Text) : Except Halt Scan :=
  match get "controller" line with
  | some v => .ok { s with controller := v }
  | none =>
  match get "merkle_root" line with
  | some v => .ok { s with rootHex := v }
  | none =>
  match get "payload_sha256" line with
  | some v => do
    match ← hexHash "payload sha" v with
    | some hash => .ok { s with payloadSha := hash }
    | none => .ok s
  | none =>
  match get "blocks_total" line with
  | some v => do
    let total ← numeral "blocks_total" 10 (2 ^ 32) v
    .ok { s with total := UInt32.ofNat total }
  | none =>
  match get "geometry" line with
  | some v => .ok ((v.splitOn '|').foldl geometryPart s)
  | none => .ok s

/-- A line of the leaf section: its record must hash to the leaf it states. -/
def leafLine (sha256 : Bytes → Block 32) (s : Scan) (line : Text) : Except Halt Scan :=
  match words line with
  | die :: block :: status :: nonzero :: crc :: h :: _ => do
    let die ← numeral "leaf die" 16 256 die
    let block ← numeral "leaf block" 16 (2 ^ 32) block
    let status ← numeral "leaf status" 10 256 status
    let nonzero ← numeral "leaf nonzero" 16 (2 ^ 32) nonzero
    let crc ← numeral "leaf crc" 16 (2 ^ 32) crc
    match ← hexHash "leaf" h with
    | none => .ok s
    | some leaf =>
      let entry : BlockRecord := ⟨UInt8.ofNat die, UInt32.ofNat block, UInt8.ofNat status,
        UInt32.ofNat nonzero, UInt32.ofNat crc⟩
      if entry.leafHash sha256 ≠ leaf then
        malformed s!"leaf {s.leaves.length} preimage/hash mismatch"
      else .ok { s with leaves := s.leaves ++ [leaf], records := s.records ++ [entry] }
  | _ => .ok s

/-- The proof under way joins those that are through. -/
def closeProof (s : Scan) : Scan :=
  { s with proofs := s.proofs ++ s.curProof.toList, curProof := none }

def withProof (s : Scan) (p : InclusionProof) : Scan := { s with curProof := some p }

/-- A section begins. -/
def enter (s : Scan) (name : Text) : Scan := { s.closeProof with within := name }

/-- A line of the section of inclusion proofs. -/
def inclusionLine (s : Scan) (line : Text) : Except Halt Scan :=
  match get "index" line with
  | some v => do
    let index ← numeral "index" 10 (2 ^ 64) v
    .ok (s.closeProof.withProof ⟨UInt64.ofNat index, zeroHash, []⟩)
  | none =>
  match get "leaf" line with
  | some v =>
    match s.curProof with
    | none => .ok s
    | some p => do
      match ← hexHash "pf leaf" v with
      | some leaf => .ok (s.withProof { p with leaf := leaf })
      | none => .ok s
  | none =>
  match get "sibling" line with
  | some v =>
    let h := (words v).headD []
    let side := (words v).tail.headD "left".toList == "right".toList
    match s.curProof with
    | none => .ok s
    | some p => do
      match ← hexHash "sibling" h with
      | some sib => .ok (s.withProof { p with path := p.path ++ [(sib, side)] })
      | none => .ok s
  | none => .ok s

/-- One line of the text. -/
def line (sha256 : Bytes → Block 32) (s : Scan) (line : Text) : Except Halt Scan :=
  let line := trim line
  if line.head? = some '[' then .ok (s.enter line)
  else if s.within = [] then s.headerLine line
  else if s.within = "[leaves]".toList then s.leafLine sha256 line
  else if s.within = "[inclusion-proofs]".toList then s.inclusionLine line
  else .ok s

@[simp] theorem closeProof_within (s : Scan) : s.closeProof.within = s.within := rfl

@[simp] theorem withProof_within (s : Scan) (p : InclusionProof) :
    (s.withProof p).within = s.within := rfl

@[simp] theorem enter_within (s : Scan) (name : Text) : (s.enter name).within = name := rfl

/-- What `verify_str` does after the last line. -/
def finish (sha256 : Bytes → Block 32) (s : Scan) : Except Halt VerifyReport := do
  let s := s.closeProof
  match ← hexHash "root" s.rootHex with
  | none => malformed "missing merkle_root"
  | some want =>
    if merkleRoot sha256 s.leaves ≠ want then .error (.failed .rootMismatch)
    else if s.proofs.any (fun p => !verifyInclusion sha256 p want) then
      .error (.failed .inclusionFailed)
    else
      let geo : NandGeometry := ⟨2048, 64, max s.ppb 1, max s.bpl 1, max s.luns 1⟩
      let stats := BlockStats.fromRecords s.records s.total
      if !stats.complete geo then .error (.failed .incomplete)
      else .ok {
        controller := String.ofList s.controller
        stats := stats
        merkleRoot := want
        leavesChecked := s.leaves.length
        inclusionsChecked := s.proofs.length
        payloadSha256 := s.payloadSha }

end Scan

/-- `verify_str`: recompute the Merkle root from the leaf lines, check sampled inclusion paths, check
block accounting. -/
def verifyStr (sha256 : Bytes → Block 32) (text : String) : Except Halt VerifyReport := do
  let s ← (lines text.toList).foldlM (Scan.line sha256) {}
  s.finish sha256

end DiscCleaner.Resurrect
