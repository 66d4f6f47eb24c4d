import DiscCleaner.Lib.Bytes
import DiscCleaner.Lib.Merkle

/-!
# The attested blocks and their tree (dc-resurrect `nand.rs`, `attest.rs`)

What a route leaves behind is one record a block: the die, the block, what became of it and what its
pages read back. A record is a leaf of a Merkle tree; the counts over the records must account for
every block of the geometry. SHA-256 is a parameter.
-/

namespace DiscCleaner.Resurrect

open ByteLib MerkleLib

/-! ## Geometry (`nand.rs`) -/

structure NandGeometry where
  bytesPerPage : UInt32
  spareBytes : UInt32
  pagesPerBlock : UInt32
  blocksPerLun : UInt32
  luns : UInt32
  deriving DecidableEq

namespace NandGeometry

def totalBlocks (geo : NandGeometry) : UInt32 := geo.blocksPerLun * geo.luns

/-- User-visible capacity in bytes. -/
def capacity (geo : NandGeometry) : UInt64 :=
  geo.totalBlocks.toUInt64 * geo.pagesPerBlock.toUInt64 * geo.bytesPerPage.toUInt64

end NandGeometry

/-! ## Records -/

def ST_ERASED : UInt8 := 0
def ST_SKIPPED_BAD : UInt8 := 1
def ST_FAILED : UInt8 := 2
def ST_DIE_ID : UInt8 := 3

/-- The block value in the record of a die whose ID does not match. -/
def DIE_ID_BLOCK : UInt32 := 0xFFFFFFFF

/-- One attested block. -/
structure BlockRecord where
  die : UInt8
  block : UInt32
  status : UInt8
  nonzero : UInt32
  crc32 : UInt32
  deriving DecidableEq

namespace BlockRecord

def erased (die : UInt8) (block nonzero crc32 : UInt32) : BlockRecord :=
  ⟨die, block, ST_ERASED, nonzero, crc32⟩

def dieIdFail (die : UInt8) : BlockRecord := ⟨die, DIE_ID_BLOCK, ST_DIE_ID, 0, 0⟩

/-- From the four words that follow the magic of a mailbox record. -/
def fromMailbox (w1 w2 w3 w4 : UInt32) : BlockRecord where
  die := (w1 >>> 16).toUInt8
  block := w1 &&& 0xFFFF
  status := w2.toUInt8
  nonzero := w3
  crc32 := w4

/-- The preimage of a leaf: die, status, block, nonzero, CRC. -/
def leafBytes (r : BlockRecord) : Bytes :=
  [r.die, r.status] ++ le32 r.block.toNat ++ le32 r.nonzero.toNat ++ le32 r.crc32.toNat

def statusName (r : BlockRecord) : String :=
  if r.status = ST_ERASED then "erased"
  else if r.status = ST_SKIPPED_BAD then "skipped-bad"
  else if r.status = ST_FAILED then "failed"
  else if r.status = ST_DIE_ID then "die-id-fail"
  else "unknown"

def leafHash (sha256 : Bytes → Block 32) (r : BlockRecord) : Block 32 := sha256 r.leafBytes

end BlockRecord

/-! ## The tree -/

section Tree

variable (sha256 : Bytes → Block 32)

/-- A node over two. -/
def joined (left right : Block 32) : Block 32 := sha256 (left.bytes ++ right.bytes)

def zeroHash : Block 32 := ⟨List.replicate 32 0, by decide⟩

/-- The root over the leaf hashes; zeros over no leaves. -/
def merkleRoot (leaves : List (Block 32)) : Block 32 :=
  (root? (joined sha256) leaves).getD zeroHash

/-- One sampled inclusion proof: each step of the path is a sibling and whether it stands on the
right. -/
structure InclusionProof where
  index : UInt64
  leaf : Block 32
  path : List (Block 32 × Bool)
  deriving DecidableEq

/-- The proof for a leaf; an index outside the leaves unwinds. -/
def inclusionProof (leaves : List (Block 32)) (index : UInt64) : Option InclusionProof := do
  let path ← path? (joined sha256) leaves index.toNat
  let leaf ← leaves[index.toNat]?
  some ⟨index, leaf, path⟩

def verifyInclusion (proof : InclusionProof) (root : Block 32) : Bool :=
  climb (joined sha256) proof.leaf proof.path = root

/-- **A leaf of the list has a proof, and the proof verifies against the root.** -/
theorem inclusionProof_verifies {leaves : List (Block 32)} {index : UInt64}
    (h : index.toNat < leaves.length) :
    ∃ proof, inclusionProof sha256 leaves index = some proof ∧ proof.index = index ∧
      verifyInclusion sha256 proof (merkleRoot sha256 leaves) = true := by
  have hleaf : leaves[index.toNat]? = some leaves[index.toNat] := List.getElem?_eq_getElem h
  obtain ⟨path, hpath, hroot⟩ := climb_path? (joined sha256) hleaf
  refine ⟨⟨index, leaves[index.toNat], path⟩, ?_, rfl, ?_⟩
  · rw [inclusionProof, hpath, hleaf]
    rfl
  · rw [verifyInclusion, merkleRoot, hroot]
    exact decide_eq_true rfl

/-- Only a leaf of the list has one. -/
theorem index_lt_of_inclusionProof {leaves : List (Block 32)} {index : UInt64}
    {proof : InclusionProof} (h : inclusionProof sha256 leaves index = some proof) :
    index.toNat < leaves.length := by
  rw [inclusionProof] at h
  obtain ⟨path, _, htail⟩ := Option.bind_eq_some_iff.mp h
  obtain ⟨leaf, hleaf, _⟩ := Option.bind_eq_some_iff.mp htail
  exact (List.getElem?_eq_some_iff.mp hleaf).1

end Tree

/-! ## The counts -/

/-- Aggregate counts over the records. -/
structure BlockStats where
  total : UInt32
  erased : UInt32 := 0
  skippedBad : UInt32 := 0
  failed : UInt32 := 0
  dieIdFail : UInt32 := 0
  nonzeroTotal : UInt64 := 0
  deriving DecidableEq

namespace BlockStats

def countStatus (s : BlockStats) (status : UInt8) : BlockStats :=
  if status = ST_ERASED then { s with erased := s.erased + 1 }
  else if status = ST_SKIPPED_BAD then { s with skippedBad := s.skippedBad + 1 }
  else if status = ST_FAILED then { s with failed := s.failed + 1 }
  else if status = ST_DIE_ID then { s with dieIdFail := s.dieIdFail + 1 }
  else s

def count (s : BlockStats) (r : BlockRecord) : BlockStats :=
  { s.countStatus r.status with nonzeroTotal := s.nonzeroTotal + r.nonzero.toUInt64 }

def fromRecords (records : List BlockRecord) (totalBlocks : UInt32) : BlockStats :=
  records.foldl count { total := totalBlocks }

/-- `saturating_mul`. -/
def saturatingMul (a b : UInt32) : UInt32 := UInt32.ofNat (min (a.toNat * b.toNat) (2 ^ 32 - 1))

/-- Accounting identity: every block is accounted for, a die that failed its ID with all of its
blocks. -/
def complete (s : BlockStats) (geo : NandGeometry) : Bool :=
  s.erased + s.skippedBad + s.failed + saturatingMul s.dieIdFail geo.blocksPerLun = s.total

@[simp] theorem countStatus_total (s : BlockStats) (status : UInt8) :
    (s.countStatus status).total = s.total := by
  unfold countStatus
  split_ifs <;> rfl

@[simp] theorem foldl_count_total (records : List BlockRecord) (s : BlockStats) :
    (records.foldl count s).total = s.total := by
  induction records generalizing s with
  | nil => rfl
  | cons r records ih =>
    rw [List.foldl_cons, ih]
    exact countStatus_total s r.status

/-- The total is the one that was handed in. -/
@[simp] theorem fromRecords_total (records : List BlockRecord) (totalBlocks : UInt32) :
    (fromRecords records totalBlocks).total = totalBlocks :=
  foldl_count_total records _

@[simp] theorem saturatingMul_zero (a : UInt32) : saturatingMul a 0 = 0 := rfl

@[simp] theorem saturatingMul_one (a : UInt32) : saturatingMul a 1 = a := by
  have ha : a.toNat ≤ 2 ^ 32 - 1 := Nat.le_pred_of_lt a.toNat_lt
  have hone : (1 : UInt32).toNat = 1 := rfl
  rw [saturatingMul, hone, Nat.mul_one, Nat.min_eq_left ha, UInt32.ofNat_toNat]

end BlockStats

end DiscCleaner.Resurrect
