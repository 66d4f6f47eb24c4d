import DiscCleaner.Core.Record

/-!
# DiscCleaner — the read-back verifier (`dc-verify`)

The sink a read-back feeds: it counts the windows it is shown, counts the ones that do not
hold the expected pattern, keeps the first 64 of their addresses, and hashes the stream.
-/

namespace DiscCleaner

open ByteLib

/-- Entropy figures of a read-back; floating-point values are kept as their bit patterns. -/
structure EntropyDiag where
  hMin : UInt64
  hMean : UInt64
  hMax : UInt64
  chi2Max : UInt64
  windows : Nat
  deriving DecidableEq

structure VerificationReport where
  level : VerifyLevel
  windowsChecked : Nat
  mismatchCount : Nat
  firstMismatchLbas : List Nat
  streamHashBlake3 : String
  streamHashSha256 : Option String
  entropy : Option EntropyDiag
  deriving DecidableEq

/-- What `finalize` computes from the stream: two digests and the entropy figures. -/
structure StreamDigests where
  blake3 : Bytes → Digest
  sha256 : Bytes → Digest
  entropy : List Bytes → Option EntropyDiag

/-- An incremental hasher is the bytes it has been fed, the entropy calculator the windows. -/
structure StreamVerifier where
  level : VerifyLevel
  windowBytes : Nat
  logicalBlockSize : Nat
  blake3Hasher : Bytes
  sha256Hasher : Option Bytes
  entropyCalc : Option (List Bytes)
  windowsChecked : Nat
  mismatchCount : Nat
  firstMismatchLbas : List Nat

namespace StreamVerifier

def new (level : VerifyLevel) (windowBytes logicalBlockSize : Nat)
    (enableSha256 enableEntropy : Bool) : StreamVerifier where
  level := level
  windowBytes := windowBytes
  logicalBlockSize := max logicalBlockSize 512
  blake3Hasher := []
  sha256Hasher := if enableSha256 then some [] else none
  entropyCalc := if enableEntropy then some [] else none
  windowsChecked := 0
  mismatchCount := 0
  firstMismatchLbas := []

/-- The address a mismatching window is reported under (`u64` arithmetic). -/
def mismatchLba (v : StreamVerifier) (windowIndex : Nat) : Nat :=
  windowIndex * v.windowBytes % 2 ^ 64 / v.logicalBlockSize

def onWindow (v : StreamVerifier) (windowIndex : Nat) (isValid : Bool) (data : Bytes) :
    StreamVerifier :=
  { v with
    windowsChecked := v.windowsChecked + 1
    mismatchCount := if isValid then v.mismatchCount else v.mismatchCount + 1
    firstMismatchLbas :=
      if isValid then v.firstMismatchLbas
      else if v.firstMismatchLbas.length < 64 then
        v.firstMismatchLbas ++ [v.mismatchLba windowIndex]
      else v.firstMismatchLbas
    blake3Hasher := v.blake3Hasher ++ data
    sha256Hasher := v.sha256Hasher.map (· ++ data)
    entropyCalc := v.entropyCalc.map (· ++ [data]) }

def finalize (dg : StreamDigests) (v : StreamVerifier) : VerificationReport where
  level := v.level
  windowsChecked := v.windowsChecked
  mismatchCount := v.mismatchCount
  firstMismatchLbas := v.firstMismatchLbas
  streamHashBlake3 := hexEncode (dg.blake3 v.blake3Hasher).bytes
  streamHashSha256 := v.sha256Hasher.map fun bs => hexEncode (dg.sha256 bs).bytes
  entropy := v.entropyCalc.bind dg.entropy

/-! ## What a stream of windows leaves -/

/-- One window as the engine hands it over: its index, whether it matched, its bytes. -/
structure WindowRead where
  index : Nat
  isValid : Bool
  data : Bytes

def onWindows (v : StreamVerifier) (reads : List WindowRead) : StreamVerifier :=
  reads.foldl (fun v r => v.onWindow r.index r.isValid r.data) v

@[simp] theorem onWindows_nil (v : StreamVerifier) : v.onWindows [] = v := rfl

@[simp] theorem onWindows_cons (v : StreamVerifier) (r : WindowRead) (rs : List WindowRead) :
    v.onWindows (r :: rs) = (v.onWindow r.index r.isValid r.data).onWindows rs := rfl

theorem onWindows_sha256Hasher {v : StreamVerifier} (hv : v.sha256Hasher = none)
    (reads : List WindowRead) : (v.onWindows reads).sha256Hasher = none := by
  induction reads generalizing v with
  | nil => exact hv
  | cons r rs ih =>
    rw [onWindows_cons]
    apply ih
    show v.sha256Hasher.map _ = none
    rw [hv]
    rfl

/-- **The count is exact**: a stream adds one mismatch for every window that did not match. -/
theorem onWindows_mismatchCount (v : StreamVerifier) (reads : List WindowRead) :
    (v.onWindows reads).mismatchCount
      = v.mismatchCount + reads.countP (fun r => !r.isValid) := by
  induction reads generalizing v with
  | nil => rfl
  | cons r rs ih =>
    rw [onWindows_cons, ih, List.countP_cons]
    show (if r.isValid then v.mismatchCount else v.mismatchCount + 1) + _ = _
    cases r.isValid with
    | true => simp
    | false => simp; omega

/-- A report is free of mismatches exactly when every window it was shown matched. -/
theorem mismatchCount_eq_zero_iff {v : StreamVerifier} (hv : v.mismatchCount = 0)
    (reads : List WindowRead) :
    (v.onWindows reads).mismatchCount = 0 ↔ ∀ r ∈ reads, r.isValid = true := by
  rw [onWindows_mismatchCount, hv, Nat.zero_add, List.countP_eq_zero]
  simp

end StreamVerifier

end DiscCleaner
