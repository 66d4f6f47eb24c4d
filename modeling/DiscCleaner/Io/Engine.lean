import DiscCleaner.Verify.StreamVerifier
import DiscCleaner.Lib.Prog

/-!
# DiscCleaner — spans, windows and the engine interface (`traits.rs`)

The device as a span of windows, and what an engine offers: overwrite passes, a zero fast
path, a read-back and a flush.
-/

namespace DiscCleaner

open ByteLib ProgLib

/-! ## Spans -/

/-- A device as `LbaSpan::new` builds it: `start_byte` is 0, blocks have at least 512 bytes,
windows at least 4096, and every size is a machine word. -/
structure LbaSpan where
  totalBytes : Nat
  logicalBlockSize : Nat
  windowBytes : Nat
  totalBytes_lt : totalBytes < 2 ^ 64
  logicalBlockSize_ge : 512 ≤ logicalBlockSize
  windowBytes_ge : 4096 ≤ windowBytes
  windowBytes_lt : windowBytes < 2 ^ 64

namespace LbaSpan

/-- `LbaSpan::new`, its arguments read as the machine words they are. -/
def new (totalBytes logicalBlockSize windowBytes : Nat) : LbaSpan where
  totalBytes := totalBytes % 2 ^ 64
  logicalBlockSize := max (logicalBlockSize % 2 ^ 32) 512
  windowBytes := max (windowBytes % 2 ^ 64) 4096
  totalBytes_lt := Nat.mod_lt _ (Nat.two_pow_pos 64)
  logicalBlockSize_ge := Nat.le_max_right _ _
  windowBytes_ge := Nat.le_max_right _ _
  windowBytes_lt := by
    have := Nat.mod_lt windowBytes (Nat.two_pow_pos 64)
    omega

/-- A stride of at most 1 samples every window. -/
def windowIsSampled (w stride : Nat) : Bool := stride ≤ 1 || w % stride = 0

def totalWindows (span : LbaSpan) : Nat :=
  (span.totalBytes + span.windowBytes - 1) / span.windowBytes

/-- Offset and length of a window; the product saturates at the largest machine word. -/
def windowByteRange (span : LbaSpan) (windowIndex : Nat) : Nat × Nat :=
  let offset :=
    if windowIndex * span.windowBytes < 2 ^ 64 then windowIndex * span.windowBytes
    else 2 ^ 64 - 1
  (offset, min (span.totalBytes - offset) span.windowBytes)

variable (span : LbaSpan)

theorem windowBytes_pos : 0 < span.windowBytes := by
  have := span.windowBytes_ge
  omega

/-- A window exists when its first byte does. -/
theorem lt_totalWindows_iff {w : Nat} :
    w < span.totalWindows ↔ w * span.windowBytes < span.totalBytes := by
  have hpos := span.windowBytes_pos
  unfold totalWindows
  rw [Nat.lt_div_iff_mul_lt hpos]
  omega

theorem totalWindows_pos_iff : 0 < span.totalWindows ↔ 0 < span.totalBytes := by
  rw [lt_totalWindows_iff, Nat.zero_mul]

/-- The range of an existing window: no saturation, and at least one byte. -/
theorem windowByteRange_of_lt {w : Nat} (h : w < span.totalWindows) :
    span.windowByteRange w
        = (w * span.windowBytes, min (span.totalBytes - w * span.windowBytes) span.windowBytes)
      ∧ 0 < min (span.totalBytes - w * span.windowBytes) span.windowBytes := by
  have hlt := span.lt_totalWindows_iff.mp h
  have htotal := span.totalBytes_lt
  have hpos := span.windowBytes_pos
  unfold windowByteRange
  rw [if_pos (hlt.trans htotal)]
  exact ⟨rfl, by omega⟩

end LbaSpan

/-! ## Calls -/

/-- How an engine call ends. -/
abbrev CallResult (α : Type) : Type := Outcome DcError α

structure PassOutcome where
  windowsWritten : Nat
  bytesWritten : Nat
  fastPathUsed : Bool
  durationMs : Nat
  deriving DecidableEq

/-- What an engine does on a device in state `σ`. A read-back returns the windows it handed
to the sink, in order. -/
structure Engine (σ : Type) where
  writePass : UInt8 → PatternSource → LbaSpan → Nat → σ → CallResult PassOutcome × σ
  zeroPass : UInt8 → LbaSpan → Nat → σ → CallResult PassOutcome × σ
  readVerify : PatternSource → LbaSpan → Nat → σ →
    CallResult Unit × List StreamVerifier.WindowRead × σ
  flush : σ → CallResult Unit × σ

end DiscCleaner
