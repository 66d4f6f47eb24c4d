import DiscCleaner.Lib.BigEndian

/-!
# What both ends of the wire share (dc-resurrect `crc.rs`, `rng.rs`, `hal.rs`)

The CRC that protects every Boot-ROM frame, little-endian words, the seeded generator, and the errors
of a link.
-/

namespace DiscCleaner.Resurrect

open ByteLib

/-! ## CRC-16/XMODEM -/

/-- One bit of the shift register. -/
def crc16Shift (crc : UInt16) : UInt16 :=
  if crc &&& 0x8000 ≠ 0 then (crc <<< 1) ^^^ 0x1021 else crc <<< 1

def crc16Byte (crc : UInt16) (b : UInt8) : UInt16 :=
  (List.range 8).foldl (fun crc _ => crc16Shift crc) (crc ^^^ (b.toUInt16 <<< 8))

/-- `crc16_xmodem`. -/
def crc16Xmodem (data : Bytes) : UInt16 := data.foldl crc16Byte 0

/-! ## Little-endian words -/

def le16 (w : UInt16) : Bytes := [UInt8.ofNat w.toNat, UInt8.ofNat (w.toNat / 256)]

/-- `u16::from_le_bytes`. -/
def u16Of (bs : Bytes) : UInt16 := UInt16.ofNat (ofLe bs)

/-- `u32::from_le_bytes`. -/
def u32Of (bs : Bytes) : UInt32 := UInt32.ofNat (ofLe bs)

@[simp] theorem length_le16 (w : UInt16) : (le16 w).length = 2 := rfl

@[simp] theorem u16Of_le16 (w : UInt16) : u16Of (le16 w) = w := by
  have hlt : w.toNat < 65536 := w.toNat_lt
  apply UInt16.toNat_inj.mp
  rw [u16Of, UInt16.toNat_ofNat', le16]
  simp only [ofLe, UInt8.toNat_ofNat']
  omega

@[simp] theorem u32Of_le32 (w : UInt32) : u32Of (le32 w.toNat) = w := by
  rw [u32Of, ofLe_le32 w.toNat_lt, UInt32.ofNat_toNat]

/-! ## The generator -/

/-- `XorShift`, the seeded generator of a scenario. -/
structure XorShift where
  state : UInt64
  deriving DecidableEq

namespace XorShift

def new (seed : UInt64) : XorShift := ⟨(seed * 0x9E3779B97F4A7C15) ||| 1⟩

def nextU64 (rng : XorShift) : UInt64 × XorShift :=
  let x := rng.state
  let x := x ^^^ (x >>> 12)
  let x := x ^^^ (x <<< 25)
  let x := x ^^^ (x >>> 27)
  (x * 0x2545F4914F6CDD1D, ⟨x⟩)

def below (rng : XorShift) (n : UInt64) : UInt64 × XorShift :=
  if n = 0 then (0, rng) else (rng.nextU64.1 % n, rng.nextU64.2)

end XorShift

/-! ## Link errors -/

/-- `LinkError`, as far as a simulated link raises it. -/
inductive LinkError where
  | noAck
  | fault (text : String)
  deriving DecidableEq

end DiscCleaner.Resurrect
