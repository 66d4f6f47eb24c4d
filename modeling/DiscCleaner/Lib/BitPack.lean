import DiscCleaner.Lib.Bytes
import Mathlib.Data.Fin.Basic
import Mathlib.Data.List.GetD
import Mathlib.Data.Nat.Bitwise

/-!
# Tight bit packing, least significant bit first

`count` values of `bits` bits each make one stream of bits; byte `k` of the text holds the bits
`8 k` to `8 k + 7` of it.

* **`unpackBits_packBits`** — values of at most `bits` bits are read back.
-/

namespace BitPackLib

open ByteLib

/-- Bit `b` of a value. -/
def bitOf (v : Int) (b : Nat) : Bool := decide ((v >>> b) % 2 = 1)

theorem bitOf_natCast (v b : Nat) : bitOf (v : Int) b = v.testBit b := by
  rw [bitOf, Nat.testBit_eq_decide_div_mod_eq, decide_eq_decide, ← Int.natCast_shiftRight,
    Nat.shiftRight_eq_div_pow]
  omega

/-- The text of `count` values. -/
def packBits {count : Nat} (bits : Nat) (vals : Fin count → Int) : Bytes :=
  (List.range (count * bits / 8)).map fun k => UInt8.ofNat (Nat.ofBits fun t : Fin 8 =>
    if h : (8 * k + t) / bits < count then bitOf (vals ⟨_, h⟩) ((8 * k + t) % bits) else false)

/-- The `j`-th value of a text. -/
def unpackBits (bits : Nat) (buf : Bytes) (j : Nat) : Int :=
  Nat.ofBits fun b : Fin bits =>
    ((buf.getD ((j * bits + b) / 8) 0).toNat).testBit ((j * bits + b) % 8)

@[simp] theorem length_packBits {count : Nat} (bits : Nat) (vals : Fin count → Int) :
    (packBits bits vals).length = count * bits / 8 := by
  rw [packBits, List.length_map, List.length_range]

/-- A bit of the text, found again. -/
theorem testBit_packBits {count bits : Nat} (vals : Fin count → Int) {p : Nat}
    (hp : p / 8 < count * bits / 8) :
    (((packBits bits vals).getD (p / 8) 0).toNat).testBit (p % 8)
      = if h : p / bits < count then bitOf (vals ⟨_, h⟩) (p % bits) else false := by
  have hget : (packBits bits vals).getD (p / 8) 0
      = UInt8.ofNat (Nat.ofBits fun t : Fin 8 => if h : (8 * (p / 8) + t) / bits < count
          then bitOf (vals ⟨_, h⟩) ((8 * (p / 8) + t) % bits) else false) := by
    rw [List.getD_eq_getElem _ _ (by rwa [length_packBits])]
    simp [packBits]
  have hlt := Nat.ofBits_lt_two_pow fun t : Fin 8 => if h : (8 * (p / 8) + t) / bits < count
          then bitOf (vals ⟨_, h⟩) ((8 * (p / 8) + t) % bits) else false
  have hp8 : 8 * (p / 8) + p % 8 = p := Nat.div_add_mod p 8
  rw [hget, UInt8.toNat_ofNat', Nat.mod_eq_of_lt hlt,
    Nat.testBit_ofBits_lt _ _ (Nat.mod_lt p (by decide))]
  simp only [hp8]

/-- **Packed values are read back**, when each fits its bits and the text has no odd end. -/
theorem unpackBits_packBits {count bits : Nat} (vals : Fin count → Int) (j : Fin count)
    (h8 : 8 ∣ count * bits) (hlo : 0 ≤ vals j) (hhi : vals j < 2 ^ bits) :
    unpackBits bits (packBits bits vals) j = vals j := by
  obtain ⟨v, hv⟩ := Int.eq_ofNat_of_zero_le hlo
  have hvlt : v < 2 ^ bits := by exact_mod_cast hv ▸ hhi
  have hval : (Nat.ofBits fun b : Fin bits => (((packBits bits vals).getD
      ((j * bits + b) / 8) 0).toNat).testBit ((j * bits + b) % 8)) = v := by
    refine Nat.eq_of_testBit_eq fun b => ?_
    rcases Nat.lt_or_ge b bits with hb | hb
    · have hpos : j * bits + b < count * bits := by
        calc j * bits + b < j * bits + bits := Nat.add_lt_add_left hb _
          _ = (j + 1) * bits := (Nat.succ_mul j bits).symm
          _ ≤ count * bits := Nat.mul_le_mul_right bits j.isLt
      have hbyte : (j * bits + b) / 8 < count * bits / 8 :=
        Nat.div_lt_div_of_lt_of_dvd h8 hpos
      have hdiv : (j * bits + b) / bits = j := by
        rw [Nat.mul_comm, Nat.mul_add_div (by omega), Nat.div_eq_of_lt hb, Nat.add_zero]
      have hmod : (j * bits + b) % bits = b := by
        rw [Nat.mul_comm, Nat.mul_add_mod, Nat.mod_eq_of_lt hb]
      rw [Nat.testBit_ofBits_lt _ _ hb, testBit_packBits vals hbyte]
      simp only [hdiv, hmod, j.isLt, dite_true]
      rw [show vals ⟨j, j.isLt⟩ = (v : Int) from hv, bitOf_natCast]
    · rw [Nat.testBit_ofBits_ge _ _ hb]
      exact (Nat.testBit_lt_two_pow (hvlt.trans_le (Nat.pow_le_pow_right (by decide) hb))).symm
  rw [unpackBits, hval, hv]

end BitPackLib

/-!
# Single bits of 32-bit words

Words of flags are combined with `|||` and `&&&` and tested against a shifted one. Here a flag is a
bit of the word, and each of these operations is what it does to one bit.
-/

namespace WordLib

def hasBit (w : UInt32) (i : Nat) : Bool := w.toNat.testBit i

@[simp] theorem hasBit_or (a b : UInt32) (i : Nat) : hasBit (a ||| b) i = (hasBit a i || hasBit b i) := by
  rw [hasBit, UInt32.toNat_or, Nat.testBit_or]
  rfl

@[simp] theorem hasBit_and (a b : UInt32) (i : Nat) :
    hasBit (a &&& b) i = (hasBit a i && hasBit b i) := by
  rw [hasBit, UInt32.toNat_and, Nat.testBit_and]
  rfl

@[simp] theorem hasBit_zero (i : Nat) : hasBit 0 i = false := by
  show Nat.testBit 0 i = false
  exact Nat.zero_testBit i

/-- A word with one bit set. -/
def flag (i : Nat) : UInt32 := (1 : UInt32) <<< UInt32.ofNat i

theorem flag_toNat {i : Nat} (h : i < 32) : (flag i).toNat = 2 ^ i := by
  have hpow : 2 ^ i < 2 ^ 32 := Nat.pow_lt_pow_right (by decide) h
  have hi : (UInt32.ofNat i).toNat % 32 = i := by
    rw [UInt32.toNat_ofNat']
    omega
  rw [flag, UInt32.toNat_shiftLeft, hi, Nat.shiftLeft_eq]
  simpa using hpow

theorem hasBit_flag {i : Nat} (h : i < 32) (j : Nat) : hasBit (flag i) j = decide (i = j) := by
  rw [hasBit, flag_toNat h, Nat.testBit_two_pow]

theorem ext_bits {a b : UInt32} (h : ∀ i, hasBit a i = hasBit b i) : a = b :=
  UInt32.toNat_inj.mp (Nat.eq_of_testBit_eq h)

/-- The test `w & (1 << i) != 0`. -/
theorem and_flag_ne_zero {w : UInt32} {i : Nat} (h : i < 32) :
    w &&& flag i ≠ 0 ↔ hasBit w i = true := by
  constructor
  · intro hne
    by_contra hbit
    refine hne (ext_bits fun j => ?_)
    rw [hasBit_and, hasBit_flag h, hasBit_zero]
    by_cases hij : i = j
    · subst hij
      simpa using hbit
    · simp [hij]
  · intro hbit hzero
    have hsame := congrArg (fun v => hasBit v i) hzero
    simp [hbit, hasBit_flag h] at hsame

theorem and_flag_eq_zero {w : UInt32} {i : Nat} (h : i < 32) :
    w &&& flag i = 0 ↔ hasBit w i = false := by
  rw [← Bool.not_eq_true, ← and_flag_ne_zero h, not_not]

/-- The test `(w >> i) & 1 == 1`. -/
theorem shiftRight_and_one {w : UInt32} {i : Nat} (h : i < 32) :
    (w >>> UInt32.ofNat i) &&& 1 = 1 ↔ hasBit w i = true := by
  have hi : (UInt32.ofNat i).toNat % 32 = i := by
    rw [UInt32.toNat_ofNat']
    omega
  rw [← UInt32.toNat_inj, UInt32.toNat_and, UInt32.toNat_shiftRight, hi, hasBit, Nat.testBit,
    Nat.and_comm 1]
  show w.toNat >>> i &&& 1 = 1 ↔ _
  rw [Nat.and_one_is_mod]
  simp

end WordLib
