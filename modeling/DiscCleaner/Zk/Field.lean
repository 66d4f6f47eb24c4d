import DiscCleaner.Lib.Primality
import DiscCleaner.Vdf.BigUint
import Mathlib.Tactic.NormNum.Prime

/-!
# DiscCleaner — the scalar field of the compliance circuit (`field.rs`)

`Fr` is the field of the circuit: residues modulo the 255-bit order of BLS12-381. What reads and
writes bytes is translated here; the arithmetic on residues is Mathlib's.

* **`modulus_prime`** — the modulus is a prime, so `Fr` is a field.
* **`fromBeBytesReduced_eq`** — bytes of any length are read modulo the modulus.
* **`fromBeBytesReduced_toBeBytes`** — the canonical 32 bytes are read back.
-/

namespace DiscCleaner.Zk

open ByteLib Vdf

/-! ## The modulus -/

def MODULUS : Nat := 0x73eda753299d7d483339d80809a1d80553bda402fffe5bfeffffffff00000001

/-- The prime factors of the modulus less one. -/
def modulusFactors : List Nat :=
  List.replicate 32 2 ++ [3, 11, 19, 10177, 125527, 859267, 906349, 906349, 2508409, 2529403,
    52437899, 254760293, 254760293]

theorem modulusFactors_prime : ∀ q ∈ modulusFactors, q.Prime := by
  intro q hq
  simp only [modulusFactors, List.mem_append, List.mem_replicate, List.mem_cons,
    List.not_mem_nil, or_false] at hq
  rcases hq with ⟨-, rfl⟩ | rfl | rfl | rfl | rfl | rfl | rfl | rfl | rfl | rfl | rfl | rfl |
    rfl | rfl <;> norm_num

/-- **The modulus is prime**: 7 has full order. -/
theorem modulus_prime : MODULUS.Prime :=
  LucasLib.prime_of_fullOrder 7 256 (by decide) (by decide) modulusFactors_prime
    (by decide) (by decide +kernel)

instance : Fact MODULUS.Prime := ⟨modulus_prime⟩

/-- Elements of the scalar field. -/
abbrev Fr := ZMod MODULUS

/-! ## Bytes -/

/-- Any number of big-endian bytes, folded into the field. -/
def fromBeBytesReduced (bytes : Bytes) : Fr :=
  bytes.foldl (fun acc b => acc * 256 + (b.toNat : Fr)) 0

/-- The eight bytes of a word. -/
def u64Be (v : Nat) : Bytes := (Block.ofNat 8 v).bytes

/-- A word as a field element. -/
def fromU64 (v : Nat) : Fr := fromBeBytesReduced (u64Be v)

/-- The canonical 32 bytes. -/
def toBeBytes (a : Fr) : Bytes := (Block.ofNat 32 a.val).bytes

theorem fromBeBytesReduced_eq (bytes : Bytes) :
    fromBeBytesReduced bytes = ((BigUint.ofBytes bytes : Nat) : Fr) := by
  have hfold : ∀ (bs : Bytes) (v : Nat), bs.foldl (fun acc b => acc * 256 + (b.toNat : Fr)) (v : Fr)
      = ((bs.foldl (fun v b => 256 * v + b.toNat) v : Nat) : Fr) := by
    intro bs
    induction bs with
    | nil => exact fun v => rfl
    | cons b bs ih =>
      intro v
      rw [List.foldl_cons, List.foldl_cons, ← ih]
      push_cast
      rw [mul_comm]
  have h := hfold bytes 0
  rw [Nat.cast_zero] at h
  exact h

theorem fromU64_eq {v : Nat} (h : v < 2 ^ 64) : fromU64 v = (v : Fr) := by
  rw [fromU64, fromBeBytesReduced_eq, u64Be, BigUint.ofBytes_ofNat,
    Nat.mod_eq_of_lt (h.trans_le (by decide))]

@[simp] theorem length_toBeBytes (a : Fr) : (toBeBytes a).length = 32 := (Block.ofNat 32 a.val).size

theorem modulus_lt : MODULUS < 256 ^ 32 := by decide

/-- **The canonical bytes are read back.** -/
theorem fromBeBytesReduced_toBeBytes (a : Fr) : fromBeBytesReduced (toBeBytes a) = a := by
  rw [fromBeBytesReduced_eq, toBeBytes, BigUint.ofBytes_ofNat,
    Nat.mod_eq_of_lt ((ZMod.val_lt a).trans modulus_lt)]
  exact ZMod.natCast_zmod_val a

/-- Numbers below the modulus are told apart. -/
theorem natCast_inj {a b : Nat} (ha : a < MODULUS) (hb : b < MODULUS)
    (h : (a : Fr) = (b : Fr)) : a = b := by
  have hmod := (ZMod.natCast_eq_natCast_iff' a b MODULUS).mp h
  rwa [Nat.mod_eq_of_lt ha, Nat.mod_eq_of_lt hb] at hmod

end DiscCleaner.Zk
