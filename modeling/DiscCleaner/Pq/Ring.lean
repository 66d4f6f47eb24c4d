import DiscCleaner.Lib.Negacyclic
import Mathlib.Data.Fin.SuccPred
import Mathlib.Algebra.Field.ZMod
import Mathlib.Tactic.NormNum.Prime
import Mathlib.Algebra.BigOperators.Fin

/-!
# DiscCleaner — the ring of ML-DSA-44 (`ml_dsa.rs`)

Residues modulo `q` as machine integers, the transform as the source evaluates it, and what the
machine values are modulo `q`. Every product stays below `2^47`, so the integers are exact.

* **`ntt_cast`**, **`nttInv_cast`** — the loops compute evaluation at the odd powers of `ψ`, and
  its inverse.
* **`nttInv_range`** — a coefficient the inverse returns is a residue in `[0, q)`.
-/

namespace DiscCleaner.MlDsa

open OddTransformLib

def Q : Int := 8380417
def PSI : Int := 1753

/-- A polynomial of degree below 256. -/
abbrev Poly := Fin 256 → Int

def modq (a : Int) : Int :=
  let r := a.tmod Q
  if r < 0 then r + Q else r

def mulmod (a b : Int) : Int := modq (a * b)

def barrettish (a : Int) : Int := if Q ≤ a then a - Q else a

/-- The small representative of a residue. -/
def center (v : Int) : Int := if Q / 2 < v then v - Q else v

/-- `ψ^m`, the entries of the table. -/
def psiPow : Nat → Int
  | 0 => 1
  | m + 1 => psiPow m * PSI % Q

/-- Square and multiply over the 32 bits of an exponent. -/
def constPowmod : Nat → Int → Nat → Int → Int
  | 0, _, _, acc => acc
  | bits + 1, base, exp, acc =>
    if exp = 0 then acc
    else constPowmod bits (base * base % Q) (exp / 2)
      (if exp % 2 = 1 then acc * base % Q else acc)

/-- The inverse of 256. -/
def nInv : Int := constPowmod 32 (256 % Q) (Q - 2).toNat 1

/-- The running power and the running sum of one evaluation. -/
def evalLoop (pw : Int) {n : Nat} (a : Fin n → Int) (start : Int) : Int × Int :=
  Fin.foldl n (fun st j => (st.1 * pw % Q, st.2 + a j * st.1 % Q)) (start, 0)

/-- Forward transform. -/
def ntt (a : Poly) : Poly := fun i => (evalLoop (psiPow (2 * i + 1)) a 1).2 % Q

/-- Inverse transform. -/
def nttInv (ah : Poly) : Poly := fun j =>
  let base := psiPow ((512 - j) % 512)
  (evalLoop (base * base % Q) ah base).2 % Q * nInv % Q

def pointwiseMul (a b : Poly) : Poly := fun i => mulmod (a i) (b i)

/-- A row of a matrix times a vector, all transformed. -/
def rowProduct (row v : Fin 4 → Poly) : Poly := fun i =>
  Fin.foldl 4 (fun acc c => barrettish (acc + mulmod (row c i) (v c i))) 0

/-! ## Values modulo `q` -/

abbrev Zq := ZMod 8380417

instance factPrimeQ : Fact (Nat.Prime 8380417) := ⟨by norm_num⟩

theorem Q_cast : ((Q : Int) : Zq) = 0 := (ZMod.intCast_zmod_eq_zero_iff_dvd _ _).mpr (dvd_refl _)

theorem Q_pos : (0 : Int) < Q := by decide

@[simp] theorem emod_cast (a : Int) : ((a % Q : Int) : Zq) = (a : Zq) := by
  rw [Int.emod_def]
  push_cast
  rw [Q_cast, zero_mul, sub_zero]

theorem modq_eq (a : Int) : modq a = a % Q := by
  unfold modq
  have hemod := Int.emod_nonneg a Q_pos.ne'
  have hlt := Int.emod_lt_of_pos a Q_pos
  have hdiv := Int.tmod_add_mul_tdiv a Q
  have hlo := Int.lt_tmod_of_pos a Q_pos
  have hhi := Int.tmod_lt_of_pos a Q_pos
  simp only
  split_ifs with h
  · have hshift : a = a.tmod Q + Q + Q * (a.tdiv Q - 1) := by linarith
    conv_rhs => rw [hshift, Int.add_mul_emod_self_left]
    rw [Int.emod_eq_of_lt (by omega) (by omega)]
  · conv_rhs => rw [← hdiv, Int.add_mul_emod_self_left]
    rw [Int.emod_eq_of_lt (by omega) hhi]

@[simp] theorem modq_cast (a : Int) : ((modq a : Int) : Zq) = (a : Zq) := by
  rw [modq_eq, emod_cast]

theorem mulmod_cast (a b : Int) : ((mulmod a b : Int) : Zq) = (a : Zq) * (b : Zq) := by
  rw [mulmod, modq_cast, Int.cast_mul]

theorem barrettish_cast (a : Int) : ((barrettish a : Int) : Zq) = (a : Zq) := by
  unfold barrettish
  split_ifs
  · rw [Int.cast_sub, Q_cast, sub_zero]
  · rfl

theorem center_cast (v : Int) : ((center v : Int) : Zq) = (v : Zq) := by
  unfold center
  split_ifs
  · rw [Int.cast_sub, Q_cast, sub_zero]
  · rfl

/-- Residues in `[0, q)` with the same value are the same. -/
theorem eq_of_cast_eq {a b : Int} (ha : 0 ≤ a ∧ a < Q) (hb : 0 ≤ b ∧ b < Q)
    (h : (a : Zq) = (b : Zq)) : a = b := by
  have hmod : a % Q = b % Q := (ZMod.intCast_eq_intCast_iff a b 8380417).mp h
  rwa [Int.emod_eq_of_lt ha.1 ha.2, Int.emod_eq_of_lt hb.1 hb.2] at hmod

theorem modq_range (a : Int) : 0 ≤ modq a ∧ modq a < Q := by
  rw [modq_eq]
  exact ⟨Int.emod_nonneg a Q_pos.ne', Int.emod_lt_of_pos a Q_pos⟩

theorem psiPow_cast (m : Nat) : ((psiPow m : Int) : Zq) = (PSI : Zq) ^ m := by
  induction m with
  | zero => simp [psiPow]
  | succ m ih => rw [psiPow, emod_cast, Int.cast_mul, ih, pow_succ]

/-- The loop carries the power and the sum of what it has read. -/
theorem evalLoop_cast (pw : Int) {n : Nat} (a : Fin n → Int) (start : Int) :
    (((evalLoop pw a start).1 : Int) : Zq) = (start : Zq) * (pw : Zq) ^ n ∧
      (((evalLoop pw a start).2 : Int) : Zq)
        = ∑ j : Fin n, (a j : Zq) * ((start : Zq) * (pw : Zq) ^ (j : ℕ)) := by
  induction n with
  | zero => simp [evalLoop]
  | succ n ih =>
    obtain ⟨hpow, hsum⟩ := ih fun j => a j.castSucc
    have hstep : evalLoop pw a start =
        ((evalLoop pw (fun j => a (Fin.castSucc j)) start).1 * pw % Q,
          (evalLoop pw (fun j => a (Fin.castSucc j)) start).2
            + a (Fin.last n) * (evalLoop pw (fun j => a (Fin.castSucc j)) start).1 % Q) := by
      rw [evalLoop, Fin.foldl_succ_last]
      rfl
    rw [hstep, Fin.sum_univ_castSucc]
    refine ⟨?_, ?_⟩
    · rw [emod_cast, Int.cast_mul, hpow, pow_succ, mul_assoc]
    · rw [Int.cast_add, emod_cast, Int.cast_mul, hpow, hsum]
      rfl

theorem ntt_cast (a : Poly) (i : Fin 256) :
    ((ntt a i : Int) : Zq) = evalOdd (PSI : Zq) (fun j => (a j : Zq)) i := by
  rw [ntt, emod_cast, (evalLoop_cast _ _ _).2, evalOdd]
  simp only [Int.cast_one, one_mul, psiPow_cast]

/-- `ψ^512 = 1`. -/
theorem PSI_pow : (PSI : Zq) ^ 512 = 1 := by
  have h : ((PSI ^ 512 - 1 : Int) : Zq) = 0 :=
    (ZMod.intCast_zmod_eq_zero_iff_dvd _ _).mpr (by decide +kernel)
  have := sub_eq_zero.mp (by simpa using h)
  exact_mod_cast this

/-- The inverse of `ψ`. -/
def psiInv : Zq := (PSI : Zq) ^ 511

theorem PSI_mul_psiInv : (PSI : Zq) * psiInv = 1 := by
  rw [psiInv, ← pow_succ', PSI_pow]

theorem psiInv_pow {j : Nat} (hj : j < 256) : (PSI : Zq) ^ ((512 - j) % 512) = psiInv ^ j := by
  have hinv : (PSI : Zq) ^ j * psiInv ^ j = 1 := by rw [← mul_pow, PSI_mul_psiInv, one_pow]
  have hsplit : (PSI : Zq) ^ ((512 - j) % 512) * (PSI : Zq) ^ j = 1 := by
    rcases Nat.eq_zero_or_pos j with rfl | hpos
    · simp
    · rw [Nat.mod_eq_of_lt (by omega), ← pow_add, Nat.sub_add_cancel (by omega), PSI_pow]
  calc (PSI : Zq) ^ ((512 - j) % 512)
      = (PSI : Zq) ^ ((512 - j) % 512) * ((PSI : Zq) ^ j * psiInv ^ j) := by rw [hinv, mul_one]
    _ = psiInv ^ j := by rw [← mul_assoc, hsplit, one_mul]

theorem mul_nInv : (256 * nInv - 1) % Q = 0 := by decide

theorem nInv_cast : ((256 : ℕ) : Zq) * (nInv : Zq) = 1 := by
  have h : ((256 * nInv - 1 : Int) : Zq) = 0 :=
    (ZMod.intCast_zmod_eq_zero_iff_dvd _ _).mpr (Int.dvd_of_emod_eq_zero mul_nInv)
  generalize nInv = m at h ⊢
  push_cast at h ⊢
  exact sub_eq_zero.mp h

theorem nttInv_cast (ah : Poly) (j : Fin 256) :
    ((nttInv ah j : Int) : Zq) = coeffsOdd psiInv (nInv : Zq) (fun i => (ah i : Zq)) j := by
  rw [nttInv, emod_cast, Int.cast_mul, emod_cast, (evalLoop_cast _ _ _).2, coeffsOdd, emod_cast,
    Int.cast_mul, psiPow_cast, psiInv_pow j.isLt]
  refine congrArg (· * (nInv : Zq)) (Finset.sum_congr rfl fun i _ => ?_)
  ring

theorem nttInv_range (ah : Poly) (j : Fin 256) : 0 ≤ nttInv ah j ∧ nttInv ah j < Q :=
  ⟨Int.emod_nonneg _ Q_pos.ne', Int.emod_lt_of_pos _ Q_pos⟩

/-- `ψ²` is a primitive 256th root of unity. -/
theorem PSI_sq_primitive : IsPrimitiveRoot ((PSI : Zq) ^ 2) 256 := by
  have horder : orderOf ((PSI : Zq) ^ 2) = 2 ^ (7 + 1) := by
    refine orderOf_eq_prime_pow ?_ ?_
    · rw [← pow_mul]
      intro h
      have hdvd : ((PSI ^ (2 * 2 ^ 7) - 1 : Int) : Zq) = 0 := by
        rw [Int.cast_sub, Int.cast_pow, h, Int.cast_one, sub_self]
      exact absurd ((ZMod.intCast_zmod_eq_zero_iff_dvd _ _).mp hdvd) (by decide)
    · rw [← pow_mul]
      exact PSI_pow
  exact IsPrimitiveRoot.iff_orderOf.mpr horder

/-- **The transform of the inverse transform**, modulo `q`. -/
theorem ntt_nttInv_cast (ah : Poly) (i : Fin 256) :
    ((ntt (nttInv ah) i : Int) : Zq) = (ah i : Zq) := by
  rw [ntt_cast]
  simp only [nttInv_cast]
  exact evalOdd_coeffsOdd PSI_sq_primitive PSI_mul_psiInv nInv_cast _ i

theorem rowProduct_cast (row v : Fin 4 → Poly) (i : Fin 256) :
    ((rowProduct row v i : Int) : Zq) = ∑ c : Fin 4, (row c i : Zq) * (v c i : Zq) := by
  simp only [rowProduct, Fin.foldl_succ_last, Fin.foldl_zero, barrettish_cast, Int.cast_add,
    mulmod_cast, Fin.sum_univ_castSucc, Finset.univ_eq_empty, Finset.sum_empty, Int.cast_zero]

end DiscCleaner.MlDsa
