import Mathlib.RingTheory.AdjoinRoot
import Mathlib.Tactic.Ring
import Mathlib.Algebra.Field.GeomSum
import Mathlib.RingTheory.RootsOfUnity.PrimitiveRoots

/-!
# The ring `R[X] / (X^n + 1)`

Its elements by their coefficients, and what a schoolbook loop adds to one: a product at exponent
`e` goes into cell `e`, or past the end into cell `e - n` with the other sign.

* **`ofCoeffs_injective`** — an element has one vector of coefficients.
* **`ofCoeffs_update_wrap`** — the cell past the end stands for the same power.
* **`ofCoeffs_mul`** — the terms of the schoolbook loop sum to the product.
-/

namespace NegacyclicLib

open Polynomial Finset

variable {R : Type*} [CommRing R] {n : ℕ}

/-- `R[X] / (X^n + 1)`. -/
abbrev NegaRing (R : Type*) [CommRing R] (n : ℕ) : Type _ := AdjoinRoot (X ^ n + 1 : R[X])

/-- The class of the variable. -/
noncomputable abbrev gen (R : Type*) [CommRing R] (n : ℕ) : NegaRing R n := AdjoinRoot.root _

/-- A constant. -/
noncomputable abbrev const (n : ℕ) (c : R) : NegaRing R n := AdjoinRoot.of _ c

/-- The element with given coefficients. -/
noncomputable def ofCoeffs (c : Fin n → R) : NegaRing R n :=
  ∑ i : Fin n, const n (c i) * gen R n ^ (i : ℕ)

theorem gen_pow (R : Type*) [CommRing R] (n : ℕ) : gen R n ^ n = -1 := by
  have hroot := AdjoinRoot.eval₂_root (X ^ n + 1 : R[X])
  rw [eval₂_add, eval₂_pow, eval₂_X, eval₂_one] at hroot
  exact eq_neg_of_add_eq_zero_left hroot

theorem ofCoeffs_eq_mk (c : Fin n → R) :
    ofCoeffs c = AdjoinRoot.mk _ (∑ i : Fin n, C (c i) * X ^ (i : ℕ)) := by
  simp only [ofCoeffs, map_sum, map_mul, map_pow, AdjoinRoot.mk_C, AdjoinRoot.mk_X]

/-- **An element has one vector of coefficients.** -/
theorem ofCoeffs_injective [Nontrivial R] (hn : n ≠ 0) {c d : Fin n → R}
    (h : ofCoeffs c = ofCoeffs d) : c = d := by
  rw [ofCoeffs_eq_mk, ofCoeffs_eq_mk, AdjoinRoot.mk_eq_mk, ← sum_sub_distrib] at h
  simp only [← sub_mul, ← C_sub] at h
  set p : R[X] := ∑ i : Fin n, C (c i - d i) * X ^ (i : ℕ) with hp
  have hmonic : (X ^ n + 1 : R[X]).Monic := by
    rw [← C_1]
    exact monic_X_pow_add_C 1 hn
  have hdegree : p.degree < (X ^ n + 1 : R[X]).degree := by
    rw [← C_1, degree_X_pow_add_C (Nat.pos_of_ne_zero hn)]
    exact degree_sum_fin_lt _
  -- a multiple of the modulus of lower degree is nothing
  have hzero : p = 0 := by
    by_contra hne
    exact hmonic.not_dvd_of_degree_lt hne hdegree h
  funext i
  have hcoeff := congrArg (fun f : R[X] => f.coeff i) hzero
  simp only [hp, finsetSum_coeff, coeff_C_mul, coeff_X_pow, coeff_zero, mul_ite, mul_one, mul_zero,
    Fin.val_inj, sum_ite_eq, mem_univ, if_true] at hcoeff
  exact sub_eq_zero.mp hcoeff

@[simp] theorem ofCoeffs_zero : ofCoeffs (fun _ : Fin n => (0 : R)) = 0 := by
  simp [ofCoeffs]

theorem ofCoeffs_add (c d : Fin n → R) :
    ofCoeffs (fun i => c i + d i) = ofCoeffs c + ofCoeffs d := by
  simp only [ofCoeffs, const, map_add, add_mul, sum_add_distrib]

theorem ofCoeffs_single (k : Fin n) (v : R) :
    ofCoeffs (Pi.single k v) = const n v * gen R n ^ (k : ℕ) := by
  rw [ofCoeffs, sum_eq_single k]
  · rw [Pi.single_eq_same]
  · intro i _ hik
    rw [Pi.single_eq_of_ne hik, const, map_zero, zero_mul]
  · exact fun h => absurd (mem_univ k) h

/-! ## The cells of a schoolbook loop -/

/-- Adding into a cell adds a power. -/
theorem ofCoeffs_update (c : Fin n → R) (k : Fin n) (v : R) :
    ofCoeffs (Function.update c k (c k + v)) = ofCoeffs c + const n v * gen R n ^ (k : ℕ) := by
  rw [← ofCoeffs_single, ← ofCoeffs_add]
  congr 1
  funext i
  rcases eq_or_ne i k with rfl | hik
  · rw [Function.update_self, Pi.single_eq_same]
  · rw [Function.update_of_ne hik, Pi.single_eq_of_ne hik, add_zero]

/-- **Past the end** the cell `e - n` with the other sign stands for exponent `e`. -/
theorem ofCoeffs_update_wrap (c : Fin n → R) (k : Fin n) {e : ℕ} (he : (k : ℕ) + n = e) (v : R) :
    ofCoeffs (Function.update c k (c k - v)) = ofCoeffs c + const n v * gen R n ^ e := by
  rw [sub_eq_add_neg, ofCoeffs_update, ← he, pow_add, gen_pow, const, map_neg]
  ring

/-- **The terms of the loop sum to the product.** -/
theorem ofCoeffs_mul (a b : Fin n → R) :
    ∑ i : Fin n, ∑ j : Fin n, const n (a i * b j) * gen R n ^ ((i : ℕ) + (j : ℕ))
      = ofCoeffs a * ofCoeffs b := by
  rw [ofCoeffs, ofCoeffs, sum_mul_sum]
  refine sum_congr rfl fun i _ => sum_congr rfl fun j _ => ?_
  rw [const, map_mul, pow_add]
  ring

/-! ## Values -/

/-- The value at a point whose `n`-th power is `-1`. -/
noncomputable def valueAt (y : R) (hy : y ^ n = -1) : NegaRing R n →+* R :=
  AdjoinRoot.lift (RingHom.id R) y (by rw [eval₂_add, eval₂_pow, eval₂_X, eval₂_one, hy]; ring)

theorem valueAt_ofCoeffs {y : R} (hy : y ^ n = -1) (c : Fin n → R) :
    valueAt y hy (ofCoeffs c) = ∑ i : Fin n, c i * y ^ (i : ℕ) := by
  simp only [ofCoeffs, valueAt, map_sum, map_mul, map_pow, AdjoinRoot.lift_of, AdjoinRoot.lift_root,
    RingHom.id_apply]

end NegacyclicLib

/-!
# Evaluation at the odd powers of a root

The transform that takes `n` coefficients to their polynomial's values at `ψ, ψ³, …, ψ^(2n-1)`,
where `ψ²` is a primitive `n`-th root of unity, and the sum that takes the values back.

* **`evalOdd_coeffsOdd`** — the values of the coefficients read off some values are those values.
* **`coeffsOdd_evalOdd`** — the coefficients read off a polynomial's values are its own.
-/

namespace OddTransformLib

open Finset

variable {R : Type*} [CommRing R] {n : ℕ}

/-- The value at `ψ^(2 i + 1)`. -/
def evalOdd (ψ : R) (a : Fin n → R) (i : Fin n) : R :=
  ∑ j : Fin n, a j * (ψ ^ (2 * (i : ℕ) + 1)) ^ (j : ℕ)

/-- The coefficients of given values; `ψ'` and `n'` are the inverses of `ψ` and `n`. -/
def coeffsOdd (ψ' n' : R) (v : Fin n → R) (j : Fin n) : R :=
  (∑ i : Fin n, v i * (ψ' ^ (j : ℕ)) ^ (2 * (i : ℕ) + 1)) * n'

theorem evalOdd_add (ψ : R) (a b : Fin n → R) (i : Fin n) :
    evalOdd ψ (fun j => a j + b j) i = evalOdd ψ a i + evalOdd ψ b i := by
  simp only [evalOdd, add_mul, sum_add_distrib]

theorem coeffsOdd_add (ψ' n' : R) (v w : Fin n → R) (j : Fin n) :
    coeffsOdd ψ' n' (fun i => v i + w i) j = coeffsOdd ψ' n' v j + coeffsOdd ψ' n' w j := by
  simp only [coeffsOdd, add_mul, sum_add_distrib]

theorem coeffsOdd_sub (ψ' n' : R) (v w : Fin n → R) (j : Fin n) :
    coeffsOdd ψ' n' (fun i => v i - w i) j = coeffsOdd ψ' n' v j - coeffsOdd ψ' n' w j := by
  simp only [coeffsOdd, sub_mul, sum_sub_distrib]

/-- Distinct powers of a primitive root sum to nothing against each other. -/
theorem sum_root_powers [IsDomain R] {ζ ζ' : R} (hζ : IsPrimitiveRoot ζ n) (hinv : ζ * ζ' = 1)
    (i k : Fin n) :
    ∑ j : Fin n, (ζ ^ (i : ℕ) * ζ' ^ (k : ℕ)) ^ (j : ℕ) = if i = k then (n : R) else 0 := by
  have hpow : ∀ m : ℕ, ζ ^ m * ζ' ^ m = 1 := fun m => by rw [← mul_pow, hinv, one_pow]
  split_ifs with hik
  · subst hik
    rw [hpow]
    simp
  · set x := ζ ^ (i : ℕ) * ζ' ^ (k : ℕ) with hx
    have hxn : x ^ n = 1 := by
      have hζ' : ζ' ^ n = 1 := by
        have := hpow n
        rwa [hζ.pow_eq_one, one_mul] at this
      rw [hx, mul_pow, ← pow_mul, ← pow_mul, mul_comm (i : ℕ), mul_comm (k : ℕ), pow_mul, pow_mul,
        hζ.pow_eq_one, hζ', one_pow, one_pow, one_mul]
    -- were the ratio 1, the two exponents would be the same
    have hx1 : x ≠ 1 := by
      intro h1
      refine hik (Fin.ext (hζ.pow_inj i.isLt k.isLt ?_))
      calc ζ ^ (i : ℕ) = ζ ^ (i : ℕ) * (ζ ^ (k : ℕ) * ζ' ^ (k : ℕ)) := by rw [hpow, mul_one]
        _ = x * ζ ^ (k : ℕ) := by rw [hx]; ring
        _ = ζ ^ (k : ℕ) := by rw [h1, one_mul]
    have hgeom : (∑ j : Fin n, x ^ (j : ℕ)) * (x - 1) = 0 := by
      rw [Fin.sum_univ_eq_sum_range (fun j => x ^ j) n, geom_sum_mul, hxn, sub_self]
    exact (mul_eq_zero.mp hgeom).resolve_right (sub_ne_zero.mpr hx1)

/-- **The values read back.** -/
theorem evalOdd_coeffsOdd [IsDomain R] {ψ ψ' n' : R} (hψ : IsPrimitiveRoot (ψ ^ 2) n)
    (hinv : ψ * ψ' = 1) (hn : (n : R) * n' = 1) (v : Fin n → R) (i : Fin n) :
    evalOdd ψ (coeffsOdd ψ' n' v) i = v i := by
  have hinv2 : ψ ^ 2 * ψ' ^ 2 = 1 := by rw [← mul_pow, hinv, one_pow]
  have hterm : ∀ (k j : Fin n), (ψ' ^ (j : ℕ)) ^ (2 * (k : ℕ) + 1) * (ψ ^ (2 * (i : ℕ) + 1)) ^ (j : ℕ)
      = ((ψ ^ 2) ^ (i : ℕ) * (ψ' ^ 2) ^ (k : ℕ)) ^ (j : ℕ) := by
    intro k j
    have hj : ψ ^ (j : ℕ) * ψ' ^ (j : ℕ) = 1 := by rw [← mul_pow, hinv, one_pow]
    calc (ψ' ^ (j : ℕ)) ^ (2 * (k : ℕ) + 1) * (ψ ^ (2 * (i : ℕ) + 1)) ^ (j : ℕ)
        = ((ψ ^ 2) ^ (i : ℕ) * (ψ' ^ 2) ^ (k : ℕ)) ^ (j : ℕ) * (ψ ^ (j : ℕ) * ψ' ^ (j : ℕ)) := by
          ring
      _ = _ := by rw [hj, mul_one]
  calc evalOdd ψ (coeffsOdd ψ' n' v) i
      = ∑ j : Fin n, ∑ k : Fin n, v k * n' *
          ((ψ ^ 2) ^ (i : ℕ) * (ψ' ^ 2) ^ (k : ℕ)) ^ (j : ℕ) := by
        simp only [evalOdd, coeffsOdd]
        refine sum_congr rfl fun j _ => ?_
        rw [sum_mul, sum_mul]
        refine sum_congr rfl fun k _ => ?_
        rw [← hterm k j]
        ring
    _ = ∑ k : Fin n, v k * n' * ∑ j : Fin n,
          ((ψ ^ 2) ^ (i : ℕ) * (ψ' ^ 2) ^ (k : ℕ)) ^ (j : ℕ) := by
        rw [sum_comm]
        simp only [mul_sum]
    _ = ∑ k : Fin n, v k * n' * if i = k then (n : R) else 0 := by
        simp only [sum_root_powers hψ hinv2]
    _ = v i := by
        simp only [mul_ite, mul_zero, sum_ite_eq, mem_univ, if_true]
        rw [mul_assoc, mul_comm n', hn, mul_one]

/-- **The coefficients read back.** -/
theorem coeffsOdd_evalOdd [IsDomain R] {ψ ψ' n' : R} (hψ : IsPrimitiveRoot (ψ ^ 2) n)
    (hinv : ψ * ψ' = 1) (hn : (n : R) * n' = 1) (a : Fin n → R) (k : Fin n) :
    coeffsOdd ψ' n' (evalOdd ψ a) k = a k := by
  have hinv2 : ψ ^ 2 * ψ' ^ 2 = 1 := by rw [← mul_pow, hinv, one_pow]
  -- a term of the double sum is a power of one ratio, times a factor that is 1 where `j = k`
  have hterm : ∀ (i j : Fin n), (ψ ^ (2 * (i : ℕ) + 1)) ^ (j : ℕ) * (ψ' ^ (k : ℕ)) ^ (2 * (i : ℕ) + 1)
      = ψ ^ (j : ℕ) * ψ' ^ (k : ℕ) * ((ψ ^ 2) ^ (j : ℕ) * (ψ' ^ 2) ^ (k : ℕ)) ^ (i : ℕ) := by
    intro i j
    ring
  calc coeffsOdd ψ' n' (evalOdd ψ a) k
      = ∑ i : Fin n, ∑ j : Fin n, a j * n' * (ψ ^ (j : ℕ) * ψ' ^ (k : ℕ)) *
          ((ψ ^ 2) ^ (j : ℕ) * (ψ' ^ 2) ^ (k : ℕ)) ^ (i : ℕ) := by
        simp only [evalOdd, coeffsOdd]
        rw [sum_mul]
        refine sum_congr rfl fun i _ => ?_
        rw [sum_mul, sum_mul]
        refine sum_congr rfl fun j _ => ?_
        rw [mul_assoc (a j), hterm i j]
        ring
    _ = ∑ j : Fin n, a j * n' * (ψ ^ (j : ℕ) * ψ' ^ (k : ℕ)) * if j = k then (n : R) else 0 := by
        rw [sum_comm]
        simp only [← mul_sum, sum_root_powers hψ hinv2]
    _ = a k := by
        have hpow : ψ ^ (k : ℕ) * ψ' ^ (k : ℕ) = 1 := by rw [← mul_pow, hinv, one_pow]
        simp only [mul_ite, mul_zero, sum_ite_eq', mem_univ, if_true]
        rw [hpow, mul_one, mul_assoc, mul_comm n', hn, mul_one]

/-- Every point of evaluation is a root of `X^n + 1`. -/
theorem oddPoint_pow {ψ : R} (hψ : ψ ^ n = -1) (i : ℕ) : (ψ ^ (2 * i + 1)) ^ n = -1 := by
  rw [← pow_mul, mul_comm, pow_mul, hψ, Odd.neg_one_pow ⟨i, rfl⟩]

end OddTransformLib
