import Mathlib.RingTheory.AdjoinRoot
import Mathlib.Algebra.CharP.Two
import Mathlib.Algebra.Field.ZMod
import Mathlib.Data.ZMod.Basic
import Mathlib.Data.Nat.Bitwise
import Mathlib.GroupTheory.OrderOfElement
import Mathlib.Data.Nat.Init

/-!
# Numbers as elements of a binary quotient ring

A number is a polynomial over the field of two elements by its bits, and an element of the quotient
by a modulus that is itself given by a number. XOR is addition and a shift is the product with the
root.

* **`element_step`** — the shift with reduction is the product with the root.
* **`element_injOn`**, **`exists_element_eq`** — the numbers with fewer bits than the modulus are
  the elements, each once.
* **`isField_of_powers`** — a quotient whose elements but zero are powers of the root is a field.
-/

namespace BinaryField

open Polynomial

/-- The polynomial whose coefficients are the bits of a number. -/
noncomputable def poly (n : Nat) : (ZMod 2)[X] :=
  ∑ i ∈ Finset.range n, if n.testBit i then X ^ i else 0

/-- A bit as a coefficient. -/
def bit (b : Bool) : ZMod 2 := if b then 1 else 0

theorem bit_xor (a b : Bool) : bit (a ^^ b) = bit a + bit b := by
  cases a <;> cases b <;> decide

theorem bit_injective : Function.Injective bit := by
  intro a b h
  cases a <;> cases b <;> first | rfl | exact absurd h (by decide)

theorem testBit_eq_false {n i : Nat} (h : n ≤ i) : n.testBit i = false :=
  Nat.testBit_lt_two_pow (Nat.lt_of_lt_of_le n.lt_two_pow_self (Nat.pow_le_pow_right (by decide) h))

@[simp] theorem coeff_poly (n i : Nat) : (poly n).coeff i = bit (n.testBit i) := by
  rw [poly, finsetSum_coeff]
  by_cases hi : i < n
  · rw [Finset.sum_eq_single i]
    · cases n.testBit i <;> simp [bit]
    · intro j _ hj
      cases n.testBit j <;> simp [coeff_X_pow, hj.symm]
    · exact fun h => absurd (Finset.mem_range.mpr hi) h
  · rw [testBit_eq_false (Nat.le_of_not_lt hi)]
    refine Finset.sum_eq_zero fun j hj => ?_
    have hne : i ≠ j := fun h => hi (h ▸ Finset.mem_range.mp hj)
    cases n.testBit j <;> simp [coeff_X_pow, hne]

theorem poly_xor (a b : Nat) : poly (a ^^^ b) = poly a + poly b := by
  ext i
  rw [coeff_add, coeff_poly, coeff_poly, coeff_poly, Nat.testBit_xor, bit_xor]

theorem poly_shiftLeft_one (n : Nat) : poly (n <<< 1) = X * poly n := by
  ext i
  cases i with
  | zero => simp [bit]
  | succ i => simp [coeff_X_mul, Nat.testBit_shiftLeft]

theorem poly_one : poly 1 = 1 := by
  ext i
  rw [coeff_poly, coeff_one]
  cases i with
  | zero => rfl
  | succ i =>
    rw [testBit_eq_false (Nat.succ_le_succ (Nat.zero_le i)), if_neg (Nat.succ_ne_zero i)]
    rfl

theorem degree_poly_lt {n k : Nat} (h : n < 2 ^ k) : (poly n).degree < k := by
  rw [degree_lt_iff_coeff_zero]
  intro i hi
  have hbit := Nat.lt_of_lt_of_le h (Nat.pow_le_pow_right (by decide) hi)
  rw [coeff_poly, Nat.testBit_lt_two_pow hbit]
  rfl

theorem poly_injective : Function.Injective poly := by
  intro a b h
  refine Nat.eq_of_testBit_eq fun i => bit_injective ?_
  rw [← coeff_poly, ← coeff_poly, h]

/-- A polynomial of a degree below `k` is that of a number of `k` bits. -/
theorem exists_poly_eq {q : (ZMod 2)[X]} {k : Nat} (h : q.degree < k) :
    ∃ n < 2 ^ k, poly n = q := by
  refine ⟨Nat.ofBits fun i : Fin k => decide (q.coeff i = 1), Nat.ofBits_lt_two_pow _, ?_⟩
  ext i
  rw [coeff_poly]
  by_cases hi : i < k
  · rw [Nat.testBit_ofBits_lt _ _ hi]
    generalize q.coeff i = c
    revert c
    decide
  · rw [Nat.testBit_ofBits_ge _ _ (Nat.le_of_not_lt hi),
      (degree_lt_iff_coeff_zero q k).mp h i (Nat.le_of_not_lt hi)]
    rfl

/-! ## The quotient -/

/-- The quotient by the polynomial of a number. -/
abbrev Quotient (m : Nat) : Type := AdjoinRoot (poly m)

variable (m : Nat)

noncomputable def element (n : Nat) : Quotient m := AdjoinRoot.mk (poly m) (poly n)

/-- The class of the indeterminate. -/
noncomputable abbrev root : Quotient m := AdjoinRoot.root (poly m)

@[simp] theorem element_zero : element m 0 = 0 := by
  have hpoly : poly 0 = 0 := Finset.sum_range_zero _
  rw [element, hpoly, map_zero]

@[simp] theorem element_one : element m 1 = 1 := by rw [element, poly_one, map_one]

theorem element_xor (a b : Nat) : element m (a ^^^ b) = element m a + element m b := by
  rw [element, poly_xor, map_add, element, element]

theorem element_shiftLeft_one (n : Nat) : element m (n <<< 1) = root m * element m n := by
  rw [element, poly_shiftLeft_one, map_mul, AdjoinRoot.mk_X, element]

@[simp] theorem element_self : element m m = 0 := AdjoinRoot.mk_self

/-- **A shift, reduced or not, is the product with the root.** -/
theorem element_step (n : Nat) : element m (n <<< 1 ^^^ m) = root m * element m n := by
  rw [element_xor, element_self, add_zero, element_shiftLeft_one]

theorem add_self (x : Quotient m) : x + x = 0 := by
  obtain ⟨q, rfl⟩ := AdjoinRoot.mk_surjective x
  rw [← map_add, CharTwo.add_self_eq_zero, map_zero]

section Degree

variable {m} {k : Nat}

theorem testBit_top (hm : 2 ^ k ≤ m) (hlt : m < 2 ^ (k + 1)) : m.testBit k = true := by
  obtain ⟨r, rfl⟩ := Nat.exists_eq_add_of_le hm
  have hr : r < 2 ^ k := by
    rw [Nat.pow_succ] at hlt
    omega
  rw [Nat.testBit_two_pow_add_eq, Nat.testBit_lt_two_pow hr]
  rfl

theorem coeff_top (hm : 2 ^ k ≤ m) (hlt : m < 2 ^ (k + 1)) : (poly m).coeff k = 1 := by
  rw [coeff_poly, testBit_top hm hlt]
  rfl

theorem degree_modulus (hm : 2 ^ k ≤ m) (hlt : m < 2 ^ (k + 1)) : (poly m).degree = k := by
  refine degree_eq_of_le_of_coeff_ne_zero ?_ ?_
  · exact Order.le_of_lt_succ (degree_poly_lt hlt)
  · rw [coeff_top hm hlt]
    exact one_ne_zero

theorem monic_modulus (hm : 2 ^ k ≤ m) (hlt : m < 2 ^ (k + 1)) : (poly m).Monic :=
  monic_of_degree_le k (degree_modulus hm hlt).le (coeff_top hm hlt)

theorem element_injOn (hm : 2 ^ k ≤ m) (hlt : m < 2 ^ (k + 1)) {a b : Nat} (ha : a < 2 ^ k)
    (hb : b < 2 ^ k) (h : element m a = element m b) : a = b := by
  refine poly_injective (sub_eq_zero.mp ?_)
  by_contra hne
  refine (monic_modulus hm hlt).not_dvd_of_degree_lt hne ?_ (AdjoinRoot.mk_eq_mk.mp h)
  rw [degree_modulus hm hlt]
  exact lt_of_le_of_lt (degree_sub_le _ _) (max_lt (degree_poly_lt ha) (degree_poly_lt hb))

theorem exists_element_eq (hm : 2 ^ k ≤ m) (hlt : m < 2 ^ (k + 1)) (x : Quotient m) :
    ∃ n < 2 ^ k, element m n = x := by
  obtain ⟨q, rfl⟩ := AdjoinRoot.mk_surjective x
  have hmonic := monic_modulus hm hlt
  have hdegree := degree_modByMonic_lt q hmonic
  rw [degree_modulus hm hlt] at hdegree
  obtain ⟨n, hn, hpoly⟩ := exists_poly_eq hdegree
  refine ⟨n, hn, ?_⟩
  rw [element, hpoly, AdjoinRoot.mk_eq_mk, modByMonic_eq_sub_mul_div, sub_sub_cancel_left, dvd_neg]
  exact dvd_mul_right _ _

end Degree

/-- **A quotient in which all elements but zero are powers of the root is a field.** -/
theorem isField_of_powers {m N : Nat} [Nontrivial (Quotient m)] (hN : 0 < N)
    (hroot : root m ^ N = 1) (h : ∀ x : Quotient m, x ≠ 0 → ∃ i, x = root m ^ i) :
    IsField (Quotient m) where
  exists_pair_ne := exists_pair_ne _
  mul_comm := mul_comm
  mul_inv_cancel := fun {x} hx => by
    obtain ⟨i, rfl⟩ := h x hx
    obtain ⟨n, rfl⟩ := Nat.exists_eq_succ_of_ne_zero hN.ne'
    refine ⟨root m ^ (i * n), ?_⟩
    rw [← pow_add, show i + i * n = n.succ * i by rw [Nat.succ_mul, Nat.mul_comm, Nat.add_comm],
      pow_mul, hroot, one_pow]

end BinaryField
