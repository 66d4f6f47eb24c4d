import Mathlib.Algebra.Polynomial.Eval.Coeff
import Mathlib.Algebra.Polynomial.Eval.Defs
import Mathlib.Data.List.GetD
import Mathlib.Tactic.FieldSimp
import Mathlib.Tactic.Ring
import Mathlib.LinearAlgebra.Lagrange

/-!
# Polynomials as coefficient lists

The polynomial of a list of coefficients, constant first, and what the usual loops over such lists
do to it: padding, dropping trailing zeros, adding into one slot, synthetic division. A batched
inversion over a field stands beside them.
-/

namespace CoeffPolyLib

open Polynomial

section Ring

variable {R : Type*} [CommRing R]

/-- The polynomial of a list of coefficients. -/
noncomputable def toPoly : List R → R[X]
  | [] => 0
  | c :: rest => C c + X * toPoly rest

@[simp] theorem toPoly_nil : toPoly ([] : List R) = 0 := rfl

@[simp] theorem toPoly_cons (c : R) (rest : List R) :
    toPoly (c :: rest) = C c + X * toPoly rest := rfl

/-- The value at a point. -/
theorem eval_toPoly (l : List R) (x : R) :
    (toPoly l).eval x = ∑ i ∈ Finset.range l.length, l.getD i 0 * x ^ i := by
  induction l with
  | nil => simp
  | cons c rest ih =>
    rw [toPoly_cons, eval_add, eval_C, eval_mul, eval_X, ih, List.length_cons,
      Finset.sum_range_succ', Finset.mul_sum, add_comm]
    simp only [List.getD_cons_zero, pow_zero, mul_one, List.getD_cons_succ, pow_succ]
    exact congrArg (· + c) (Finset.sum_congr rfl fun i _ => by ring)

theorem toPoly_append (l m : List R) : toPoly (l ++ m) = toPoly l + X ^ l.length * toPoly m := by
  induction l with
  | nil => simp
  | cons c rest ih =>
    rw [List.cons_append, toPoly_cons, toPoly_cons, ih, List.length_cons, pow_succ]
    ring

@[simp] theorem toPoly_replicate_zero (n : Nat) : toPoly (List.replicate n (0 : R)) = 0 := by
  induction n with
  | zero => rfl
  | succ n ih => rw [List.replicate_succ, toPoly_cons, ih, C_0, mul_zero, add_zero]

theorem toPoly_map_mul (k : R) (l : List R) :
    toPoly (l.map fun c => c * k) = C k * toPoly l := by
  induction l with
  | nil => simp
  | cons c rest ih =>
    rw [List.map_cons, toPoly_cons, toPoly_cons, ih, C_mul]
    ring

/-- Adding into one slot adds one monomial. -/
theorem toPoly_modify {l : List R} {i : Nat} (h : i < l.length) (c : R) :
    toPoly (l.modify i (· + c)) = toPoly l + C c * X ^ i := by
  induction l generalizing i with
  | nil => exact absurd h (Nat.not_lt_zero i)
  | cons a rest ih =>
    cases i with
    | zero =>
      rw [List.modify_zero_cons, toPoly_cons, toPoly_cons, C_add, pow_zero]
      ring
    | succ i =>
      rw [List.modify_succ_cons, toPoly_cons, toPoly_cons, ih (Nat.lt_of_succ_lt_succ h), pow_succ]
      ring

/-- A list read past its end is padded with zeros. -/
theorem toPoly_padded {l : List R} {n : Nat} (h : l.length ≤ n) :
    toPoly ((List.range n).map fun i => l.getD i 0) = toPoly l := by
  have hsplit : (List.range n).map (fun i => l.getD i 0) = l ++ List.replicate (n - l.length) 0 := by
    refine List.ext_getElem (by simp; omega) fun i hi hi' => ?_
    rw [List.getElem_map, List.getElem_range, List.getElem_append]
    split_ifs with hlt
    · exact List.getD_eq_getElem _ _ hlt
    · rw [List.getElem_replicate]
      exact List.getD_eq_default _ _ (not_lt.mp hlt)
  rw [hsplit, toPoly_append, toPoly_replicate_zero, mul_zero, add_zero]

theorem toPoly_map_add {ι : Type*} (is : List ι) (f g : ι → R) :
    toPoly (is.map fun i => f i + g i) = toPoly (is.map f) + toPoly (is.map g) := by
  induction is with
  | nil => simp
  | cons i is ih =>
    simp only [List.map_cons, toPoly_cons, ih, C_add]
    ring

theorem toPoly_map_sub {ι : Type*} (is : List ι) (f g : ι → R) :
    toPoly (is.map fun i => f i - g i) = toPoly (is.map f) - toPoly (is.map g) := by
  induction is with
  | nil => simp
  | cons i is ih =>
    simp only [List.map_cons, toPoly_cons, ih, C_sub]
    ring

/-- The quotients of the tails by `x - a`. -/
def synthQuot (a : R) : List R → List R
  | [] => []
  | c :: rest => (c + a * (synthQuot a rest).headD 0) :: synthQuot a rest

@[simp] theorem length_synthQuot (a : R) (l : List R) : (synthQuot a l).length = l.length := by
  induction l with
  | nil => rfl
  | cons c rest ih => rw [synthQuot, List.length_cons, ih, List.length_cons]

/-- **Synthetic division**: quotient and remainder. -/
theorem toPoly_synthQuot (a c : R) (l : List R) :
    toPoly (c :: l)
      = (X - C a) * toPoly (synthQuot a l) + C (c + a * (synthQuot a l).headD 0) := by
  induction l generalizing c with
  | nil => simp [synthQuot]
  | cons d rest ih =>
    rw [toPoly_cons c, ih d, synthQuot, List.headD_cons, toPoly_cons]
    simp only [C_add, C_mul]
    ring

/-- An exact division leaves the quotient. -/
theorem synthQuot_of_root {a c : R} {l : List R} (h : (toPoly (c :: l)).IsRoot a) :
    toPoly (c :: l) = (X - C a) * toPoly (synthQuot a l) := by
  have hdiv := toPoly_synthQuot a c l
  have hrem : c + a * (synthQuot a l).headD 0 = 0 := by
    have hval := congrArg (eval a) hdiv
    rw [h.eq_zero, eval_add, eval_mul, eval_sub, eval_X, eval_C, sub_self, zero_mul, zero_add,
      eval_C] at hval
    exact hval.symm
  rw [hdiv, hrem, C_0, add_zero]

variable [DecidableEq R]

/-- The list without its trailing zeros. -/
def dropZeros (l : List R) : List R := (l.reverse.dropWhile (· = 0)).reverse

theorem length_dropZeros (l : List R) : (dropZeros l).length ≤ l.length := by
  rw [dropZeros, List.length_reverse]
  exact (List.dropWhile_sublist _).length_le.trans_eq (List.length_reverse ..)

@[simp] theorem toPoly_dropZeros (l : List R) : toPoly (dropZeros l) = toPoly l := by
  induction l using List.reverseRecOn with
  | nil => rfl
  | append_singleton l c ih =>
    rw [dropZeros, List.reverse_append, List.reverse_singleton, List.singleton_append,
      List.dropWhile_cons]
    split_ifs with hc
    · rw [decide_eq_true_eq] at hc
      rw [← dropZeros, ih, hc, toPoly_append, toPoly_cons, toPoly_nil, C_0]
      ring
    · rw [List.reverse_cons, List.reverse_reverse]

end Ring

section Field

variable {F : Type*} [Field F]

/-- One step back: the running inverse, and the inverses found so far. -/
def invStep (pd : F × F) (st : F × List F) : F × List F := (st.1 * pd.2, st.1 * pd.1 :: st.2)

/-- All inverses from one: prefix products going up, the running inverse coming down. -/
def batchInvert (invAll : F) (d : List F) : List F :=
  (((d.scanl (· * ·) 1).zip d).foldr invStep (invAll, [])).2

/-- **Batched inversion** inverts every entry. -/
theorem batchInvert_eq {d : List F} (h : ∀ a ∈ d, a ≠ 0) :
    batchInvert d.prod⁻¹ d = d.map (·⁻¹) := by
  have hrun : ∀ (d : List F) (p : F), p ≠ 0 → (∀ a ∈ d, a ≠ 0) →
      ((d.scanl (· * ·) p).zip d).foldr invStep ((p * d.prod)⁻¹, []) = (p⁻¹, d.map (·⁻¹)) := by
    intro d
    induction d with
    | nil => simp
    | cons a rest ih =>
      intro p hp hall
      obtain ⟨ha, hrest⟩ := List.forall_mem_cons.mp hall
      have htail := ih (p * a) (mul_ne_zero hp ha) hrest
      have hdown : (p * a)⁻¹ * a = p⁻¹ := by field_simp
      have hinv : (p * a)⁻¹ * p = a⁻¹ := by field_simp
      rw [List.prod_cons, ← mul_assoc, List.scanl_cons, List.zip_cons_cons, List.foldr_cons, htail,
        invStep]
      simp only [hdown, hinv, List.map_cons]
  have hone := hrun d 1 one_ne_zero h
  rw [one_mul] at hone
  rw [batchInvert, hone]

end Field

end CoeffPolyLib

/-!
# Shamir sharing and Lagrange weights

A polynomial is given by the list of its coefficients, lowest first. The weight of a node in a
set of nodes is the value at zero of its Lagrange basis polynomial; the weighted sum of the
values of a polynomial of low degree is its constant coefficient.
-/

namespace ShamirLib

open Polynomial

variable {F : Type*} [Field F]

/-- The value at `x` of the polynomial with these coefficients. -/
def evalAt (coeffs : List F) (x : F) : F := (coeffs.zipIdx.map fun a => a.1 * x ^ a.2).sum

/-- The polynomial with these coefficients. -/
noncomputable def poly (coeffs : List F) : F[X] :=
  (coeffs.zipIdx.map fun a => C a.1 * X ^ a.2).sum

theorem eval_poly (coeffs : List F) (x : F) : (poly coeffs).eval x = evalAt coeffs x := by
  rw [poly, evalAt, ← coe_evalRingHom, map_list_sum, List.map_map]
  congr 1
  refine List.map_congr_left fun a _ => ?_
  simp

theorem degree_poly_lt (coeffs : List F) : (poly coeffs).degree < coeffs.length := by
  rw [← mem_degreeLT]
  refine list_sum_mem fun f hf => ?_
  obtain ⟨a, ha, rfl⟩ := List.mem_map.mp hf
  rw [mem_degreeLT]
  refine (degree_C_mul_X_pow_le a.2 a.1).trans_lt ?_
  exact_mod_cast List.snd_lt_of_mem_zipIdx ha

@[simp] theorem evalAt_zero (coeffs : List F) : evalAt coeffs 0 = coeffs.headD 0 := by
  cases coeffs with
  | nil => rfl
  | cons a coeffs =>
    have hrest : ((coeffs.zipIdx 1).map fun b => b.1 * (0 : F) ^ b.2).sum = 0 := by
      refine List.sum_eq_zero fun y hy => ?_
      obtain ⟨b, hb, rfl⟩ := List.mem_map.mp hy
      have hpos : b.2 ≠ 0 := Nat.one_le_iff_ne_zero.mp (List.le_snd_of_mem_zipIdx hb)
      rw [zero_pow hpos, mul_zero]
    simp [evalAt, List.zipIdx_cons, hrest]

variable {ι : Type*} [DecidableEq ι]

/-- The Lagrange weight at zero of node `i` among the nodes of `s`. -/
def weight (s : Finset ι) (v : ι → F) (i : ι) : F := ∏ j ∈ s.erase i, v j * (v j - v i)⁻¹

theorem eval_basis_zero (s : Finset ι) (v : ι → F) (i : ι) :
    (Lagrange.basis s v i).eval 0 = weight s v i := by
  rw [Lagrange.basis, eval_prod, weight]
  refine Finset.prod_congr rfl fun j _ => ?_
  rw [Lagrange.basisDivisor, eval_mul, eval_C, eval_sub, eval_X, eval_C, zero_sub, mul_neg,
    ← neg_mul, neg_inv, neg_sub, mul_comm]

/-- **Reconstruction**: as many distinct nodes as coefficients give the constant coefficient. -/
theorem sum_weight_mul_evalAt {s : Finset ι} {v : ι → F} (hv : Set.InjOn v s) {coeffs : List F}
    (hcard : coeffs.length ≤ s.card) :
    ∑ i ∈ s, weight s v i * evalAt coeffs (v i) = coeffs.headD 0 := by
  have hdegree : (poly coeffs).degree < s.card :=
    (degree_poly_lt coeffs).trans_le (by exact_mod_cast hcard)
  have hpoly := Lagrange.eq_interpolate hv hdegree
  have hzero := congrArg (eval 0) hpoly
  rw [eval_poly, evalAt_zero, Lagrange.interpolate_apply, eval_finsetSum] at hzero
  rw [hzero]
  refine Finset.sum_congr rfl fun i _ => ?_
  rw [eval_mul, eval_C, eval_basis_zero, eval_poly, mul_comm]

end ShamirLib
