import DiscCleaner.Lib.CoeffPoly
import DiscCleaner.Zk.Field
import Mathlib.Algebra.BigOperators.Intervals
import Mathlib.Algebra.BigOperators.GroupWithZero.Finset
import Mathlib.Algebra.Polynomial.BigOperators

/-!
# DiscCleaner — polynomials over the scalar field (`poly.rs`)

Coefficient lists, constant first, with no zero at the end. The prover interpolates over the
domain `1..=n`; the setup evaluates the Lagrange basis of the same domain at one point.

* **`eval_interpolateShared`** — the two agree: an interpolated polynomial has at every point the
  value its samples weigh out of the basis.
* **`length_interpolateShared`** — and at most as many coefficients as there are samples.
-/

namespace DiscCleaner.Zk

open CoeffPolyLib Polynomial

/-- A list of coefficients, constant first. -/
abbrev Poly := List Fr

namespace Poly

def fromCoeffs (coeffs : List Fr) : Poly := dropZeros coeffs

def add (p q : Poly) : Poly :=
  fromCoeffs ((List.range (max p.length q.length)).map fun i => p.getD i 0 + q.getD i 0)

def sub (p q : Poly) : Poly :=
  fromCoeffs ((List.range (max p.length q.length)).map fun i => p.getD i 0 - q.getD i 0)

/-- One product of two terms, added into its slot. -/
def mulTerm (ai : Fr) (i : Nat) (out : List Fr) (bj : Fr × Nat) : List Fr :=
  if bj.1 = 0 then out else out.modify (i + bj.2) (· + ai * bj.1)

def mulRow (q : Poly) (out : List Fr) (ai : Fr × Nat) : List Fr :=
  if ai.1 = 0 then out else q.zipIdx.foldl (mulTerm ai.1 ai.2) out

def mul (p q : Poly) : Poly :=
  if p = [] ∨ q = [] then []
  else fromCoeffs (p.zipIdx.foldl (mulRow q) (List.replicate (p.length + q.length - 1) 0))

def scale (p : Poly) (k : Fr) : Poly := fromCoeffs (p.map fun c => c * k)

/-- The quotient by `x - a`; the remainder is dropped. -/
def syntheticDiv (p : Poly) (a : Fr) : Poly := fromCoeffs (synthQuot a p.tail)

/-- `prod_{k != j} (x - x_k)`, by the loop over all points. -/
def skipProduct (xs : List Fr) (j : Nat) (x : Fr) : Fr :=
  (List.range xs.length).foldl (fun acc k => if k ≠ j then acc * (x - xs.getD k 0) else acc) 1

/-- The master polynomial `prod_k (x - x_k)`. -/
def master (xs : List Fr) : Poly := xs.foldl (fun m xk => mul m (fromCoeffs [-xk, 1])) [1]

/-- The denominators of the basis, one for each point. -/
def denominators (xs : List Fr) : List Fr :=
  (List.range xs.length).map fun j => skipProduct xs j (xs.getD j 0)

/-- One sample: its quotient, scaled into the sum unless the sample is zero. -/
def addSample (result : Poly) (s : Fr × Fr × Poly) : Poly :=
  if s.1 = 0 then result else add result (scale s.2.2 (s.1 * s.2.1))

/-- Several polynomials over the same points, with one inversion; repeated points stop the
program. -/
def interpolateShared (xs : List Fr) (ysList : List (List Fr)) : Option (List Poly) :=
  if xs = [] then some (ysList.map fun _ => [])
  else
    let d := denominators xs
    if d.prod = 0 then none
    else
      let invD := batchInvert d.prod⁻¹ d
      let qs := xs.map fun xj => syntheticDiv (master xs) xj
      some (ysList.map fun ys => (ys.zip (invD.zip qs)).foldl addSample [])

/-- The points `1..=n`. -/
def domain (n : Nat) : List Fr := (List.range n).map fun k => fromU64 (k + 1)

/-- `prod_{k != j} (tau - k) / (j - k)` over `1..=n`; a repeated point stops the program. -/
def lagrangeEvalAt (j n : Nat) (tau : Fr) : Option Fr :=
  let num := skipProduct (domain n) (j - 1) tau
  let den := skipProduct (domain n) (j - 1) (fromU64 j)
  if den = 0 then none else some (num * den⁻¹)

/-! ## The operations on polynomials -/

@[simp] theorem toPoly_fromCoeffs (l : List Fr) : toPoly (fromCoeffs l) = toPoly l :=
  toPoly_dropZeros l

theorem toPoly_add (p q : Poly) : toPoly (add p q) = toPoly p + toPoly q := by
  rw [add, toPoly_fromCoeffs, toPoly_map_add, toPoly_padded (le_max_left _ _),
    toPoly_padded (le_max_right _ _)]

theorem toPoly_sub (p q : Poly) : toPoly (sub p q) = toPoly p - toPoly q := by
  rw [sub, toPoly_fromCoeffs, toPoly_map_sub, toPoly_padded (le_max_left _ _),
    toPoly_padded (le_max_right _ _)]

theorem toPoly_scale (p : Poly) (k : Fr) : toPoly (scale p k) = C k * toPoly p := by
  rw [scale, toPoly_fromCoeffs, toPoly_map_mul]

theorem length_add (p q : Poly) : (add p q).length ≤ max p.length q.length :=
  (length_dropZeros _).trans_eq (by rw [List.length_map, List.length_range])

theorem length_sub (p q : Poly) : (sub p q).length ≤ max p.length q.length :=
  (length_dropZeros _).trans_eq (by rw [List.length_map, List.length_range])

theorem length_scale (p : Poly) (k : Fr) : (scale p k).length ≤ p.length :=
  (length_dropZeros _).trans_eq (by rw [List.length_map])

/-- One row of the product loop adds its multiple of `q`. -/
theorem foldl_mulTerm {q : Poly} {ai : Fr} {i s : Nat} (out : List Fr)
    (h : i + s + q.length ≤ out.length) :
    ((q.zipIdx s).foldl (mulTerm ai i) out).length = out.length ∧
      toPoly ((q.zipIdx s).foldl (mulTerm ai i) out)
        = toPoly out + C ai * X ^ (i + s) * toPoly q := by
  induction q generalizing s out with
  | nil => simp
  | cons b rest ih =>
    rw [List.length_cons] at h
    have hterm : (mulTerm ai i out (b, s)).length = out.length ∧
        toPoly (mulTerm ai i out (b, s)) = toPoly out + C (ai * b) * X ^ (i + s) := by
      rw [mulTerm]
      split_ifs with hb
      · rw [show b = 0 from hb, mul_zero, C_0, zero_mul, add_zero]
        exact ⟨rfl, rfl⟩
      · exact ⟨List.length_modify .., toPoly_modify (by simp only; omega) _⟩
    obtain ⟨hlen, hpoly⟩ := ih (s := s + 1) (mulTerm ai i out (b, s)) (by omega)
    rw [List.zipIdx_cons, List.foldl_cons, hlen, hpoly, hterm.2, toPoly_cons, C_mul]
    exact ⟨hterm.1, by ring⟩

theorem foldl_mulRow {p q : Poly} {s : Nat} (out : List Fr)
    (h : s + p.length + q.length ≤ out.length + 1) :
    ((p.zipIdx s).foldl (mulRow q) out).length = out.length ∧
      toPoly ((p.zipIdx s).foldl (mulRow q) out) = toPoly out + X ^ s * toPoly p * toPoly q := by
  induction p generalizing s out with
  | nil => simp
  | cons a rest ih =>
    rw [List.length_cons] at h
    have hrow : (mulRow q out (a, s)).length = out.length ∧
        toPoly (mulRow q out (a, s)) = toPoly out + C a * X ^ s * toPoly q := by
      rw [mulRow]
      split_ifs with ha
      · rw [show a = 0 from ha, C_0, zero_mul, zero_mul, add_zero]
        exact ⟨rfl, rfl⟩
      · exact foldl_mulTerm (s := 0) out (by omega)
    obtain ⟨hlen, hpoly⟩ := ih (s := s + 1) (mulRow q out (a, s)) (by omega)
    rw [List.zipIdx_cons, List.foldl_cons, hlen, hpoly, hrow.2, toPoly_cons]
    exact ⟨hrow.1, by ring⟩

theorem toPoly_mul (p q : Poly) : toPoly (mul p q) = toPoly p * toPoly q := by
  rw [mul]
  split_ifs with h
  · rcases h with rfl | rfl
    · rw [toPoly_nil, zero_mul]
    · rw [toPoly_nil, mul_zero]
  · obtain ⟨hp, hq⟩ := not_or.mp h
    have hpos : 0 < p.length := List.length_pos_of_ne_nil hp
    have hloop := (foldl_mulRow (p := p) (q := q) (s := 0)
      (List.replicate (p.length + q.length - 1) 0) (by rw [List.length_replicate]; omega)).2
    rw [toPoly_fromCoeffs, hloop, toPoly_replicate_zero]
    ring

theorem length_mul (p q : Poly) : (mul p q).length ≤ p.length + q.length - 1 := by
  rw [mul]
  split_ifs with h
  · exact Nat.zero_le _
  · have hpos : 0 < p.length := List.length_pos_of_ne_nil (not_or.mp h).1
    have hloop := (foldl_mulRow (p := p) (q := q) (s := 0)
      (List.replicate (p.length + q.length - 1) 0) (by rw [List.length_replicate]; omega)).1
    exact (length_dropZeros _).trans_eq (by rw [hloop, List.length_replicate])

/-! ## Interpolation -/

/-- The points of a list, by position. -/
theorem map_eq_range {α : Type*} (xs : List Fr) (g : Fr → α) :
    xs.map g = (List.range xs.length).map fun j => g (xs.getD j 0) := by
  refine List.ext_getElem (by simp) fun j hj hj' => ?_
  rw [List.length_map] at hj
  rw [List.getElem_map, List.getElem_map, List.getElem_range, List.getD_eq_getElem _ _ hj]

theorem prod_map_range {M : Type*} [CommMonoid M] (f : Nat → M) (n : Nat) :
    ((List.range n).map f).prod = ∏ k ∈ Finset.range n, f k := rfl

theorem sum_map_range {M : Type*} [AddCommMonoid M] (f : Nat → M) (n : Nat) :
    ((List.range n).map f).sum = ∑ k ∈ Finset.range n, f k := rfl

theorem skipProduct_eq (xs : List Fr) (j : Nat) (x : Fr) :
    skipProduct xs j x = ∏ k ∈ (Finset.range xs.length).erase j, (x - xs.getD k 0) := by
  have hloop : ∀ n, (List.range n).foldl
      (fun acc k => if k ≠ j then acc * (x - xs.getD k 0) else acc) 1
        = ∏ k ∈ Finset.range n, if k ≠ j then x - xs.getD k 0 else 1 := by
    intro n
    induction n with
    | zero => rfl
    | succ n ih =>
      rw [List.range_succ, List.foldl_append, ih, Finset.prod_range_succ, List.foldl_cons,
        List.foldl_nil, mul_ite, mul_one]
  rw [skipProduct, hloop, ← Finset.prod_filter, Finset.filter_ne']

theorem toPoly_master (xs : List Fr) :
    toPoly (master xs) = ∏ k ∈ Finset.range xs.length, (X - C (xs.getD k 0)) := by
  have hloop : ∀ (xs : List Fr) (m : Poly),
      toPoly (xs.foldl (fun m xk => mul m (fromCoeffs [-xk, 1])) m)
        = toPoly m * (xs.map fun xk => X - C xk).prod := by
    intro xs
    induction xs with
    | nil => simp
    | cons x rest ih =>
      intro m
      rw [List.foldl_cons, ih, toPoly_mul, toPoly_fromCoeffs, List.map_cons, List.prod_cons]
      simp only [toPoly_cons, toPoly_nil, C_neg, C_1]
      ring
  rw [master, hloop, map_eq_range xs fun x => X - C x]
  simp only [toPoly_cons, toPoly_nil, C_1, mul_zero, add_zero, one_mul]
  exact prod_map_range _ _

theorem length_master (xs : List Fr) : (master xs).length ≤ xs.length + 1 := by
  have hloop : ∀ (xs : List Fr) (m : Poly),
      (xs.foldl (fun m xk => mul m (fromCoeffs [-xk, 1])) m).length ≤ m.length + xs.length := by
    intro xs
    induction xs with
    | nil => exact fun m => le_refl _
    | cons x rest ih =>
      intro m
      have hfactor : (fromCoeffs [-x, 1]).length ≤ 2 := length_dropZeros _
      have hmul := length_mul m (fromCoeffs [-x, 1])
      have hrest := ih (mul m (fromCoeffs [-x, 1]))
      rw [List.foldl_cons, List.length_cons]
      omega
  rw [Nat.add_comm]
  exact hloop xs [1]

theorem toPoly_syntheticDiv {p : Poly} {a : Fr} (h : (toPoly p).IsRoot a) :
    toPoly p = (X - C a) * toPoly (syntheticDiv p a) := by
  rw [syntheticDiv, toPoly_fromCoeffs]
  cases p with
  | nil => simp [synthQuot]
  | cons c l => exact synthQuot_of_root h

theorem length_syntheticDiv (p : Poly) (a : Fr) : (syntheticDiv p a).length ≤ p.length - 1 :=
  (length_dropZeros _).trans_eq (by rw [length_synthQuot, List.length_tail])

/-- The quotient of the master polynomial by one of its factors is the product of the others. -/
theorem eval_syntheticDiv_master (xs : List Fr) {j : Nat} (hj : j < xs.length) (x : Fr) :
    (toPoly (syntheticDiv (master xs) (xs.getD j 0))).eval x = skipProduct xs j x := by
  have hsplit : toPoly (master xs)
      = (X - C (xs.getD j 0)) * ∏ k ∈ (Finset.range xs.length).erase j, (X - C (xs.getD k 0)) := by
    rw [toPoly_master]
    exact (Finset.mul_prod_erase _ _ (Finset.mem_range.mpr hj)).symm
  have hroot : (toPoly (master xs)).IsRoot (xs.getD j 0) := by
    rw [IsRoot.def, hsplit, eval_mul, eval_sub, eval_X, eval_C, sub_self, zero_mul]
  have hquot := mul_left_cancel₀ (X_sub_C_ne_zero (xs.getD j 0))
    ((toPoly_syntheticDiv hroot).symm.trans hsplit)
  rw [hquot, skipProduct_eq, eval_prod]
  simp only [eval_sub, eval_X, eval_C]

theorem toPoly_foldl_addSample (samples : List (Fr × Fr × Poly)) (result : Poly) :
    toPoly (samples.foldl addSample result)
      = toPoly result + (samples.map fun s => C (s.1 * s.2.1) * toPoly s.2.2).sum := by
  induction samples generalizing result with
  | nil => simp
  | cons s rest ih =>
    have hadd : toPoly (addSample result s) = toPoly result + C (s.1 * s.2.1) * toPoly s.2.2 := by
      rw [addSample]
      split_ifs with hs
      · rw [hs, zero_mul, C_0, zero_mul, add_zero]
      · rw [toPoly_add, toPoly_scale]
    rw [List.foldl_cons, ih, hadd, List.map_cons, List.sum_cons, add_assoc]

theorem length_foldl_addSample {samples : List (Fr × Fr × Poly)} {result : Poly} {n : Nat}
    (hresult : result.length ≤ n) (h : ∀ s ∈ samples, s.2.2.length ≤ n) :
    (samples.foldl addSample result).length ≤ n := by
  induction samples generalizing result with
  | nil => exact hresult
  | cons s rest ih =>
    obtain ⟨hs, hrest⟩ := List.forall_mem_cons.mp h
    refine ih ?_ hrest
    rw [addSample]
    split_ifs
    · exact hresult
    · exact (length_add _ _).trans (max_le hresult ((length_scale _ _).trans hs))

/-- One polynomial through samples over the points. -/
def interpolate (xs ys : List Fr) : Poly :=
  (ys.zip (((denominators xs).map (·⁻¹)).zip (xs.map fun xj => syntheticDiv (master xs) xj))).foldl
    addSample []

/-- Points that are told apart have no zero denominator. -/
theorem skipProduct_ne_zero {xs : List Fr} (h : xs.Nodup) {j : Nat} (hj : j < xs.length) :
    skipProduct xs j (xs.getD j 0) ≠ 0 := by
  rw [skipProduct_eq]
  refine Finset.prod_ne_zero_iff.mpr fun k hk => ?_
  obtain ⟨hkj, hk⟩ := Finset.mem_erase.mp hk
  rw [Finset.mem_range] at hk
  rw [List.getD_eq_getElem _ _ hj, List.getD_eq_getElem _ _ hk, sub_ne_zero]
  exact fun heq => hkj (h.getElem_inj_iff.mp heq).symm

theorem interpolateShared_eq {xs : List Fr} (h : xs.Nodup) (ysList : List (List Fr)) :
    interpolateShared xs ysList = some (ysList.map (interpolate xs)) := by
  have hne : ∀ d ∈ denominators xs, d ≠ 0 := by
    intro d hd
    obtain ⟨j, hj, rfl⟩ := List.mem_map.mp hd
    exact skipProduct_ne_zero h (List.mem_range.mp hj)
  have hprod : (denominators xs).prod ≠ 0 := fun hzero => hne 0 (List.prod_eq_zero_iff.mp hzero) rfl
  rw [interpolateShared]
  split_ifs with hnil
  · have hempty : interpolate xs = fun _ => [] := by
      funext ys
      rw [interpolate, hnil, List.map_nil, List.zip_nil_right, List.zip_nil_right, List.foldl_nil]
    rw [hempty]
  · simp only [if_neg hprod, batchInvert_eq hne]
    rfl

/-- The samples as the loop meets them. -/
theorem zip_samples {xs ys : List Fr} (h : ys.length = xs.length) :
    ys.zip (((denominators xs).map (·⁻¹)).zip (xs.map fun xj => syntheticDiv (master xs) xj))
      = (List.range xs.length).map fun j => (ys.getD j 0, (skipProduct xs j (xs.getD j 0))⁻¹,
          syntheticDiv (master xs) (xs.getD j 0)) := by
  have hys : ys = (List.range xs.length).map fun j => ys.getD j 0 := by
    conv_lhs => rw [← List.map_id ys, map_eq_range ys id, h]
    rfl
  conv_lhs => rw [hys, denominators, List.map_map, map_eq_range xs fun xj => syntheticDiv (master xs) xj]
  rw [List.zip_map', List.zip_map']
  rfl

/-- **Interpolation, evaluated**: each sample weighs its basis polynomial. -/
theorem eval_interpolate {xs ys : List Fr} (h : ys.length = xs.length) (x : Fr) :
    (toPoly (interpolate xs ys)).eval x = ∑ j ∈ Finset.range xs.length,
      ys.getD j 0 * (skipProduct xs j x * (skipProduct xs j (xs.getD j 0))⁻¹) := by
  rw [interpolate, zip_samples h, toPoly_foldl_addSample, toPoly_nil, zero_add, List.map_map,
    sum_map_range, eval_finsetSum]
  refine Finset.sum_congr rfl fun j hj => ?_
  rw [Function.comp_apply, eval_mul, eval_C, eval_syntheticDiv_master xs (Finset.mem_range.mp hj)]
  ring

theorem length_interpolate {xs ys : List Fr} (h : ys.length = xs.length) :
    (interpolate xs ys).length ≤ xs.length := by
  rw [interpolate, zip_samples h]
  refine length_foldl_addSample (Nat.zero_le _) fun s hs => ?_
  obtain ⟨j, -, rfl⟩ := List.mem_map.mp hs
  have hdiv := length_syntheticDiv (master xs) (xs.getD j 0)
  have hmaster := length_master xs
  simp only
  omega

/-! ## The domain -/

@[simp] theorem length_domain (n : Nat) : (domain n).length = n := by
  rw [domain, List.length_map, List.length_range]

theorem getD_domain {n j : Nat} (hj : j < n) : (domain n).getD j 0 = fromU64 (j + 1) := by
  rw [List.getD_eq_getElem _ _ (by rwa [length_domain])]
  simp only [domain, List.getElem_map, List.getElem_range]

/-- The points of the domain are told apart. -/
theorem nodup_domain {n : Nat} (h : n < 2 ^ 63) : (domain n).Nodup := by
  refine List.Nodup.map_on (fun i hi j hj heq => ?_) List.nodup_range
  rw [List.mem_range] at hi hj
  rw [fromU64_eq (by omega), fromU64_eq (by omega)] at heq
  have hmod : (2 : Nat) ^ 64 < MODULUS := by decide
  exact Nat.succ_injective (natCast_inj (by omega) (by omega) heq)

theorem lagrangeEvalAt_eq {n j : Nat} (hn : n < 2 ^ 63) (hj : j < n) (tau : Fr) :
    lagrangeEvalAt (j + 1) n tau = some (skipProduct (domain n) j tau
      * (skipProduct (domain n) j ((domain n).getD j 0))⁻¹) := by
  have hne := skipProduct_ne_zero (nodup_domain hn) (j := j) (by rwa [length_domain])
  rw [getD_domain hj] at hne ⊢
  simp only [lagrangeEvalAt, Nat.add_sub_cancel]
  rw [if_neg hne]

end Poly

end DiscCleaner.Zk
