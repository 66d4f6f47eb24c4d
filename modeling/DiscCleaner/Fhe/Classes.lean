import DiscCleaner.Fhe.Validated
import Mathlib.Algebra.Field.ZMod

/-!
# DiscCleaner — polynomials as elements of the ring (`poly.rs`)

Every exact operation of the ring on vectors of length `n` is the operation of
`(ℤ/q)[X] / (X^n + 1)`, whether it fits its words or not. An odd modulus reduces two vectors to the
same one exactly when they stand for the same element.

* **`element_mulZ`**, **`element_mulSparseZ`** — both products are products of the ring.
* **`centredZ_eq_iff`** — equal reductions are equal elements.
* **`reduced_eq_iff`** — modulo 2 an odd value keeps the opposite of its sign, so there the signs
  must agree too.
-/

namespace DiscCleaner.Fhe

open CheckedLib NegacyclicLib

variable {q : Int} {n : Nat}

/-! ## Reductions -/

theorem centreZ_centred (hq : OddModulus q) (x : Int) : Centred q (centreZ x q) := by
  obtain ⟨hpos, hodd, -⟩ := hq
  have hlo : -q < x.tmod q := Int.lt_tmod_of_pos x hpos
  have hhi : x.tmod q < q := Int.tmod_lt_of_pos x hpos
  have hhalf : (q - 1).tdiv 2 = (q - 1) / 2 := Int.tdiv_eq_ediv_of_nonneg (by omega)
  unfold centreZ Centred
  rw [hhalf]
  split_ifs <;> omega

/-- Two centred values of one residue are the same. -/
theorem Centred.eq_of_cast {c d : Int} (hc : Centred q c) (hd : Centred q d)
    (h : (c : ZMod q.toNat) = (d : ZMod q.toNat)) : c = d := by
  obtain ⟨hclo, hchi⟩ := hc
  obtain ⟨hdlo, hdhi⟩ := hd
  have hnat : ((q.toNat : Nat) : Int) = q := Int.toNat_of_nonneg (by omega)
  have hdvd : q ∣ d - c := by
    rw [← hnat]
    exact (ZMod.intCast_eq_intCast_iff_dvd_sub _ _ _).mp h
  obtain ⟨k, hk⟩ := hdvd
  have hk0 : k = 0 := by
    by_contra hne
    rcases lt_or_gt_of_ne hne with hneg | hpos
    · nlinarith
    · nlinarith
  rw [hk0, Int.mul_zero] at hk
  omega

theorem centreZ_eq_iff (hq : OddModulus q) {x y : Int} :
    centreZ x q = centreZ y q ↔ (x : ZMod q.toNat) = (y : ZMod q.toNat) := by
  constructor
  · intro h
    rw [← centreZ_cast hq.pos x, ← centreZ_cast hq.pos y, h]
  · intro h
    refine (centreZ_centred hq x).eq_of_cast (centreZ_centred hq y) ?_
    rw [centreZ_cast hq.pos, centreZ_cast hq.pos, h]

namespace Poly

/-! ## Lengths -/

@[simp] theorem length_centredZ (p : Poly) (q : Int) :
    (p.centredZ q).coeffs.length = p.coeffs.length := List.length_map _

theorem length_addZ {p r : Poly} (hp : p.coeffs.length = n) (hr : r.coeffs.length = n) :
    (p.addZ r).coeffs.length = n := by
  rw [addZ, List.length_map, List.length_zip, hp, hr, Nat.min_self]

theorem length_subZ {p r : Poly} (hp : p.coeffs.length = n) (hr : r.coeffs.length = n) :
    (p.subZ r).coeffs.length = n := by
  rw [subZ, List.length_map, List.length_zip, hp, hr, Nat.min_self]

@[simp] theorem length_scaleZ (p : Poly) (k : Int) :
    (p.scaleZ k).coeffs.length = p.coeffs.length := List.length_map _

@[simp] theorem length_zero (n : Nat) : (zero n).coeffs.length = n := List.length_replicate

theorem inRing_centredZ (hq : OddModulus q) {p : Poly} (hp : p.coeffs.length = n) :
    (p.centredZ q).InRing n q where
  length := (length_centredZ p q).trans hp
  centred c hc := by
    obtain ⟨x, -, rfl⟩ := List.mem_map.mp hc
    exact centreZ_centred hq x

/-! ## Products as lists of terms -/

theorem productZ_eq {p : Poly} (hp : p.coeffs.length = n) (r : Poly) :
    p.productZ r = ⟨addTermsZ n (List.replicate n 0) (mulTerms n p.coeffs r.coeffs)⟩ := by
  rw [productZ, addTermsZ, mulTerms, List.foldl_flatMap, hp]
  congr 2
  funext acc i
  rw [rowZ]
  split_ifs
  · rfl
  · rw [List.foldl_map, hp]
    rfl

theorem sparseProductZ_eq {p : Poly} (hp : p.coeffs.length = n) (t : List (Nat × Int)) :
    p.sparseProductZ t = ⟨addTermsZ n (List.replicate n 0) (sparseTerms n p.coeffs t)⟩ := by
  rw [sparseProductZ, addTermsZ, sparseTerms, List.foldl_flatMap, hp]
  congr 2
  funext acc term
  rw [shiftZ, List.foldl_map, hp]
  congr 1
  funext acc i
  rw [sparseTermZ, hp]

theorem length_productZ {p : Poly} (hp : p.coeffs.length = n) (r : Poly) :
    (p.productZ r).coeffs.length = n := by
  rw [productZ_eq hp, length_addTermsZ, List.length_replicate]

theorem length_mulZ {p : Poly} (hp : p.coeffs.length = n) (r : Poly) (q : Int) :
    (p.mulZ r q).coeffs.length = n := by
  rw [mulZ, length_centredZ, length_productZ hp]

theorem length_mulSparseZ {p : Poly} (hp : p.coeffs.length = n) (t : List (Nat × Int)) (q : Int) :
    (p.mulSparseZ t q).coeffs.length = n := by
  rw [mulSparseZ, length_centredZ, sparseProductZ_eq hp, length_addTermsZ, List.length_replicate]

/-! ## Elements -/

/-- The element of `(ℤ/q)[X] / (X^n + 1)` that a polynomial stands for. -/
noncomputable def element (q : Int) (n : Nat) (p : Poly) : NegaRing (ZMod q.toNat) n :=
  classOf (ZMod q.toNat) n p.coeffs

/-- The element that a list of positions and signs stands for. -/
noncomputable def sparseElement (q : Int) (n : Nat) (t : List (Nat × Int)) :
    NegaRing (ZMod q.toNat) n :=
  (t.map (termClass (ZMod q.toNat) n)).sum

theorem element_zero (q : Int) (n : Nat) : (zero n).element q n = 0 := classOf_zero _ n

theorem element_addZ {p r : Poly} (hp : p.coeffs.length = n) (hr : r.coeffs.length = n) :
    (p.addZ r).element q n = p.element q n + r.element q n := by
  rw [element, element, element, classOf, classOf, classOf, ← ofCoeffs_add]
  refine congrArg ofCoeffs (funext fun i => ?_)
  have hi := i.isLt
  rw [List.getD_eq_getElem _ _ (by rwa [length_addZ hp hr]), List.getD_eq_getElem _ _ (hp ▸ hi),
    List.getD_eq_getElem _ _ (hr ▸ hi)]
  simp [addZ]

theorem element_subZ {p r : Poly} (hp : p.coeffs.length = n) (hr : r.coeffs.length = n) :
    (p.subZ r).element q n = p.element q n - r.element q n := by
  rw [eq_sub_iff_add_eq, ← element_addZ (length_subZ hp hr) hr]
  refine congrArg (element q n) (congrArg Poly.mk (List.ext_getElem ?_ fun i hi hi' => ?_))
  · rw [List.length_map, List.length_zip, length_subZ hp hr, hr, hp, Nat.min_self]
  · simp [subZ]

theorem element_scaleZ {p : Poly} (hp : p.coeffs.length = n) (k : Int) :
    (p.scaleZ k).element q n = const n (k : ZMod q.toNat) * p.element q n := by
  rw [element, element, classOf_eq_sum, classOf_eq_sum, Finset.mul_sum]
  refine Finset.sum_congr rfl fun i hi => ?_
  have hi := Finset.mem_range.mp hi
  rw [List.getD_eq_getElem _ _ (by rwa [length_scaleZ, hp]), List.getD_eq_getElem _ _ (hp ▸ hi)]
  simp only [scaleZ, List.getElem_map, const, Int.cast_mul, map_mul]
  ring

theorem element_centredZ (hq : 0 < q) {p : Poly} (hp : p.coeffs.length = n) :
    (p.centredZ q).element q n = p.element q n := classOf_centredZ hq hp

theorem element_productZ {p : Poly} (hp : p.coeffs.length = n) (r : Poly) :
    (p.productZ r).element q n = p.element q n * r.element q n := by
  rw [productZ_eq hp]
  unfold element
  rw [classOf_addTermsZ _ mulTerms_lt List.length_replicate, classOf_zero, classOf_mulTerms]
  ring

/-- **The product of the loops is the product of the ring.** -/
theorem element_mulZ (hq : 0 < q) {p : Poly} (hp : p.coeffs.length = n) (r : Poly) :
    (p.mulZ r q).element q n = p.element q n * r.element q n := by
  rw [mulZ, element_centredZ hq (length_productZ hp r), element_productZ hp]

theorem element_mulSparseZ (hq : 0 < q) {p : Poly} (hp : p.coeffs.length = n)
    {t : List (Nat × Int)} (ht : SparseTernary n t) :
    (p.mulSparseZ t q).element q n = p.element q n * sparseElement q n t := by
  have hlen : (p.sparseProductZ t).coeffs.length = n := by
    rw [sparseProductZ_eq hp, length_addTermsZ, List.length_replicate]
  rw [mulSparseZ, element_centredZ hq hlen, sparseProductZ_eq hp]
  unfold element sparseElement
  rw [classOf_addTermsZ _ (sparseTerms_lt ht) List.length_replicate, classOf_zero,
    classOf_sparseTerms]
  ring

/-- Polynomials stand for the same element exactly when all their residues agree. -/
theorem element_eq_iff (hq : 1 < q) (hn : n ≠ 0) {p r : Poly} :
    p.element q n = r.element q n ↔
      ∀ i < n, ((p.coeffs.getD i 0 : Int) : ZMod q.toNat) = (r.coeffs.getD i 0 : Int) := by
  have : Fact (1 < q.toNat) := ⟨by omega⟩
  constructor
  · intro h i hi
    exact congrFun (ofCoeffs_injective hn h) ⟨i, hi⟩
  · intro h
    exact congrArg ofCoeffs (funext fun i => h i i.isLt)

theorem centredZ_ext_iff {p r : Poly} (hp : p.coeffs.length = n) (hr : r.coeffs.length = n) :
    p.centredZ q = r.centredZ q ↔
      ∀ i < n, centreZ (p.coeffs.getD i 0) q = centreZ (r.coeffs.getD i 0) q := by
  constructor
  · intro h i hi
    have hcell := congrArg (fun s : Poly => s.coeffs[i]?) h
    simp only [centredZ, List.getElem?_map, List.getElem?_eq_getElem (hp ▸ hi),
      List.getElem?_eq_getElem (hr ▸ hi), Option.map_some, Option.some.injEq] at hcell
    rwa [List.getD_eq_getElem _ _ (hp ▸ hi), List.getD_eq_getElem _ _ (hr ▸ hi)]
  · intro h
    refine congrArg Poly.mk (List.ext_getElem (by simp [hp, hr]) fun i hi hi' => ?_)
    rw [List.length_map] at hi hi'
    have hcell := h i (hp ▸ hi)
    rw [List.getD_eq_getElem _ _ hi, List.getD_eq_getElem _ _ hi'] at hcell
    rwa [List.getElem_map, List.getElem_map]

/-- **Equal reductions are equal elements.** -/
theorem centredZ_eq_iff (hq : OddModulus q) (hq1 : 1 < q) (hn : n ≠ 0) {p r : Poly}
    (hp : p.coeffs.length = n) (hr : r.coeffs.length = n) :
    p.centredZ q = r.centredZ q ↔ p.element q n = r.element q n := by
  rw [element_eq_iff hq1 hn, centredZ_ext_iff hp hr]
  exact forall₂_congr fun i _ => centreZ_eq_iff hq

/-- Elements of the ring are their own reductions. -/
theorem InRing.centredZ_self (hq : OddModulus q) {p : Poly} (hp : p.InRing n q) :
    p.centredZ q = p := by
  refine congrArg Poly.mk ((List.map_congr_left fun c hc => ?_).trans (List.map_id _))
  refine (centreZ_centred hq c).eq_of_cast (hp.centred c hc) ?_
  exact centreZ_cast hq.pos c

/-- **Centred vectors of one element are the same.** -/
theorem InRing.eq_of_element (hq : OddModulus q) (hq1 : 1 < q) (hn : n ≠ 0) {p r : Poly}
    (hp : p.InRing n q) (hr : r.InRing n q) (h : p.element q n = r.element q n) : p = r := by
  rw [← hp.centredZ_self hq, ← hr.centredZ_self hq]
  exact (centredZ_eq_iff hq hq1 hn hp.length hr.length).mpr h

/-! ### The modulus 2 -/

/-- No coefficient is odd on both sides under different signs. -/
def SignsAgree (p r : Poly) : Prop :=
  ∀ i, p.coeffs.getD i 0 % 2 = 1 → r.coeffs.getD i 0 % 2 = 1 →
    (0 < p.coeffs.getD i 0 ↔ 0 < r.coeffs.getD i 0)

theorem centreZ_two (x : Int) : centreZ x 2 = -x.tmod 2 := by
  have hlo : -2 < x.tmod 2 := Int.lt_tmod_of_pos x (by decide)
  have hhi : x.tmod 2 < 2 := Int.tmod_lt_of_pos x (by decide)
  have hhalf : ((2 : Int) - 1).tdiv 2 = 0 := by decide
  rw [centreZ, hhalf]
  split_ifs <;> omega

theorem centreZ_two_eq_iff {x y : Int} : centreZ x 2 = centreZ y 2 ↔
    (x : ZMod 2) = (y : ZMod 2) ∧ (x % 2 = 1 → y % 2 = 1 → (0 < x ↔ 0 < y)) := by
  have hmod : (x : ZMod 2) = (y : ZMod 2) ↔ x % 2 = y % 2 := ZMod.intCast_eq_intCast_iff x y 2
  have htmod : ∀ z : Int, z.tmod 2 = if 0 ≤ z then z % 2 else -(z % 2) := by
    intro z
    split_ifs with hz
    · exact Int.tmod_eq_emod_of_nonneg hz
    · have hneg : (-z).tmod 2 = -z % 2 := Int.tmod_eq_emod_of_nonneg (by omega)
      rw [Int.neg_tmod] at hneg
      omega
  rw [centreZ_two, centreZ_two, htmod, htmod, hmod]
  split_ifs <;> omega

theorem centredZ_two_eq_iff (hn : n ≠ 0) {p r : Poly} (hp : p.coeffs.length = n)
    (hr : r.coeffs.length = n) : p.centredZ 2 = r.centredZ 2 ↔
      p.element 2 n = r.element 2 n ∧ SignsAgree p r := by
  rw [centredZ_ext_iff hp hr, element_eq_iff (by decide) hn]
  constructor
  · refine fun h => ⟨fun i hi => (centreZ_two_eq_iff.mp (h i hi)).1, fun i hpi hri => ?_⟩
    by_cases hi : i < n
    · exact (centreZ_two_eq_iff.mp (h i hi)).2 hpi hri
    · rw [List.getD_eq_default _ _ (by omega)] at hpi
      omega
  · exact fun h i hi => centreZ_two_eq_iff.mpr ⟨h.1 i hi, h.2 i⟩

/-- The moduli of validated parameters. -/
def Admitted (q : Int) : Prop := q = 2 ∨ OddModulus q ∧ 3 ≤ q

theorem Admitted.pos (hq : Admitted q) : 0 < q := by
  rcases hq with h | h
  · omega
  · exact h.1.pos

/-- **Equal reductions are equal elements**, and modulo 2 signs that agree. -/
theorem reduced_eq_iff (hq : Admitted q) (hn : n ≠ 0) {p r : Poly} (hp : p.coeffs.length = n)
    (hr : r.coeffs.length = n) : p.centredZ q = r.centredZ q ↔
      p.element q n = r.element q n ∧ (q = 2 → SignsAgree p r) := by
  rcases hq with rfl | ⟨hodd, hthree⟩
  · rw [centredZ_two_eq_iff hn hp hr]
    exact and_congr_right fun _ => ⟨fun h _ => h, fun h => h rfl⟩
  · rw [centredZ_eq_iff hodd (by omega) hn hp hr]
    exact (and_iff_left fun h => by omega).symm

end Poly

end DiscCleaner.Fhe
