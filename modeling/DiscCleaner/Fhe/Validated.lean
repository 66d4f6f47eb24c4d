import DiscCleaner.Fhe.Product
import Mathlib.Tactic.NormNum

/-!
# DiscCleaner — what validated parameters promise the ring (`rlwe.rs`, `poly.rs`)

`Params::validate` bounds the modulus alone, and lets two through. The schoolbook product sums `n`
products of centred coefficients in a 64-bit word before it reduces, and reduces symmetrically.

* **`mul_safe`**, **`mulSparse_eq_mul`** — products for an odd modulus that leaves the sum room.
* **`ringSafe_iff`** — the exact condition on parameters that pass validation.
-/

namespace DiscCleaner.Fhe

open CheckedLib NegacyclicLib
open DiscCleaner.Fhe.Poly hiding zero_add mul_zero

/-- The product of two elements is their product modulo `X^n + 1` and `q`, centred, and a sparse
factor gives what the polynomial it stands for gives. -/
structure RingSafe (params : Params) : Prop where
  mul : ∀ p r : Poly, p.InRing params.n params.q → r.InRing params.n params.q →
    ∃ m, p.mul r params.q = some m ∧ m.InRing params.n params.q ∧
      classOf (ZMod params.q.toNat) params.n m.coeffs
        = classOf (ZMod params.q.toNat) params.n p.coeffs
          * classOf (ZMod params.q.toNat) params.n r.coeffs
  sparse : ∀ (p : Poly) (t : List (Nat × Int)), p.InRing params.n params.q →
    (t.map Prod.fst).Nodup → SparseTernary params.n t →
    p.mulSparse t params.q = p.mul (dense params.n t) params.q

/-! ## Centred values -/

variable {q : Int} {n : Nat}

/-- The largest centred value of an odd modulus. -/
def half (q : Int) : Int := (q - 1) / 2

theorem centred_abs_le (hq : OddModulus q) {c : Int} (hc : Centred q c) : |c| ≤ half q := by
  obtain ⟨hpos, hodd, -⟩ := hq
  obtain ⟨hlo, hhi⟩ := hc
  unfold half
  exact abs_le.mpr ⟨by omega, by omega⟩

theorem half_nonneg (hq : OddModulus q) : 0 ≤ half q := by
  have := hq.pos
  unfold half
  omega

theorem Poly.InRing.boundedBy (hq : OddModulus q) {p : Poly} (hp : p.InRing n q) :
    BoundedBy (half q) p.coeffs :=
  boundedBy_of_mem (half_nonneg hq) fun c hc => centred_abs_le hq (hp.centred c hc)

theorem toNat_cast_zero (hq : 0 < q) : ((q : Int) : ZMod q.toNat) = 0 := by
  have hnat : ((q.toNat : Nat) : Int) = q := Int.toNat_of_nonneg hq.le
  rw [← hnat, Int.cast_natCast, Int.toNat_natCast, ZMod.natCast_self]

/-- The reduction keeps the residue. -/
theorem centreZ_cast (hq : 0 < q) (x : Int) :
    ((centreZ x q : Int) : ZMod q.toNat) = (x : ZMod q.toNat) := by
  have hrem : ((x.tmod q : Int) : ZMod q.toNat) = (x : ZMod q.toNat) := by
    have hdiv := congrArg (Int.cast (R := ZMod q.toNat)) (Int.tmod_add_mul_tdiv x q)
    rwa [Int.cast_add, Int.cast_mul, toNat_cast_zero hq, zero_mul, add_zero] at hdiv
  unfold centreZ
  split_ifs
  · rw [Int.cast_sub, toNat_cast_zero hq, sub_zero, hrem]
  · rw [Int.cast_add, toNat_cast_zero hq, add_zero, hrem]
  · exact hrem

theorem classOf_centredZ (hq : 0 < q) {acc : List Int} (hlen : acc.length = n) :
    classOf (ZMod q.toNat) n ((⟨acc⟩ : Poly).centredZ q).coeffs = classOf (ZMod q.toNat) n acc := by
  refine congrArg ofCoeffs (funext fun i => ?_)
  have hi : (i : Nat) < acc.length := hlen ▸ i.isLt
  rw [centredZ, List.getD_eq_getElem _ _ (by rwa [List.length_map]), List.getElem_map,
    centreZ_cast hq, List.getD_eq_getElem _ _ hi]

/-! ## Products that have room -/

/-- A list of terms that no accumulator of which receives more than a word, reduced. -/
theorem addTerms_centred (hq : OddModulus q) {terms : List (Nat × Int)}
    (hterms : ∀ t ∈ terms, t.1 < 2 * n) (hload : ∀ k < n, load n k terms < 2 ^ 63) :
    ∃ m, (do
        let acc ← addTerms n (List.replicate n 0) terms
        (⟨acc⟩ : Poly).centred q) = some m ∧ m.InRing n q ∧
      m = (⟨addTermsZ n (List.replicate n 0) terms⟩ : Poly).centredZ q := by
  have hacc := addTerms_ok hterms (List.length_replicate (n := n) (a := (0 : Int))) fun k hk => by
    rw [getD_zero, abs_zero, zero_add]
    exact hload k hk
  have hwords := (addTerms_inv (fun c hc => by
    rw [List.eq_of_mem_replicate hc]
    decide) hacc).2
  obtain ⟨m, hm, hring⟩ := centred_ok hq (p := ⟨addTermsZ n (List.replicate n 0) terms⟩) hwords
  have hlen : (⟨addTermsZ n (List.replicate n 0) terms⟩ : Poly).coeffs.length = n := by
    rw [length_addTermsZ, List.length_replicate]
  refine ⟨m, ?_, hlen ▸ hring, ((centred_exact _ q).eq_some_iff.mp hm).2.symm⟩
  rw [hacc]
  exact hm

/-- Two bounded vectors whose sums of products fit a word. -/
theorem mul_bounded (hq : OddModulus q) (hn : 0 < n) {p r : Poly} (hp : p.coeffs.length = n)
    (hr : r.coeffs.length = n) {A B : Int} (hpA : BoundedBy A p.coeffs) (hrB : BoundedBy B r.coeffs)
    (hfit : n * (A * B) < 2 ^ 63) :
    ∃ m, p.mul r q = some m ∧ m.InRing n q ∧
      m = (⟨addTermsZ n (List.replicate n 0) (mulTerms n p.coeffs r.coeffs)⟩ : Poly).centredZ q := by
  have hAB : A * B ≤ n * (A * B) := by
    have := mul_nonneg hpA.nonneg hrB.nonneg
    nlinarith [show (1 : Int) ≤ n by exact_mod_cast hn]
  rw [mul_eq_addTerms hp hr (fun i _ j _ =>
    inI64_of_abs_le (hpA.abs_mul_le hrB i j) (hAB.trans_lt hfit))]
  exact addTerms_centred hq mulTerms_lt fun k hk => (load_mulTerms hk hpA hrB).trans_lt hfit

/-- **The schoolbook product is the product of the ring.** -/
theorem mul_safe (hq : OddModulus q) (hn : 0 < n) (hfit : n * (half q * half q) < 2 ^ 63)
    {p r : Poly} (hp : p.InRing n q) (hr : r.InRing n q) :
    ∃ m, p.mul r q = some m ∧ m.InRing n q ∧
      classOf (ZMod q.toNat) n m.coeffs
        = classOf (ZMod q.toNat) n p.coeffs * classOf (ZMod q.toNat) n r.coeffs := by
  obtain ⟨m, hm, hring, rfl⟩ :=
    mul_bounded hq hn hp.length hr.length (hp.boundedBy hq) (hr.boundedBy hq) hfit
  refine ⟨_, hm, hring, ?_⟩
  rw [classOf_centredZ hq.pos (by rw [length_addTermsZ, List.length_replicate]),
    classOf_addTermsZ _ mulTerms_lt List.length_replicate, classOf_zero, zero_add, classOf_mulTerms]

theorem dense_boundedBy (t : List (Nat × Int)) (ht : SparseTernary n t) :
    BoundedBy 1 (dense n t).coeffs := by
  refine boundedBy_of_mem zero_le_one fun c hc => ?_
  obtain ⟨k, -, rfl⟩ := List.mem_map.mp hc
  cases hfind : t.find? fun term => term.1 = k with
  | none => simp
  | some term =>
    rcases (ht term (List.mem_of_find?_eq_some hfind)).2 with h | h <;> simp [h]

theorem SparseTernary.length_le {t : List (Nat × Int)} (ht : SparseTernary n t)
    (hnodup : (t.map Prod.fst).Nodup) : t.length ≤ n := by
  have hsub : t.map Prod.fst ⊆ List.range n := by
    intro pos hpos
    obtain ⟨term, hterm, rfl⟩ := List.mem_map.mp hpos
    exact List.mem_range.mpr (ht term hterm).1
  have hlen := (hnodup.subperm hsub).length_le
  rwa [List.length_map, List.length_range] at hlen

/-- **The sparse product is the dense one**: the same terms in another order. -/
theorem mulSparse_eq_mul (hq : OddModulus q) (hn : 0 < n) (hfit : n * half q < 2 ^ 63)
    {p : Poly} (hp : p.InRing n q) {t : List (Nat × Int)} (hnodup : (t.map Prod.fst).Nodup)
    (ht : SparseTernary n t) : p.mulSparse t q = p.mul (dense n t) q := by
  have hbound := hp.boundedBy hq
  have hhalf := half_nonneg hq
  have hone : half q ≤ n * half q := by nlinarith [show (1 : Int) ≤ n by exact_mod_cast hn]
  have hsparse : p.mulSparse t q = _ := mulSparse_eq_addTerms hp.length (fun i _ term hterm => by
    have habs : |p.coeffs.getD i 0 * term.2| ≤ half q := by
      rw [abs_mul]
      rcases (ht term hterm).2 with h | h <;> simpa [h] using hbound i
    exact inI64_of_abs_le habs (hone.trans_lt hfit)) q
  obtain ⟨m, hm, -, hmZ⟩ := addTerms_centred hq (sparseTerms_lt (a := p.coeffs) ht) fun k hk => by
    have hcount : (t.length : Int) * half q ≤ n * half q :=
      mul_le_mul_of_nonneg_right (by exact_mod_cast SparseTernary.length_le ht hnodup) hhalf
    exact ((load_sparseTerms hk hbound ht).trans hcount).trans_lt hfit
  have hdenseLen : (dense n t).coeffs.length = n := by simp [dense]
  obtain ⟨m', hm', -, hmZ'⟩ := mul_bounded hq hn hp.length hdenseLen hbound (dense_boundedBy t ht)
    (by rwa [mul_one])
  have hacc : addTermsZ n (List.replicate n 0) (sparseTerms n p.coeffs t)
      = addTermsZ n (List.replicate n 0) (mulTerms n p.coeffs (dense n t).coeffs) := by
    refine eq_of_classOf_eq hn.ne' (by rw [length_addTermsZ, List.length_replicate])
      (by rw [length_addTermsZ, List.length_replicate]) ?_
    rw [classOf_addTermsZ _ (sparseTerms_lt ht) List.length_replicate,
      classOf_addTermsZ _ mulTerms_lt List.length_replicate, classOf_mulTerms, classOf_sparseTerms,
      classOf_dense _ hnodup ht]
  rw [hsparse, hm, hm', hmZ, hmZ', hacc]

/-! ## What accumulator `k` of the product holds -/

/-- The signed sum that accumulator `k` of the schoolbook product receives. -/
theorem getD_mulTerms {k : Nat} (hk : k < n) (a b : List Int) :
    (addTermsZ n (List.replicate n 0) (mulTerms n a b)).getD k 0
      = ∑ i ∈ Finset.range n, if i ≤ k then a.getD i 0 * b.getD (partner n k i) 0
          else -(a.getD i 0 * b.getD (partner n k i) 0) := by
  rw [getD_addTermsZ mulTerms_lt List.length_replicate hk, getD_zero, Int.zero_add, mulTerms,
    sum_map_flatMap, sum_map_range]
  refine Finset.sum_congr rfl fun i hi => ?_
  rw [Finset.mem_range] at hi
  split_ifs with hzero hle hle
  · rw [hzero, zero_mul]
    rfl
  · rw [hzero, zero_mul, neg_zero]
    rfl
  all_goals
    rw [List.map_map, sum_map_range, Finset.sum_eq_single (partner n k i)]
    · rw [Function.comp_apply, contribution_row hk hi (partner_lt hk hi), if_pos rfl]
      simp [hle]
    · intro j hj hne
      rw [Function.comp_apply, contribution_row hk hi (Finset.mem_range.mp hj), if_neg hne]
    · exact fun h => absurd (Finset.mem_range.mpr (partner_lt hk hi)) h

/-- A product that went on: its accumulators are words, and it is their reduction. -/
theorem mul_inv {p r m : Poly} (hp : p.coeffs.length = n) (hr : r.coeffs.length = n)
    (hprod : ∀ i < n, ∀ j < n, InI64 (p.coeffs.getD i 0 * r.coeffs.getD j 0))
    (h : p.mul r q = some m) :
    (∀ c ∈ addTermsZ n (List.replicate n 0) (mulTerms n p.coeffs r.coeffs), InI64 c) ∧
      m = (⟨addTermsZ n (List.replicate n 0) (mulTerms n p.coeffs r.coeffs)⟩ : Poly).centredZ q := by
  rw [mul_eq_addTerms hp hr hprod, Option.bind_eq_bind, Option.bind_eq_some_iff] at h
  obtain ⟨acc, hacc, hm⟩ := h
  obtain ⟨rfl, hwords⟩ := addTerms_inv (fun c hc => by
    rw [List.eq_of_mem_replicate hc]
    decide) hacc
  exact ⟨hwords, ((centred_exact _ q).eq_some_iff.mp hm).2.symm⟩

/-! ## Validated parameters -/

theorem isPrime_odd {x : Nat} (h : isPrime x = true) (hx : x ≠ 2) : 3 ≤ x ∧ x % 2 = 1 := by
  unfold isPrime at h
  split_ifs at h with hlt heven
  · exact absurd (of_decide_eq_true h) hx
  · omega

theorem Params.validate_odd {params : Params} (h : params.validate = .ok ()) (hq : params.q ≠ 2) :
    OddModulus params.q ∧ 3 ≤ params.q := by
  obtain ⟨-, hpos, hlt⟩ := params.validate_ok h
  have hprime : isPrime params.q.toNat = true := by
    unfold Params.validate at h
    split_ifs at h with h1 h2
    simp only [Bool.or_eq_true, not_or] at h2
    simpa using h2.2
  obtain ⟨hthree, hodd⟩ := isPrime_odd hprime (by omega)
  exact ⟨⟨hpos, by omega, by omega⟩, by omega⟩

/-- With modulus 2 the reduction leaves the centred range: `1 · 1` comes out as `-1`. -/
theorem not_ringSafe_two {params : Params} (hn : 0 < params.n) (hq : params.q = 2) :
    ¬RingSafe params := by
  intro hsafe
  obtain ⟨k, hk⟩ : ∃ k, params.n = k + 1 := ⟨params.n - 1, by omega⟩
  have hcoeff : ∀ c ∈ 1 :: List.replicate k (0 : Int), c = 1 ∨ c = 0 := fun c hc =>
    (List.mem_cons.mp hc).imp id List.eq_of_mem_replicate
  have hlen : (1 :: List.replicate k (0 : Int)).length = params.n := by simp [hk]
  have hone : (⟨1 :: List.replicate k 0⟩ : Poly).InRing params.n params.q := by
    refine ⟨hlen, fun c hc => ?_⟩
    rw [hq]
    rcases hcoeff c hc with rfl | rfl <;> decide
  have hbound : BoundedBy 1 (1 :: List.replicate k (0 : Int)) :=
    boundedBy_of_mem zero_le_one fun c hc => by rcases hcoeff c hc with rfl | rfl <;> decide
  obtain ⟨m, hm, hring, -⟩ := hsafe.mul _ _ hone hone
  obtain ⟨-, rfl⟩ := mul_inv hlen hlen
    (fun i _ j _ => inI64_of_abs_le (hbound.abs_mul_le hbound i j) (by decide)) hm
  -- the first accumulator holds `1`, of the first row; the other rows have only zeros
  have hcell := getD_mulTerms hn (1 :: List.replicate k (0 : Int)) (1 :: List.replicate k (0 : Int))
  rw [hk, Finset.sum_range_succ', Finset.sum_eq_zero fun i _ => by
    rw [List.getD_cons_succ, getD_zero, zero_mul, neg_zero, ite_self]] at hcell
  have hfirst : (addTermsZ (k + 1) (List.replicate (k + 1) 0)
      (mulTerms (k + 1) (1 :: List.replicate k 0) (1 :: List.replicate k 0))).getD 0 0 = 1 := by
    rw [hcell]
    rfl
  have hmem : centreZ 1 2 ∈ ((⟨addTermsZ params.n (List.replicate params.n 0)
      (mulTerms params.n (1 :: List.replicate k 0) (1 :: List.replicate k 0))⟩ : Poly).centredZ
        params.q).coeffs := by
    rw [hk, hq]
    refine List.mem_map.mpr ⟨1, ?_, rfl⟩
    rw [List.getD_eq_getElem _ _ (by rw [length_addTermsZ, List.length_replicate]; omega)] at hfirst
    exact List.mem_of_getElem hfirst
  have hbad := hring.centred _ hmem
  rw [hq] at hbad
  exact absurd hbad (by decide)

/-- Without room, the product of the largest elements overflows in the last accumulator. -/
theorem not_ringSafe_overflow {params : Params} (hq : OddModulus params.q) (hn : 0 < params.n)
    (hlt : params.q < 2 ^ 31) (hfit : ¬params.n * (half params.q * half params.q) < 2 ^ 63) :
    ¬RingSafe params := by
  intro hsafe
  have hhalf := half_nonneg hq
  have hle : half params.q ≤ 2 ^ 30 := by
    unfold half
    omega
  have hlen : (List.replicate params.n (half params.q)).length = params.n := List.length_replicate
  have hring : (⟨List.replicate params.n (half params.q)⟩ : Poly).InRing params.n params.q := by
    refine ⟨hlen, fun c hc => ?_⟩
    obtain rfl := List.eq_of_mem_replicate hc
    obtain ⟨hpos, hodd, -⟩ := hq
    unfold half
    constructor <;> omega
  have hcell : ∀ i < params.n, (List.replicate params.n (half params.q)).getD i 0 = half params.q :=
    fun i hi => by rw [List.getD_replicate _ hi]
  have hsquare : half params.q * half params.q ≤ 2 ^ 30 * 2 ^ 30 :=
    mul_le_mul hle hle hhalf (by decide)
  obtain ⟨m, hm, -, -⟩ := hsafe.mul _ _ hring hring
  obtain ⟨hwords, -⟩ := mul_inv hlen hlen (fun i hi j hj => by
    simp only [hcell i hi, hcell j hj]
    exact ⟨by nlinarith, by norm_num at hsquare; omega⟩) hm
  have hlast : params.n - 1 < params.n := Nat.sub_lt hn one_pos
  have hsum := getD_mulTerms hlast (List.replicate params.n (half params.q))
    (List.replicate params.n (half params.q))
  rw [Finset.sum_congr rfl fun i hi => by
    have hi := Finset.mem_range.mp hi
    rw [if_pos (Nat.le_sub_one_of_lt hi), hcell i hi, hcell _ (partner_lt hlast hi)],
    Finset.sum_const, Finset.card_range, nsmul_eq_mul,
    List.getD_eq_getElem _ _ (by rw [length_addTermsZ, List.length_replicate]; exact hlast)] at hsum
  have hword := hwords _ (List.getElem_mem (by
    rw [length_addTermsZ, List.length_replicate]; exact hlast))
  rw [hsum] at hword
  have hmax : InI64 (params.n * (half params.q * half params.q)) := hword
  exact hfit hmax.2

/-- **Validated parameters are safe for the ring product** exactly when the modulus is odd and `n`
squares of its largest centred value fit a word. -/
theorem ringSafe_iff {params : Params} (h : params.validate = .ok ()) :
    RingSafe params ↔
      params.q ≠ 2 ∧ params.n * (half params.q * half params.q) < 2 ^ 63 := by
  obtain ⟨hn, hpos, hlt⟩ := params.validate_ok h
  have hn0 : 0 < params.n := by omega
  constructor
  · intro hsafe
    have hq2 : params.q ≠ 2 := fun hq => not_ringSafe_two hn0 hq hsafe
    exact ⟨hq2, not_not.mp fun hfit =>
      not_ringSafe_overflow (params.validate_odd h hq2).1 hn0 hlt hfit hsafe⟩
  · rintro ⟨hq2, hfit⟩
    obtain ⟨hq, hthree⟩ := params.validate_odd h hq2
    have hone : 1 ≤ half params.q := by
      unfold half
      omega
    have hsquare : params.n * half params.q ≤ params.n * (half params.q * half params.q) :=
      mul_le_mul_of_nonneg_left (le_mul_of_one_le_left (by omega) hone) (by positivity)
    exact ⟨fun p r hp hr => mul_safe hq hn0 hfit hp hr, fun p t hp hnodup ht =>
      mulSparse_eq_mul hq hn0 (hsquare.trans_lt hfit) hp hnodup ht⟩

/-- Two parameter sets that pass validation and fail: modulus 2, and a degree below `2^13` with a
modulus below `2^31`. -/
theorem validated_not_ringSafe :
    (Params.validate ⟨256, 2, 1⟩ = .ok () ∧ ¬RingSafe ⟨256, 2, 1⟩) ∧
      (Params.validate ⟨4096, 94906297, 1⟩ = .ok () ∧ ¬RingSafe ⟨4096, 94906297, 1⟩) := by
  refine ⟨⟨by decide, not_ringSafe_two (by decide) rfl⟩, by decide +kernel, ?_⟩
  exact not_ringSafe_overflow ⟨by decide, by decide, by decide⟩ (by decide) (by decide) (by decide)

theorem ringSafe_default : RingSafe Params.default :=
  (ringSafe_iff default_validate).mpr ⟨by decide, by decide⟩

end DiscCleaner.Fhe
