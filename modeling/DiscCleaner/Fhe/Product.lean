import DiscCleaner.Fhe.Fits
import DiscCleaner.Lib.Negacyclic
import Mathlib.Data.List.GetD
import Mathlib.Data.ZMod.Basic

/-!
# DiscCleaner — products of the ring (`poly.rs`)

Both multiplications add a list of terms into `n` accumulators, a value and an exponent each. What
one accumulator receives bounds what it can hold on the way, and the terms sum to the product
modulo `X^n + 1`.

* **`addTerms_ok`** — the loop goes on where no accumulator receives more than a word.
* **`addTerms_inv`** — where it went on, every accumulator holds a word.
* **`classOf_addTermsZ`** — the accumulators hold the sum of the terms.
* **`classOf_mulTerms`**, **`classOf_sparseTerms`** — which is the product of the polynomials.
-/

namespace DiscCleaner.Fhe

open CheckedLib NegacyclicLib

namespace Poly

/-! ## A list of terms -/

/-- The terms, one after another, over words. -/
def addTerms (n : Nat) (acc : List Int) (terms : List (Nat × Int)) : Option (List Int) :=
  terms.foldlM (fun acc t => accumulate n acc t.1 t.2) acc

/-- The same over the integers. -/
def addTermsZ (n : Nat) (acc : List Int) (terms : List (Nat × Int)) : List Int :=
  terms.foldl (fun acc t => accumulateZ n acc t.1 t.2) acc

/-- What a term adds to accumulator `k`. -/
def contribution (n k : Nat) (t : Nat × Int) : Int :=
  if t.1 = k then t.2 else if t.1 = k + n then -t.2 else 0

/-- What accumulator `k` receives at most. -/
def load (n k : Nat) (terms : List (Nat × Int)) : Int :=
  (terms.map fun t => |contribution n k t|).sum

theorem load_cons (n k : Nat) (t : Nat × Int) (terms : List (Nat × Int)) :
    load n k (t :: terms) = |contribution n k t| + load n k terms := by
  rw [load, List.map_cons, List.sum_cons]
  rfl

theorem load_nonneg (n k : Nat) (terms : List (Nat × Int)) : 0 ≤ load n k terms :=
  List.sum_nonneg fun x hx => by
    obtain ⟨t, -, rfl⟩ := List.mem_map.mp hx
    exact abs_nonneg _

@[simp] theorem length_accumulateZ (n : Nat) (acc : List Int) (e : Nat) (v : Int) :
    (accumulateZ n acc e v).length = acc.length := by
  unfold accumulateZ
  split_ifs <;> exact List.length_set

theorem getD_set (l : List Int) (i k : Nat) (v : Int) (hi : i < l.length) :
    (l.set i v).getD k 0 = if i = k then v else l.getD k 0 := by
  rw [List.getD_eq_getElem?_getD, List.getElem?_set, List.getD_eq_getElem?_getD]
  split_ifs
  · rfl
  · rfl

theorem getD_zero (n k : Nat) : (List.replicate n (0 : Int)).getD k 0 = 0 := by
  rw [List.getD_eq_getElem?_getD, List.getElem?_replicate]
  split_ifs <;> rfl

theorem getD_accumulateZ {n : Nat} {acc : List Int} (hlen : acc.length = n) {e : Nat}
    (he : e < 2 * n) (v : Int) {k : Nat} (hk : k < n) :
    (accumulateZ n acc e v).getD k 0 = acc.getD k 0 + contribution n k (e, v) := by
  unfold accumulateZ contribution
  simp only
  by_cases hen : e < n
  · rw [if_pos hen, getD_set _ _ _ _ (hlen ▸ hen)]
    split_ifs with h1 h2
    · rw [h1]
    · omega
    · omega
  · rw [if_neg hen, getD_set _ _ _ _ (by omega)]
    split_ifs with h1 h2 h3
    · omega
    · rw [h1]
      omega
    · omega
    · omega
    · omega
    · omega

/-- **One term goes on** where its accumulator has room. -/
theorem accumulate_fits {n : Nat} {acc : List Int} (hlen : acc.length = n) {e : Nat}
    (he : e < 2 * n) {v : Int} (hroom : ∀ k < n, |acc.getD k 0| + |contribution n k (e, v)| < 2 ^ 63) :
    accumulate n acc e v = some (accumulateZ n acc e v) := by
  refine (accumulate_exact n acc e v).ok ?_
  unfold AccumulateFits
  split_ifs with hen
  · have hcell := hroom e hen
    have hown : contribution n e (e, v) = v := if_pos rfl
    rw [hown] at hcell
    have habs := abs_add_le (acc.getD e 0) v
    exact ⟨by omega, inI64_of_abs_le (B := 2 ^ 63 - 1) (by omega) (by decide)⟩
  · have hcell := hroom (e - n) (by omega)
    have hown : contribution n (e - n) (e, v) = -v := by
      rw [contribution, if_neg (by simp only; omega), if_pos (by simp only; omega)]
    rw [hown, abs_neg] at hcell
    have habs := abs_sub (acc.getD (e - n) 0) v
    exact ⟨by omega, inI64_of_abs_le (B := 2 ^ 63 - 1) (by omega) (by decide)⟩

/-- **The loop goes on** where no accumulator receives more than a word, by induction on the
terms. -/
theorem addTerms_ok {n : Nat} {terms : List (Nat × Int)} (hterms : ∀ t ∈ terms, t.1 < 2 * n)
    {acc : List Int} (hlen : acc.length = n)
    (hroom : ∀ k < n, |acc.getD k 0| + load n k terms < 2 ^ 63) :
    addTerms n acc terms = some (addTermsZ n acc terms) := by
  induction terms generalizing acc with
  | nil => rfl
  | cons t terms ih =>
    obtain ⟨ht, hrest⟩ := List.forall_mem_cons.mp hterms
    obtain ⟨e, v⟩ := t
    have he : e < 2 * n := ht
    simp only [load_cons] at hroom
    have hstep := accumulate_fits hlen he (v := v) fun k hk => by
      have hcell := hroom k hk
      have hload := load_nonneg n k terms
      omega
    rw [addTerms, List.foldlM_cons, hstep]
    refine ih hrest ((length_accumulateZ ..).trans hlen) fun k hk => ?_
    have hcell := hroom k hk
    have habs := abs_add_le (acc.getD k 0) (contribution n k (e, v))
    rw [getD_accumulateZ hlen he v hk]
    omega

@[simp] theorem length_addTermsZ (n : Nat) (acc : List Int) (terms : List (Nat × Int)) :
    (addTermsZ n acc terms).length = acc.length := by
  induction terms generalizing acc with
  | nil => rfl
  | cons t terms ih => exact (ih _).trans (length_accumulateZ ..)

/-- Each accumulator holds the sum of what it received. -/
theorem getD_addTermsZ {n : Nat} {terms : List (Nat × Int)} (hterms : ∀ t ∈ terms, t.1 < 2 * n)
    {acc : List Int} (hlen : acc.length = n) {k : Nat} (hk : k < n) :
    (addTermsZ n acc terms).getD k 0 = acc.getD k 0 + (terms.map (contribution n k)).sum := by
  induction terms generalizing acc with
  | nil => simp [addTermsZ]
  | cons t terms ih =>
    obtain ⟨ht, hrest⟩ := List.forall_mem_cons.mp hterms
    have hstep := ih hrest ((length_accumulateZ n acc t.1 t.2).trans hlen)
    rw [getD_accumulateZ hlen ht t.2 hk, add_assoc] at hstep
    rw [List.map_cons, List.sum_cons]
    exact hstep

theorem accumulateZ_inI64 {n : Nat} {acc : List Int} (hacc : ∀ c ∈ acc, InI64 c) {e : Nat} {v : Int}
    (hfits : AccumulateFits n acc e v) : ∀ c ∈ accumulateZ n acc e v, InI64 c := by
  intro c hc
  unfold AccumulateFits at hfits
  unfold accumulateZ at hc
  split_ifs at hfits hc
  · rcases List.mem_or_eq_of_mem_set hc with hc | rfl
    · exact hacc c hc
    · exact hfits.2
  · rcases List.mem_or_eq_of_mem_set hc with hc | rfl
    · exact hacc c hc
    · exact hfits.2

/-- **Where the loop went on**, it has the exact values, and each is a word. -/
theorem addTerms_inv {n : Nat} {terms : List (Nat × Int)} {acc out : List Int}
    (hacc : ∀ c ∈ acc, InI64 c) (h : addTerms n acc terms = some out) :
    out = addTermsZ n acc terms ∧ ∀ c ∈ out, InI64 c := by
  induction terms generalizing acc with
  | nil =>
    cases h
    exact ⟨rfl, hacc⟩
  | cons t terms ih =>
    rw [addTerms, List.foldlM_cons, Option.bind_eq_bind, Option.bind_eq_some_iff] at h
    obtain ⟨acc', hstep, hrest⟩ := h
    obtain ⟨hfits, rfl⟩ := (accumulate_exact n acc t.1 t.2).eq_some_iff.mp hstep
    exact ih (accumulateZ_inI64 hacc hfits) hrest

/-! ## Their class -/

section ring

variable (R : Type) [CommRing R]

/-- The class of a coefficient vector in `R[X] / (X^n + 1)`. -/
noncomputable def classOf (n : Nat) (cs : List Int) : NegaRing R n :=
  ofCoeffs fun i : Fin n => ((cs.getD i 0 : Int) : R)

/-- A term as an element: its value at its exponent. -/
noncomputable def termClass (n : Nat) (t : Nat × Int) : NegaRing R n :=
  const n (t.2 : R) * gen R n ^ t.1

theorem classOf_accumulateZ {n : Nat} {acc : List Int} (hlen : acc.length = n) {t : Nat × Int}
    (ht : t.1 < 2 * n) :
    classOf R n (accumulateZ n acc t.1 t.2) = classOf R n acc + termClass R n t := by
  have hset : ∀ (k : Fin n) (x : Int), (fun i : Fin n => (((acc.set k x).getD i 0 : Int) : R))
      = Function.update (fun i : Fin n => ((acc.getD i 0 : Int) : R)) k (x : R) := by
    intro k x
    funext i
    rw [getD_set _ _ _ _ (hlen ▸ k.isLt)]
    rcases eq_or_ne i k with rfl | hne
    · rw [if_pos rfl, Function.update_self]
    · rw [if_neg fun h => hne (Fin.ext h.symm), Function.update_of_ne hne]
  unfold accumulateZ classOf termClass
  by_cases hen : t.1 < n
  · rw [if_pos hen, hset ⟨t.1, hen⟩, Int.cast_add]
    exact ofCoeffs_update (fun i : Fin n => ((acc.getD i 0 : Int) : R)) ⟨t.1, hen⟩ _
  · rw [if_neg hen, hset ⟨t.1 - n, by omega⟩, Int.cast_sub]
    exact ofCoeffs_update_wrap (fun i : Fin n => ((acc.getD i 0 : Int) : R)) ⟨t.1 - n, by omega⟩
      (Nat.sub_add_cancel (not_lt.mp hen)) _

/-- **The accumulators hold the sum of the terms.** -/
theorem classOf_addTermsZ {n : Nat} {terms : List (Nat × Int)} (hterms : ∀ t ∈ terms, t.1 < 2 * n)
    {acc : List Int} (hlen : acc.length = n) :
    classOf R n (addTermsZ n acc terms)
      = classOf R n acc + (terms.map (termClass R n)).sum := by
  induction terms generalizing acc with
  | nil => simp [addTermsZ]
  | cons t terms ih =>
    obtain ⟨ht, hrest⟩ := List.forall_mem_cons.mp hterms
    have hstep := ih hrest ((length_accumulateZ n acc t.1 t.2).trans hlen)
    rw [classOf_accumulateZ R hlen ht, add_assoc] at hstep
    rw [List.map_cons, List.sum_cons]
    exact hstep

theorem classOf_zero (n : Nat) : classOf R n (List.replicate n 0) = 0 := by
  have hzero : ∀ i : Fin n, (((List.replicate n (0 : Int)).getD i 0 : Int) : R) = 0 := by
    intro i
    rw [getD_zero, Int.cast_zero]
  rw [classOf, funext hzero, ofCoeffs_zero]

end ring

/-! ## The terms of the two products -/

/-- The terms of the schoolbook product; a zero coefficient has none. -/
def mulTerms (n : Nat) (a b : List Int) : List (Nat × Int) :=
  (List.range n).flatMap fun i =>
    if a.getD i 0 = 0 then [] else (List.range n).map fun j => (i + j, a.getD i 0 * b.getD j 0)

/-- The terms of the product with a sparse polynomial. -/
def sparseTerms (n : Nat) (a : List Int) (t : List (Nat × Int)) : List (Nat × Int) :=
  t.flatMap fun term => (List.range n).map fun i => (i + term.1, a.getD i 0 * term.2)

theorem mulTerms_lt {n : Nat} {a b : List Int} : ∀ t ∈ mulTerms n a b, t.1 < 2 * n := by
  intro t ht
  obtain ⟨i, hi, ht⟩ := List.mem_flatMap.mp ht
  rw [List.mem_range] at hi
  split_ifs at ht
  · cases ht
  · obtain ⟨j, hj, rfl⟩ := List.mem_map.mp ht
    rw [List.mem_range] at hj
    simp only
    omega

theorem sparseTerms_lt {n : Nat} {a : List Int} {t : List (Nat × Int)} (ht : SparseTernary n t) :
    ∀ s ∈ sparseTerms n a t, s.1 < 2 * n := by
  intro s hs
  obtain ⟨term, hterm, hs⟩ := List.mem_flatMap.mp hs
  obtain ⟨i, hi, rfl⟩ := List.mem_map.mp hs
  rw [List.mem_range] at hi
  have hidx := (ht term hterm).1
  simp only
  omega

theorem getElem?_of_lt {l : List Int} {i : Nat} (h : i < l.length) : l[i]? = some (l.getD i 0) :=
  (exact_getElem? l i 0).ok h

/-- The schoolbook loops run over those terms. -/
theorem mul_eq_addTerms {n : Nat} {p r : Poly} (hp : p.coeffs.length = n) (hr : r.coeffs.length = n)
    (hprod : ∀ i < n, ∀ j < n, InI64 (p.coeffs.getD i 0 * r.coeffs.getD j 0)) (q : Int) :
    p.mul r q = (do
      let acc ← addTerms n (List.replicate n 0) (mulTerms n p.coeffs r.coeffs)
      centred ⟨acc⟩ q) := by
  unfold mul
  rw [addTerms, mulTerms, foldlM_flatMap, hp]
  refine congrArg (· >>= _) (foldlM_congr_mem (fun i hi acc => ?_) _)
  rw [List.mem_range] at hi
  rw [getElem?_of_lt (hp ▸ hi), Option.bind_eq_bind, Option.bind_some]
  split_ifs with hzero
  · rfl
  · rw [mulRow, List.foldlM_map]
    refine foldlM_congr_mem (fun j hj acc => ?_) _
    rw [List.mem_range] at hj
    simp only [getElem?_of_lt (hr ▸ hj), Option.bind_eq_bind, Option.bind_some, mulI64,
      i64_of_inI64 (hprod i hi j hj)]

theorem mulSparse_eq_addTerms {n : Nat} {p : Poly} {t : List (Nat × Int)}
    (hp : p.coeffs.length = n) (hprod : ∀ i < n, ∀ term ∈ t, InI64 (p.coeffs.getD i 0 * term.2))
    (q : Int) :
    p.mulSparse t q = (do
      let acc ← addTerms n (List.replicate n 0) (sparseTerms n p.coeffs t)
      centred ⟨acc⟩ q) := by
  unfold mulSparse
  rw [addTerms, sparseTerms, foldlM_flatMap, hp]
  refine congrArg (· >>= _) (foldlM_congr_mem (fun term hterm acc => ?_) _)
  rw [List.foldlM_map]
  refine foldlM_congr_mem (fun i hi acc => ?_) _
  rw [List.mem_range] at hi
  simp only [sparseTerm, getElem?_of_lt (hp ▸ hi), Option.bind_eq_bind, Option.bind_some, mulI64,
    i64_of_inI64 (hprod i hi term hterm)]

/-! ## What one accumulator receives -/

theorem sum_map_range {M : Type*} [AddCommMonoid M] (n : Nat) (f : Nat → M) :
    ((List.range n).map f).sum = ∑ i ∈ Finset.range n, f i := rfl

theorem sum_map_flatMap {α : Type} {M : Type*} [AddCommMonoid M] (l : List α)
    (f : α → List (Nat × Int)) (g : Nat × Int → M) :
    ((l.flatMap f).map g).sum = (l.map fun a => ((f a).map g).sum).sum := by
  induction l with
  | nil => rfl
  | cons a l ih =>
    rw [List.flatMap_cons, List.map_append, List.sum_append, ih, List.map_cons, List.sum_cons]

/-- The index that meets `i` in accumulator `k`. -/
def partner (n k i : Nat) : Nat := if i ≤ k then k - i else k + n - i

theorem partner_lt {n k i : Nat} (hk : k < n) (hi : i < n) : partner n k i < n := by
  unfold partner
  split_ifs <;> omega

/-- Of the terms of a row, one goes to accumulator `k`. -/
theorem contribution_row {n k i j : Nat} (hk : k < n) (hi : i < n) (hj : j < n) (v : Int) :
    contribution n k (i + j, v) = if j = partner n k i then (if i ≤ k then v else -v) else 0 := by
  unfold contribution partner
  simp only
  split_ifs <;> first | rfl | omega

theorem sum_row {n k i : Nat} (hk : k < n) (hi : i < n) (v : Nat → Int) :
    ∑ j ∈ Finset.range n, |contribution n k (i + j, v j)| = |v (partner n k i)| := by
  rw [Finset.sum_eq_single (partner n k i)]
  · rw [contribution_row hk hi (partner_lt hk hi), if_pos rfl]
    split_ifs
    · rfl
    · exact abs_neg _
  · intro j hj hne
    rw [contribution_row hk hi (Finset.mem_range.mp hj), if_neg hne, abs_zero]
  · exact fun h => absurd (Finset.mem_range.mpr (partner_lt hk hi)) h

/-- Every coefficient is at most `B` in size. -/
def BoundedBy (B : Int) (cs : List Int) : Prop := ∀ i, |cs.getD i 0| ≤ B

theorem boundedBy_of_mem {B : Int} (hB : 0 ≤ B) {cs : List Int} (h : ∀ c ∈ cs, |c| ≤ B) :
    BoundedBy B cs := by
  intro i
  rcases lt_or_ge i cs.length with hi | hi
  · rw [List.getD_eq_getElem _ _ hi]
    exact h _ (List.getElem_mem hi)
  · rw [List.getD_eq_default _ _ hi, abs_zero]
    exact hB

theorem BoundedBy.nonneg {B : Int} {cs : List Int} (h : BoundedBy B cs) : 0 ≤ B :=
  (abs_nonneg _).trans (h 0)

theorem BoundedBy.abs_mul_le {A B : Int} {a b : List Int} (ha : BoundedBy A a) (hb : BoundedBy B b)
    (i j : Nat) : |a.getD i 0 * b.getD j 0| ≤ A * B := by
  rw [abs_mul]
  exact mul_le_mul (ha i) (hb j) (abs_nonneg _) ha.nonneg

/-- **An accumulator of the schoolbook product** receives one product of each row. -/
theorem load_mulTerms {n k : Nat} (hk : k < n) {A B : Int} {a b : List Int} (ha : BoundedBy A a)
    (hb : BoundedBy B b) : load n k (mulTerms n a b) ≤ n * (A * B) := by
  have hrows : load n k (mulTerms n a b) = ∑ i ∈ Finset.range n,
      ((if a.getD i 0 = 0 then [] else (List.range n).map fun j =>
        (i + j, a.getD i 0 * b.getD j 0)).map fun t => |contribution n k t|).sum := by
    rw [load, mulTerms, sum_map_flatMap, sum_map_range]
  rw [hrows]
  calc _ ≤ ∑ _i ∈ Finset.range n, A * B := by
        refine Finset.sum_le_sum fun i hi => ?_
        split_ifs
        · exact mul_nonneg ha.nonneg hb.nonneg
        · rw [List.map_map, sum_map_range]
          exact (sum_row hk (Finset.mem_range.mp hi) fun j => a.getD i 0 * b.getD j 0).trans_le
            (ha.abs_mul_le hb i _)
    _ = n * (A * B) := by rw [Finset.sum_const, Finset.card_range, nsmul_eq_mul]

/-- **An accumulator of the sparse product** receives one coefficient for each term. -/
theorem load_sparseTerms {n k : Nat} (hk : k < n) {A : Int} {a : List Int} (ha : BoundedBy A a)
    {t : List (Nat × Int)} (ht : SparseTernary n t) :
    load n k (sparseTerms n a t) ≤ t.length * A := by
  rw [load, sparseTerms, sum_map_flatMap]
  induction t with
  | nil => simp
  | cons term t ih =>
    obtain ⟨⟨hidx, hsign⟩, hrest⟩ := List.forall_mem_cons.mp ht
    have hterm : (((List.range n).map fun i => (i + term.1, a.getD i 0 * term.2)).map
        fun s => |contribution n k s|).sum ≤ A := by
      rw [List.map_map, sum_map_range]
      have hrow := sum_row hk hidx fun j => a.getD j 0 * term.2
      calc _ = ∑ j ∈ Finset.range n, |contribution n k (term.1 + j, a.getD j 0 * term.2)| :=
            Finset.sum_congr rfl fun j _ => by rw [Function.comp_apply, Nat.add_comm]
        _ ≤ A := by
            rw [hrow, abs_mul]
            rcases hsign with h | h <;> simpa [h] using ha _
    rw [List.map_cons, List.sum_cons, List.length_cons]
    push_cast
    linarith [ih hrest]

/-! ## The products of the ring -/

section ring

variable (R : Type) [CommRing R]

theorem classOf_eq_sum (n : Nat) (cs : List Int) :
    classOf R n cs = ∑ i ∈ Finset.range n, const n ((cs.getD i 0 : Int) : R) * gen R n ^ i := by
  rw [classOf, ofCoeffs, Fin.sum_univ_eq_sum_range
    fun i => const n ((cs.getD i 0 : Int) : R) * gen R n ^ i]

/-- **The terms of the schoolbook loops sum to the product.** -/
theorem classOf_mulTerms (n : Nat) (a b : List Int) :
    ((mulTerms n a b).map (termClass R n)).sum = classOf R n a * classOf R n b := by
  rw [mulTerms, sum_map_flatMap, sum_map_range, classOf_eq_sum, classOf_eq_sum,
    Finset.sum_mul_sum]
  refine Finset.sum_congr rfl fun i _ => ?_
  split_ifs with hzero
  · rw [hzero, List.map_nil, List.sum_nil]
    simp [const]
  · rw [List.map_map, sum_map_range]
    refine Finset.sum_congr rfl fun j _ => ?_
    simp only [Function.comp_apply, termClass, const, Int.cast_mul, map_mul, pow_add]
    ring

/-- A sparse polynomial as an element. -/
theorem classOf_sparseTerms (n : Nat) (a : List Int) (t : List (Nat × Int)) :
    ((sparseTerms n a t).map (termClass R n)).sum
      = classOf R n a * (t.map (termClass R n)).sum := by
  rw [sparseTerms, sum_map_flatMap, classOf_eq_sum]
  induction t with
  | nil => simp
  | cons term t ih =>
    rw [List.map_cons, List.sum_cons, ih, List.map_cons, List.sum_cons, mul_add]
    congr 1
    rw [List.map_map, sum_map_range, Finset.sum_mul]
    refine Finset.sum_congr rfl fun i _ => ?_
    simp only [Function.comp_apply, termClass, const, Int.cast_mul, map_mul, pow_add]
    ring

/-- The polynomial a list of positions and signs stands for. -/
def dense (n : Nat) (t : List (Nat × Int)) : Poly :=
  ⟨(List.range n).map fun k => ((t.find? fun term => term.1 = k).map Prod.snd).getD 0⟩

theorem dense_getD {n : Nat} (t : List (Nat × Int)) {k : Nat} (hk : k < n) :
    (dense n t).coeffs.getD k 0 = ((t.find? fun term => term.1 = k).map Prod.snd).getD 0 := by
  rw [List.getD_eq_getElem _ _ (by simpa [dense] using hk)]
  simp [dense]

theorem classOf_dense {n : Nat} {t : List (Nat × Int)} (hnodup : (t.map Prod.fst).Nodup)
    (ht : SparseTernary n t) : classOf R n (dense n t).coeffs = (t.map (termClass R n)).sum := by
  induction t with
  | nil =>
    rw [classOf_eq_sum, List.map_nil, List.sum_nil]
    refine Finset.sum_eq_zero fun i hi => ?_
    rw [dense_getD _ (Finset.mem_range.mp hi)]
    simp [const]
  | cons term t ih =>
    obtain ⟨hnew, hrestNodup⟩ := List.nodup_cons.mp hnodup
    obtain ⟨⟨hidx, _⟩, hrest⟩ := List.forall_mem_cons.mp ht
    -- the position is new, so its cell was empty before
    have hempty : (t.find? fun s => s.1 = term.1) = none := by
      rw [List.find?_eq_none]
      intro s hs heq
      exact hnew (List.mem_map.mpr ⟨s, hs, of_decide_eq_true heq⟩)
    have hcell : (fun i : Fin n => (((dense n (term :: t)).coeffs.getD i 0 : Int) : R))
        = Function.update (fun i : Fin n => (((dense n t).coeffs.getD i 0 : Int) : R)) ⟨term.1, hidx⟩
          ((((dense n t).coeffs.getD term.1 0 : Int) : R) + (term.2 : R)) := by
      funext i
      rcases eq_or_ne i ⟨term.1, hidx⟩ with rfl | hne
      · rw [Function.update_self, dense_getD _ hidx, dense_getD _ hidx, hempty]
        simp
      · rw [Function.update_of_ne hne, dense_getD _ i.isLt, dense_getD _ i.isLt, List.find?_cons]
        rw [decide_eq_false fun h => hne (Fin.ext h.symm)]
    rw [List.map_cons, List.sum_cons, ← ih hrestNodup hrest, classOf, hcell,
      add_comm (termClass R n term)]
    exact ofCoeffs_update (fun i : Fin n => (((dense n t).coeffs.getD i 0 : Int) : R))
      ⟨term.1, hidx⟩ (term.2 : R)

end ring

/-- Vectors of one length and one class over the integers are the same. -/
theorem eq_of_classOf_eq {n : Nat} (hn : n ≠ 0) {a b : List Int} (ha : a.length = n)
    (hb : b.length = n) (h : classOf Int n a = classOf Int n b) : a = b := by
  have hcells := ofCoeffs_injective hn h
  refine List.ext_getElem (ha.trans hb.symm) fun i hi hi' => ?_
  have hcell := congrFun hcells ⟨i, ha ▸ hi⟩
  simp only [Int.cast_id] at hcell
  rwa [List.getD_eq_getElem _ _ hi, List.getD_eq_getElem _ _ hi'] at hcell

end Poly

end DiscCleaner.Fhe
