import DiscCleaner.Lib.Bytes
import DiscCleaner.Lib.Checked
import Mathlib.Tactic.Ring

/-!
# DiscCleaner — the negacyclic ring of the encrypted wipe (`poly.rs`)

Coefficient vectors over 64-bit words with the loops of the source. `none` is an overflow, a
division by zero or an index past the end; the debug assertions on equal lengths are left out,
as a release build leaves them out.

* **`Poly.mul_zero`**, **`Poly.mulSparse_ok`** — what a product with nothing and a product with a
  sparse challenge give on elements of the ring.
* **`Poly.encoded_injective`** — residues below `2^16` are read back from their two bytes.
-/

namespace DiscCleaner.Fhe

open ByteLib CheckedLib

structure Poly where
  coeffs : List Int
  deriving DecidableEq

/-- Centred reduction. -/
def centreReduce (x q : Int) : Option Int := do
  let r ← remI64 x q
  let half ← divI64 (← subI64 q 1) 2
  if half < r then subI64 r q
  else if r < (← negI64 half) then addI64 r q
  else some r

namespace Poly

/-- The zero polynomial of degree bound `n`. -/
def zero (n : Nat) : Poly := ⟨List.replicate n 0⟩

/-- A centred copy modulo `q`. -/
def centred (p : Poly) (q : Int) : Option Poly := do
  some ⟨← p.coeffs.mapM fun c => centreReduce c q⟩

/-- `acc[k] += x`. -/
def addAt (acc : List Int) (k : Nat) (x : Int) : Option (List Int) := do
  some (acc.set k (← addI64 (← acc[k]?) x))

/-- `acc[k] -= x`. -/
def subAt (acc : List Int) (k : Nat) (x : Int) : Option (List Int) := do
  some (acc.set k (← subI64 (← acc[k]?) x))

/-- A product at exponent `k`: past the degree bound `n` it wraps with the other sign. -/
def accumulate (n : Nat) (acc : List Int) (k : Nat) (prod : Int) : Option (List Int) :=
  if k < n then addAt acc k prod else subAt acc (k - n) prod

/-- One row of the schoolbook product. -/
def mulRow (n : Nat) (aᵢ : Int) (other : List Int) (i : Nat) (acc : List Int) :
    Option (List Int) :=
  (List.range n).foldlM (fun acc j => do
    accumulate n acc (i + j) (← mulI64 aᵢ (← other[j]?))) acc

/-- Negacyclic schoolbook multiplication, centred modulo `q`; a zero coefficient skips its
row. -/
def mul (p other : Poly) (q : Int) : Option Poly := do
  let n := p.coeffs.length
  let acc ← (List.range n).foldlM (fun acc i => do
    let aᵢ ← p.coeffs[i]?
    if aᵢ = 0 then some acc else mulRow n aᵢ other.coeffs i acc) (List.replicate n 0)
  centred ⟨acc⟩ q

/-- Addition without reduction; the shorter vector decides the length. -/
def add (p other : Poly) : Option Poly := do
  some ⟨← (p.coeffs.zip other.coeffs).mapM fun ab => addI64 ab.1 ab.2⟩

def sub (p other : Poly) : Option Poly := do
  some ⟨← (p.coeffs.zip other.coeffs).mapM fun ab => subI64 ab.1 ab.2⟩

/-- Multiply by a scalar. -/
def scale (p : Poly) (k : Int) : Option Poly := do
  some ⟨← p.coeffs.mapM fun c => mulI64 c k⟩

/-- Infinity norm. -/
def infNorm (p : Poly) : Option Int :=
  p.coeffs.foldlM (fun m c => do some (max m (← absI64 c))) 0

/-- The two little-endian bytes of `v as u16`. -/
def leU16 (v : Int) : Bytes :=
  let w := (v % 65536).toNat
  [UInt8.ofNat w, UInt8.ofNat (w / 256)]

/-- The residue a centred coefficient is encoded as. -/
def residue (q c : Int) : Option Int := if c < 0 then addI64 c q else some c

def toBytes (p : Poly) (q : Int) : Option Bytes := do
  some (← p.coeffs.mapM fun c => do some (leU16 (← residue q c))).flatten

/-- One turn of `mul_sparse`: coefficient `i` times `±X^idx`. -/
def sparseTerm (p : Poly) (n idx : Nat) (sign : Int) (acc : List Int) (i : Nat) :
    Option (List Int) := do
  accumulate n acc (i + idx) (← mulI64 (← p.coeffs[i]?) sign)

/-- Product with a sparse polynomial given as (index, sign) pairs. -/
def mulSparse (p : Poly) (t : List (Nat × Int)) (q : Int) : Option Poly := do
  let n := p.coeffs.length
  let acc ← t.foldlM (fun acc term =>
    (List.range n).foldlM (sparseTerm p n term.1 term.2) acc) (List.replicate n 0)
  centred ⟨acc⟩ q

end Poly

/-! ## Centred reduction -/

/-- The representatives of the residues modulo `q` that the ring keeps. -/
def Centred (q c : Int) : Prop := -q < 2 * c ∧ 2 * c ≤ q

instance (q c : Int) : Decidable (Centred q c) := inferInstanceAs (Decidable (_ ∧ _))

/-- A positive modulus that the centred range splits evenly, small enough to add to. -/
structure OddModulus (q : Int) : Prop where
  pos : 0 < q
  odd : q % 2 = 1
  lt : q < 2 ^ 62

variable {q : Int}

/-- The reduction of the source, for an odd modulus. -/
theorem centreReduce_eq (hq : OddModulus q) {x : Int} (hx : InI64 x) :
    centreReduce x q = some
      (if (q - 1) / 2 < x.tmod q then x.tmod q - q
        else if x.tmod q < -((q - 1) / 2) then x.tmod q + q else x.tmod q) := by
  obtain ⟨hpos, hodd, hlt⟩ := hq
  have hlo : -q < x.tmod q := Int.lt_tmod_of_pos x hpos
  have hhi : x.tmod q < q := Int.tmod_lt_of_pos x hpos
  have hhalf : (q - 1).tdiv 2 = (q - 1) / 2 := Int.tdiv_eq_ediv_of_nonneg (by omega)
  have hsub : subI64 q 1 = some (q - 1) := i64_of_inI64 ⟨by omega, by omega⟩
  have hdiv : divI64 (q - 1) 2 = some ((q - 1) / 2) := by
    rw [divI64, if_neg (by decide), hhalf]
    exact i64_of_inI64 ⟨by omega, by omega⟩
  have hneg : negI64 ((q - 1) / 2) = some (-((q - 1) / 2)) :=
    i64_of_inI64 ⟨by omega, by omega⟩
  simp only [centreReduce, remI64_of_pos hpos hx, hsub, hdiv, hneg, Option.bind_eq_bind,
    Option.bind_some]
  split_ifs with h1 h2
  · exact i64_of_inI64 ⟨by omega, by omega⟩
  · exact i64_of_inI64 ⟨by omega, by omega⟩
  · rfl

theorem centreReduce_centred (hq : OddModulus q) {x : Int} (hx : InI64 x) :
    ∃ r, centreReduce x q = some r ∧ Centred q r := by
  refine ⟨_, centreReduce_eq hq hx, ?_⟩
  obtain ⟨hpos, hodd, -⟩ := hq
  have hlo : -q < x.tmod q := Int.lt_tmod_of_pos x hpos
  have hhi : x.tmod q < q := Int.tmod_lt_of_pos x hpos
  unfold Centred
  split_ifs <;> omega

/-- A centred value is its own reduction. -/
theorem centreReduce_of_centred (hq : OddModulus q) {x : Int} (hx : Centred q x) :
    centreReduce x q = some x := by
  obtain ⟨hpos, hodd, hlt⟩ := hq
  obtain ⟨hlo, hhi⟩ := hx
  have htmod : x.tmod q = x := by
    rcases le_or_gt 0 x with h | h
    · rw [Int.tmod_eq_emod_of_nonneg h, Int.emod_eq_of_lt h (by omega)]
    · have hneg : (-x).tmod q = -x := by
        rw [Int.tmod_eq_emod_of_nonneg (by omega), Int.emod_eq_of_lt (by omega) (by omega)]
      rw [Int.neg_tmod] at hneg
      omega
  rw [centreReduce_eq ⟨hpos, hodd, hlt⟩ ⟨by omega, by omega⟩, htmod, if_neg (by omega),
    if_neg (by omega)]

namespace Poly

/-- An element of the ring: `n` centred coefficients. -/
structure InRing (n : Nat) (q : Int) (p : Poly) : Prop where
  length : p.coeffs.length = n
  centred : ∀ c ∈ p.coeffs, Centred q c

instance (n : Nat) (q : Int) (p : Poly) : Decidable (InRing n q p) :=
  decidable_of_iff (p.coeffs.length = n ∧ ∀ c ∈ p.coeffs, Centred q c)
    ⟨fun h => ⟨h.1, h.2⟩, fun h => ⟨h.length, h.centred⟩⟩

theorem zero_inRing (hq : 0 < q) (n : Nat) : (zero n).InRing n q where
  length := List.length_replicate
  centred c hc := by
    obtain rfl := List.eq_of_mem_replicate hc
    constructor <;> omega

/-- A vector of 64-bit words reduces to an element of the ring. -/
theorem centred_ok (hq : OddModulus q) {p : Poly} (hp : ∀ c ∈ p.coeffs, InI64 c) :
    ∃ r, p.centred q = some r ∧ r.InRing p.coeffs.length q := by
  have heach : ∀ c ∈ p.coeffs, centreReduce c q = some ((centreReduce c q).getD 0) := by
    intro c hc
    obtain ⟨r, hr, -⟩ := centreReduce_centred hq (hp c hc)
    rw [hr, Option.getD_some]
  refine ⟨⟨p.coeffs.map fun c => (centreReduce c q).getD 0⟩, ?_, ?_, ?_⟩
  · simp [centred, mapM_eq_some_map heach]
  · exact List.length_map _
  · intro c hc
    obtain ⟨x, hx, rfl⟩ := List.mem_map.mp hc
    obtain ⟨r, hr, hcentred⟩ := centreReduce_centred hq (hp x hx)
    rwa [hr, Option.getD_some]

/-- An element of the ring is its own reduction. -/
theorem InRing.centred_self (hq : OddModulus q) {n : Nat} {p : Poly} (hp : p.InRing n q) :
    p.centred q = some p := by
  have hmap : p.coeffs.mapM (fun c => centreReduce c q) = some (p.coeffs.map id) :=
    mapM_eq_some_map fun c hc => centreReduce_of_centred hq (hp.centred c hc)
  simp [Poly.centred, hmap]

/-! ## Products -/

/-- `n` accumulators, none beyond `B` in size. -/
def Within (n : Nat) (B : Int) (acc : List Int) : Prop :=
  acc.length = n ∧ ∀ c ∈ acc, |c| ≤ B

theorem within_zero (n : Nat) : Within n 0 (List.replicate n 0) := by
  refine ⟨List.length_replicate, ?_⟩
  intro c hc
  rw [List.eq_of_mem_replicate hc, abs_zero]

theorem Within.set {n : Nat} {B B' x : Int} {acc : List Int} (h : Within n B acc) (k : Nat)
    (hBB' : B ≤ B') (hx : |x| ≤ B') : Within n B' (acc.set k x) := by
  refine ⟨by rw [List.length_set, h.1], ?_⟩
  intro c hc
  rcases List.mem_or_eq_of_mem_set hc with hc | rfl
  · exact (h.2 c hc).trans hBB'
  · exact hx

/-- One product added at an exponent below `2 n`: no accumulator grows by more than it. -/
theorem accumulate_ok {n : Nat} {B b prod : Int} {acc : List Int} {k : Nat}
    (hacc : Within n B acc) (hk : k < 2 * n) (hprod : |prod| ≤ b) (hfit : B + b < 2 ^ 63) :
    ∃ acc', accumulate n acc k prod = some acc' ∧ Within n (B + b) acc' := by
  have hb : 0 ≤ b := (abs_nonneg prod).trans hprod
  rw [accumulate]
  by_cases hkn : k < n
  · rw [if_pos hkn]
    have hlt : k < acc.length := hacc.1 ▸ hkn
    have hnew : |acc[k] + prod| ≤ B + b :=
      (abs_add_le _ _).trans (add_le_add (hacc.2 _ (List.getElem_mem hlt)) hprod)
    refine ⟨acc.set k (acc[k] + prod), ?_, hacc.set k (by omega) hnew⟩
    simp [addAt, addI64, List.getElem?_eq_getElem hlt, i64_of_inI64 (inI64_of_abs_le hnew hfit)]
  · rw [if_neg hkn]
    have hlt : k - n < acc.length := by rw [hacc.1]; omega
    have hnew : |acc[k - n] - prod| ≤ B + b :=
      (abs_sub _ _).trans (add_le_add (hacc.2 _ (List.getElem_mem hlt)) hprod)
    refine ⟨acc.set (k - n) (acc[k - n] - prod), ?_, hacc.set (k - n) (by omega) hnew⟩
    simp [subAt, subI64, List.getElem?_eq_getElem hlt, i64_of_inI64 (inI64_of_abs_le hnew hfit)]

/-- A sparse ternary polynomial below degree `n`. -/
def SparseTernary (n : Nat) (t : List (Nat × Int)) : Prop :=
  ∀ term ∈ t, term.1 < n ∧ (term.2 = 1 ∨ term.2 = -1)

theorem InRing.abs_le_modulus {n : Nat} {p : Poly} (hp : p.InRing n q) {c : Int} (hc : c ∈ p.coeffs) :
    |c| ≤ q := by
  have := hp.centred c hc
  rw [abs_le]
  constructor <;> (unfold Centred at this; omega)

/-- **A sparse product stays in the ring**, when the sum of its terms fits a word. -/
theorem mulSparse_ok (hq : OddModulus q) {n : Nat} {p : Poly} {t : List (Nat × Int)}
    (hp : p.InRing n q) (ht : SparseTernary n t) (hfit : ((t.length * n : Nat) : Int) * q < 2 ^ 63) :
    ∃ r, p.mulSparse t q = some r ∧ r.InRing n q := by
  have hqpos := hq.pos
  have hloop : ∃ acc, t.foldlM (fun acc term =>
      (List.range n).foldlM (sparseTerm p n term.1 term.2) acc) (List.replicate n 0) = some acc ∧
        Within n (((0 + t.length) * n : Nat) * q) acc := by
    refine foldlM_invariant (I := fun j acc => Within n (((j * n : Nat) : Int) * q) acc) ?_ ?_
    · intro j term acc hj hterm hacc
      rw [Nat.zero_add] at hacc ⊢
      obtain ⟨hidx, hsign⟩ := ht term hterm
      have hrow : ∃ acc', (List.range n).foldlM (sparseTerm p n term.1 term.2) acc = some acc' ∧
          Within n ((j * n + (List.range n).length : Nat) * q) acc' := by
        refine foldlM_invariant (I := fun i acc => Within n ((i : Nat) * q) acc) ?_ hacc
        intro i x acc hi hx hacc
        have hx : x < n := List.mem_range.mp hx
        have hlt : x < p.coeffs.length := hp.length ▸ hx
        have habs : |p.coeffs[x] * term.2| ≤ q := by
          rcases hsign with h | h <;> rw [h] <;> simpa using hp.abs_le_modulus (List.getElem_mem hlt)
        have hmul : mulI64 p.coeffs[x] term.2 = some (p.coeffs[x] * term.2) := by
          have := hq.lt
          exact i64_of_inI64 (inI64_of_abs_le habs (by omega))
        -- the turn so far and this one are among the `t.length * n` of the loop
        have hcount : j * n + i + 1 ≤ t.length * n := by
          rw [List.length_range] at hi
          calc j * n + i + 1 ≤ j * n + n := by omega
            _ = (j + 1) * n := (Nat.succ_mul j n).symm
            _ ≤ t.length * n := Nat.mul_le_mul_right n hj
        have hsum : ((j * n + i : Nat) : Int) * q + q = ((j * n + i + 1 : Nat) : Int) * q := by
          push_cast
          ring
        have hbound : ((j * n + i : Nat) : Int) * q + q < 2 ^ 63 := by
          rw [hsum]
          refine lt_of_le_of_lt ?_ hfit
          exact mul_le_mul_of_nonneg_right (by exact_mod_cast hcount) hqpos.le
        obtain ⟨acc', hacc', hwithin⟩ :=
          accumulate_ok (k := x + term.1) hacc (by omega) habs hbound
        refine ⟨acc', ?_, hsum ▸ hwithin⟩
        simpa [sparseTerm, List.getElem?_eq_getElem hlt, hmul] using hacc'
      rw [List.length_range] at hrow
      obtain ⟨acc', hfold, hwithin⟩ := hrow
      refine ⟨acc', hfold, ?_⟩
      rwa [← Nat.succ_mul] at hwithin
    · simpa using within_zero n
  obtain ⟨acc, hacc, hlen, hbound⟩ := hloop
  rw [Nat.zero_add] at hbound
  obtain ⟨r, hr, hring⟩ := centred_ok (p := ⟨acc⟩) hq
    fun c hc => inI64_of_abs_le (hbound c hc) hfit
  refine ⟨r, ?_, ?_⟩
  · simp only [mulSparse, hp.length, Option.bind_eq_bind]
    rw [hacc]
    exact hr
  · rwa [show (⟨acc⟩ : Poly).coeffs.length = n from hlen] at hring

/-- Nothing added to accumulators that hold nothing. -/
theorem accumulate_zero {n k : Nat} (hk : k < 2 * n) :
    accumulate n (List.replicate n 0) k 0 = some (List.replicate n 0) := by
  have hzero : ∀ i, i < n → (List.replicate n (0 : Int))[i]? = some 0 := by
    intro i hi
    rw [List.getElem?_replicate, if_pos hi]
  have hword : i64 0 = some 0 := i64_of_inI64 (by decide)
  rw [accumulate]
  split_ifs with hkn
  · simp [addAt, addI64, hzero k hkn, hword, List.set_replicate_self]
  · simp [subAt, subI64, hzero (k - n) (by omega), hword, List.set_replicate_self]

/-- **A product with zero is zero.** -/
theorem mul_zero (hq : OddModulus q) {n : Nat} {p : Poly} (hp : p.coeffs.length = n) :
    p.mul (zero n) q = some (zero n) := by
  have hrow : ∀ aᵢ i, i < n →
      mulRow n aᵢ (zero n).coeffs i (List.replicate n 0) = some (List.replicate n 0) := by
    intro aᵢ i hi
    obtain ⟨acc, hacc, rfl⟩ := foldlM_invariant (k := 0)
      (f := fun acc j => do accumulate n acc (i + j) (← mulI64 aᵢ (← (zero n).coeffs[j]?)))
      (l := List.range n) (I := fun _ acc => acc = List.replicate n 0) (by
        rintro - j acc - hj rfl
        have hj : j < n := List.mem_range.mp hj
        refine ⟨_, ?_, rfl⟩
        have hget : (zero n).coeffs[j]? = some 0 := by
          rw [zero, List.getElem?_replicate, if_pos hj]
        have hmul : mulI64 aᵢ 0 = some 0 := by
          rw [mulI64, Int.mul_zero]
          exact i64_of_inI64 (by decide)
        simp [hget, hmul, accumulate_zero (show i + j < 2 * n by omega)]) rfl
    exact hacc
  obtain ⟨acc, hacc, rfl⟩ := foldlM_invariant (k := 0)
    (f := fun acc i => do
      let aᵢ ← p.coeffs[i]?
      if aᵢ = 0 then some acc else mulRow n aᵢ (zero n).coeffs i acc)
    (l := List.range n) (I := fun _ acc => acc = List.replicate n 0) (by
      rintro - i acc - hi rfl
      have hi : i < n := List.mem_range.mp hi
      refine ⟨_, ?_, rfl⟩
      rw [List.getElem?_eq_getElem (hp ▸ hi)]
      simp only [Option.bind_eq_bind, Option.bind_some]
      split_ifs
      · rfl
      · exact hrow _ i hi) rfl
  simp only [mul, hp, Option.bind_eq_bind]
  simp only [Option.bind_eq_bind] at hacc
  rw [hacc]
  exact (zero_inRing hq.pos n).centred_self hq

/-- The sum of two elements of the ring, reduced, is in the ring. -/
theorem add_centred_ok (hq : OddModulus q) {n : Nat} {a b : Poly} (ha : a.InRing n q)
    (hb : b.InRing n q) :
    ∃ s r, a.add b = some s ∧ s.centred q = some r ∧ r.InRing n q := by
  have hsum : ∀ ab ∈ a.coeffs.zip b.coeffs, |ab.1 + ab.2| ≤ 2 * q := by
    intro ab hab
    have h₁ := ha.abs_le_modulus (List.of_mem_zip hab).1
    have h₂ := hb.abs_le_modulus (List.of_mem_zip hab).2
    calc |ab.1 + ab.2| ≤ |ab.1| + |ab.2| := abs_add_le _ _
      _ ≤ 2 * q := by omega
  have hlt := hq.lt
  have hadd : a.add b = some ⟨(a.coeffs.zip b.coeffs).map fun ab => ab.1 + ab.2⟩ := by
    have := mapM_eq_some_map (f := fun ab : Int × Int => addI64 ab.1 ab.2)
      (g := fun ab => ab.1 + ab.2) (l := a.coeffs.zip b.coeffs)
      fun ab hab => i64_of_inI64 (inI64_of_abs_le (hsum ab hab) (by omega))
    simp [add, this]
  obtain ⟨r, hr, hring⟩ := centred_ok hq
    (p := ⟨(a.coeffs.zip b.coeffs).map fun ab => ab.1 + ab.2⟩) (by
      intro c hc
      obtain ⟨ab, hab, rfl⟩ := List.mem_map.mp hc
      exact inI64_of_abs_le (hsum ab hab) (by omega))
  refine ⟨_, r, hadd, hr, ?_⟩
  have hlen : ((a.coeffs.zip b.coeffs).map fun ab => ab.1 + ab.2).length = n := by
    rw [List.length_map, List.length_zip, ha.length, hb.length, Nat.min_self]
  rwa [show (Poly.mk ((a.coeffs.zip b.coeffs).map fun ab => ab.1 + ab.2)).coeffs.length = n
    from hlen] at hring

/-- Zero added on the left. -/
theorem zero_add (hq : OddModulus q) {n : Nat} {p : Poly} (hp : p.InRing n q) :
    (zero n).add p = some p := by
  have hlt := hq.lt
  have hzip : ((zero n).coeffs.zip p.coeffs).mapM (fun ab => addI64 ab.1 ab.2)
      = some (((zero n).coeffs.zip p.coeffs).map Prod.snd) := by
    refine mapM_eq_some_map fun ab hab => ?_
    obtain ⟨h₁, h₂⟩ := List.of_mem_zip hab
    rw [List.eq_of_mem_replicate h₁, addI64, Int.zero_add]
    exact i64_of_inI64 (inI64_of_abs_le (hp.abs_le_modulus h₂) (by omega))
  have hsnd : ((zero n).coeffs.zip p.coeffs).map Prod.snd = p.coeffs :=
    List.map_snd_zip (by simp [zero, hp.length])
  simp [add, hzip, hsnd]

theorem foldlM_max_ok {B : Int} {cs : List Int} (hcs : ∀ c ∈ cs, |c| ≤ B) (hB : B < 2 ^ 63)
    {m : Int} (hm : m ≤ B) :
    ∃ m', cs.foldlM (fun m c => do some (max m (← absI64 c))) m = some m' ∧ m' ≤ B := by
  obtain ⟨m', hfold, hle⟩ := foldlM_invariant (k := 0)
    (f := fun m c => do some (max m (← absI64 c))) (l := cs) (I := fun _ m => m ≤ B) (by
      intro _ c m _ hc hm
      have habs : absI64 c = some |c| :=
        i64_of_inI64 (inI64_of_abs_le ((abs_abs c).le.trans (hcs c hc)) hB)
      exact ⟨max m |c|, by simp [habs], max_le hm (hcs c hc)⟩) hm
  exact ⟨m', hfold, hle⟩

/-- The norm of an element of the ring. -/
theorem InRing.infNorm_ok (hq : OddModulus q) {n : Nat} {p : Poly} (hp : p.InRing n q) :
    ∃ m, p.infNorm = some m ∧ m ≤ q := by
  have hlt := hq.lt
  exact foldlM_max_ok (fun c hc => hp.abs_le_modulus hc) (by omega) hq.pos.le

/-! ## The byte encoding -/

theorem leU16_injective {v w : Int} (hv : 0 ≤ v ∧ v < 65536) (hw : 0 ≤ w ∧ w < 65536)
    (h : leU16 v = leU16 w) : v = w := by
  have hbytes := List.cons.inj h
  have hlow := congrArg UInt8.toNat hbytes.1
  have hhigh := congrArg UInt8.toNat (List.cons.inj hbytes.2).1
  simp only [UInt8.toNat_ofNat'] at hlow hhigh
  omega

theorem length_leU16 (v : Int) : (leU16 v).length = 2 := rfl

/-- The residue of a centred coefficient, as the encoder computes it. -/
def residueOf (q c : Int) : Int := if c < 0 then c + q else c

theorem residue_eq {c : Int} (hq : q < 2 ^ 62) (hc : Centred q c) :
    residue q c = some (residueOf q c) := by
  obtain ⟨hlo, hhi⟩ := hc
  unfold residue residueOf
  split_ifs
  · exact i64_of_inI64 ⟨by omega, by omega⟩
  · rfl

theorem residueOf_bounds {c : Int} (hc : Centred q c) : 0 ≤ residueOf q c ∧ residueOf q c < q := by
  obtain ⟨hlo, hhi⟩ := hc
  unfold residueOf
  split_ifs <;> omega

theorem residueOf_injective {c d : Int} (hc : Centred q c) (hd : Centred q d)
    (h : residueOf q c = residueOf q d) : c = d := by
  obtain ⟨hclo, hchi⟩ := hc
  obtain ⟨hdlo, hdhi⟩ := hd
  unfold residueOf at h
  split_ifs at h <;> omega

/-- The bytes of centred coefficients. -/
def encoded (q : Int) (cs : List Int) : Bytes := (cs.map fun c => leU16 (residueOf q c)).flatten

theorem encoded_cons (q c : Int) (cs : List Int) :
    encoded q (c :: cs) = leU16 (residueOf q c) ++ encoded q cs := rfl

theorem InRing.toBytes_eq (hq : q < 2 ^ 62) {n : Nat} {p : Poly} (hp : p.InRing n q) :
    p.toBytes q = some (encoded q p.coeffs) := by
  have hmap := mapM_eq_some_map (f := fun c => do some (leU16 (← residue q c)))
    (g := fun c => leU16 (residueOf q c)) (l := p.coeffs) (by
      intro c hc
      simp [residue_eq hq (hp.centred c hc)])
  simp only [Option.bind_eq_bind] at hmap
  simp [toBytes, hmap, encoded]

theorem length_encoded (q : Int) (cs : List Int) : (encoded q cs).length = 2 * cs.length := by
  induction cs with
  | nil => rfl
  | cons c cs ih =>
    rw [encoded_cons, List.length_append, ih, length_leU16, List.length_cons]
    omega

/-- **Two bytes hold a residue** below `2^16`: equal encodings are equal coefficients. -/
theorem encoded_injective (hq : q ≤ 65536) {cs ds : List Int} (hlen : cs.length = ds.length)
    (hc : ∀ c ∈ cs, Centred q c) (hd : ∀ d ∈ ds, Centred q d)
    (h : encoded q cs = encoded q ds) : cs = ds := by
  induction cs generalizing ds with
  | nil => exact (List.length_eq_zero_iff.mp hlen.symm).symm
  | cons c cs ih =>
    cases ds with
    | nil => cases hlen
    | cons d ds =>
      rw [encoded_cons, encoded_cons] at h
      obtain ⟨hhead, htail⟩ := List.append_inj h rfl
      have hcq := hc c List.mem_cons_self
      have hdq := hd d List.mem_cons_self
      have hresidue : residueOf q c = residueOf q d := by
        have := residueOf_bounds hcq
        have := residueOf_bounds hdq
        exact leU16_injective (by omega) (by omega) hhead
      rw [residueOf_injective hcq hdq hresidue,
        ih (Nat.succ.inj hlen) (fun x hx => hc x (List.mem_cons_of_mem c hx))
          (fun x hx => hd x (List.mem_cons_of_mem d hx)) htail]

end Poly

end DiscCleaner.Fhe
