import DiscCleaner.Lib.Checked
import DiscCleaner.Lib.Negacyclic
import DiscCleaner.Pq.Sampling

/-!
# DiscCleaner — the transform of ML-DSA-44 over machine words (`ml_dsa.rs`)

The loops of `ntt`, `ntt_inv`, `pointwise_mul` and `negacyclic_mul` with every operation on a
signed 64-bit word, `none` where one overflows. On coefficients in `(-q, q)` none does, and the
values are those of the loops over the integers.

* **`ntt64_eq`**, **`nttInv64_eq`**, **`pointwiseMul64_eq`**, **`negacyclicMul64_eq`** — the
  checked loops go on.
* **`nttInv_ntt`** — the inverse transform of the transform reduces the coefficients.
* **`ofCoeffs_negacyclicMul`** — the schoolbook loops multiply in `(Z/q)[X] / (X^256 + 1)`.
* **`ntt_ring`** — the three together.
-/

namespace DiscCleaner.MlDsa

open CheckedLib NegacyclicLib OddTransformLib

/-! ## Words -/

def modq64 (a : Int) : Option Int := do
  let r ← remI64 a Q
  if r < 0 then addI64 r Q else some r

def mulmod64 (a b : Int) : Option Int := do modq64 (← mulI64 a b)

def barrettish64 (a : Int) : Option Int := if Q ≤ a then subI64 a Q else some a

/-- One turn of an evaluation: the term at the running power, then the next power. -/
def evalTurn (pw : Int) (a : Poly) (st : Int × Int) (j : Fin 256) : Option (Int × Int) := do
  let acc ← addI64 st.2 (← remEuclidI64 (← mulI64 (a j) st.1) Q)
  let cur ← remI64 (← mulI64 st.1 pw) Q
  some (cur, acc)

def evalLoop64 (pw : Int) (a : Poly) (start : Int) : Option (Int × Int) :=
  (List.finRange 256).foldlM (evalTurn pw a) (start, 0)

def ntt64 (a : Poly) : Option Poly := collect fun i => do
  remI64 (← evalLoop64 (psiPow (2 * i + 1)) a 1).2 Q

def nttInv64 (ah : Poly) : Option Poly := collect fun j => do
  let base := psiPow ((512 - j) % 512)
  let step ← remI64 (← mulI64 base base) Q
  let acc ← remI64 (← evalLoop64 step ah base).2 Q
  remI64 (← mulI64 acc nInv) Q

def pointwiseMul64 (a b : Poly) : Option Poly := collect fun i => mulmod64 (a i) (b i)

/-- One product of the schoolbook loops; `x^256` wraps with the other sign. -/
def negacyclicTurn64 (a b : Poly) (i : Fin 256) (out : Poly) (j : Fin 256) : Option Poly := do
  let v ← mulmod64 (a i) (b j)
  if h : (i : ℕ) + j < 256 then
    some (Function.update out ⟨i + j, h⟩ (← barrettish64 (← addI64 (out ⟨i + j, h⟩) v)))
  else
    let k : Fin 256 := ⟨i + j - 256, by omega⟩
    some (Function.update out k (← modq64 (← subI64 (out k) v)))

def negacyclicMul64 (a b : Poly) : Option Poly :=
  (List.finRange 256).foldlM (fun out i =>
    (List.finRange 256).foldlM (negacyclicTurn64 a b i) out) fun _ => 0

/-! ## The same over the integers -/

def negacyclicTurn (a b : Poly) (i : Fin 256) (out : Poly) (j : Fin 256) : Poly :=
  let v := mulmod (a i) (b j)
  if h : (i : ℕ) + j < 256 then
    Function.update out ⟨i + j, h⟩ (barrettish (out ⟨i + j, h⟩ + v))
  else
    let k : Fin 256 := ⟨i + j - 256, by omega⟩
    Function.update out k (modq (out k - v))

def negacyclicMul (a b : Poly) : Poly :=
  (List.finRange 256).foldl (fun out i => (List.finRange 256).foldl (negacyclicTurn a b i) out)
    fun _ => 0

/-! ## Nothing overflows -/

/-- A coefficient as the transform takes it, centred or reduced. -/
def Small (a : Poly) : Prop := ∀ i, -Q < a i ∧ a i < Q

/-- A coefficient as the transform returns it. -/
def Reduced (a : Poly) : Prop := ∀ i, 0 ≤ a i ∧ a i < Q

theorem Reduced.small {a : Poly} (h : Reduced a) : Small a := fun i =>
  ⟨(neg_lt_zero.mpr Q_pos).trans_le (h i).1, (h i).2⟩

theorem psiPow_range (m : Nat) : 0 ≤ psiPow m ∧ psiPow m < Q := by
  cases m with
  | zero => exact ⟨by decide, by decide⟩
  | succ m => exact ⟨Int.emod_nonneg _ Q_pos.ne', Int.emod_lt_of_pos _ Q_pos⟩

theorem emod_range (a : Int) : 0 ≤ a % Q ∧ a % Q < Q :=
  ⟨Int.emod_nonneg _ Q_pos.ne', Int.emod_lt_of_pos _ Q_pos⟩

/-- A product of two values below `q` fits a word many times over. -/
theorem product_bounds {a b : Int} (ha : -Q < a ∧ a < Q) (hb : -Q < b ∧ b < Q) :
    -(Q * Q) ≤ a * b ∧ a * b ≤ Q * Q := by
  have habs : |a * b| ≤ Q * Q := by
    rw [abs_mul]
    exact mul_le_mul (abs_le.mpr ⟨ha.1.le, ha.2.le⟩) (abs_le.mpr ⟨hb.1.le, hb.2.le⟩)
      (abs_nonneg _) Q_pos.le
  exact abs_le.mp habs

theorem mulI64_of_small {a b : Int} (ha : -Q < a ∧ a < Q) (hb : -Q < b ∧ b < Q) :
    mulI64 a b = some (a * b) ∧ InI64 (a * b) := by
  have hprod := product_bounds ha hb
  have hQ : Q * Q = 70231389093889 := by decide
  have hword : InI64 (a * b) := ⟨by omega, by omega⟩
  exact ⟨i64_of_inI64 hword, hword⟩

theorem modq64_eq {a : Int} (h : InI64 a) : modq64 a = some (modq a) := by
  have hlo := Int.lt_tmod_of_pos a Q_pos
  have hhi := Int.tmod_lt_of_pos a Q_pos
  have hQ : Q = 8380417 := rfl
  simp only [modq64, modq, remI64_of_pos Q_pos h, Option.bind_eq_bind, Option.bind_some]
  split_ifs
  · exact i64_of_inI64 ⟨by omega, by omega⟩
  · rfl

theorem mulmod64_eq {a b : Int} (ha : -Q < a ∧ a < Q) (hb : -Q < b ∧ b < Q) :
    mulmod64 a b = some (mulmod a b) := by
  obtain ⟨hmul, hword⟩ := mulI64_of_small ha hb
  rw [mulmod64, hmul]
  exact modq64_eq hword

theorem barrettish64_eq {a : Int} (ha : 0 ≤ a ∧ a < 2 * Q) :
    barrettish64 a = some (barrettish a) := by
  have hQ : Q = 8380417 := rfl
  unfold barrettish64 barrettish
  split_ifs
  · exact i64_of_inI64 ⟨by omega, by omega⟩
  · rfl

theorem barrettish_range {a : Int} (ha : 0 ≤ a ∧ a < 2 * Q) :
    0 ≤ barrettish a ∧ barrettish a < Q := by
  unfold barrettish
  split_ifs <;> omega

/-- The running power stays reduced, and `k` terms sum to at most `k·q`. -/
theorem evalLoop64_eq {pw start : Int} {a : Poly} (hpw : 0 ≤ pw ∧ pw < Q)
    (hstart : 0 ≤ start ∧ start < Q) (ha : Small a) :
    evalLoop64 pw a start = some (evalLoop pw a start) ∧
      0 ≤ (evalLoop pw a start).2 ∧ (evalLoop pw a start).2 ≤ 256 * Q := by
  have hQ : Q = 8380417 := rfl
  have hfirst : (0 ≤ (start, (0 : Int)).1 ∧ (start, (0 : Int)).1 < Q) ∧
      0 ≤ (start, (0 : Int)).2 ∧ (start, (0 : Int)).2 ≤ ((0 : ℕ) : Int) * Q :=
    ⟨hstart, le_refl 0, by simp⟩
  have hloop := foldlM_eq_foldl (k := 0) (l := List.finRange 256) (f := evalTurn pw a)
    (g := fun st j => (st.1 * pw % Q, st.2 + a j * st.1 % Q))
    (I := fun k st => (0 ≤ st.1 ∧ st.1 < Q) ∧ 0 ≤ st.2 ∧ st.2 ≤ k * Q) (by
      intro k j st hk _ hst
      obtain ⟨hcur, hsum0, hsum⟩ := hst
      rw [List.length_finRange] at hk
      obtain ⟨hterm, htermWord⟩ := mulI64_of_small (ha j) ⟨by omega, hcur.2⟩
      obtain ⟨hpower, hpowerWord⟩ := mulI64_of_small (a := st.1) (b := pw)
        ⟨by omega, hcur.2⟩ ⟨by omega, hpw.2⟩
      have hterm' := emod_range (a j * st.1)
      have hkQ : ((0 + k : ℕ) : Int) * Q ≤ 255 * Q :=
        Int.mul_le_mul_of_nonneg_right (by omega) Q_pos.le
      have hadd : addI64 st.2 (a j * st.1 % Q) = some (st.2 + a j * st.1 % Q) :=
        i64_of_inI64 ⟨by omega, by omega⟩
      have hrem : remI64 (st.1 * pw) Q = some (st.1 * pw % Q) :=
        remI64_of_nonneg Q_pos (mul_nonneg hcur.1 hpw.1) hpowerWord.2
      refine ⟨?_, emod_range _, by omega, ?_⟩
      · simp only [evalTurn, hterm, remEuclidI64_of_pos Q_pos htermWord, hadd, hpower, hrem,
          Option.bind_eq_bind, Option.bind_some]
      · calc st.2 + a j * st.1 % Q
            ≤ ((0 + k : ℕ) : Int) * Q + Q := by linarith [hterm'.2]
          _ = ((0 + k + 1 : ℕ) : Int) * Q := by push_cast; ring) hfirst
  rw [List.length_finRange, ← Fin.foldl_eq_finRange_foldl] at hloop
  exact ⟨hloop.1, hloop.2.2.1, hloop.2.2.2.trans_eq (by norm_num)⟩

theorem ntt64_eq {a : Poly} (ha : Small a) : ntt64 a = some (ntt a) := by
  refine collect_some fun i => ?_
  have hQ : Q = 8380417 := rfl
  obtain ⟨hloop, hlo, hhi⟩ :=
    evalLoop64_eq (psiPow_range (2 * i + 1)) (show (0 : Int) ≤ 1 ∧ (1 : Int) < Q by decide) ha
  simp only [hloop, Option.bind_eq_bind, Option.bind_some]
  exact remI64_of_nonneg Q_pos hlo (by omega)

theorem nttInv64_eq {ah : Poly} (ha : Small ah) : nttInv64 ah = some (nttInv ah) := by
  refine collect_some fun j => ?_
  have hQ : Q = 8380417 := rfl
  have hbase := psiPow_range ((512 - j) % 512)
  obtain ⟨hsquare, hsquareWord⟩ := mulI64_of_small
    (a := psiPow ((512 - j) % 512)) (b := psiPow ((512 - j) % 512))
    ⟨by omega, hbase.2⟩ ⟨by omega, hbase.2⟩
  have hstep := remI64_of_nonneg Q_pos (mul_nonneg hbase.1 hbase.1) hsquareWord.2
  obtain ⟨hloop, hlo, hhi⟩ := evalLoop64_eq
    (emod_range (psiPow ((512 - j) % 512) * psiPow ((512 - j) % 512))) hbase ha
  have hacc := remI64_of_nonneg Q_pos hlo (show _ < 2 ^ 63 by omega)
  have hnInv : 0 ≤ nInv ∧ nInv < Q := by decide
  have haccRange := emod_range (evalLoop
    (psiPow ((512 - j) % 512) * psiPow ((512 - j) % 512) % Q) ah (psiPow ((512 - j) % 512))).2
  obtain ⟨hscale, hscaleWord⟩ := mulI64_of_small (b := nInv)
    ⟨by omega, haccRange.2⟩ ⟨by omega, hnInv.2⟩
  simp only [hsquare, hstep, hloop, hacc, hscale, Option.bind_eq_bind, Option.bind_some]
  exact remI64_of_nonneg Q_pos (mul_nonneg haccRange.1 hnInv.1) hscaleWord.2

theorem pointwiseMul64_eq {a b : Poly} (ha : Small a) (hb : Small b) :
    pointwiseMul64 a b = some (pointwiseMul a b) :=
  collect_some fun i => mulmod64_eq (ha i) (hb i)

theorem negacyclicTurn64_eq {a b out : Poly} (ha : Small a) (hb : Small b) (hout : Reduced out)
    (i j : Fin 256) :
    negacyclicTurn64 a b i out j = some (negacyclicTurn a b i out j) ∧
      Reduced (negacyclicTurn a b i out j) := by
  have hQ : Q = 8380417 := rfl
  have hv := modq_range (a i * b j)
  rw [← mulmod] at hv
  have hupdate : ∀ (k : Fin 256) (x : Int), 0 ≤ x ∧ x < Q → Reduced (Function.update out k x) := by
    intro k x hx m
    rcases eq_or_ne m k with rfl | hne
    · rwa [Function.update_self]
    · rw [Function.update_of_ne hne]
      exact hout m
  unfold negacyclicTurn64 negacyclicTurn
  simp only [mulmod64_eq (ha i) (hb j), Option.bind_eq_bind, Option.bind_some]
  split_ifs with h
  · have hcell := hout ⟨i + j, h⟩
    have hadd : addI64 (out ⟨i + j, h⟩) (mulmod (a i) (b j))
        = some (out ⟨i + j, h⟩ + mulmod (a i) (b j)) := i64_of_inI64 ⟨by omega, by omega⟩
    have hsum : 0 ≤ out ⟨i + j, h⟩ + mulmod (a i) (b j) ∧
        out ⟨i + j, h⟩ + mulmod (a i) (b j) < 2 * Q := ⟨by omega, by omega⟩
    rw [hadd, Option.bind_some, barrettish64_eq hsum]
    exact ⟨rfl, hupdate _ _ (barrettish_range hsum)⟩
  · have hcell := hout ⟨i + j - 256, by omega⟩
    have hword : InI64 (out ⟨i + j - 256, by omega⟩ - mulmod (a i) (b j)) := ⟨by omega, by omega⟩
    rw [subI64, i64_of_inI64 hword, Option.bind_some, modq64_eq hword]
    exact ⟨rfl, hupdate _ _ (modq_range _)⟩

theorem negacyclicMul64_eq {a b : Poly} (ha : Small a) (hb : Small b) :
    negacyclicMul64 a b = some (negacyclicMul a b) ∧ Reduced (negacyclicMul a b) := by
  refine foldlM_eq_foldl (k := 0) (I := fun _ out => Reduced out) ?_ fun _ => ⟨le_refl 0, Q_pos⟩
  intro _ i out _ _ hout
  exact foldlM_eq_foldl (k := 0) (I := fun _ out => Reduced out)
    (fun _ j out _ _ hout => negacyclicTurn64_eq ha hb hout i j) hout

/-! ## The ring -/

/-- The class of a polynomial in `(Z/q)[X] / (X^256 + 1)`. -/
noncomputable def ringOf (a : Poly) : NegaRing Zq 256 := ofCoeffs fun i => (a i : Zq)

theorem ntt_reduced (a : Poly) : Reduced (ntt a) := fun _ => emod_range _

theorem nttInv_reduced (ah : Poly) : Reduced (nttInv ah) := fun _ => emod_range _

theorem pointwiseMul_reduced (a b : Poly) : Reduced (pointwiseMul a b) := fun _ => modq_range _

/-- **The inverse transform of the transform reduces the coefficients.** -/
theorem nttInv_ntt (a : Poly) : nttInv (ntt a) = fun i => a i % Q := by
  funext j
  refine eq_of_cast_eq (nttInv_reduced _ j) (emod_range _) ?_
  rw [nttInv_cast, emod_cast]
  simp only [ntt_cast]
  exact coeffsOdd_evalOdd PSI_sq_primitive PSI_mul_psiInv nInv_cast _ j

/-- `ψ^256 = -1`. -/
theorem PSI_pow_half : (PSI : Zq) ^ 256 = -1 := by
  have h : ((PSI ^ 256 + 1 : Int) : Zq) = 0 :=
    (ZMod.intCast_zmod_eq_zero_iff_dvd _ _).mpr (by decide)
  push_cast at h
  exact eq_neg_of_add_eq_zero_left h

/-- A transformed coefficient is the value of the class at a root of `X^256 + 1`. -/
theorem ntt_valueAt (a : Poly) (i : Fin 256) :
    ((ntt a i : Int) : Zq)
      = valueAt ((PSI : Zq) ^ (2 * (i : ℕ) + 1)) (oddPoint_pow PSI_pow_half i) (ringOf a) := by
  rw [ntt_cast, ringOf, valueAt_ofCoeffs, evalOdd]

/-- **One turn adds one product**, at its own power. -/
theorem ringOf_negacyclicTurn (a b : Poly) (i : Fin 256) (out : Poly) (j : Fin 256) :
    ringOf (negacyclicTurn a b i out j)
      = ringOf out + const 256 ((a i : Zq) * (b j : Zq)) * gen Zq 256 ^ ((i : ℕ) + (j : ℕ)) := by
  have hcast : ∀ (k : Fin 256) (x : Int), (fun m => ((Function.update out k x m : Int) : Zq))
      = Function.update (fun m => (out m : Zq)) k (x : Zq) := by
    intro k x
    funext m
    rcases eq_or_ne m k with rfl | hne
    · rw [Function.update_self, Function.update_self]
    · rw [Function.update_of_ne hne, Function.update_of_ne hne]
  simp only [ringOf, negacyclicTurn]
  split_ifs with h
  · rw [hcast, barrettish_cast, Int.cast_add, mulmod_cast]
    exact ofCoeffs_update (fun m => (out m : Zq)) ⟨i + j, h⟩ _
  · rw [hcast, modq_cast, Int.cast_sub, mulmod_cast]
    exact ofCoeffs_update_wrap (fun m => (out m : Zq)) ⟨i + j - 256, by omega⟩
      (Nat.sub_add_cancel (not_lt.mp h)) _

/-- A loop whose turns add to the class adds their sum. -/
theorem ringOf_foldl {step : Poly → Fin 256 → Poly} {term : Fin 256 → NegaRing Zq 256}
    (h : ∀ out j, ringOf (step out j) = ringOf out + term j) (out : Poly) :
    ringOf ((List.finRange 256).foldl step out) = ringOf out + ∑ j, term j := by
  have hlist : ∀ (l : List (Fin 256)) (out : Poly),
      ringOf (l.foldl step out) = ringOf out + (l.map term).sum := by
    intro l
    induction l with
    | nil => simp
    | cons j l ih =>
      intro out
      rw [List.foldl_cons, ih, h, List.map_cons, List.sum_cons, add_assoc]
  rw [hlist, Fin.sum_univ_def]

/-- **The schoolbook loops multiply** modulo `x^256 + 1` and `q`. -/
theorem ringOf_negacyclicMul (a b : Poly) :
    ringOf (negacyclicMul a b) = ringOf a * ringOf b := by
  have hrows := ringOf_foldl (fun out i => ringOf_foldl (ringOf_negacyclicTurn a b i) out)
    fun _ => 0
  have hzero : ringOf (fun _ => 0) = 0 := by
    simp only [ringOf, Int.cast_zero]
    exact ofCoeffs_zero
  rw [hzero, zero_add] at hrows
  exact hrows.trans (ofCoeffs_mul _ _)

/-- **Pointwise products are products of the ring.** -/
theorem ntt_negacyclicMul (a b : Poly) :
    ∀ i, ((ntt (negacyclicMul a b) i : Int) : Zq) = ((pointwiseMul (ntt a) (ntt b) i : Int) : Zq) := by
  intro i
  rw [ntt_valueAt, ringOf_negacyclicMul, map_mul, ← ntt_valueAt, ← ntt_valueAt, pointwiseMul,
    mulmod_cast]

theorem nttInv_pointwiseMul {a b : Poly} (ha : Small a) (hb : Small b) :
    nttInv (pointwiseMul (ntt a) (ntt b)) = negacyclicMul a b := by
  have hred := (negacyclicMul64_eq ha hb).2
  -- the transform is the same residue by residue, and reading it back forgets the representative
  have hpoint : pointwiseMul (ntt a) (ntt b) = ntt (negacyclicMul a b) := funext fun i =>
    eq_of_cast_eq (pointwiseMul_reduced _ _ i) (ntt_reduced _ i) (ntt_negacyclicMul a b i).symm
  rw [hpoint, nttInv_ntt]
  exact funext fun i => Int.emod_eq_of_lt (hred i).1 (hred i).2

/-- **The transform carries the ring**: on coefficients in `(-q, q)` no word overflows, the
inverse reads the coefficients back, and pointwise products read back as the product modulo
`x^256 + 1` and `q`. -/
theorem ntt_ring {a b : Poly} (ha : Small a) (hb : Small b) :
    ∃ ah bh ph c : Poly,
      ntt64 a = some ah ∧ ntt64 b = some bh ∧ pointwiseMul64 ah bh = some ph ∧
      nttInv64 ah = some (fun i => a i % Q) ∧
      negacyclicMul64 a b = some c ∧ nttInv64 ph = some c ∧
      Reduced c ∧ ringOf c = ringOf a * ringOf b := by
  have hah := (ntt_reduced a).small
  have hbh := (ntt_reduced b).small
  obtain ⟨hmul, hreduced⟩ := negacyclicMul64_eq ha hb
  refine ⟨ntt a, ntt b, pointwiseMul (ntt a) (ntt b), negacyclicMul a b, ntt64_eq ha, ntt64_eq hb,
    pointwiseMul64_eq hah hbh, ?_, hmul, ?_, hreduced, ringOf_negacyclicMul a b⟩
  · rw [nttInv64_eq hah, nttInv_ntt]
  · rw [nttInv64_eq (pointwiseMul_reduced _ _).small, nttInv_pointwiseMul ha hb]

theorem ntt_ring_one : ∃ ah bh ph c : Poly,
    ntt64 (fun _ => -1) = some ah ∧ ntt64 (fun _ => 1) = some bh ∧ pointwiseMul64 ah bh = some ph ∧
      nttInv64 ah = some (fun _ => (-1) % Q) ∧
      negacyclicMul64 (fun _ => -1) (fun _ => 1) = some c ∧ nttInv64 ph = some c ∧
      Reduced c ∧ ringOf c = ringOf (fun _ => -1) * ringOf (fun _ => 1) :=
  ntt_ring (fun _ => ⟨by decide, by decide⟩) (fun _ => ⟨by decide, by decide⟩)

end DiscCleaner.MlDsa
