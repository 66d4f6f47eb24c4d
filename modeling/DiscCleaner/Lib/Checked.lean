import Mathlib.Algebra.Order.Group.Int
import Mathlib.Algebra.Order.Ring.Int
import Mathlib.Tactic.Linarith

/-!
# Machine arithmetic that can stop the program

Signed 64-bit operations on integers. `none` is a program that does not go on: an overflow, a
division by zero, an index past the end. A loop is a fold of such steps.

* **`foldlM_invariant`** — a loop whose every turn goes on and keeps an invariant, goes on.

A computation over checked operations goes on exactly when the same computation over the integers
meets no value outside the word. `Exact` relates the two: the condition and the value on one side,
the computation that can fault on the other. Each rule follows one construct.

* **`Exact.foldlM`** — a loop goes on exactly when every turn does, from the exact state before it.
-/

namespace CheckedLib

/-- The values of a signed 64-bit word. -/
def InI64 (x : Int) : Prop := -2 ^ 63 ≤ x ∧ x < 2 ^ 63

instance (x : Int) : Decidable (InI64 x) := inferInstanceAs (Decidable (_ ∧ _))

/-- The exact value of an operation, when a word holds it. -/
def i64 (x : Int) : Option Int := if InI64 x then some x else none

def addI64 (a b : Int) : Option Int := i64 (a + b)
def subI64 (a b : Int) : Option Int := i64 (a - b)
def mulI64 (a b : Int) : Option Int := i64 (a * b)
def negI64 (a : Int) : Option Int := i64 (-a)
def absI64 (a : Int) : Option Int := i64 |a|

/-- Division rounding to zero; the one quotient that overflows is of the least value by −1. -/
def divI64 (a b : Int) : Option Int := if b = 0 then none else i64 (a.tdiv b)

/-- The remainder has the sign of `a`, and faults where the quotient does. -/
def remI64 (a b : Int) : Option Int :=
  if b = 0 then none else if InI64 (a.tdiv b) then some (a.tmod b) else none

/-- The remainder that is never negative. -/
def remEuclidI64 (a b : Int) : Option Int :=
  if b = 0 then none else if InI64 (a.tdiv b) then some (a % b) else none

theorem i64_of_inI64 {x : Int} (h : InI64 x) : i64 x = some x := if_pos h

/-- A value bounded well inside the word. -/
theorem inI64_of_abs_le {x B : Int} (h : |x| ≤ B) (hB : B < 2 ^ 63) : InI64 x := by
  have := abs_le.mp h
  constructor <;> linarith

/-- A positive divisor takes the remainder of every word. -/
theorem remI64_of_pos {x q : Int} (hq : 0 < q) (hx : InI64 x) : remI64 x q = some (x.tmod q) := by
  have hdiv : InI64 (x.tdiv q) := by
    have habs : |x.tdiv q| ≤ |x| := by
      rw [Int.abs_eq_natAbs, Int.abs_eq_natAbs, Int.natAbs_tdiv]
      exact_mod_cast Nat.div_le_self _ _
    rcases eq_or_ne x (-2 ^ 63) with rfl | hne
    · have hneg : (-2 ^ 63 : Int).tdiv q ≤ 0 := by
        rw [Int.neg_tdiv]
        have := Int.tdiv_nonneg (a := 2 ^ 63) (b := q) (by decide) hq.le
        omega
      rw [abs_of_nonpos hneg, abs_of_nonpos (by decide)] at habs
      constructor <;> omega
    · obtain ⟨hlo, hhi⟩ := hx
      have hbound : |x| ≤ 2 ^ 63 - 1 := abs_le.mpr ⟨by omega, by omega⟩
      exact inI64_of_abs_le (habs.trans hbound) (by decide)
  rw [remI64, if_neg hq.ne', if_pos hdiv]

/-- On a word that is not negative the two remainders agree. -/
theorem remI64_of_nonneg {x q : Int} (hq : 0 < q) (h0 : 0 ≤ x) (hx : x < 2 ^ 63) :
    remI64 x q = some (x % q) := by
  rw [remI64_of_pos hq ⟨by linarith, hx⟩, Int.tmod_eq_emod_of_nonneg h0]

theorem remEuclidI64_of_pos {x q : Int} (hq : 0 < q) (hx : InI64 x) :
    remEuclidI64 x q = some (x % q) := by
  have hrem := remI64_of_pos hq hx
  unfold remI64 at hrem
  unfold remEuclidI64
  split_ifs at hrem ⊢
  rfl

/-! ## Loops -/

variable {α β : Type*}

/-- **Loop rule**: when each turn goes on and takes the invariant to its next instance, so does
the loop. -/
theorem foldlM_invariant {f : β → α → Option β} {l : List α} {I : Nat → β → Prop} {k : Nat}
    (hstep : ∀ i x acc, i < l.length → x ∈ l → I (k + i) acc →
      ∃ acc', f acc x = some acc' ∧ I (k + i + 1) acc')
    {acc : β} (hacc : I k acc) :
    ∃ acc', l.foldlM f acc = some acc' ∧ I (k + l.length) acc' := by
  induction l generalizing k acc with
  | nil => exact ⟨acc, rfl, hacc⟩
  | cons x l ih =>
    obtain ⟨acc', hf, hacc'⟩ := hstep 0 x acc (Nat.succ_pos _) List.mem_cons_self hacc
    have hrest : ∀ i y b, i < l.length → y ∈ l → I (k + 1 + i) b →
        ∃ b', f b y = some b' ∧ I (k + 1 + i + 1) b' := by
      intro i y b hi hy hb
      rw [Nat.add_right_comm k 1 i] at hb ⊢
      exact hstep (i + 1) y b (Nat.succ_lt_succ hi) (List.mem_cons_of_mem x hy) hb
    obtain ⟨out, hout, hI⟩ := ih hrest hacc'
    refine ⟨out, ?_, ?_⟩
    · rw [List.foldlM_cons, hf]
      exact hout
    · rwa [List.length_cons, Nat.add_comm l.length, ← Nat.add_assoc]

/-- A loop over the parts of a list is one loop over the list. -/
theorem foldlM_flatMap {γ : Type*} (f : α → List γ) (g : β → γ → Option β) (l : List α) (acc : β) :
    (l.flatMap f).foldlM g acc = l.foldlM (fun acc x => (f x).foldlM g acc) acc := by
  induction l generalizing acc with
  | nil => rfl
  | cons x l ih =>
    rw [List.flatMap_cons, List.foldlM_append, List.foldlM_cons]
    exact congrArg _ (funext ih)

theorem foldlM_congr_mem {f g : β → α → Option β} {l : List α}
    (h : ∀ x ∈ l, ∀ acc, f acc x = g acc x) (acc : β) : l.foldlM f acc = l.foldlM g acc := by
  induction l generalizing acc with
  | nil => rfl
  | cons x l ih =>
    rw [List.foldlM_cons, List.foldlM_cons, h x List.mem_cons_self]
    exact congrArg _ (funext fun acc' => ih (fun y hy => h y (List.mem_cons_of_mem x hy)) acc')

/-- **Loop rule for a known value**: when each turn of the checked loop goes on, with the value
the exact turn has, so does the loop. -/
theorem foldlM_eq_foldl {f : β → α → Option β} {g : β → α → β} {l : List α} {I : Nat → β → Prop}
    {k : Nat} (hstep : ∀ i x acc, i < l.length → x ∈ l → I (k + i) acc →
      f acc x = some (g acc x) ∧ I (k + i + 1) (g acc x))
    {acc : β} (hacc : I k acc) :
    l.foldlM f acc = some (l.foldl g acc) ∧ I (k + l.length) (l.foldl g acc) := by
  induction l generalizing k acc with
  | nil => exact ⟨rfl, hacc⟩
  | cons x l ih =>
    obtain ⟨hf, hacc'⟩ := hstep 0 x acc (Nat.succ_pos _) List.mem_cons_self hacc
    have hrest : ∀ i y b, i < l.length → y ∈ l → I (k + 1 + i) b →
        f b y = some (g b y) ∧ I (k + 1 + i + 1) (g b y) := by
      intro i y b hi hy hb
      rw [Nat.add_right_comm k 1 i] at hb ⊢
      exact hstep (i + 1) y b (Nat.succ_lt_succ hi) (List.mem_cons_of_mem x hy) hb
    obtain ⟨hout, hI⟩ := ih hrest hacc'
    refine ⟨?_, ?_⟩
    · rw [List.foldlM_cons, hf]
      exact hout
    · rwa [List.length_cons, Nat.add_comm l.length, ← Nat.add_assoc]

/-- An elementwise loop goes on when each element does. -/
theorem mapM_eq_some_map {f : α → Option β} {g : α → β} {l : List α}
    (h : ∀ x ∈ l, f x = some (g x)) : l.mapM f = some (l.map g) := by
  induction l with
  | nil => rfl
  | cons x l ih =>
    rw [List.mapM_cons, h x List.mem_cons_self,
      ih fun y hy => h y (List.mem_cons_of_mem x hy)]
    rfl

/-! ## Exactly when it goes on -/

section Exact

variable {α β : Type}

/-- The computation gives `val` where the condition holds, and faults everywhere else. -/
structure Exact (x : Option α) (fits : Prop) (val : α) : Prop where
  ok : fits → x = some val
  fault : ¬fits → x = none

namespace Exact

variable {x : Option α} {P Q : Prop} {a : α} {b : β}

theorem of_some (a : α) : Exact (some a) True a := ⟨fun _ => rfl, fun h => absurd trivial h⟩

/-- The condition is the condition to go on. -/
theorem eq_some_iff (h : Exact x P a) {c : α} : x = some c ↔ P ∧ a = c := by
  by_cases hP : P
  · rw [h.ok hP, Option.some.injEq, and_iff_right hP]
  · rw [h.fault hP]
    exact ⟨fun hc => (by cases hc), fun hc => absurd hc.1 hP⟩

theorem congr (h : Exact x P a) {P' : Prop} {a' : α} (hP : P ↔ P') (ha : P → a = a') :
    Exact x P' a' where
  ok := fun hP' => (h.ok (hP.mpr hP')).trans (congrArg some (ha (hP.mpr hP')))
  fault := fun hP' => h.fault fun hP₁ => hP' (hP.mp hP₁)

/-- One computation after another. -/
theorem bind (h : Exact x P a) {f : α → Option β} (hf : P → Exact (f a) Q b) :
    Exact (x >>= f) (P ∧ Q) b where
  ok := fun hPQ => by
    rw [h.ok hPQ.1]
    exact (hf hPQ.1).ok hPQ.2
  fault := fun hPQ => by
    by_cases hP : P
    · rw [h.ok hP]
      exact (hf hP).fault fun hQ => hPQ ⟨hP, hQ⟩
    · rw [h.fault hP]
      rfl

/-- The last computation and a value made of it. -/
theorem map (h : Exact x P a) (f : α → β) : Exact (x >>= fun c => some (f c)) P (f a) :=
  (h.bind fun _ => of_some (f a)).congr (and_iff_left trivial) fun _ => rfl

theorem ite {c : Prop} [Decidable c] {y : Option α} {a' : α} (h : c → Exact x P a)
    (h' : ¬c → Exact y Q a') :
    Exact (if c then x else y) (if c then P else Q) (if c then a else a') := by
  by_cases hc : c
  · rw [if_pos hc, if_pos hc, if_pos hc]
    exact h hc
  · rw [if_neg hc, if_neg hc, if_neg hc]
    exact h' hc

/-- A computation that faults where its guard fails. -/
theorem guard {c : Prop} [Decidable c] (a : α) : Exact (if c then some a else none) c a :=
  ⟨fun h => if_pos h, fun h => if_neg h⟩

end Exact

/-! ## Operations -/

theorem exact_i64 (x : Int) : Exact (i64 x) (InI64 x) x := Exact.guard x

theorem exact_remI64 (a b : Int) :
    Exact (remI64 a b) (b ≠ 0 ∧ InI64 (a.tdiv b)) (a.tmod b) where
  ok := fun h => by rw [remI64, if_neg h.1, if_pos h.2]
  fault := fun h => by
    rw [remI64]
    by_cases hb : b = 0
    · rw [if_pos hb]
    · rw [if_neg hb, if_neg fun hdiv => h ⟨hb, hdiv⟩]

theorem exact_divI64 (a b : Int) :
    Exact (divI64 a b) (b ≠ 0 ∧ InI64 (a.tdiv b)) (a.tdiv b) where
  ok := fun h => by rw [divI64, if_neg h.1, i64_of_inI64 h.2]
  fault := fun h => by
    rw [divI64]
    by_cases hb : b = 0
    · rw [if_pos hb]
    · rw [if_neg hb]
      exact (exact_i64 _).fault fun hdiv => h ⟨hb, hdiv⟩

/-- An element of a list. -/
theorem exact_getElem? (l : List α) (i : Nat) (d : α) :
    Exact l[i]? (i < l.length) (l.getD i d) where
  ok := fun h => by rw [List.getD_eq_getElem?_getD, List.getElem?_eq_getElem h, Option.getD_some]
  fault := fun h => List.getElem?_eq_none (not_lt.mp h)

/-! ## Loops -/

theorem Exact.mapM {f : α → Option β} {fits : α → Prop} {g : α → β}
    (h : ∀ a, Exact (f a) (fits a) (g a)) (l : List α) :
    Exact (l.mapM f) (∀ a ∈ l, fits a) (l.map g) := by
  induction l with
  | nil => exact (Exact.of_some []).congr (iff_of_true trivial (by simp)) fun _ => rfl
  | cons a l ih =>
    rw [List.mapM_cons]
    refine ((h a).bind fun _ => ih.map fun bs => g a :: bs).congr ?_ fun _ => rfl
    exact List.forall_mem_cons.symm

/-- Every turn of a loop fits, from the state the exact turns before it have left. -/
def FoldFits (fits : β → α → Prop) (step : β → α → β) : β → List α → Prop
  | _, [] => True
  | acc, a :: l => fits acc a ∧ FoldFits fits step (step acc a) l

theorem Exact.foldlM {f : β → α → Option β} {fits : β → α → Prop} {step : β → α → β}
    (h : ∀ acc a, Exact (f acc a) (fits acc a) (step acc a)) (l : List α) (acc : β) :
    Exact (l.foldlM f acc) (FoldFits fits step acc l) (l.foldl step acc) := by
  induction l generalizing acc with
  | nil => exact Exact.of_some acc
  | cons a l ih =>
    rw [List.foldlM_cons]
    exact (h acc a).bind fun _ => ih (step acc a)

/-- A loop whose turns look at their element only. -/
theorem foldFits_const {fits : α → Prop} {step : β → α → β} (l : List α) (acc : β) :
    FoldFits (fun _ a => fits a) step acc l ↔ ∀ a ∈ l, fits a := by
  induction l generalizing acc with
  | nil => simp [FoldFits]
  | cons a l ih => rw [FoldFits, ih, List.forall_mem_cons]

end Exact

end CheckedLib
