import Mathlib.Data.Nat.ModEq
import Mathlib.Algebra.Ring.Commute
import Mathlib.Data.Nat.Bitwise
import Mathlib.Tactic.LinearCombination
import Mathlib.Tactic.Ring

/-!
# Word-serial modular arithmetic

Three pieces of multi-word arithmetic: Newton's iteration for an inverse modulo a power of two,
word-serial Montgomery reduction (`redc`), and the streaming power of a quotient, which raises
`x` to `2 ^ k / d` while it divides `2 ^ k` by `d` one bit at a time. `β` is the word base.
-/

namespace Redc

/-! ## Newton's inverse -/

section Newton

variable {R : Type*} [CommRing R]

section

local instance two_atLeastTwo : Nat.AtLeastTwo 2 := ⟨Nat.le_refl 2⟩

/-- One Newton step towards the inverse of `n`. -/
def newton (n x : R) : R := x * (2 - n * x)

end

/-- The error `1 - n * x` is squared by a step. -/
theorem newton_error (n x : R) : 1 - n * newton n x = (1 - n * x) ^ 2 := by
  unfold newton
  ring

theorem newton_iterate_error (n x : R) (k : Nat) :
    1 - n * (newton n)^[k] x = (1 - n * x) ^ 2 ^ k := by
  induction k with
  | zero => simp
  | succ k ih => rw [Function.iterate_succ_apply', newton_error, ih, ← pow_mul, ← pow_succ]

end Newton

/-! ## Word-serial reduction -/

/-- One word of the multiplier: accumulate `w * b`, cancel the low word, drop it. -/
def step (β n ninv b t w : Nat) : Nat :=
  let s := t + w * b
  let m := s % β * ninv % β
  (s + m * n) / β

/-- The accumulator after the first `k` words of the multiplier. -/
def redc (β n ninv : Nat) (word : Nat → Nat) (b : Nat) : Nat → Nat
  | 0 => 0
  | k + 1 => step β n ninv b (redc β n ninv word b k) (word k)

/-- The value of the first `k` words. -/
def value (β : Nat) (word : Nat → Nat) : Nat → Nat
  | 0 => 0
  | k + 1 => value β word k + β ^ k * word k

theorem value_div (β v k : Nat) : value β (fun i => v / β ^ i % β) k = v % β ^ k := by
  induction k with
  | zero => simp [value, Nat.mod_one]
  | succ k ih => rw [value, ih, Nat.mod_pow_succ]

/-- The remainder of the lowest `k` words modulo `p`, after what the higher ones left. -/
def hornerMod (β p : Nat) (word : Nat → Nat) : Nat → Nat → Nat
  | 0, acc => acc
  | k + 1, acc => hornerMod β p word k ((acc * β % p + word k) % p)

theorem hornerMod_modEq (β p : Nat) (word : Nat → Nat) (k acc : Nat) :
    hornerMod β p word k acc ≡ acc * β ^ k + value β word k [MOD p] := by
  induction k generalizing acc with
  | zero => simpa [hornerMod, value] using Nat.ModEq.refl acc
  | succ k ih =>
    have hacc : (acc * β % p + word k) % p ≡ acc * β + word k [MOD p] :=
      (Nat.mod_modEq _ _).trans ((Nat.mod_modEq _ _).add_right _)
    calc hornerMod β p word (k + 1) acc
        ≡ (acc * β % p + word k) % p * β ^ k + value β word k [MOD p] := ih _
      _ ≡ (acc * β + word k) * β ^ k + value β word k [MOD p] := (hacc.mul_right _).add_right _
      _ = acc * β ^ (k + 1) + value β word (k + 1) := by
        rw [value]
        ring

theorem hornerMod_lt {β p : Nat} {word : Nat → Nat} {acc : Nat} (hp : 0 < p) (k : Nat)
    (hacc : acc < p) : hornerMod β p word k acc < p := by
  induction k generalizing acc with
  | zero => exact hacc
  | succ k ih => exact ih (Nat.mod_lt _ hp)

/-- The word-wise remainder is the remainder of the value. -/
theorem hornerMod_eq {β p : Nat} (hp : 0 < p) (word : Nat → Nat) (k : Nat) :
    hornerMod β p word k 0 = value β word k % p := by
  have hmod := hornerMod_modEq β p word k 0
  rw [zero_mul, zero_add] at hmod
  rw [← hmod, Nat.mod_eq_of_lt (hornerMod_lt hp k hp)]

section Step

variable {β n ninv : Nat}

/-- The multiple of `n` that a step adds cancels the low word. -/
theorem dvd_cancel (hinv : (n * ninv + 1) % β = 0) (s : Nat) :
    β ∣ s + s % β * ninv % β * n := by
  let m := s % β * ninv % β
  have hm : m ≡ s * ninv [MOD β] := (Nat.mod_modEq _ _).trans ((Nat.mod_modEq s β).mul_right ninv)
  have hms : m * n ≡ s * (n * ninv) [MOD β] := calc
    m * n ≡ s * ninv * n [MOD β] := hm.mul_right n
    _ = s * (n * ninv) := by ring
  have hsum : s + m * n ≡ s * (n * ninv + 1) [MOD β] := calc
    s + m * n ≡ s + s * (n * ninv) [MOD β] := hms.add_left s
    _ = s * (n * ninv + 1) := by ring
  refine Nat.dvd_of_mod_eq_zero ?_
  exact hsum.trans ((Nat.modEq_zero_iff_dvd.2 (Nat.dvd_of_mod_eq_zero hinv)).mul_left s)

/-- The division of a step is exact. -/
theorem mul_step (hinv : (n * ninv + 1) % β = 0) (b t w : Nat) :
    ∃ m, β * step β n ninv b t w = t + w * b + m * n :=
  ⟨_, Nat.mul_div_cancel' (dvd_cancel hinv (t + w * b))⟩

/-- The accumulator stays below `n + b`. -/
theorem step_lt (hβ : 0 < β) {b t w : Nat} (ht : t < n + b) (hw : w < β) :
    step β n ninv b t w < n + b := by
  unfold step
  have hm : (t + w * b) % β * ninv % β < β := Nat.mod_lt _ hβ
  rw [Nat.div_lt_iff_lt_mul hβ]
  have hwb : w * b ≤ (β - 1) * b := Nat.mul_le_mul_right b (by omega)
  have hmn : (t + w * b) % β * ninv % β * n ≤ (β - 1) * n := Nat.mul_le_mul_right n (by omega)
  calc t + w * b + (t + w * b) % β * ninv % β * n
      < n + b + (β - 1) * b + (β - 1) * n := by omega
    _ = (n + b) * (β - 1 + 1) := by ring
    _ = (n + b) * β := by rw [Nat.sub_add_cancel hβ]

theorem redc_lt (hβ : 0 < β) {word : Nat → Nat} {b : Nat} (hword : ∀ i, word i < β)
    (hn : 0 < n) (k : Nat) : redc β n ninv word b k < n + b := by
  induction k with
  | zero => simpa [redc] using Nat.add_pos_left hn b
  | succ k ih => exact step_lt hβ ih (hword k)

/-- **Reduction**: after `k` words the accumulator is the product over `β ^ k`, modulo `n`. -/
theorem redc_modEq (hinv : (n * ninv + 1) % β = 0) (word : Nat → Nat) (b k : Nat) :
    β ^ k * redc β n ninv word b k ≡ value β word k * b [MOD n] := by
  induction k with
  | zero => simpa [redc, value] using Nat.ModEq.refl 0
  | succ k ih =>
    obtain ⟨m, hstep⟩ := mul_step hinv b (redc β n ninv word b k) (word k)
    have hmn : β ^ k * (m * n) ≡ 0 [MOD n] :=
      Nat.modEq_zero_iff_dvd.2 (Dvd.intro_left (β ^ k * m) (by ring))
    calc β ^ (k + 1) * redc β n ninv word b (k + 1)
        = β ^ k * (β * step β n ninv b (redc β n ninv word b k) (word k)) := by
          rw [redc, pow_succ, mul_assoc]
      _ = β ^ k * redc β n ninv word b k + β ^ k * word k * b + β ^ k * (m * n) := by
          rw [hstep]; ring
      _ ≡ value β word k * b + β ^ k * word k * b + 0 [MOD n] := (ih.add_right _).add hmn
      _ = value β word (k + 1) * b := by rw [value]; ring

end Step

/-! ## Streaming powers -/

/-- Doubling a dividend doubles its quotient, plus one when the doubled remainder reaches `d`. -/
theorem two_mul_divMod {d q r v : Nat} (hv : v = d * q + r) (hr : r < d) :
    (if d ≤ 2 * r then (2 * v / d = 2 * q + 1 ∧ 2 * v % d = 2 * r - d)
      else (2 * v / d = 2 * q ∧ 2 * v % d = 2 * r)) := by
  have hd : 0 < d := Nat.zero_lt_of_lt hr
  split
  · next hle =>
    have hval : 2 * v = d * (2 * q + 1) + (2 * r - d) := by
      have hdist : d * (2 * q + 1) = 2 * (d * q) + d := by ring
      omega
    have hlt : 2 * r - d < d := by omega
    rw [hval, Nat.mul_add_div hd, Nat.mul_add_mod, Nat.div_eq_of_lt hlt, Nat.mod_eq_of_lt hlt]
    exact ⟨rfl, rfl⟩
  · next hlt =>
    have hval : 2 * v = d * (2 * q) + 2 * r := by
      have hdist : d * (2 * q) = 2 * (d * q) := by ring
      omega
    rw [hval, Nat.mul_add_div hd, Nat.mul_add_mod, Nat.div_eq_of_lt (by omega),
      Nat.mod_eq_of_lt (by omega)]
    exact ⟨rfl, rfl⟩

/-- The long division of `2 ^ k` by `d`, one bit on. -/
theorem two_pow_succ_divMod {d : Nat} (hd : 0 < d) (k : Nat) :
    (if d ≤ 2 * (2 ^ k % d)
      then (2 ^ (k + 1) / d = 2 * (2 ^ k / d) + 1 ∧ 2 ^ (k + 1) % d = 2 * (2 ^ k % d) - d)
      else (2 ^ (k + 1) / d = 2 * (2 ^ k / d) ∧ 2 ^ (k + 1) % d = 2 * (2 ^ k % d))) := by
  have h := two_mul_divMod (Nat.div_add_mod (2 ^ k) d).symm (Nat.mod_lt (2 ^ k) hd)
  rwa [← pow_succ'] at h

/-- An exponent, one bit on: the bits above `i` are those above `i + 1`, doubled, plus bit `i`. -/
theorem div_two_pow (e i : Nat) : e / 2 ^ i = 2 * (e / 2 ^ (i + 1)) + (e.testBit i).toNat := by
  rw [Nat.pow_succ, ← Nat.div_div_eq_div_mul, Nat.toNat_testBit]
  exact (Nat.div_add_mod (e / 2 ^ i) 2).symm

end Redc
