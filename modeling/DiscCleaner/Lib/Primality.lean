import Mathlib.Data.List.Prime
import Mathlib.FieldTheory.Finite.Basic
import Mathlib.NumberTheory.LucasPrimality

/-!
# Proofs and tests of primality

Lucas's test in a form the kernel evaluates: the powers are taken by halving the exponent, so a
number of 256 bits costs a few hundred products for each factor.

Then the condition a round of the Miller–Rabin test checks, that a prime meets it for every base it
does not divide, and the composites that meet it for a list of bases.
-/

namespace LucasLib

/-- `a ^ e % p` for an exponent of at most `bits` bits. -/
def powMod (p a : Nat) : Nat → Nat → Nat
  | 0, _ => 1 % p
  | bits + 1, e =>
    let half := powMod p a bits (e / 2)
    if e % 2 = 1 then half * half % p * a % p else half * half % p

theorem powMod_eq (p a : Nat) {bits e : Nat} (h : e < 2 ^ bits) :
    powMod p a bits e = a ^ e % p := by
  induction bits generalizing e with
  | zero =>
    rw [pow_zero, Nat.lt_one_iff] at h
    rw [powMod, h, pow_zero]
  | succ bits ih =>
    have hhalf : e / 2 < 2 ^ bits := by
      rw [pow_succ] at h
      omega
    rw [powMod, ih hhalf, ← Nat.mul_mod, ← pow_add]
    split_ifs with hodd
    · rw [Nat.mod_mul_mod, ← pow_succ]
      exact congrArg (a ^ · % p) (by omega)
    · exact congrArg (a ^ · % p) (by omega)

/-- The test: `a` has full order modulo `p`. -/
def fullOrder (p a bits : Nat) (factors : List Nat) : Bool :=
  powMod p a bits (p - 1) == 1 && factors.all fun q => powMod p a bits ((p - 1) / q) != 1

/-- **A number with an element of full order is prime.** -/
theorem prime_of_fullOrder {p : Nat} (a bits : Nat) {factors : List Nat} (h2 : 2 ≤ p) (hbits : p ≤ 2 ^ bits)
    (hfactors : ∀ q ∈ factors, q.Prime) (hprod : factors.prod = p - 1)
    (horder : fullOrder p a bits factors = true) : p.Prime := by
  simp only [fullOrder, Bool.and_eq_true, beq_iff_eq, List.all_eq_true, bne_iff_ne] at horder
  obtain ⟨hfull, hparts⟩ := horder
  have hone : ∀ e, e ≤ p - 1 → ((a : ZMod p) ^ e = 1 ↔ powMod p a bits e = 1) := by
    intro e he
    rw [powMod_eq p a (by omega : e < 2 ^ bits), ← Nat.cast_pow, ← Nat.cast_one,
      ZMod.natCast_eq_natCast_iff', Nat.mod_eq_of_lt (by omega : 1 < p)]
  refine lucas_primality p (a : ZMod p) ((hone _ (le_refl _)).mpr hfull) fun q hq hdvd hpow => ?_
  rw [← hprod] at hdvd
  obtain ⟨f, hf, hqf⟩ := (Prime.dvd_prod_iff hq.prime).mp hdvd
  rw [(Nat.prime_dvd_prime_iff_eq hq (hfactors f hf)).mp hqf] at hpow
  exact hparts f hf ((hone _ (Nat.div_le_self _ _)).mp hpow)

end LucasLib

namespace PseudoprimeLib

/-- The condition of a round, with `n - 1` split as `2 ^ s * d`. -/
def Passes (n a s d : Nat) : Prop :=
  a ^ d ≡ 1 [MOD n] ∨ ∃ i < s, (a ^ d) ^ 2 ^ i ≡ n - 1 [MOD n]

/-- `a` does not show that `n` is composite. -/
def StrongProbablePrime (n a : Nat) : Prop :=
  ∃ s d, d % 2 = 1 ∧ n - 1 = 2 ^ s * d ∧ Passes n a s d

/-- An odd composite that every base of a list takes for a prime. -/
structure StrongPseudoprime (n : Nat) (bases : List Nat) : Prop where
  one_lt : 1 < n
  odd : n % 2 = 1
  not_prime : ¬ n.Prime
  passes : ∀ a ∈ bases, StrongProbablePrime n a

/-- Where squares are one only at one and minus one, the last square before one is minus one. -/
theorem last_square {R : Type*} [CommRing R] [NoZeroDivisors R] (x : R) (s : Nat)
    (h : x ^ 2 ^ s = 1) : x = 1 ∨ ∃ i < s, x ^ 2 ^ i = -1 := by
  induction s with
  | zero => exact .inl (by rwa [pow_zero, pow_one] at h)
  | succ s ih =>
    have hsquare : (x ^ 2 ^ s) ^ 2 = 1 := by rwa [← pow_mul, ← pow_succ]
    rcases sq_eq_one_iff.mp hsquare with hone | hneg
    · rcases ih hone with hx | ⟨i, hi, hpow⟩
      · exact .inl hx
      · exact .inr ⟨i, by omega, hpow⟩
    · exact .inr ⟨s, by omega, hneg⟩

theorem cast_pred {n : Nat} (h : 0 < n) : ((n - 1 : Nat) : ZMod n) = -1 := by
  rw [Nat.cast_sub h, ZMod.natCast_self, Nat.cast_one, zero_sub]

/-- **A prime passes every round** whose base it does not divide. -/
theorem passes_of_prime {p a s d : Nat} (hp : p.Prime) (hsplit : p - 1 = 2 ^ s * d)
    (ha : ¬ p ∣ a) : Passes p a s d := by
  have : Fact p.Prime := ⟨hp⟩
  have hne : (a : ZMod p) ≠ 0 := fun hzero => ha ((ZMod.natCast_eq_zero_iff a p).mp hzero)
  have hfermat : ((a : ZMod p) ^ d) ^ 2 ^ s = 1 := by
    rw [← pow_mul, mul_comm, ← hsplit, ZMod.pow_card_sub_one_eq_one hne]
  rcases last_square _ s hfermat with hone | ⟨i, hi, hneg⟩
  · refine .inl ((ZMod.natCast_eq_natCast_iff _ _ _).mp ?_)
    rw [Nat.cast_pow, hone, Nat.cast_one]
  · refine .inr ⟨i, hi, (ZMod.natCast_eq_natCast_iff _ _ _).mp ?_⟩
    rw [Nat.cast_pow, Nat.cast_pow, hneg, cast_pred hp.pos]

end PseudoprimeLib
