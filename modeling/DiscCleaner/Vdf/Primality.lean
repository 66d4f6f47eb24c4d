import DiscCleaner.Lib.Primality
import DiscCleaner.Vdf.Wesolowski
import Mathlib.Tactic.NormNum.Prime

/-!
# DiscCleaner — the primality test (`bigint.rs`)

Trial divisions, a table for numbers of at most six bits, and Miller–Rabin rounds in Montgomery
form.

* **`millerRabinRound_iff`** — a round checks what the strong test of its base says.
* **`correct_iff`** — every odd prime passes and every composite below the smallest strong
  pseudoprime of the twelve bases fails, exactly where the number is none of the six-bit primes
  that the table leaves out.
-/

namespace DiscCleaner.Vdf

open BigUint PseudoprimeLib

variable {L : Nat}

/-- What `random_below` returns for the bases of `n`: numbers from 1 on below `n - 1`. -/
def DrawnBelow (n : BigUint L) (extra : List (Option (BigUint L))) : Prop :=
  ∀ a, some a ∈ extra → 1 ≤ a.val ∧ a.val < n.val - 1

/-- What the test is for, at one number. -/
structure TestCorrect [NeZero L] (n : BigUint L) : Prop where
  prime : n.val.Prime → n.val % 2 = 1 → ∀ extra, DrawnBelow n extra →
    isProbablePrime n extra = true
  composite : ∀ psi, (∀ m, StrongPseudoprime m millerRabinBases → psi ≤ m) →
    1 < n.val → ¬ n.val.Prime → n.val < psi → ∀ extra, DrawnBelow n extra →
      isProbablePrime n extra = false

/-- The primes of six bits that the table leaves out. -/
def missedPrimes : List Nat := [41, 43, 47, 53, 59, 61]

/-! ## One round -/

section

variable {ctx : Montgomery L}

theorem eq_iff_of_represents {a b : BigUint L} {x y : Nat} (ha : ctx.Represents a x)
    (hb : ctx.Represents b y) : a = b ↔ x ≡ y [MOD ctx.n.val] := by
  constructor
  · intro heq
    subst heq
    exact ha.modEq_of_eq hb
  · exact fun hmod => ha.eq (hb.congr hmod.symm)

theorem squareToMinusOne_iff {nm1 : BigUint L} {m : Nat} (hm : ctx.Represents nm1 m) (s : Nat)
    {x : BigUint L} {v : Nat} (hx : ctx.Represents x v) :
    squareToMinusOne ctx nm1 s x = true ↔ ∃ i < s, v ^ 2 ^ i ≡ m [MOD ctx.n.val] := by
  induction s generalizing x v with
  | zero => simp [squareToMinusOne]
  | succ s ih =>
    have hpow : ∀ i, v ^ 2 ^ (i + 1) = (v ^ 2) ^ 2 ^ i := by
      intro i
      rw [← pow_mul, pow_succ']
    rw [squareToMinusOne]
    split
    · next heq =>
      refine iff_of_true rfl ⟨0, Nat.succ_pos s, ?_⟩
      rw [pow_zero, pow_one]
      exact (eq_iff_of_represents hx hm).mp heq
    · next hne =>
      rw [ih hx.montSqr]
      constructor
      · intro ⟨i, hi, hmod⟩
        exact ⟨i + 1, by omega, by rwa [hpow]⟩
      · intro ⟨i, hi, hmod⟩
        cases i with
        | zero =>
          rw [pow_zero, pow_one] at hmod
          exact absurd ((eq_iff_of_represents hx hm).mpr hmod) hne
        | succ i => exact ⟨i, by omega, by rwa [← hpow]⟩

/-- **A round is the strong test of its base.** -/
theorem millerRabinRound_iff [NeZero L] (a nm1 d : BigUint L) (s : Nat)
    (hm : nm1.val = ctx.n.val - 1) :
    millerRabinRound ctx (ctx.toMont a) (ctx.toMont nm1) d s = true
      ↔ Passes ctx.n.val a.val s d.val := by
  have hpow := (ctx.represents_toMont a).modpow d
  have hone : ctx.Represents (ctx.toMont one) 1 := by
    simpa using ctx.represents_toMont one
  have hneg : ctx.Represents (ctx.toMont nm1) (ctx.n.val - 1) := hm ▸ ctx.represents_toMont nm1
  rw [millerRabinRound]
  split
  · next heq => exact iff_of_true rfl (.inl ((eq_iff_of_represents hpow hone).mp heq))
  · next hne =>
    rw [squareToMinusOne_iff hneg s hpow]
    refine ⟨.inr, fun h => h.resolve_left fun hmod => ?_⟩
    exact hne ((eq_iff_of_represents hpow hone).mpr hmod)

end

/-! ## The trial divisions -/

section

variable {n : BigUint L}

theorem bits_le_iff (n : BigUint L) (i : Nat) : n.bits ≤ i ↔ n.val < 2 ^ i := by
  refine ⟨lt_of_bits i, fun hlt => ?_⟩
  by_contra hle
  exact absurd (le_of_bits (Nat.lt_of_not_le hle)) (Nat.not_le.mpr hlt)

/-- An odd prime is divided by no smaller prime. -/
theorem passesSmallPrimes_of_prime (hp : n.val.Prime) (hodd : n.val % 2 = 1) :
    passesSmallPrimes n = true := by
  have hn : ¬(n.isZero || !n.isOdd) = true := by
    rw [(isOdd_iff n).2 hodd]
    simpa using hp.ne_zero
  unfold passesSmallPrimes
  rw [if_neg hn, List.all_eq_true]
  intro p hmem
  obtain ⟨htwo, hlt⟩ := le_of_mem_sieveBelow hmem
  rw [Redc.hornerMod_eq (by omega), value_limb]
  by_cases hbits : 20 < n.bits
  · have hlarge : 2 ^ 20 ≤ n.val := le_of_bits hbits
    have hndvd : ¬ p ∣ n.val := by
      intro hdvd
      rcases hp.eq_one_or_self_of_dvd p hdvd with h1 | hself <;> omega
    have hmod : (n.val % p == 0) = false := by
      simpa using fun h0 => hndvd (Nat.dvd_of_mod_eq_zero h0)
    simp [hmod]
  · simp [hbits]

variable [NeZero L]

theorem isProbablePrime_of_passes (h : passesSmallPrimes n = true)
    (extra : List (Option (BigUint L))) : isProbablePrime n extra = millerRabin n extra := by
  rw [isProbablePrime, h]
  rfl

/-! ## Small numbers -/

theorem millerRabin_small (h : n.val < 64) (extra : List (Option (BigUint L))) :
    millerRabin n extra = millerRabinBases.contains n.val := by
  have hlimb : n.limb 0 = n.val := by
    rw [limb, pow_zero, Nat.div_one]
    exact Nat.mod_eq_of_lt (by omega)
  rw [millerRabin, if_pos ((bits_le_iff n 6).mpr (by omega)), hlimb]

theorem contains_iff {v : Nat} (h : v < 64) (hodd : v % 2 = 1) :
    millerRabinBases.contains v = true ↔ v.Prime ∧ v ∉ missedPrimes := by
  unfold missedPrimes millerRabinBases
  interval_cases v <;> first | omega | norm_num

/-! ## Rounds -/

/-- How the test of a number above the table goes. -/
theorem millerRabin_large (h : 64 ≤ n.val) (hodd : n.val % 2 = 1)
    (extra : List (Option (BigUint L))) : ∃ s d, d % 2 = 1 ∧ n.val - 1 = 2 ^ s * d ∧
      (millerRabin n extra = true ↔ (∀ b ∈ millerRabinBases, Passes n.val b s d)
        ∧ ∀ a, some a ∈ extra → 2 < a.val → Passes n.val a.val s d) := by
  obtain ⟨ctx, hctx, hctxn⟩ := Montgomery.new_ok hodd
  obtain ⟨nm1, hnm1, hval⟩ := checkedSub_of_le (a := n) (b := one) (by rw [one_val]; omega)
  rw [one_val] at hval
  obtain ⟨hd, hsplit⟩ := shrN_trailingZeros (a := nm1) (by omega)
  rw [hval] at hsplit
  refine ⟨nm1.trailingZeros, _, hd, hsplit, ?_⟩
  have hbits : ¬ n.bits ≤ 6 := fun hle => absurd ((bits_le_iff n 6).mp hle) (by omega)
  have hround : ∀ a : BigUint L, millerRabinRound ctx (ctx.toMont a) (ctx.toMont nm1)
      (nm1.shrN nm1.trailingZeros) nm1.trailingZeros = true
        ↔ Passes n.val a.val nm1.trailingZeros (nm1.shrN nm1.trailingZeros).val := by
    intro a
    rw [millerRabinRound_iff a nm1 _ _ (by rw [hval, hctxn]), hctxn]
  have hword : ∀ b : Nat, b < 64 → (wrap L b).val = b := fun b hb =>
    wrap_of_lt ((hb.trans (by omega)).trans n.lt)
  have hbase : ∀ b ∈ millerRabinBases, 1 < b ∧ b < 38 := by decide
  rw [millerRabin, if_neg hbits, hctx, hnm1]
  simp only [Bool.and_eq_true, List.all_eq_true, Bool.or_eq_true, bne_iff_ne, ne_eq]
  refine and_congr (forall₂_congr fun b hb => ?_) ⟨fun hall a ha hlt => ?_, fun hall a ha => ?_⟩
  · obtain ⟨h1, h38⟩ := hbase b hb
    have hb64 := hword b (by omega)
    rw [cmpTo_gt, cmpTo_lt, one_val, hval, hb64, hround, hb64]
    exact or_iff_right (by omega)
  · have htwo := hword 2 (by decide)
    have h := hall (some a) ha
    simp only [Bool.or_eq_true, bne_iff_ne, ne_eq, cmpTo_gt, htwo] at h
    exact (hround a).mp (h.resolve_left (not_not_intro hlt))
  · cases a with
    | none => rfl
    | some a =>
      have htwo := hword 2 (by decide)
      simp only [Bool.or_eq_true, bne_iff_ne, ne_eq, cmpTo_gt, htwo]
      by_cases hlt : 2 < a.val
      · exact .inr ((hround a).mpr (hall a ha hlt))
      · exact .inl hlt

/-- **A prime above the table passes**, with every random base. -/
theorem millerRabin_of_prime (hp : n.val.Prime) (h : 64 ≤ n.val) (hodd : n.val % 2 = 1)
    {extra : List (Option (BigUint L))} (hextra : DrawnBelow n extra) :
    millerRabin n extra = true := by
  obtain ⟨s, d, -, hsplit, hiff⟩ := millerRabin_large h hodd extra
  have hbase : ∀ b ∈ millerRabinBases, 1 < b ∧ b < 38 := by decide
  refine hiff.mpr ⟨fun b hb => ?_, fun a ha _ => ?_⟩
  · obtain ⟨h1, h38⟩ := hbase b hb
    exact passes_of_prime hp hsplit fun hdvd => absurd (Nat.le_of_dvd (by omega) hdvd) (by omega)
  · obtain ⟨h1, hlt⟩ := hextra a ha
    exact passes_of_prime hp hsplit fun hdvd => absurd (Nat.le_of_dvd h1 hdvd) (by omega)

/-- **A composite that passes deceives all twelve bases.** -/
theorem strongPseudoprime_of_millerRabin (hp : ¬ n.val.Prime) (h : 64 ≤ n.val)
    (hodd : n.val % 2 = 1) {extra : List (Option (BigUint L))} (hpass : millerRabin n extra = true) :
    StrongPseudoprime n.val millerRabinBases := by
  obtain ⟨s, d, hd, hsplit, hiff⟩ := millerRabin_large h hodd extra
  exact ⟨by omega, hodd, hp, fun b hb => ⟨s, d, hd, hsplit, (hiff.mp hpass).1 b hb⟩⟩

/-! ## The test -/

/-- What the test says of a composite: nothing passes but a strong pseudoprime. -/
theorem isProbablePrime_of_composite {extra : List (Option (BigUint L))} (hp : ¬ n.val.Prime)
    (hpass : isProbablePrime n extra = true) : StrongPseudoprime n.val millerRabinBases := by
  cases hsmall : passesSmallPrimes n with
  | false =>
    rw [isProbablePrime, hsmall] at hpass
    exact absurd hpass Bool.false_ne_true
  | true =>
    have hodd := odd_of_passesSmallPrimes hsmall
    rw [isProbablePrime_of_passes hsmall] at hpass
    rcases Nat.lt_or_ge n.val 64 with hlt | hge
    · rw [millerRabin_small hlt] at hpass
      exact absurd ((contains_iff hlt hodd).mp hpass).1 hp
    · exact strongPseudoprime_of_millerRabin hp hge hodd hpass

end

/-- **The test is right exactly off the primes its table leaves out.** -/
theorem testCorrect_iff [NeZero L] (n : BigUint L) : TestCorrect n ↔ n.val ∉ missedPrimes := by
  constructor
  · intro hcorrect hmem
    have hmissed : n.val < 64 ∧ n.val % 2 = 1 ∧ n.val.Prime := by
      simp only [missedPrimes, List.mem_cons, List.not_mem_nil, or_false] at hmem
      rcases hmem with h | h | h | h | h | h <;> rw [h] <;> norm_num
    obtain ⟨hlt, hodd, hp⟩ := hmissed
    have hpass := hcorrect.prime hp hodd [] (fun a ha => absurd ha List.not_mem_nil)
    rw [isProbablePrime_of_passes (passesSmallPrimes_of_prime hp hodd), millerRabin_small hlt] at hpass
    exact ((contains_iff hlt hodd).mp hpass).2 hmem
  · intro hmissed
    refine ⟨fun hp hodd extra hextra => ?_, fun psi hpsi _ hp hlt extra _ => ?_⟩
    · rw [isProbablePrime_of_passes (passesSmallPrimes_of_prime hp hodd)]
      rcases Nat.lt_or_ge n.val 64 with hlt | hge
      · rw [millerRabin_small hlt]
        exact (contains_iff hlt hodd).mpr ⟨hp, hmissed⟩
      · exact millerRabin_of_prime hp hge hodd hextra
    · refine Bool.eq_false_iff.mpr fun hpass => ?_
      exact absurd (hpsi _ (isProbablePrime_of_composite hp hpass)) (by omega)

theorem ninety_seven_tested : TestCorrect (wrap 1 97) := (testCorrect_iff (wrap 1 97)).mpr (by decide)

/-- The prime 41 is rejected. -/
theorem forty_one_rejected : Nat.Prime (wrap 1 41).val ∧ (wrap 1 41).val % 2 = 1
    ∧ isProbablePrime (wrap 1 41) [] = false := by
  have hval : (wrap 1 41).val = 41 := wrap_of_lt (by decide)
  have hp : Nat.Prime 41 := by norm_num
  refine ⟨hval ▸ hp, by decide, ?_⟩
  rw [isProbablePrime_of_passes (passesSmallPrimes_of_prime (hval ▸ hp) (by decide)),
    millerRabin_small (by decide)]
  decide

end DiscCleaner.Vdf
