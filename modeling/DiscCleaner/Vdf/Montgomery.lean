import DiscCleaner.Vdf.BigUint
import Mathlib.Data.UInt

/-!
# DiscCleaner — Montgomery arithmetic (`bigint.rs`)

The context of an odd modulus `n` carries what its constructor establishes. `Represents a x` says
that the residue `a` is the Montgomery form of `x`.
-/

namespace DiscCleaner.Vdf

/-- `-n⁻¹ mod 2^64` for odd `n`, in six Newton steps. -/
def montInv64 (n : UInt64) : UInt64 := -((fun inv => inv * (2 - n * inv))^[6] 1)

section

open scoped UInt64.CommRing

theorem two_pow_word : (2 : UInt64) ^ 64 = 0 := by decide +kernel

/-- The error `1 - n` is even, so six squarings of it leave nothing of 64 bits. -/
theorem mul_montInv64 {n : UInt64} (h : n.toNat % 2 = 1) : n * montInv64 n = -1 := by
  have hn : n = 2 * (n / 2) + 1 := by
    rw [← UInt64.toNat_inj]
    have := n.toNat_lt
    simp
    omega
  have hnewton : montInv64 n = -((Redc.newton n)^[6] 1) := rfl
  have heven : 1 - n * 1 = 2 * -(n / 2) := by
    rw [mul_one]
    conv_lhs => rw [hn]
    ring
  have hexp : 2 ^ 6 = 64 := by decide
  have herr : 1 - n * (Redc.newton n)^[6] 1 = 0 := by
    rw [Redc.newton_iterate_error, heven, hexp, mul_pow, two_pow_word, zero_mul]
  calc n * montInv64 n = -(n * (Redc.newton n)^[6] 1) := by rw [hnewton]; ring
    _ = -1 := by rw [← sub_eq_zero.1 herr]

theorem montInv64_spec {n : UInt64} (h : n.toNat % 2 = 1) :
    (n.toNat * (montInv64 n).toNat + 1) % 2 ^ 64 = 0 := by
  have hzero : n * montInv64 n + 1 = 0 := by rw [mul_montInv64 h]; ring
  simpa using congrArg UInt64.toNat hzero

end

/-- The context of an odd modulus. -/
structure Montgomery (L : Nat) where
  n : BigUint L
  n0inv : UInt64
  /-- `R² mod n`. -/
  r2 : BigUint L
  n_odd : n.val % 2 = 1
  n0inv_spec : (n.val * n0inv.toNat + 1) % 2 ^ 64 = 0
  r2_le : r2.val ≤ n.val
  r2_spec : r2.val ≡ 2 ^ (64 * L) * 2 ^ (64 * L) [MOD n.val]

namespace Montgomery

open BigUint

variable {L : Nat}

/-- The lowest limb of a number. -/
def lowLimb (n : BigUint L) : UInt64 := UInt64.ofNat (n.limb 0)

theorem lowLimb_toNat (n : BigUint L) : (lowLimb n).toNat = n.val % 2 ^ 64 := by
  simp [lowLimb, limb]

theorem lowLimb_inv {n : BigUint L} (h : n.val % 2 = 1) :
    (n.val * (montInv64 (lowLimb n)).toNat + 1) % 2 ^ 64 = 0 := by
  have hlow : (lowLimb n).toNat % 2 = 1 := by rw [lowLimb_toNat]; omega
  have hspec := montInv64_spec hlow
  rw [lowLimb_toNat] at hspec
  rw [Nat.add_mod, Nat.mul_mod]
  rwa [Nat.add_mod, Nat.mul_mod, Nat.mod_mod] at hspec

theorem r2_of_odd [NeZero L] {n : BigUint L} (h : n.val % 2 = 1) :
    ((fun v => v.modDouble n)^[128 * L] one).val ≤ n.val
      ∧ ((fun v => v.modDouble n)^[128 * L] one).val ≡ 2 ^ (64 * L) * 2 ^ (64 * L) [MOD n.val] := by
  have hpow : 2 ^ (128 * L) * 1 = 2 ^ (64 * L) * 2 ^ (64 * L) := by
    rw [mul_one, ← pow_add]
    congr 1
    omega
  have hiter := modDouble_iterate (a := one) (n := n) (by rw [one_val]; omega) (128 * L)
  rwa [one_val, hpow] at hiter

def new [NeZero L] (n : BigUint L) : Except String (Montgomery L) :=
  if h : n.isZero = true ∨ ¬ n.isOdd = true then
    .error "Montgomery modulus must be odd and non-zero"
  else
    have hodd : n.val % 2 = 1 := (isOdd_iff n).1 (Decidable.of_not_not (not_or.1 h).2)
    .ok {
      n := n
      n0inv := montInv64 (lowLimb n)
      r2 := (fun v => v.modDouble n)^[128 * L] one
      n_odd := hodd
      n0inv_spec := lowLimb_inv hodd
      r2_le := (r2_of_odd hodd).1
      r2_spec := (r2_of_odd hodd).2 }

theorem new_ok [NeZero L] {n : BigUint L} (h : n.val % 2 = 1) :
    ∃ ctx, new n = .ok ctx ∧ ctx.n = n := by
  have hok : ¬(n.isZero = true ∨ ¬ n.isOdd = true) := by
    simp only [isZero_iff, isOdd_iff, not_or, not_not]
    exact ⟨by omega, h⟩
  exact ⟨_, dif_neg hok, rfl⟩

theorem new_eq_ok [NeZero L] {n : BigUint L} {ctx : Montgomery L} (h : new n = .ok ctx) :
    ctx.n = n := by
  unfold new at h
  split at h
  · exact absurd h (by simp)
  · exact (Except.ok.inj h) ▸ rfl

variable (ctx : Montgomery L)

/-- The word-serial Montgomery product: `redc` is the accumulator of the source after the words
of `a`, and its word `L` is the carry of the last reduction. -/
def montMul (a b : BigUint L) : BigUint L :=
  let t := Redc.redc (2 ^ 64) ctx.n.val ctx.n0inv.toNat a.limb b.val L
  reduceOnce (wrap L t) (t / 2 ^ (64 * L)) ctx.n

def montSqr (a : BigUint L) : BigUint L := ctx.montMul a a

def toMont (a : BigUint L) : BigUint L := ctx.montMul a ctx.r2

def fromMont (a : BigUint L) : BigUint L := ctx.montMul a one

/-- The turns of `modpow` for the exponent bits below `i`, highest first. -/
def powLoop (base exp : BigUint L) : Nat → BigUint L → BigUint L
  | 0, acc => acc
  | i + 1, acc =>
    let acc := ctx.montSqr acc
    powLoop base exp i (if exp.bit i then ctx.montMul acc base else acc)

def modpow (base exp : BigUint L) : BigUint L :=
  if exp.isZero then ctx.toMont one
  else ctx.powLoop base exp exp.bits (ctx.toMont one)

/-- Is the caller polled before turn `i`? -/
def pollsAt (i : Nat) : Bool := i &&& 0xFFFFF == 0

/-- The `k` turns of `repeat_square` from turn `i` on. The answers of the callback are `answer`,
of which `polls` are used; one that is false ends the loop. -/
def squareLoop (answer : Nat → Bool) : Nat → Nat → Nat → BigUint L → BigUint L × Nat
  | 0, _, polls, acc => (acc, polls)
  | k + 1, i, polls, acc =>
    if pollsAt i then
      if answer polls then squareLoop answer k (i + 1) (polls + 1) (ctx.montSqr acc)
      else (acc, polls + 1)
    else squareLoop answer k (i + 1) polls (ctx.montSqr acc)

def repeatSquare (xMont : BigUint L) (steps : UInt64) (answer : Nat → Bool) : BigUint L × Nat :=
  ctx.squareLoop answer steps.toNat 0 0 xMont

/-! ## Products -/

theorem n_pos : 0 < ctx.n.val := by
  have := ctx.n_odd
  omega

theorem coprime_width : Nat.Coprime ctx.n.val (2 ^ (64 * L)) :=
  Nat.Coprime.pow_right _ (Nat.coprime_two_right.2 (Nat.odd_iff.2 ctx.n_odd))

theorem montMul_lt (a : BigUint L) {b : BigUint L} (hb : b.val ≤ ctx.n.val) :
    (ctx.montMul a b).val < ctx.n.val := by
  have hlt : Redc.redc (2 ^ 64) ctx.n.val ctx.n0inv.toNat a.limb b.val L < ctx.n.val + b.val :=
    Redc.redc_lt (by decide) a.limb_lt ctx.n_pos L
  unfold montMul
  rw [reduceOnce_val (by omega)]
  split <;> omega

/-- The product of two residues is theirs over `R`. -/
theorem montMul_modEq (a : BigUint L) {b : BigUint L} (hb : b.val ≤ ctx.n.val) :
    2 ^ (64 * L) * (ctx.montMul a b).val ≡ a.val * b.val [MOD ctx.n.val] := by
  have hlt : Redc.redc (2 ^ 64) ctx.n.val ctx.n0inv.toNat a.limb b.val L < ctx.n.val + b.val :=
    Redc.redc_lt (by decide) a.limb_lt ctx.n_pos L
  have hmod := Redc.redc_modEq ctx.n0inv_spec a.limb b.val L
  rw [value_limb, ← pow_mul] at hmod
  unfold montMul
  rw [reduceOnce_val (by omega)]
  exact ((modEq_reduce _ _).mul_left _).trans hmod

/-- `a` is the Montgomery form of `x`. -/
structure Represents (a : BigUint L) (x : Nat) : Prop where
  lt : a.val < ctx.n.val
  modEq : a.val ≡ 2 ^ (64 * L) * x [MOD ctx.n.val]

variable {ctx}

theorem Represents.congr {a : BigUint L} {x y : Nat} (h : ctx.Represents a x)
    (hxy : x ≡ y [MOD ctx.n.val]) : ctx.Represents a y :=
  ⟨h.lt, h.modEq.trans (hxy.mul_left _)⟩

/-- A number has one Montgomery form. -/
theorem Represents.eq {a b : BigUint L} {x : Nat} (ha : ctx.Represents a x)
    (hb : ctx.Represents b x) : a = b :=
  BigUint.ext ((ha.modEq.trans hb.modEq.symm).eq_of_lt_of_lt ha.lt hb.lt)

theorem Represents.modEq_of_eq {a : BigUint L} {x y : Nat} (hx : ctx.Represents a x)
    (hy : ctx.Represents a y) : x ≡ y [MOD ctx.n.val] :=
  Nat.ModEq.cancel_left_of_coprime ctx.coprime_width (hx.modEq.symm.trans hy.modEq)

theorem represents_toMont (ctx : Montgomery L) (a : BigUint L) : ctx.Represents (ctx.toMont a) a.val := by
  refine ⟨ctx.montMul_lt a ctx.r2_le, Nat.ModEq.cancel_left_of_coprime ctx.coprime_width ?_⟩
  calc 2 ^ (64 * L) * (ctx.toMont a).val
      ≡ a.val * ctx.r2.val [MOD ctx.n.val] := ctx.montMul_modEq a ctx.r2_le
    _ ≡ a.val * (2 ^ (64 * L) * 2 ^ (64 * L)) [MOD ctx.n.val] := ctx.r2_spec.mul_left _
    _ = 2 ^ (64 * L) * (2 ^ (64 * L) * a.val) := by ring

theorem Represents.montMul {a b : BigUint L} {x y : Nat} (ha : ctx.Represents a x)
    (hb : ctx.Represents b y) : ctx.Represents (ctx.montMul a b) (x * y) := by
  refine ⟨ctx.montMul_lt a hb.lt.le, Nat.ModEq.cancel_left_of_coprime ctx.coprime_width ?_⟩
  calc 2 ^ (64 * L) * (ctx.montMul a b).val
      ≡ a.val * b.val [MOD ctx.n.val] := ctx.montMul_modEq a hb.lt.le
    _ ≡ 2 ^ (64 * L) * x * (2 ^ (64 * L) * y) [MOD ctx.n.val] := ha.modEq.mul hb.modEq
    _ = 2 ^ (64 * L) * (2 ^ (64 * L) * (x * y)) := by ring

theorem Represents.montSqr {a : BigUint L} {x : Nat} (ha : ctx.Represents a x) :
    ctx.Represents (ctx.montSqr a) (x ^ 2) := by
  rw [pow_two]
  exact ha.montMul ha

/-- Back in normal form the residue is the number modulo `n`. -/
theorem Represents.fromMont [NeZero L] {a : BigUint L} {x : Nat} (ha : ctx.Represents a x) :
    (ctx.fromMont a).val = x % ctx.n.val := by
  have hone : (one : BigUint L).val ≤ ctx.n.val := by
    rw [one_val]
    exact ctx.n_pos
  have hmod : (ctx.fromMont a).val ≡ x [MOD ctx.n.val] := by
    refine Nat.ModEq.cancel_left_of_coprime ctx.coprime_width ?_
    calc 2 ^ (64 * L) * (ctx.fromMont a).val
        ≡ a.val * (one : BigUint L).val [MOD ctx.n.val] := ctx.montMul_modEq a hone
      _ = a.val := by rw [one_val, mul_one]
      _ ≡ 2 ^ (64 * L) * x [MOD ctx.n.val] := ha.modEq
  have hlt : (ctx.fromMont a).val < ctx.n.val := ctx.montMul_lt a hone
  rw [← hmod, Nat.mod_eq_of_lt hlt]

/-! ## Powers -/

/-- What the bits above `i` leave, the bits below finish. -/
theorem Represents.powLoop {base exp acc : BigUint L} {x : Nat} (hbase : ctx.Represents base x)
    (i : Nat) (hacc : ctx.Represents acc (x ^ (exp.val / 2 ^ i))) :
    ctx.Represents (ctx.powLoop base exp i acc) (x ^ exp.val) := by
  induction i generalizing acc with
  | zero => simpa [Montgomery.powLoop] using hacc
  | succ i ih =>
    refine ih ?_
    have hsqr := hacc.montSqr
    rw [Redc.div_two_pow exp.val i, bit_eq, pow_add, mul_comm 2, pow_mul]
    cases exp.val.testBit i with
    | false => simpa using hsqr
    | true => simpa using hsqr.montMul hbase

theorem Represents.modpow [NeZero L] {base : BigUint L} {x : Nat} (hbase : ctx.Represents base x)
    (exp : BigUint L) : ctx.Represents (ctx.modpow base exp) (x ^ exp.val) := by
  have hone : ctx.Represents (ctx.toMont one) 1 := by
    simpa using ctx.represents_toMont one
  unfold Montgomery.modpow
  split
  · next h =>
    rw [(isZero_iff exp).1 h, pow_zero]
    exact hone
  · refine hbase.powLoop exp.bits ?_
    rw [Nat.div_eq_of_lt (lt_of_bits exp.bits le_rfl), pow_zero]
    exact hone

/-! ## Repeated squaring -/

/-- The polls of the first `i` turns. -/
def polls (i : Nat) : Nat := (i + 0xFFFFF) / 2 ^ 20

theorem polls_succ (i : Nat) : polls (i + 1) = if pollsAt i then polls i + 1 else polls i := by
  have hand : i &&& 0xFFFFF = i % 2 ^ 20 := Nat.and_two_pow_sub_one_eq_mod i 20
  unfold pollsAt polls
  rw [hand]
  by_cases h : i % 2 ^ 20 = 0
  · simp only [h, beq_self_eq_true, if_true]
    omega
  · rw [if_neg (by simpa using h)]
    omega

theorem polls_mono {i j : Nat} (h : i ≤ j) : polls i ≤ polls j :=
  Nat.div_le_div_right (Nat.add_le_add_right h _)

/-- A turn that polls is among the polls of any later turn. -/
theorem polls_lt {i j : Nat} (hpoll : pollsAt i = true) (h : i < j) : polls i < polls j := by
  have hle := polls_mono h
  rwa [Nat.succ_eq_add_one, polls_succ, if_pos hpoll] at hle

/-- **A loop whose polls are all answered runs to its end.** -/
theorem squareLoop_of_answered (ctx : Montgomery L) {answer : Nat → Bool} {p : Nat} (k i : Nat)
    (hyes : ∀ j < polls (i + k), answer (p + j) = true) (acc : BigUint L) :
    ctx.squareLoop answer k i (p + polls i) acc = (ctx.montSqr^[k] acc, p + polls (i + k)) := by
  induction k generalizing i acc with
  | zero =>
    rw [Nat.add_zero]
    rfl
  | succ k ih =>
    have hend : i + 1 + k = i + (k + 1) := by omega
    have hstep := ih (i + 1) (by rwa [hend]) (ctx.montSqr acc)
    rw [polls_succ, hend] at hstep
    unfold squareLoop
    rw [Function.iterate_succ_apply]
    split
    · next hpoll =>
      have hlt : polls i < polls (i + (k + 1)) := polls_lt hpoll (by omega)
      rw [if_pos hpoll, ← Nat.add_assoc] at hstep
      rw [if_pos (hyes _ hlt)]
      exact hstep
    · next hpoll =>
      rw [if_neg hpoll] at hstep
      exact hstep

theorem Represents.montSqr_iterate {a : BigUint L} {x : Nat} (ha : ctx.Represents a x) (k : Nat) :
    ctx.Represents (ctx.montSqr^[k] a) (x ^ 2 ^ k) := by
  induction k with
  | zero => simpa using ha
  | succ k ih =>
    rw [Function.iterate_succ_apply', pow_succ, pow_mul]
    exact ih.montSqr

end Montgomery

end DiscCleaner.Vdf
