import DiscCleaner.Core.Record
import DiscCleaner.Vdf.Montgomery
import Mathlib.Data.Nat.Prime.Defs

/-!
# DiscCleaner — one link of the delay chain (`bigint.rs`, `vdf.rs`)

A link `base --(2^steps)--> y` is proved by `π = base^⌊2^steps/ℓ⌋`, computed while `2^steps` is
divided by the challenge prime `ℓ`, and checked by `y = π^ℓ · base^(2^steps mod ℓ)`. SHA-256 and
the random values of the last primality rounds are parameters.
-/

namespace DiscCleaner.Vdf

open ByteLib BigUint

/-! ## Primality -/

/-- The sieve after the multiples of `i` from `i * i` on are struck. -/
def strike (sieve : Nat → Bool) (i : Nat) : Nat → Bool := fun j =>
  if i * i ≤ j ∧ (j - i * i) % i = 0 then false else sieve j

/-- The sieve after some turns. -/
def sieveTurns (is : List Nat) : Nat → Bool :=
  is.foldl (fun sieve i => if sieve i then strike sieve i else sieve) fun j => j ≠ 0 ∧ j ≠ 1

/-- What the turns leave below `n`. -/
def sieveBelow (n : Nat) (is : List Nat) : List Nat := (List.range n).filter (sieveTurns is)

/-- The sieve below 65536: its turns are `i = 2 .. 255`. -/
def smallPrimes : List Nat := sieveBelow 65536 (List.range' 2 254)

/-- Trial division: `false` for a number that is surely composite. -/
def passesSmallPrimes {L : Nat} (n : BigUint L) : Bool :=
  if n.isZero || !n.isOdd then false
  else smallPrimes.all fun p => p == 2 || !(Redc.hornerMod (2 ^ 64) p n.limb L 0 == 0 && 20 < n.bits)

/-- The turns of a Miller–Rabin round that square `x` on. -/
def squareToMinusOne {L : Nat} (ctx : Montgomery L) (nm1 : BigUint L) : Nat → BigUint L → Bool
  | 0, _ => false
  | s + 1, x => if x = nm1 then true else squareToMinusOne ctx nm1 s (ctx.montSqr x)

def millerRabinRound {L : Nat} (ctx : Montgomery L) (aMont nm1 d : BigUint L) (s : Nat) : Bool :=
  let x := ctx.modpow aMont d
  if x = ctx.toMont one then true else squareToMinusOne ctx nm1 s x

def millerRabinBases : List Nat := [2, 3, 5, 7, 11, 13, 17, 19, 23, 29, 31, 37]

/-- Miller–Rabin after the trial divisions: twelve fixed bases and those drawn at random, of which
`none` is a failed source of entropy. -/
def millerRabin {L : Nat} [NeZero L] (n : BigUint L) (extra : List (Option (BigUint L))) : Bool :=
  if n.bits ≤ 6 then millerRabinBases.contains (n.limb 0)
  else
    match Montgomery.new n, n.checkedSub one with
    | .ok ctx, some nm1 =>
      let s := nm1.trailingZeros
      let d := nm1.shrN s
      let round := fun a => millerRabinRound ctx (ctx.toMont a) (ctx.toMont nm1) d s
      (millerRabinBases.all fun b =>
          let a := wrap L b
          a.cmpTo one != .gt || a.cmpTo nm1 != .lt || round a)
        && extra.all fun
          | some a => a.cmpTo (wrap L 2) != .gt || round a
          | none => true
    | _, _ => false

def isProbablePrime {L : Nat} [NeZero L] (n : BigUint L) (extra : List (Option (BigUint L))) :
    Bool :=
  if !passesSmallPrimes n then false else millerRabin n extra

/-- What eight calls of `random_below` return in the test of a candidate. -/
structure Entropy where
  draw : BigUint 2 → Fin 8 → Option (BigUint 2)
  below : ∀ c i a, draw c i = some a → 1 ≤ a.val ∧ a.val + 1 < c.val

/-- The hash of a link's transcript. -/
abbrev Sha256 := Bytes → Digest

/-- Search a prime from `c` on by steps of two; `none` is the panic of a search that fails. -/
def primeSearch (entropy : Entropy) : Nat → BigUint 2 → Option (BigUint 2)
  | 0, _ => none
  | k + 1, c =>
    if passesSmallPrimes c && isProbablePrime c (List.ofFn (entropy.draw c)) then some c
    else
      match c.checkedAdd (wrap 2 2) with
      | none => none
      | some c => primeSearch entropy k c

/-- The first 16 bytes of a digest with the top bit and the lowest bit set. -/
def candidate (digest : Digest) : BigUint 2 :=
  let cand := digest.bytes.take 16
  fromBytesBe (cand.mapIdx fun i b => if i = 0 then b ||| 0x80 else if i = 15 then b ||| 1 else b)

/-- The challenge prime of a transcript. -/
def hashToPrime (sha256 : Sha256) (entropy : Entropy) (transcript : Bytes) : Option (BigUint 2) :=
  primeSearch entropy (2 ^ 22) (candidate (sha256 (utf8 "dc-vdf/challenge/v1" ++ transcript)))

/-! ## Proof and verification -/

structure LinkProof where
  steps : UInt64
  y : Bytes
  pi : Bytes
  challenge : BigUint 2
  deriving DecidableEq

inductive VdfError where
  | badModulus (bits : Nat)
  | badChallenge
  | range (msg : String)
  | parse (msg : String)
  deriving DecidableEq

def be64 (v : UInt64) : Bytes := (ByteLib.Block.ofNat 8 v.toNat).bytes

/-- `N ‖ base ‖ steps ‖ y`. -/
def transcript {L : Nat} (n base : BigUint L) (steps : UInt64) (y : BigUint L) : Bytes :=
  n.toBytesBe ++ base.toBytesBe ++ be64 steps ++ y.toBytesBe

section Prover

variable {L : Nat} [NeZero L]

/-- The `k` turns of the division of `2^steps` by `l` from turn `i` on; an unanswered poll is an
error and `none` a panic. -/
def proveLoop (ctx : Montgomery L) (base : BigUint L) (l3 : BigUint 3) (answer : Nat → Bool) :
    Nat → Nat → Nat → BigUint L → BigUint 3 → Option (Except VdfError (BigUint L) × Nat)
  | 0, _, polls, acc, _ => some (.ok acc, polls)
  | k + 1, i, polls, acc, rem =>
    if Montgomery.pollsAt i && !answer polls then
      some (.error (.range "VDF proof generation cancelled — run refuses to certify"), polls + 1)
    else
      let polls := if Montgomery.pollsAt i then polls + 1 else polls
      let acc := ctx.montSqr acc
      let rem := rem.shl1.1
      if rem.cmpTo l3 ≠ .lt then
        match rem.checkedSub l3 with
        | none => none
        | some rem =>
          proveLoop ctx base l3 answer k (i + 1) polls (ctx.montMul acc (ctx.toMont base)) rem
      else proveLoop ctx base l3 answer k (i + 1) polls acc rem

/-- Prove a link; `polls` of the callback's answers are used already. -/
def proveLink (sha256 : Sha256) (entropy : Entropy) (ctx : Montgomery L) (base y : BigUint L)
    (steps : UInt64) (answer : Nat → Bool) (polls : Nat) : Option (Except VdfError LinkProof) :=
  let n := ctx.n
  if base.cmpTo n ≠ .lt ∨ base.isZero = true then
    some (.error (.range "base must be in [1, N)"))
  else if y.cmpTo n ≠ .lt then some (.error (.range "y must be < N"))
  else
    match hashToPrime sha256 entropy (transcript n base steps y) with
    | none => none
    | some l =>
      match proveLoop ctx base (wrap 3 l.val) answer steps.toNat 0 polls (ctx.toMont one) one with
      | none => none
      | some (.error e, _) => some (.error e)
      | some (.ok acc, _) =>
        some (.ok {
          steps := steps
          y := y.toBytesBe
          pi := (ctx.fromMont acc).toBytesBe
          challenge := l })

def verifyLink (ctx : Montgomery L) (base y : BigUint L) (steps : UInt64) (pi : BigUint L)
    (l : BigUint 2) : Bool :=
  let n := ctx.n
  if base.isZero || pi.isZero then false
  else if base.cmpTo n ≠ .lt ∨ y.cmpTo n ≠ .lt ∨ pi.cmpTo n ≠ .lt then false
  else if (base.binaryGcd n).cmpTo one ≠ .eq then false
  else if l.limb 1 / 2 ^ 63 ≠ 1 then false
  else
    match l.checkedSub one, Montgomery.new l with
    | some _, .ok small =>
      let stepsB := fromBytesBe (be64 steps)
      let two := wrap 2 2
      let rSmall := small.fromMont (small.modpow (small.toMont two) stepsB)
      let lBig := wrap L l.val
      let rBig := wrap L rSmall.val
      let baseM := ctx.toMont base
      let piM := ctx.toMont pi
      let lhs := ctx.montMul (ctx.modpow piM lBig) (ctx.modpow baseM rBig)
      ctx.fromMont lhs == y
    | _, _ => false

end Prover

/-! ## The challenge -/

theorem primeSearch_eq_some {entropy : Entropy} {k : Nat} {c l : BigUint 2}
    (h : primeSearch entropy k c = some l) : passesSmallPrimes l = true ∧ c.val ≤ l.val := by
  induction k generalizing c with
  | zero => exact absurd h (by simp [primeSearch])
  | succ k ih =>
    unfold primeSearch at h
    split at h
    · next hpass =>
      obtain rfl := Option.some.inj h
      exact ⟨(Bool.and_eq_true_iff.1 hpass).1, le_rfl⟩
    · unfold checkedAdd at h
      split at h
      · exact absurd h (by simp)
      · next c' hc =>
        split at hc
        · obtain rfl := Option.some.inj hc
          exact ⟨(ih h).1, (Nat.le_add_right _ _).trans (ih h).2⟩
        · exact absurd hc (by simp)

theorem le_candidate (digest : Digest) : 2 ^ 127 ≤ (candidate digest).val := by
  have hlen : (digest.bytes.take 16).length = 16 := by rw [List.length_take, digest.size]; rfl
  obtain ⟨b, rest, hcons⟩ := List.exists_cons_of_ne_nil (List.ne_nil_of_length_eq_add_one hlen)
  have hrest : rest.length = 15 := by
    rw [hcons, List.length_cons] at hlen
    omega
  have htop : ∀ b : UInt8, 128 ≤ (b ||| 0x80).toNat := by
    intro b
    rw [UInt8.toNat_or]
    exact Nat.right_le_or
  unfold candidate
  simp only [hcons, List.mapIdx_cons, if_true]
  rw [fromBytesBe, wrap_of_lt]
  · rw [ofBytes_cons, List.length_mapIdx, hrest]
    calc 2 ^ 127 = 128 * 256 ^ 15 := by norm_num
      _ ≤ (b ||| 0x80).toNat * 256 ^ 15 := Nat.mul_le_mul_right _ (htop b)
      _ ≤ _ := Nat.le_add_right _ _
  · refine (ofBytes_lt _).trans_eq ?_
    rw [List.length_cons, List.length_mapIdx, hrest]
    rfl

/-- A challenge has its top bit set and passes the trial divisions. -/
theorem hashToPrime_eq_some {sha256 : Sha256} {entropy : Entropy} {t : Bytes} {l : BigUint 2}
    (h : hashToPrime sha256 entropy t = some l) :
    passesSmallPrimes l = true ∧ 2 ^ 127 ≤ l.val := by
  unfold hashToPrime at h
  obtain ⟨hpass, hle⟩ := primeSearch_eq_some h
  exact ⟨hpass, (le_candidate _).trans hle⟩

theorem odd_of_passesSmallPrimes {L : Nat} {n : BigUint L} (h : passesSmallPrimes n = true) :
    n.val % 2 = 1 := by
  unfold passesSmallPrimes at h
  split at h
  · exact absurd h Bool.false_ne_true
  · next hn =>
    have hodd : n.isOdd = true := by
      by_contra hnot
      exact hn (by rw [Bool.eq_false_of_not_eq_true hnot]; simp)
    exact (isOdd_iff n).1 hodd

/-- Striking multiples spares the primes. -/
theorem strike_prime {p i : Nat} (hp : p.Prime) (hi : 2 ≤ i) (sieve : Nat → Bool) :
    strike sieve i p = sieve p := by
  unfold strike
  rw [if_neg]
  rintro ⟨hle, hmod⟩
  have hdvd : i ∣ p := by
    have := (Nat.dvd_add_right (Nat.dvd_mul_left i i)).2 (Nat.dvd_of_mod_eq_zero hmod)
    rwa [Nat.add_sub_cancel' hle] at this
  have hip : i = p := (hp.eq_one_or_self_of_dvd i hdvd).resolve_left (by omega)
  subst hip
  have : i * 2 ≤ i * i := Nat.mul_le_mul_left i hi
  omega

theorem foldl_strike_prime {p : Nat} (hp : p.Prime) (is : List Nat) (his : ∀ i ∈ is, 2 ≤ i)
    (sieve : Nat → Bool) :
    (is.foldl (fun sieve i => if sieve i then strike sieve i else sieve) sieve) p = sieve p := by
  induction is generalizing sieve with
  | nil => rfl
  | cons i is ih =>
    rw [List.foldl_cons, ih (fun j hj => his j (List.mem_cons_of_mem i hj))]
    split
    · exact strike_prime hp (his i List.mem_cons_self) sieve
    · rfl

theorem mem_sieveBelow_of_prime {p n : Nat} {is : List Nat} (hp : p.Prime) (hlt : p < n)
    (his : ∀ i ∈ is, 2 ≤ i) : p ∈ sieveBelow n is := by
  refine List.mem_filter.2 ⟨List.mem_range.2 hlt, ?_⟩
  rw [sieveTurns, foldl_strike_prime hp is his]
  simp [hp.ne_zero, hp.ne_one]

theorem mem_smallPrimes_of_prime {p : Nat} (hp : p.Prime) (hlt : p < 65536) : p ∈ smallPrimes :=
  mem_sieveBelow_of_prime hp hlt fun _ hi => (List.mem_range'_1.1 hi).1

/-- A number of more than 20 bits with a small odd prime factor is screened out. -/
theorem passesSmallPrimes_of_dvd {L : Nat} [NeZero L] {n : BigUint L} {p : Nat} (hp : p.Prime)
    (hlt : p < 65536) (hodd : p ≠ 2) (hdvd : p ∣ n.val) (hbits : 20 < n.bits) :
    passesSmallPrimes n = false := by
  unfold passesSmallPrimes
  split
  · rfl
  · rw [List.all_eq_false]
    refine ⟨p, mem_smallPrimes_of_prime hp hlt, ?_⟩
    have hzero : Redc.hornerMod (2 ^ 64) p n.limb L 0 = 0 := by
      rw [Redc.hornerMod_eq hp.pos, value_limb]
      exact Nat.mod_eq_zero_of_dvd hdvd
    rw [hzero]
    simp [hodd, hbits]

/-- The product of `2^k` numbers from `lo` on in steps of two. -/
def stepProduct : Nat → Nat → Nat
  | 0, lo => lo
  | k + 1, lo => stepProduct k lo * stepProduct k (lo + 2 ^ (k + 1))

theorem dvd_stepProduct {k lo p : Nat} (hlo : lo ≤ p) (hp : p < lo + 2 ^ (k + 1))
    (hparity : p % 2 = lo % 2) : p ∣ stepProduct k lo := by
  induction k generalizing lo with
  | zero =>
    obtain rfl : p = lo := by omega
    exact dvd_rfl
  | succ k ih =>
    have hdouble : 2 ^ (k + 1 + 1) = 2 ^ (k + 1) + 2 ^ (k + 1) := by ring
    have heven : 2 ^ (k + 1) % 2 = 0 := by rw [pow_succ, Nat.mul_mod_left]
    unfold stepProduct
    rcases Nat.lt_or_ge p (lo + 2 ^ (k + 1)) with hlt | hge
    · exact Dvd.dvd.mul_right (ih hlo hlt hparity) _
    · exact Dvd.dvd.mul_left (ih hge (by omega) (by omega)) _

theorem le_of_mem_sieveBelow {p n : Nat} {is : List Nat} (h : p ∈ sieveBelow n is) :
    2 ≤ p ∧ p < n := by
  obtain ⟨hrange, hsieve⟩ := List.mem_filter.1 h
  refine ⟨?_, List.mem_range.1 hrange⟩
  have hmono : ∀ (is : List Nat) (sieve : Nat → Bool),
      (is.foldl (fun sieve i => if sieve i then strike sieve i else sieve) sieve) p = true →
        sieve p = true := by
    intro is
    induction is with
    | nil => exact fun _ hp => hp
    | cons i is ih =>
      intro sieve hp
      have hnext := ih _ hp
      dsimp only at hnext
      split at hnext
      · unfold strike at hnext
        split at hnext
        · exact absurd hnext Bool.false_ne_true
        · exact hnext
      · exact hnext
  have hfirst := hmono is _ hsieve
  simp only [ne_eq, Bool.decide_and, Bool.and_eq_true, decide_eq_true_eq] at hfirst
  omega

/-- A number without odd factors below 65536 passes the trial divisions. -/
theorem passesSmallPrimes_of_coprime {L : Nat} [NeZero L] {n : BigUint L}
    (hodd : n.val % 2 = 1) (h : Nat.gcd n.val (stepProduct 15 3) = 1) :
    passesSmallPrimes n = true := by
  have hn : ¬(n.isZero || !n.isOdd) = true := by
    rw [(isOdd_iff n).2 hodd]
    simpa using fun h0 : n.val = 0 => by omega
  unfold passesSmallPrimes
  rw [if_neg hn, List.all_eq_true]
  intro p hp
  obtain ⟨h2, hlt⟩ := le_of_mem_sieveBelow hp
  rw [Redc.hornerMod_eq (by omega), value_limb]
  rcases Nat.eq_or_lt_of_le h2 with rfl | h3
  · rfl
  · have hndvd : ¬ p ∣ n.val := by
      intro hdvd
      have hpodd : p % 2 = 3 % 2 := by
        obtain ⟨q, hq⟩ := hdvd
        rw [hq, Nat.mul_mod] at hodd
        rcases Nat.mod_two_eq_zero_or_one p with h0 | h1
        · rw [h0, Nat.zero_mul] at hodd
          exact absurd hodd (by decide)
        · exact h1
      have hone : p ∣ 1 := h ▸ Nat.dvd_gcd hdvd (dvd_stepProduct h3 (by omega) hpodd)
      exact absurd (Nat.le_of_dvd Nat.one_pos hone) (by omega)
    have hmod : (n.val % p == 0) = false := by
      simpa using fun h0 => hndvd (Nat.dvd_of_mod_eq_zero h0)
    rw [hmod]
    simp

/-! ## The equation of a link -/

/-- **A link that checks**: `y = π^ℓ · x^(2^steps mod ℓ)` modulo `n`, of residues in range, for a
challenge of 128 bits that is odd. -/
structure LinkHolds (n x y steps π ℓ : Nat) : Prop where
  base_pos : 0 < x
  pi_pos : 0 < π
  base_lt : x < n
  state_lt : y < n
  pi_lt : π < n
  coprime : Nat.Coprime x n
  width : 2 ^ 127 ≤ ℓ
  odd : ℓ % 2 = 1
  equation : y = π ^ ℓ * x ^ (2 ^ steps % ℓ) % n

/-- The quotient power and the remainder power make up the whole power. -/
theorem pow_divMod (x steps ℓ : Nat) :
    (x ^ (2 ^ steps / ℓ)) ^ ℓ * x ^ (2 ^ steps % ℓ) = x ^ 2 ^ steps := by
  rw [← pow_mul, ← pow_add, Nat.mul_comm, Nat.div_add_mod]

/-- The power of the quotient proves the link it was computed for. -/
theorem LinkHolds.of_quotient {n x steps ℓ : Nat} (hn : 1 < n) (hlt : x < n)
    (hcop : Nat.Coprime x n) (hwidth : 2 ^ 127 ≤ ℓ) (hodd : ℓ % 2 = 1) :
    LinkHolds n x (x ^ 2 ^ steps % n) steps (x ^ (2 ^ steps / ℓ) % n) ℓ := by
  have hpos : 0 < n := by omega
  have hunit : ∀ k, 0 < x ^ k % n := by
    intro k
    refine Nat.pos_of_ne_zero fun hzero => ?_
    have hdvd : n ∣ x ^ k := Nat.dvd_of_mod_eq_zero hzero
    have hone : n ∣ 1 := (hcop.pow_left k).symm.dvd_of_dvd_mul_left (by simpa using hdvd)
    exact absurd (Nat.le_of_dvd Nat.one_pos hone) (by omega)
  refine {
    base_pos := Nat.pos_of_ne_zero fun hzero => ?_
    pi_pos := hunit _
    base_lt := hlt
    state_lt := Nat.mod_lt _ hpos
    pi_lt := Nat.mod_lt _ hpos
    coprime := hcop
    width := hwidth
    odd := hodd
    equation := ?_ }
  · rw [hzero, Nat.coprime_zero_left] at hcop
    omega
  · have hpi : (x ^ (2 ^ steps / ℓ) % n) ^ ℓ ≡ (x ^ (2 ^ steps / ℓ)) ^ ℓ [MOD n] :=
      (Nat.mod_modEq _ _).pow ℓ
    have heq := hpi.mul_right (x ^ (2 ^ steps % ℓ))
    rw [pow_divMod] at heq
    exact heq.symm

@[simp] theorem fromBytesBe_be64 (v : UInt64) : (fromBytesBe (be64 v) : BigUint 2).val = v.toNat := by
  have hv : v.toNat < 2 ^ 64 := v.toNat_lt
  have hval : ofBytes (be64 v) = v.toNat := by
    rw [be64, ofBytes_ofNat]
    exact Nat.mod_eq_of_lt hv
  rw [fromBytesBe, wrap_of_lt, hval]
  rw [hval]
  exact hv.trans (by decide)

theorem limb_one_top (l : BigUint 2) : l.limb 1 / 2 ^ 63 = 1 ↔ 2 ^ 127 ≤ l.val := by
  have hl : l.val < 2 ^ 128 := l.lt
  unfold limb
  omega

section Link

variable {L : Nat} [NeZero L]

/-- The equation as the code computes it, in Montgomery form. -/
theorem fromMont_lhs (hL : 2 ≤ L) (ctx : Montgomery L) {small : Montgomery 2}
    (base pi : BigUint L) (steps : UInt64) :
    let rSmall := small.fromMont (small.modpow (small.toMont (wrap 2 2)) (fromBytesBe (be64 steps)))
    (ctx.fromMont (ctx.montMul (ctx.modpow (ctx.toMont pi) (wrap L small.n.val))
        (ctx.modpow (ctx.toMont base) (wrap L rSmall.val)))).val
      = pi.val ^ small.n.val * base.val ^ (2 ^ steps.toNat % small.n.val) % ctx.n.val := by
  intro rSmall
  have hpad : ∀ v : BigUint 2, (wrap L v.val).val = v.val := fun v =>
    wrap_of_lt (v.lt.trans_le (Nat.pow_le_pow_right (by decide) (by omega)))
  have htwo : (wrap 2 2).val = 2 := by decide
  have hr : rSmall.val = 2 ^ steps.toNat % small.n.val := by
    have hrep := (small.represents_toMont (wrap 2 2)).modpow
      (fromBytesBe (be64 steps))
    rw [htwo, fromBytesBe_be64] at hrep
    exact hrep.fromMont
  have hpi := (ctx.represents_toMont pi).modpow (wrap L small.n.val)
  have hbase := (ctx.represents_toMont base).modpow (wrap L rSmall.val)
  rw [hpad] at hpi
  rw [(hpad rSmall).trans hr] at hbase
  exact (hpi.montMul hbase).fromMont

/-- **What `verify_link` accepts.** -/
theorem verifyLink_iff (hL : 2 ≤ L) (ctx : Montgomery L) (base y : BigUint L) (steps : UInt64)
    (pi : BigUint L) (l : BigUint 2) :
    verifyLink ctx base y steps pi l = true
      ↔ LinkHolds ctx.n.val base.val y.val steps.toNat pi.val l.val := by
  have hone : (one : BigUint 2).val = 1 := one_val
  constructor
  · intro h
    unfold verifyLink at h
    dsimp only at h
    split at h
    · exact absurd h Bool.false_ne_true
    next hpos =>
    split at h
    · exact absurd h Bool.false_ne_true
    next hrange =>
    split at h
    · exact absurd h Bool.false_ne_true
    next hgcd =>
    split at h
    · exact absurd h Bool.false_ne_true
    next htop =>
    split at h
    · next small hsub hnew =>
      obtain rfl := Montgomery.new_eq_ok hnew
      simp only [Bool.or_eq_true, isZero_iff, not_or] at hpos
      simp only [ne_eq, cmpTo_lt, not_or, not_not] at hrange
      simp only [ne_eq, cmpTo_eq, binaryGcd_val, one_val, not_not] at hgcd
      have heq := congrArg BigUint.val (eq_of_beq h)
      exact {
        base_pos := Nat.pos_of_ne_zero hpos.1
        pi_pos := Nat.pos_of_ne_zero hpos.2
        base_lt := hrange.1
        state_lt := hrange.2.1
        pi_lt := hrange.2.2
        coprime := hgcd
        width := (limb_one_top small.n).1 (not_not.1 htop)
        odd := small.n_odd
        equation := heq.symm.trans (fromMont_lhs hL ctx base pi steps) }
    · exact absurd h Bool.false_ne_true
  · intro h
    obtain ⟨c, hsub, -⟩ := checkedSub_of_le (a := l) (b := one)
      (by rw [hone]; exact le_trans (by decide) h.width)
    obtain ⟨small, hnew, hn⟩ := Montgomery.new_ok h.odd
    unfold verifyLink
    dsimp only
    rw [if_neg (by simp [h.base_pos.ne', h.pi_pos.ne']),
      if_neg (by simp [h.base_lt, h.state_lt, h.pi_lt]),
      if_neg (by simpa using h.coprime),
      if_neg (not_not.2 ((limb_one_top l).2 h.width)), hsub, hnew]
    subst hn
    simp only [beq_iff_eq]
    exact BigUint.ext ((fromMont_lhs hL ctx base pi steps).trans h.equation.symm)

omit [NeZero L] in
/-- **The streaming proof**: with every poll answered, the loop ends with the power of the quotient
`⌊2^(i + k) / ℓ⌋`. The remainder is carried along, and each overflow of it multiplies once. -/
theorem proveLoop_of_answered (ctx : Montgomery L) (base : BigUint L) {l3 : BigUint 3}
    {answer : Nat → Bool} {p : Nat} (hpos : 0 < l3.val) (hwidth : l3.val < 2 ^ 128) (k i : Nat)
    (hyes : ∀ j < Montgomery.polls (i + k), answer (p + j) = true) {acc : BigUint L}
    {rem : BigUint 3} (hrem : rem.val = 2 ^ i % l3.val)
    (hacc : ctx.Represents acc (base.val ^ (2 ^ i / l3.val))) :
    ∃ acc' n, proveLoop ctx base l3 answer k i (p + Montgomery.polls i) acc rem
        = some (.ok acc', n)
      ∧ ctx.Represents acc' (base.val ^ (2 ^ (i + k) / l3.val)) := by
  induction k generalizing i acc rem with
  | zero => exact ⟨acc, _, rfl, hacc⟩
  | succ k ih =>
    have hend : i + 1 + k = i + (k + 1) := by omega
    have hdiv := Redc.two_pow_succ_divMod hpos i
    have hlt : 2 ^ i % l3.val < l3.val := Nat.mod_lt _ hpos
    have hshl : rem.shl1.1.val = 2 * (2 ^ i % l3.val) := by
      have hfit : 2 * rem.val < 2 ^ (64 * 3) := by
        rw [hrem]
        omega
      exact (wrap_of_lt hfit).trans (by rw [hrem])
    have hsqr : ctx.Represents (ctx.montSqr acc) (base.val ^ (2 * (2 ^ i / l3.val))) := by
      have := hacc.montSqr
      rwa [← pow_mul, Nat.mul_comm] at this
    have hpoll : (Montgomery.pollsAt i && !answer (p + Montgomery.polls i)) = false := by
      cases hat : Montgomery.pollsAt i with
      | false => rfl
      | true =>
        rw [hyes _ (Montgomery.polls_lt hat (by omega))]
        rfl
    have hcount : (if Montgomery.pollsAt i then p + Montgomery.polls i + 1
        else p + Montgomery.polls i) = p + Montgomery.polls (i + 1) := by
      rw [Montgomery.polls_succ]
      split <;> omega
    unfold proveLoop
    rw [hpoll]
    dsimp only
    rw [if_neg Bool.false_ne_true, hcount]
    by_cases hover : l3.val ≤ 2 * (2 ^ i % l3.val)
    · rw [if_pos hover] at hdiv
      obtain ⟨rem', hsub, hval⟩ := checkedSub_of_le (a := rem.shl1.1) (b := l3) (by rwa [hshl])
      rw [if_pos (by rw [ne_eq, cmpTo_lt, hshl]; omega), hsub]
      have hrem' : rem'.val = 2 ^ (i + 1) % l3.val := by rw [hval, hshl, hdiv.2]
      have hacc' : ctx.Represents (ctx.montMul (ctx.montSqr acc) (ctx.toMont base))
          (base.val ^ (2 ^ (i + 1) / l3.val)) := by
        rw [hdiv.1, pow_succ]
        exact hsqr.montMul (ctx.represents_toMont base)
      have hnext := ih (i + 1) (by rwa [hend]) hrem' hacc'
      rwa [hend] at hnext
    · rw [if_neg hover] at hdiv
      rw [if_neg (by rw [ne_eq, cmpTo_lt, hshl]; omega)]
      have hrem' : rem.shl1.1.val = 2 ^ (i + 1) % l3.val := by rw [hshl, hdiv.2]
      have hacc' : ctx.Represents (ctx.montSqr acc) (base.val ^ (2 ^ (i + 1) / l3.val)) := by
        rw [hdiv.1]
        exact hsqr
      have hnext := ih (i + 1) (by rwa [hend]) hrem' hacc'
      rwa [hend] at hnext

omit [NeZero L] in
/-- A proof that is made had its first poll answered. -/
theorem answered_of_proveLink {sha256 : Sha256} {entropy : Entropy} {ctx : Montgomery L}
    {base y : BigUint L} {steps : UInt64} {answer : Nat → Bool} {polls : Nat} {proof : LinkProof}
    (hsteps : 0 < steps.toNat)
    (h : proveLink sha256 entropy ctx base y steps answer polls = some (.ok proof)) :
    answer polls = true := by
  by_contra hno
  obtain ⟨k, hk⟩ := Nat.exists_eq_add_of_lt hsteps
  rw [Nat.zero_add] at hk
  have hloop : ∀ l3 acc rem, ∃ e n, proveLoop ctx base l3 answer steps.toNat 0 polls acc rem
      = some (.error e, n) := by
    intro l3 acc rem
    have hpoll : (Montgomery.pollsAt 0 && !answer polls) = true := by
      rw [Bool.eq_false_of_not_eq_true hno]
      rfl
    rw [hk, proveLoop, hpoll]
    exact ⟨_, _, rfl⟩
  unfold proveLink at h
  dsimp only at h
  split at h
  · exact absurd h (by simp)
  split at h
  · exact absurd h (by simp)
  split at h
  · exact absurd h (by simp)
  next l hl =>
  obtain ⟨e, n, herror⟩ := hloop (wrap 3 l.val) (ctx.toMont one) one
  rw [herror] at h
  exact absurd h (by simp)

/-- The quotient power as bytes, with the challenge it was made for. -/
theorem proveLink_of_answered {sha256 : Sha256} {entropy : Entropy} (ctx : Montgomery L)
    {base y : BigUint L} {steps : UInt64} {answer : Nat → Bool} (p : Nat) {l : BigUint 2}
    (hpos : 0 < base.val) (hbase : base.val < ctx.n.val) (hy : y.val < ctx.n.val)
    (hl : hashToPrime sha256 entropy (transcript ctx.n base steps y) = some l)
    (hyes : ∀ j < Montgomery.polls steps.toNat, answer (p + j) = true) :
    ∃ pi : BigUint L, pi.val = base.val ^ (2 ^ steps.toNat / l.val) % ctx.n.val
      ∧ proveLink sha256 entropy ctx base y steps answer p = some (.ok {
          steps := steps, y := y.toBytesBe, pi := pi.toBytesBe, challenge := l }) := by
  have hlow : 2 ^ 127 ≤ l.val := (hashToPrime_eq_some hl).2
  have hl3 : (wrap 3 l.val).val = l.val := wrap_of_lt (l.lt.trans (by decide))
  have hone : (1 : Nat) < l.val := lt_of_lt_of_le (by decide) hlow
  have hrem : (one : BigUint 3).val = 2 ^ 0 % (wrap 3 l.val).val := by
    rw [hl3, pow_zero, Nat.mod_eq_of_lt hone, one_val]
  have hacc : ctx.Represents (ctx.toMont one) (base.val ^ (2 ^ 0 / (wrap 3 l.val).val)) := by
    rw [hl3, pow_zero, Nat.div_eq_of_lt hone, pow_zero, ← one_val (L := L)]
    exact ctx.represents_toMont one
  have hall : ∀ j < Montgomery.polls (0 + steps.toNat), answer (p + j) = true := by
    rwa [Nat.zero_add]
  obtain ⟨acc, n, hloop, hacc⟩ := proveLoop_of_answered ctx base (by omega) (hl3.trans_lt l.lt)
    steps.toNat 0 hall hrem hacc
  rw [hl3, Nat.zero_add] at hacc
  refine ⟨ctx.fromMont acc, hacc.fromMont, ?_⟩
  have hstart : p + Montgomery.polls 0 = p := rfl
  rw [hstart] at hloop
  unfold proveLink
  dsimp only
  rw [if_neg (by simp [hbase, hpos.ne']), if_neg (by simp [hy]), hl]
  dsimp only
  rw [hloop]

end Link

end DiscCleaner.Vdf
