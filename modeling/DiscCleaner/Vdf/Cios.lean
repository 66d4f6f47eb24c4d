import DiscCleaner.Lib.WordRows
import DiscCleaner.Vdf.Montgomery

/-!
# DiscCleaner — the words of a Montgomery product (`bigint.rs`)

The coarsely integrated operand scan as the program runs it: an accumulator of `L + 2` words, one
row for each word of the multiplier and one for the multiple of the modulus that cancels the
lowest word. Every sum is checked against the word that holds it.

* **`reduceStep_multiplyStep`** — a turn never overflows and is the turn on values.
* **`montMulWords_eq`** — so the words compute the product of values.
* **`words_arithmetic`** — and the operations built on it compute modulo `n`.
-/

namespace DiscCleaner.Vdf

open WordLib BigUint

/-! ## The program -/

/-- The accumulator: `L` words, the word above them and the one above that. -/
structure Accumulator where
  low : List Nat
  hi : Nat
  top : Nat

namespace Accumulator

/-- `t += a[i] * b`. -/
def multiplyStep (ai : Nat) (b : List Nat) (t : Accumulator) : Option Accumulator := do
  let (low, carry) ← mulAddRow ai t.low b 0
  let acc ← fit128 (t.hi + carry)
  let top ← fit64 (t.top + acc / 2 ^ 64)
  some ⟨low, acc % 2 ^ 64, top⟩

/-- `t = (t + m * n) >> 64`; a lowest word that does not cancel stops the program. -/
def reduceStep (ninv : Nat) (n : List Nat) (t : Accumulator) : Option Accumulator :=
  match t.low, n with
  | t0 :: ts, n0 :: ns => do
    let m := t0 * ninv % 2 ^ 64
    let acc ← fit128 (t0 + m * n0)
    if acc % 2 ^ 64 ≠ 0 then none
    else
      let (out, carry) ← mulAddRow m ts ns (acc / 2 ^ 64)
      let acc ← fit128 (t.hi + carry)
      let hi ← fit64 (t.top + acc / 2 ^ 64)
      some ⟨out ++ [acc % 2 ^ 64], hi, 0⟩
  | _, _ => none

/-- The turns for the words of `a`. -/
def scan (ninv : Nat) (b n : List Nat) : List Nat → Accumulator → Option Accumulator
  | [], t => some t
  | ai :: as, t => do
    let t ← multiplyStep ai b t
    let t ← reduceStep ninv n t
    scan ninv b n as t

end Accumulator

/-- `r + !n + carry`, word by word; the carry out is dropped. -/
def complementAdd : List Nat → List Nat → Nat → List Nat
  | r :: rs, n :: ns, carry =>
    let tc := (2 ^ 64 - 1 - n) + carry
    let v := r + tc % 2 ^ 64
    v % 2 ^ 64 :: complementAdd rs ns (tc / 2 ^ 64 + v / 2 ^ 64)
  | _, _, _ => []

/-- The words of a number, lowest first. -/
def BigUint.words {L : Nat} (a : BigUint L) : List Nat := (List.range L).map a.limb

def BigUint.ofWords (L : Nat) (ws : List Nat) : BigUint L := wrap L (value ws)

namespace Montgomery

variable {L : Nat} (ctx : Montgomery L)

/-- The product, word by word; the buffer has room for 32 words and the two above. -/
def montMulWords (a b : BigUint L) : Option (BigUint L) :=
  if 32 < L then none
  else do
    let t ← Accumulator.scan ctx.n0inv.toNat b.words ctx.n.words a.words ⟨List.replicate L 0, 0, 0⟩
    let r := ofWords L t.low
    if t.hi ≠ 0 then some (ofWords L (complementAdd t.low ctx.n.words 1))
    else if r.cmpTo ctx.n = .lt then some r
    else some ((r.checkedSub ctx.n).getD r)

def montSqrWords (a : BigUint L) : Option (BigUint L) := ctx.montMulWords a a

def toMontWords (a : BigUint L) : Option (BigUint L) := ctx.montMulWords a ctx.r2

def fromMontWords (a : BigUint L) : Option (BigUint L) := ctx.montMulWords a one

def powLoopWords (base exp : BigUint L) : Nat → BigUint L → Option (BigUint L)
  | 0, acc => some acc
  | i + 1, acc => do
    let acc ← ctx.montSqrWords acc
    if exp.bit i then powLoopWords base exp i (← ctx.montMulWords acc base)
    else powLoopWords base exp i acc

def modpowWords (base exp : BigUint L) : Option (BigUint L) := do
  if exp.isZero then ctx.toMontWords one
  else ctx.powLoopWords base exp exp.bits (← ctx.toMontWords one)

/-- The turns of `repeat_square`, every poll answered. -/
def squareLoopWords : Nat → BigUint L → Option (BigUint L)
  | 0, acc => some acc
  | k + 1, acc => do squareLoopWords k (← ctx.montSqrWords acc)

def repeatSquareWords (xMont : BigUint L) (steps : UInt64) : Option (BigUint L) :=
  ctx.squareLoopWords steps.toNat xMont

end Montgomery

/-! ## Words and values -/

section

variable {L : Nat}

@[simp] theorem BigUint.length_words (a : BigUint L) : a.words.length = L := by simp [words]

theorem BigUint.words_lt (a : BigUint L) : Words a.words := by
  intro w hw
  obtain ⟨i, -, rfl⟩ := List.mem_map.mp hw
  exact a.limb_lt i

theorem value_map_range (word : Nat → Nat) (k : Nat) :
    value ((List.range k).map word) = Redc.value (2 ^ 64) word k := by
  induction k with
  | zero => rfl
  | succ k ih =>
    rw [List.range_succ, List.map_append, value_append, ih, List.length_map, List.length_range,
      List.map_singleton, value, Nat.ofDigits_singleton, Redc.value]

@[simp] theorem BigUint.value_words (a : BigUint L) : value a.words = a.val := by
  rw [words, value_map_range, value_limb]

theorem base_pow (L : Nat) : (2 ^ 64) ^ L = 2 ^ (64 * L) := (pow_mul 2 64 L).symm

/-- The complement of `n` added to `r`, with the carry in. -/
theorem complementAdd_spec {rs ns : List Nat} (hlen : rs.length = ns.length) (hns : Words ns)
    (carry : Nat) : (complementAdd rs ns carry).length = rs.length ∧
      ∃ c, value (complementAdd rs ns carry) + (2 ^ 64) ^ rs.length * c + value ns + 1
        = value rs + (2 ^ 64) ^ rs.length + carry := by
  induction rs generalizing ns carry with
  | nil =>
    obtain rfl : ns = [] := List.length_eq_zero_iff.mp hlen.symm
    refine ⟨rfl, carry, ?_⟩
    simp [complementAdd, value]
    omega
  | cons r rs ih =>
    cases ns with
    | nil => exact absurd hlen (by simp)
    | cons n ns =>
      have hn := hns.head
      set tc := (2 ^ 64 - 1 - n) + carry with htc
      set v := r + tc % 2 ^ 64 with hv
      obtain ⟨hout, c, hc⟩ := ih (by simpa using hlen) hns.tail (tc / 2 ^ 64 + v / 2 ^ 64)
      rw [complementAdd, ← htc, ← hv]
      refine ⟨by rw [List.length_cons, List.length_cons, hout], c, ?_⟩
      rw [value_cons, value_cons, value_cons, List.length_cons,
        pow_succ' (2 ^ 64) rs.length]
      have hsplit : v % 2 ^ 64 + 2 ^ 64 * (tc / 2 ^ 64 + v / 2 ^ 64) + n + 1
          = r + 2 ^ 64 + carry := by omega
      linear_combination 2 ^ 64 * hc + hsplit

end

/-! ## One turn -/

namespace Accumulator

/-- The accumulator holds a value below the carry word of the next turn. -/
structure Holds (L : Nat) (t : Accumulator) (v : Nat) : Prop where
  length : t.low.length = L
  words : Words t.low
  hi_lt : t.hi < 2 ^ 64
  top : t.top = 0
  value : value t.low + (2 ^ 64) ^ L * t.hi = v

/-- Between the halves of a turn the uppermost word may hold a carry. -/
structure Loaded (L : Nat) (t : Accumulator) (v : Nat) : Prop where
  length : t.low.length = L
  words : Words t.low
  hi_lt : t.hi < 2 ^ 64
  top_le : t.top ≤ 1
  value : WordLib.value t.low + (2 ^ 64) ^ L * (t.hi + 2 ^ 64 * t.top) = v

variable {L ninv ai v : Nat} {b n : List Nat} {t : Accumulator}

theorem multiplyStep_spec (ht : t.Holds L v) (hb : b.length = L) (hbw : Words b)
    (hai : ai < 2 ^ 64) :
    ∃ t', multiplyStep ai b t = some t' ∧ t'.Loaded L (v + ai * WordLib.value b) := by
  obtain ⟨out, c, hrow, hout, hwords, hc, hval⟩ :=
    mulAddRow_spec hai (ht.length.trans hb.symm) ht.words hbw (Nat.two_pow_pos 64)
  have hhi := ht.hi_lt
  have hacc : (t.hi + c) % 2 ^ 64 + 2 ^ 64 * ((t.hi + c) / 2 ^ 64) = t.hi + c := Nat.mod_add_div _ _
  refine ⟨⟨out, (t.hi + c) % 2 ^ 64, (t.hi + c) / 2 ^ 64⟩, ?_, hout.trans ht.length, hwords,
    Nat.mod_lt _ (by decide), by simp only; omega, ?_⟩
  · simp only [multiplyStep, hrow, ht.top, Nat.zero_add, Option.bind_eq_bind, Option.bind_some]
    rw [fit128_eq (by omega), Option.bind_some, fit64_eq (by omega), Option.bind_some]
  · rw [ht.length] at hval
    simp only
    rw [hacc]
    linear_combination hval + ht.value

/-- What a loaded accumulator becomes when its lowest word cancels. -/
theorem reduceStep_spec (ht : t.Loaded L v) (hL : 0 < L) (hn : n.length = L) (hnw : Words n)
    (hinv : (WordLib.value n * ninv + 1) % 2 ^ 64 = 0)
    (hbound : v + v % 2 ^ 64 * ninv % 2 ^ 64 * WordLib.value n < 2 ^ 64 * (2 * (2 ^ 64) ^ L)) :
    ∃ t', reduceStep ninv n t = some t' ∧
      t'.Holds L ((v + v % 2 ^ 64 * ninv % 2 ^ 64 * WordLib.value n) / 2 ^ 64) := by
  obtain ⟨low, hi, top⟩ := t
  obtain ⟨hlen, hwords, hhi, htop, hval⟩ := ht
  simp only at hlen hwords hhi htop hval
  cases low with
  | nil => exact absurd hlen (by simpa using hL.ne)
  | cons t0 ts =>
    cases n with
    | nil => exact absurd hn (by simpa using hL.ne)
    | cons n0 ns =>
      obtain ⟨K, rfl⟩ : ∃ K, L = K + 1 := ⟨ts.length, by simpa using hlen.symm⟩
      have hts : ts.length = K := by simpa using hlen
      have hns : ns.length = K := by simpa using hn
      have ht0 := hwords.head
      have hn0 := hnw.head
      -- the lowest word of the value is that of the accumulator, so the multipliers agree
      have hlow : v % 2 ^ 64 = t0 := by
        have hdvd : (2 ^ 64) ^ (K + 1) * (hi + 2 ^ 64 * top)
            = 2 ^ 64 * ((2 ^ 64) ^ K * (hi + 2 ^ 64 * top)) := by
          rw [pow_succ' (2 ^ 64) K]
          ring
        rw [← hval, hdvd, Nat.add_mul_mod_self_left, value_mod ht0]
      rw [hlow] at hbound ⊢
      set m := t0 * ninv % 2 ^ 64 with hm
      have hmlt : m < 2 ^ 64 := Nat.mod_lt _ (by decide)
      have hacc : t0 + m * n0 < 2 ^ 128 := mul_add_lt ht0 hmlt hn0 (Nat.two_pow_pos 64)
      have hcancel : (t0 + m * n0) % 2 ^ 64 = 0 := by
        have hexact := Redc.dvd_cancel hinv t0
        rw [Nat.mod_eq_of_lt ht0, ← hm, value_cons, Nat.mul_add, ← Nat.add_assoc,
          Nat.mul_left_comm] at hexact
        exact Nat.mod_eq_zero_of_dvd ((Nat.dvd_add_left (Nat.dvd_mul_right _ _)).mp hexact)
      obtain ⟨out, c, hrow, hout, hrowWords, hc, hrowVal⟩ :=
        mulAddRow_spec hmlt (hts.trans hns.symm) hwords.tail hnw.tail
          (show (t0 + m * n0) / 2 ^ 64 < 2 ^ 64 by omega)
      set acc := t0 + m * n0 with hdef
      have hdiv : 2 ^ 64 * (acc / 2 ^ 64) = acc := by omega
      have hlast : (hi + c) % 2 ^ 64 + 2 ^ 64 * ((hi + c) / 2 ^ 64) = hi + c := Nat.mod_add_div _ _
      rw [hts] at hrowVal
      rw [value_cons, pow_succ' (2 ^ 64) K] at hval
      -- the words of the new accumulator spell the quotient
      have hquot : 2 ^ 64 * (value out + (2 ^ 64) ^ K * ((hi + c) % 2 ^ 64)
          + (2 ^ 64) ^ (K + 1) * (top + (hi + c) / 2 ^ 64)) = v + m * value (n0 :: ns) := by
        rw [value_cons, pow_succ' (2 ^ 64) K]
        linear_combination 2 ^ 64 * hrowVal + hdiv + 2 ^ 64 * (2 ^ 64) ^ K * hlast + hval + hdef
      have hfit : top + (hi + c) / 2 ^ 64 < 2 := by
        rw [← hquot] at hbound
        have hle : (2 ^ 64) ^ (K + 1) * (top + (hi + c) / 2 ^ 64) < (2 ^ 64) ^ (K + 1) * 2 := by
          rw [Nat.mul_comm _ 2]
          exact (Nat.le_add_left _ _).trans_lt (Nat.lt_of_mul_lt_mul_left hbound)
        exact Nat.lt_of_mul_lt_mul_left hle
      refine ⟨⟨out ++ [(hi + c) % 2 ^ 64], top + (hi + c) / 2 ^ 64, 0⟩, ?_, ?_, ?_, ?_, rfl, ?_⟩
      · simp only [reduceStep]
        rw [← hm, ← hdef, fit128_eq hacc, Option.bind_eq_bind, Option.bind_some, if_neg (by omega),
          hrow, Option.bind_eq_bind, Option.bind_some]
        simp only
        rw [fit128_eq (by omega), Option.bind_some, fit64_eq (by omega), Option.bind_some]
      · simp [hout, hts]
      · exact hrowWords.append (Words.cons (Nat.mod_lt _ (by decide)) fun _ h => absurd h List.not_mem_nil)
      · simp only
        omega
      · simp only
        rw [value_append, hout, hts, value, value, Nat.ofDigits_singleton, ← hquot,
          Nat.mul_div_cancel_left _ (by decide)]

/-- **A turn on words is the turn on values**, and no word of it overflows. -/
theorem reduceStep_multiplyStep (ht : t.Holds L v) (hL : 0 < L) (hb : b.length = L)
    (hbw : Words b) (hn : n.length = L) (hnw : Words n)
    (hinv : (WordLib.value n * ninv + 1) % 2 ^ 64 = 0) (hai : ai < 2 ^ 64)
    (hbn : WordLib.value b ≤ WordLib.value n) (hv : v < WordLib.value n + WordLib.value b) :
    ∃ t' t'', multiplyStep ai b t = some t' ∧ reduceStep ninv n t' = some t'' ∧
      t''.Holds L (Redc.step (2 ^ 64) (WordLib.value n) ninv (WordLib.value b) v ai) := by
  obtain ⟨t', hmul, hloaded⟩ := multiplyStep_spec ht hb hbw hai
  have hnlt : WordLib.value n < (2 ^ 64) ^ L := hn ▸ value_lt hnw
  have hstep : Redc.step (2 ^ 64) (WordLib.value n) ninv (WordLib.value b) v ai < _ :=
    Redc.step_lt (by decide) hv hai
  have hbound : v + ai * WordLib.value b + (v + ai * WordLib.value b) % 2 ^ 64 * ninv % 2 ^ 64
      * WordLib.value n < 2 ^ 64 * (2 * (2 ^ 64) ^ L) := by
    have hdiv := (Nat.div_lt_iff_lt_mul (by decide)).mp hstep
    refine hdiv.trans_le ?_
    rw [Nat.mul_comm]
    exact Nat.mul_le_mul_left _ (by omega)
  obtain ⟨t'', hred, hholds⟩ := reduceStep_spec hloaded hL hn hnw hinv hbound
  exact ⟨t', t'', hmul, hred, hholds⟩

/-- The scan over the words of the multiplier, on values. -/
theorem scan_spec (hL : 0 < L) (hb : b.length = L) (hbw : Words b) (hn : n.length = L)
    (hnw : Words n) (hinv : (WordLib.value n * ninv + 1) % 2 ^ 64 = 0)
    (hbn : WordLib.value b ≤ WordLib.value n) {as : List Nat} (has : Words as)
    (ht : t.Holds L v) (hv : v < WordLib.value n + WordLib.value b) :
    ∃ t', scan ninv b n as t = some t' ∧
      t'.Holds L (as.foldl (Redc.step (2 ^ 64) (WordLib.value n) ninv (WordLib.value b)) v) := by
  induction as generalizing t v with
  | nil => exact ⟨t, rfl, ht⟩
  | cons ai as ih =>
    obtain ⟨t1, t2, hmul, hred, hholds⟩ :=
      reduceStep_multiplyStep ht hL hb hbw hn hnw hinv has.head hbn hv
    obtain ⟨t', hscan, hfinal⟩ := ih has.tail hholds (Redc.step_lt (by decide) hv has.head)
    refine ⟨t', ?_, hfinal⟩
    rw [scan, hmul, Option.bind_eq_bind, Option.bind_some, hred, Option.bind_some, hscan]

end Accumulator

theorem foldl_step_eq_redc (β n ninv b : Nat) (word : Nat → Nat) (k : Nat) :
    ((List.range k).map word).foldl (Redc.step β n ninv b) 0 = Redc.redc β n ninv word b k := by
  induction k with
  | zero => rfl
  | succ k ih =>
    rw [List.range_succ, List.map_append, List.foldl_append, ih]
    rfl

namespace Montgomery

variable {L : Nat} [NeZero L] (ctx : Montgomery L)

/-! ## The product -/

/-- **The words compute the product of values**, for every number below the second bound. -/
theorem montMulWords_eq (hL : L ≤ 32) (a : BigUint L) {b : BigUint L} (hb : b.val ≤ ctx.n.val) :
    ctx.montMulWords a b = some (ctx.montMul a b) := by
  have hpos : 0 < L := Nat.pos_of_ne_zero (NeZero.ne L)
  have hstart : (⟨List.replicate L 0, 0, 0⟩ : Accumulator).Holds L 0 :=
    ⟨List.length_replicate, fun w hw => by rw [List.eq_of_mem_replicate hw]; decide,
      Nat.two_pow_pos 64, rfl, by simp [value, Nat.ofDigits_replicate_zero]⟩
  obtain ⟨t, hscan, hholds⟩ := Accumulator.scan_spec hpos
    b.length_words b.words_lt ctx.n.length_words ctx.n.words_lt
    (show (value ctx.n.words * ctx.n0inv.toNat + 1) % 2 ^ 64 = 0 by
      rw [value_words]
      exact ctx.n0inv_spec)
    (by rwa [value_words, value_words]) a.words_lt hstart
    (by rw [value_words, value_words]; exact Nat.add_pos_left ctx.n_pos _)
  rw [value_words, value_words, BigUint.words, foldl_step_eq_redc] at hholds
  set T := Redc.redc (2 ^ 64) ctx.n.val ctx.n0inv.toNat a.limb b.val L with hT
  have hlow : value t.low < 2 ^ (64 * L) := by
    rw [← base_pow, ← hholds.length]
    exact value_lt hholds.words
  have hval := hholds.value
  rw [base_pow] at hval
  have hhi : T / 2 ^ (64 * L) = t.hi := by
    rw [← hval, Nat.add_mul_div_left _ _ (by positivity), Nat.div_eq_of_lt hlow, Nat.zero_add]
  have hmod : wrap L T = ofWords L t.low := by
    refine BigUint.ext ?_
    rw [wrap_val, ofWords, wrap_val, ← hval, Nat.add_mul_mod_self_left]
  rw [montMulWords, if_neg (Nat.not_lt.mpr hL), montMul, ← hT, reduceOnce, hhi, hmod]
  simp only [hscan, Option.bind_eq_bind, Option.bind_some]
  split
  · -- the carry stands for the base to the power of the width, which the complement makes up for
    obtain ⟨-, c, hc⟩ := complementAdd_spec (hholds.length.trans ctx.n.length_words.symm)
      ctx.n.words_lt 1
    rw [hholds.length, base_pow, value_words] at hc
    refine congrArg some (BigUint.ext ?_)
    have hn := ctx.n.lt
    have hsum : value (complementAdd t.low ctx.n.words 1) + 2 ^ (64 * L) * c
        = value t.low + (2 ^ (64 * L) - ctx.n.val) := by omega
    rw [ofWords, wrap_val, wrap_val, ofWords, wrap_of_lt hlow, ← hsum, Nat.add_mul_mod_self_left]
  · split <;> rfl

variable {ctx}

theorem montSqrWords_eq (hL : L ≤ 32) {a : BigUint L} (ha : a.val ≤ ctx.n.val) :
    ctx.montSqrWords a = some (ctx.montSqr a) := ctx.montMulWords_eq hL a ha

theorem toMontWords_eq (hL : L ≤ 32) (a : BigUint L) :
    ctx.toMontWords a = some (ctx.toMont a) := ctx.montMulWords_eq hL a ctx.r2_le

theorem fromMontWords_eq (hL : L ≤ 32) (a : BigUint L) :
    ctx.fromMontWords a = some (ctx.fromMont a) := by
  refine ctx.montMulWords_eq hL a ?_
  rw [one_val]
  exact ctx.n_pos

theorem powLoopWords_eq (hL : L ≤ 32) {base : BigUint L} (hbase : base.val ≤ ctx.n.val)
    (exp : BigUint L) (i : Nat) {acc : BigUint L} (hacc : acc.val ≤ ctx.n.val) :
    ctx.powLoopWords base exp i acc = some (ctx.powLoop base exp i acc) := by
  induction i generalizing acc with
  | zero => rfl
  | succ i ih =>
    have hsqr : (ctx.montSqr acc).val ≤ ctx.n.val := (ctx.montMul_lt acc hacc).le
    have hmul : (ctx.montMul (ctx.montSqr acc) base).val ≤ ctx.n.val := (ctx.montMul_lt _ hbase).le
    rw [powLoopWords, montSqrWords_eq hL hacc, Option.bind_eq_bind, Option.bind_some, powLoop]
    split
    · rw [ctx.montMulWords_eq hL _ hbase, Option.bind_some, ih hmul]
    · rw [ih hsqr]

theorem modpowWords_eq (hL : L ≤ 32) {base : BigUint L} (hbase : base.val ≤ ctx.n.val)
    (exp : BigUint L) : ctx.modpowWords base exp = some (ctx.modpow base exp) := by
  have hone : (ctx.toMont one).val ≤ ctx.n.val := (ctx.montMul_lt one ctx.r2_le).le
  rw [modpowWords, modpow]
  split
  · exact toMontWords_eq hL one
  · rw [toMontWords_eq hL, Option.bind_eq_bind, Option.bind_some, powLoopWords_eq hL hbase exp _ hone]

theorem squareLoopWords_eq (hL : L ≤ 32) (k : Nat) {acc : BigUint L} (hacc : acc.val ≤ ctx.n.val) :
    ctx.squareLoopWords k acc = some (ctx.montSqr^[k] acc) := by
  induction k generalizing acc with
  | zero => rfl
  | succ k ih =>
    have hsqr : (ctx.montSqr acc).val ≤ ctx.n.val := (ctx.montMul_lt acc hacc).le
    rw [squareLoopWords, montSqrWords_eq hL hacc, Option.bind_eq_bind, Option.bind_some, ih hsqr,
      Function.iterate_succ_apply]

/-- **Arithmetic on words is arithmetic modulo `n`**, at every width of the buffer and for every
odd modulus: no word overflows on the way, and what comes back is the residue. -/
theorem words_arithmetic (hL : L ≤ 32) {n : BigUint L} (hodd : n.val % 2 = 1) (hn : 1 < n.val) :
    ∃ ctx : Montgomery L, Montgomery.new n = .ok ctx ∧
      (∀ a : BigUint L, a.val < n.val →
        (do ctx.fromMontWords (← ctx.toMontWords a)) = some a) ∧
      (∀ a b : BigUint L, a.val < n.val → b.val < n.val → ∃ r,
        (do ctx.fromMontWords (← ctx.montMulWords (← ctx.toMontWords a) (← ctx.toMontWords b)))
          = some r ∧ r.val = a.val * b.val % n.val) ∧
      (∀ a e : BigUint L, a.val < n.val → ∃ r,
        (do ctx.fromMontWords (← ctx.modpowWords (← ctx.toMontWords a) e)) = some r ∧
          r.val = a.val ^ e.val % n.val) ∧
      ∀ (a : BigUint L) (k : UInt64), a.val < n.val → ∃ r,
        (do ctx.fromMontWords (← ctx.repeatSquareWords (← ctx.toMontWords a) k)) = some r ∧
          r.val = a.val ^ 2 ^ k.toNat % n.val := by
  obtain ⟨ctx, hnew, rfl⟩ := new_ok hodd
  have hle : ∀ a : BigUint L, (ctx.toMont a).val ≤ ctx.n.val := fun a =>
    (ctx.montMul_lt a ctx.r2_le).le
  refine ⟨ctx, hnew, fun a ha => ?_, fun a b _ _ => ?_, fun a e _ => ?_, fun a k _ => ?_⟩
  · have hback := (ctx.represents_toMont a).fromMont
    rw [toMontWords_eq hL, Option.bind_eq_bind, Option.bind_some, fromMontWords_eq hL]
    exact congrArg some (BigUint.ext (hback.trans (Nat.mod_eq_of_lt ha)))
  · refine ⟨_, ?_, ((ctx.represents_toMont a).montMul (ctx.represents_toMont b)).fromMont⟩
    simp only [toMontWords_eq hL, Option.bind_eq_bind, Option.bind_some,
      ctx.montMulWords_eq hL _ (hle b), fromMontWords_eq hL]
  · refine ⟨_, ?_, ((ctx.represents_toMont a).modpow e).fromMont⟩
    simp only [toMontWords_eq hL, Option.bind_eq_bind, Option.bind_some, modpowWords_eq hL (hle a) e,
      fromMontWords_eq hL]
  · refine ⟨_, ?_, ((ctx.represents_toMont a).montSqr_iterate k.toNat).fromMont⟩
    simp only [toMontWords_eq hL, Option.bind_eq_bind, Option.bind_some, repeatSquareWords,
      squareLoopWords_eq hL _ (hle a), fromMontWords_eq hL]

/-- A modulus above half of the width. -/
theorem words_arithmetic_above_half : ∃ ctx : Montgomery 2,
    Montgomery.new (wrap 2 (2 ^ 128 - 159)) = .ok ctx ∧
      (do ctx.fromMontWords (← ctx.toMontWords (wrap 2 5))) = some (wrap 2 5) := by
  obtain ⟨ctx, hnew, hback, -⟩ := words_arithmetic (L := 2) (n := wrap 2 (2 ^ 128 - 159))
    (by decide) (by decide) (by decide)
  exact ⟨ctx, hnew, hback _ (by decide)⟩

end Montgomery

end DiscCleaner.Vdf
