import DiscCleaner.Lib.Bytes
import DiscCleaner.Lib.Redc
import Mathlib.Data.List.Induction
import Mathlib.Data.Nat.Log
import Mathlib.Data.Nat.Prime.Basic
import Mathlib.Tactic.Linarith

/-!
# DiscCleaner — fixed-width integers (`bigint.rs`)

A `BigUint L` is the value of its `L` little-endian 64-bit limbs, so the carry and borrow chains
of the source are the addition and subtraction of values. Limbs are read back with `limb`.
-/

namespace DiscCleaner.Vdf

open ByteLib

/-- A number of `L` limbs. -/
@[ext] structure BigUint (L : Nat) where
  val : Nat
  lt : val < 2 ^ (64 * L)
  deriving DecidableEq

namespace BigUint

variable {L : Nat}

/-- A value cut to the width. -/
def wrap (L v : Nat) : BigUint L := ⟨v % 2 ^ (64 * L), Nat.mod_lt _ (by positivity)⟩

@[simp] theorem wrap_val (v : Nat) : (wrap L v).val = v % 2 ^ (64 * L) := rfl

theorem wrap_of_lt {v : Nat} (h : v < 2 ^ (64 * L)) : (wrap L v).val = v := Nat.mod_eq_of_lt h

@[simp] theorem wrap_self (a : BigUint L) : wrap L a.val = a := BigUint.ext (wrap_of_lt a.lt)

def zero : BigUint L := ⟨0, by positivity⟩

def one : BigUint L := wrap L 1

@[simp] theorem zero_val : (zero : BigUint L).val = 0 := rfl

theorem one_lt_width [NeZero L] : 1 < 2 ^ (64 * L) :=
  Nat.one_lt_two_pow (Nat.mul_ne_zero (by decide) (NeZero.ne L))

@[simp] theorem one_val [NeZero L] : (one : BigUint L).val = 1 := wrap_of_lt one_lt_width

/-- The `i`-th limb. -/
def limb (a : BigUint L) (i : Nat) : Nat := a.val / (2 ^ 64) ^ i % 2 ^ 64

theorem limb_lt (a : BigUint L) (i : Nat) : a.limb i < 2 ^ 64 := Nat.mod_lt _ (by decide)

/-- The limbs spell the value. -/
theorem value_limb (a : BigUint L) : Redc.value (2 ^ 64) a.limb L = a.val := by
  have h : Redc.value (2 ^ 64) a.limb L = a.val % (2 ^ 64) ^ L := Redc.value_div (2 ^ 64) a.val L
  rw [h, ← pow_mul, Nat.mod_eq_of_lt a.lt]

def bits (a : BigUint L) : Nat := if a.val = 0 then 0 else a.val.log2 + 1

def isZero (a : BigUint L) : Bool := a.val == 0

def isOdd (a : BigUint L) : Bool := a.val % 2 == 1

def bit (a : BigUint L) (i : Nat) : Bool := if 64 * L ≤ i then false else a.val.testBit i

def cmpTo (a b : BigUint L) : Ordering := compare a.val b.val

/-- `none` past `L` limbs. -/
def checkedAdd (a b : BigUint L) : Option (BigUint L) :=
  if h : a.val + b.val < 2 ^ (64 * L) then some ⟨a.val + b.val, h⟩ else none

/-- `none` when `b` is larger. -/
def checkedSub (a b : BigUint L) : Option (BigUint L) :=
  if a.cmpTo b = .lt then none else some ⟨a.val - b.val, (Nat.sub_le _ _).trans_lt a.lt⟩

/-- The doubled number and the bit shifted out. -/
def shl1 (a : BigUint L) : BigUint L × Nat := (wrap L (2 * a.val), 2 * a.val / 2 ^ (64 * L))

def shr1 (a : BigUint L) : BigUint L := ⟨a.val / 2, (Nat.div_le_self _ _).trans_lt a.lt⟩

/-- The place of the lowest set bit. -/
def trailingZeros (a : BigUint L) : Nat :=
  ((List.range (64 * L)).find? fun i => a.val.testBit i).getD (64 * L)

def shrN (a : BigUint L) (n : Nat) : BigUint L := if 64 * L ≤ n then zero else shr1^[n] a

def shlN (a : BigUint L) (n : Nat) : BigUint L := (fun b => (shl1 b).1)^[min n (64 * L)] a

/-- The `8 * L` bytes, most significant first. -/
def fullBytes (a : BigUint L) : Bytes := (ByteLib.Block.ofNat (8 * L) a.val).bytes

/-- The bytes with no leading zero. -/
def toBytesBe (a : BigUint L) : Bytes := a.fullBytes.dropWhile (· == 0)

/-- A big-endian number. -/
def ofBytes (bs : Bytes) : Nat := bs.foldl (fun v b => 256 * v + b.toNat) 0

/-- Bytes above the width are cut off. -/
def fromBytesBe (bs : Bytes) : BigUint L := wrap L (ofBytes bs)

def toHex (a : BigUint L) : String := hexEncode a.toBytesBe

/-- A text without the "0x" it starts with, however often. -/
def trimStart0x : List Char → List Char
  | '0' :: 'x' :: rest => trimStart0x rest
  | cs => cs

/-- Hexadecimal text of at most `8 * L` bytes. The `hex` crate's own reason is left out. -/
def fromHex (s : String) : Except String (BigUint L) :=
  match hexDecodeChars (trimStart0x s.toList) with
  | none => .error "hex"
  | some bytes =>
    if 8 * L < bytes.length then
      .error ("value exceeds " ++ toString L ++ " limbs (" ++ toString bytes.length
        ++ " bytes given)")
    else .ok (fromBytesBe bytes)

/-- The loop of Stein's algorithm; a turn drops a bit of the larger number. -/
def gcdLoop : Nat → BigUint L → BigUint L → BigUint L
  | 0, a, _ => a
  | fuel + 1, a, b =>
    match a.cmpTo b with
    | .eq => a
    | .gt =>
      let d := (a.checkedSub b).getD a
      gcdLoop fuel (d.shrN d.trailingZeros) b
    | .lt =>
      let d := (b.checkedSub a).getD b
      gcdLoop fuel a (d.shrN d.trailingZeros)

def binaryGcd (a b : BigUint L) : BigUint L :=
  if a.isZero then b
  else if b.isZero then a
  else
    let za := a.trailingZeros
    let zb := b.trailingZeros
    (gcdLoop (128 * L) (a.shrN za) (b.shrN zb)).shlN (min za zb)

/-- One reduction of a number below `2 * n` whose carry out of the width is `carry`; the carry
cancels against the complement of `n`. -/
def reduceOnce (v : BigUint L) (carry : Nat) (n : BigUint L) : BigUint L :=
  if carry ≠ 0 then wrap L (v.val + (2 ^ (64 * L) - n.val))
  else if v.cmpTo n = .lt then v
  else (v.checkedSub n).getD v

def modDouble (a n : BigUint L) : BigUint L :=
  let (v, carry) := a.shl1
  reduceOnce v carry n

/-! ## Words -/

@[simp] theorem isZero_iff (a : BigUint L) : a.isZero = true ↔ a.val = 0 := by simp [isZero]

@[simp] theorem isOdd_iff (a : BigUint L) : a.isOdd = true ↔ a.val % 2 = 1 := by simp [isOdd]

@[simp] theorem cmpTo_lt (a b : BigUint L) : a.cmpTo b = .lt ↔ a.val < b.val := by
  simp [cmpTo, compare_lt_iff_lt]

@[simp] theorem cmpTo_eq (a b : BigUint L) : a.cmpTo b = .eq ↔ a.val = b.val := by
  simp [cmpTo]

@[simp] theorem cmpTo_gt (a b : BigUint L) : a.cmpTo b = .gt ↔ b.val < a.val := by
  simp [cmpTo, compare_gt_iff_gt]

theorem checkedSub_of_le {a b : BigUint L} (h : b.val ≤ a.val) :
    ∃ c, a.checkedSub b = some c ∧ c.val = a.val - b.val := by
  refine ⟨_, if_neg ?_, rfl⟩
  simpa using h

theorem lt_of_bits {a : BigUint L} (i : Nat) (hi : a.bits ≤ i) : a.val < 2 ^ i := by
  unfold bits at hi
  split at hi
  · next h0 => simp [h0]
  · exact (Nat.log2_lt (by assumption)).1 (by omega)

theorem bits_le (a : BigUint L) : a.bits ≤ 64 * L := by
  unfold bits
  split
  · exact Nat.zero_le _
  · next h0 => exact (Nat.log2_lt h0).2 a.lt

theorem le_of_bits {a : BigUint L} {i : Nat} (hi : i < a.bits) : 2 ^ i ≤ a.val := by
  unfold bits at hi
  split at hi
  · exact absurd hi (Nat.not_lt_zero i)
  · next h0 => exact (Nat.pow_le_pow_right (by decide) (by omega)).trans (Nat.log2_self_le h0)

theorem bit_eq (a : BigUint L) (i : Nat) : a.bit i = a.val.testBit i := by
  unfold bit
  split
  · next h =>
    exact (Nat.testBit_lt_two_pow (a.lt.trans_le (Nat.pow_le_pow_right (by decide) h))).symm
  · rfl

/-! ## Text and bytes -/

theorem ofBytes_append (a b : Bytes) : ofBytes (a ++ b) = ofBytes a * 256 ^ b.length + ofBytes b := by
  induction b using List.reverseRecOn with
  | nil => simp [ofBytes]
  | append_singleton b x ih =>
    have hsnoc : ∀ l : Bytes, ofBytes (l ++ [x]) = 256 * ofBytes l + x.toNat := by
      intro l
      simp [ofBytes, List.foldl_append]
    rw [← List.append_assoc, hsnoc, hsnoc, ih, List.length_append, List.length_singleton, pow_succ]
    ring

theorem ofBytes_cons (x : UInt8) (bs : Bytes) :
    ofBytes (x :: bs) = x.toNat * 256 ^ bs.length + ofBytes bs := by
  have h := ofBytes_append [x] bs
  simpa [ofBytes] using h

theorem ofBytes_lt (bs : Bytes) : ofBytes bs < 256 ^ bs.length := by
  induction bs with
  | nil => decide
  | cons x bs ih =>
    have hx : x.toNat + 1 ≤ 256 := x.toNat_lt
    rw [ofBytes_cons, List.length_cons, pow_succ]
    calc x.toNat * 256 ^ bs.length + ofBytes bs
        < x.toNat * 256 ^ bs.length + 256 ^ bs.length := Nat.add_lt_add_left ih _
      _ = (x.toNat + 1) * 256 ^ bs.length := by ring
      _ ≤ 256 ^ bs.length * 256 := by
        rw [Nat.mul_comm]
        exact Nat.mul_le_mul_left _ hx

/-- Leading zeros do not count. -/
theorem ofBytes_dropWhile (bs : Bytes) : ofBytes (bs.dropWhile (· == 0)) = ofBytes bs := by
  induction bs with
  | nil => rfl
  | cons x bs ih =>
    by_cases hx : x = 0
    · subst hx
      rw [List.dropWhile_cons_of_pos (by simp), ih, ofBytes_cons]
      simp
    · rw [List.dropWhile_cons_of_neg (by simpa using hx)]

theorem ofBytes_ofNat (n v : Nat) : ofBytes (ByteLib.Block.ofNat n v).bytes = v % 256 ^ n := by
  induction n generalizing v with
  | zero => simp [ByteLib.Block.ofNat, ofBytes, Nat.mod_one]
  | succ n ih =>
    have hsplit : (ByteLib.Block.ofNat (n + 1) v).bytes
        = UInt8.ofNat (v / 256 ^ n) :: (ByteLib.Block.ofNat n v).bytes := by
      simp only [ByteLib.Block.ofNat, List.range_succ_eq_map, List.map_cons, List.map_map]
      refine congrArg₂ _ (by simp) (List.map_congr_left fun i _ => ?_)
      have hi : n + 1 - 1 - Nat.succ i = n - 1 - i := by omega
      simp only [Function.comp_apply, hi]
    rw [hsplit, ofBytes_cons, ih, (ByteLib.Block.ofNat n v).size, UInt8.toNat_ofNat', pow_succ 256 n,
      Nat.mod_mul , Nat.add_comm, Nat.mul_comm]

@[simp] theorem ofBytes_toBytesBe (a : BigUint L) : ofBytes a.toBytesBe = a.val := by
  rw [toBytesBe, ofBytes_dropWhile, fullBytes, ofBytes_ofNat, Nat.mod_eq_of_lt]
  have hbase : 256 ^ (8 * L) = 2 ^ (64 * L) := by
    rw [show (256 : Nat) = 2 ^ 8 from rfl, ← pow_mul, ← Nat.mul_assoc]
  exact hbase ▸ a.lt

theorem length_toBytesBe (a : BigUint L) : a.toBytesBe.length ≤ 8 * L :=
  ((List.dropWhile_sublist _).length_le).trans_eq (ByteLib.Block.ofNat (8 * L) a.val).size

theorem hexDigit_ne_x {n : Nat} (h : n < 16) : hexDigit n ≠ 'x' := by
  interval_cases n <;> decide

/-- Hexadecimal text of bytes starts with no "0x". -/
theorem trimStart0x_hexEncode (bs : Bytes) :
    trimStart0x (hexEncode bs).toList = (hexEncode bs).toList := by
  cases bs with
  | nil => rfl
  | cons b bs =>
    have hlow : hexDigit (b.toNat % 16) ≠ 'x' := hexDigit_ne_x (Nat.mod_lt _ (by decide))
    rw [hexEncode, String.toList_ofList, List.flatMap_cons, List.cons_append, List.cons_append]
    unfold trimStart0x
    split
    · next heq => exact absurd (by simpa using heq) (by simp_all)
    · rfl

/-- **The text of a number is read back**, at any width that holds it. -/
theorem fromHex_hexEncode {K : Nat} (a : BigUint L) (hk : a.toBytesBe.length ≤ 8 * K) :
    fromHex (hexEncode a.toBytesBe) = .ok (wrap K a.val) := by
  have hdec : hexDecodeChars (trimStart0x (hexEncode a.toBytesBe).toList) = some a.toBytesBe := by
    rw [trimStart0x_hexEncode]
    exact hexDecode_hexEncode a.toBytesBe
  unfold fromHex
  rw [hdec]
  simp only
  rw [if_neg (Nat.not_lt.2 hk), fromBytesBe, ofBytes_toBytesBe]

@[simp] theorem fromHex_toHex (a : BigUint L) : fromHex a.toHex = .ok a := by
  rw [toHex, fromHex_hexEncode a (length_toBytesBe a), wrap_self]

/-! ## The greatest common divisor -/

theorem shr1_iterate_val (n : Nat) (a : BigUint L) : (shr1^[n] a).val = a.val / 2 ^ n := by
  induction n with
  | zero => simp
  | succ n ih =>
    rw [Function.iterate_succ_apply', pow_succ, ← Nat.div_div_eq_div_mul, ← ih]
    rfl

theorem shrN_val (a : BigUint L) (n : Nat) : (a.shrN n).val = a.val / 2 ^ n := by
  unfold shrN
  split
  · next h =>
    have hlt : a.val < 2 ^ n := a.lt.trans_le (Nat.pow_le_pow_right (by decide) h)
    exact (Nat.div_eq_of_lt hlt).symm
  · exact shr1_iterate_val n a

theorem shlN_val {a : BigUint L} {n : Nat} (h : 2 ^ n * a.val < 2 ^ (64 * L)) (ha : 0 < a.val) :
    (a.shlN n).val = 2 ^ n * a.val := by
  have hle : n ≤ 64 * L := by
    by_contra hn
    have h1 : 2 ^ (64 * L) ≤ 2 ^ n := Nat.pow_le_pow_right (by decide) (by omega)
    exact absurd h (Nat.not_lt.2 (h1.trans (Nat.le_mul_of_pos_right _ ha)))
  unfold shlN
  rw [Nat.min_eq_left hle]
  clear hle
  induction n with
  | zero => simp
  | succ n ih =>
    have hdouble : 2 ^ (n + 1) * a.val = 2 * (2 ^ n * a.val) := by ring
    rw [Function.iterate_succ_apply']
    have hn := ih (by omega)
    calc (shl1 ((fun b => (shl1 b).1)^[n] a)).1.val
        = (2 * ((fun b => (shl1 b).1)^[n] a).val) % 2 ^ (64 * L) := rfl
      _ = 2 ^ (n + 1) * a.val := by rw [hn, ← hdouble, Nat.mod_eq_of_lt h]

/-- The odd part: what is left when the trailing zeros are shifted out. -/
theorem shrN_trailingZeros {a : BigUint L} (ha : 0 < a.val) :
    (a.shrN a.trailingZeros).val % 2 = 1
      ∧ a.val = 2 ^ a.trailingZeros * (a.shrN a.trailingZeros).val := by
  obtain ⟨i, hi, hbit⟩ : ∃ i < 64 * L, a.val.testBit i = true := by
    obtain ⟨i, hbit⟩ := Nat.exists_testBit_of_ne_zero ha.ne'
    refine ⟨i, ?_, hbit⟩
    by_contra hle
    have hlt : a.val < 2 ^ i := a.lt.trans_le (Nat.pow_le_pow_right (by decide) (by omega))
    rw [Nat.testBit_lt_two_pow hlt] at hbit
    exact Bool.false_ne_true hbit
  cases hfind : (List.range (64 * L)).find? fun i => a.val.testBit i with
  | none => exact absurd hbit (List.find?_eq_none.1 hfind i (List.mem_range.2 hi))
  | some t =>
    have htz : a.trailingZeros = t := by rw [trailingZeros, hfind]; rfl
    have hlow : ∀ j < t, a.val.testBit j = false := by
      intro j hj
      have hrange := (List.find?_range_eq_some.1 hfind).2.2
      simpa using hrange j hj
    have hset : a.val.testBit t = true := (List.find?_range_eq_some.1 hfind).1
    have hdvd : 2 ^ t ∣ a.val := by
      rw [Nat.dvd_iff_mod_eq_zero]
      refine Nat.eq_of_testBit_eq fun j => ?_
      rw [Nat.testBit_mod_two_pow, Nat.zero_testBit]
      by_cases hj : j < t
      · rw [hlow j hj, Bool.and_false]
      · simp [hj]
    rw [htz, shrN_val]
    refine ⟨?_, (Nat.mul_div_cancel' hdvd).symm⟩
    rw [Nat.testBit_eq_decide_div_mod_eq] at hset
    simpa using hset

/-- Taking an odd number away and shifting out zeros keeps the divisors shared with it, and at
least halves the number. -/
theorem gcd_sub_shrN {a b : BigUint L} (hb : b.val % 2 = 1) (ha : a.val % 2 = 1)
    (hlt : b.val < a.val) :
    let d := (a.checkedSub b).getD a
    Nat.gcd (d.shrN d.trailingZeros).val b.val = Nat.gcd a.val b.val
      ∧ (d.shrN d.trailingZeros).val % 2 = 1 ∧ 2 * (d.shrN d.trailingZeros).val ≤ a.val := by
  intro d
  obtain ⟨c, hc, hval⟩ := checkedSub_of_le hlt.le
  have hd : d.val = a.val - b.val := by
    simp only [d, hc, Option.getD_some, hval]
  obtain ⟨hodd, hsplit⟩ := shrN_trailingZeros (a := d) (by omega)
  set o := (d.shrN d.trailingZeros).val with ho
  have htz : d.trailingZeros ≠ 0 := by
    intro h0
    rw [h0, pow_zero, one_mul] at hsplit
    omega
  have hcop : Nat.Coprime (2 ^ d.trailingZeros) b.val :=
    Nat.Coprime.pow_left _ (Nat.coprime_two_left.2 (Nat.odd_iff.2 hb))
  refine ⟨?_, hodd, ?_⟩
  · rw [← hcop.gcd_mul_left_cancel, ← hsplit, hd, Nat.gcd_sub_self_left hlt.le]
  · have h2 : 2 ≤ 2 ^ d.trailingZeros := Nat.le_self_pow htz 2
    calc 2 * o ≤ 2 ^ d.trailingZeros * o := Nat.mul_le_mul_right o h2
      _ ≤ a.val := by rw [← hsplit, hd]; exact Nat.sub_le _ _

theorem mul_lt_of_halved {a a' b k : Nat} (hhalf : 2 * a' ≤ a) (h : a * b < 2 ^ (k + 1)) :
    a' * b < 2 ^ k := by
  have hle : 2 * a' * b ≤ a * b := Nat.mul_le_mul_right b hhalf
  rw [Nat.mul_assoc] at hle
  rw [pow_succ] at h
  omega

theorem gcdLoop_val (fuel : Nat) (a b : BigUint L) (ha : a.val % 2 = 1) (hb : b.val % 2 = 1)
    (hfuel : a.val * b.val < 2 ^ fuel) : (gcdLoop fuel a b).val = Nat.gcd a.val b.val := by
  induction fuel generalizing a b with
  | zero =>
    have hpos : 0 < a.val * b.val := Nat.mul_pos (by omega) (by omega)
    omega
  | succ fuel ih =>
    unfold gcdLoop
    split
    · next h =>
      have heq : a.val = b.val := (cmpTo_eq a b).1 h
      rw [← heq, Nat.gcd_self]
    · next h =>
      obtain ⟨hgcd, hodd, hhalf⟩ := gcd_sub_shrN hb ha ((cmpTo_gt a b).1 h)
      exact (ih _ _ hodd hb (mul_lt_of_halved hhalf hfuel)).trans hgcd
    · next h =>
      obtain ⟨hgcd, hodd, hhalf⟩ := gcd_sub_shrN ha hb ((cmpTo_lt a b).1 h)
      have hlt := mul_lt_of_halved hhalf (Nat.mul_comm a.val b.val ▸ hfuel)
      have hloop := ih _ _ ha hodd (Nat.mul_comm _ a.val ▸ hlt)
      rw [Nat.gcd_comm a.val, ← hgcd, Nat.gcd_comm]
      exact hloop

/-- **Stein's algorithm is the greatest common divisor**; the fuel is enough at every input. -/
@[simp] theorem binaryGcd_val (a b : BigUint L) : (a.binaryGcd b).val = Nat.gcd a.val b.val := by
  unfold binaryGcd
  split
  · next h => rw [(isZero_iff a).1 h, Nat.gcd_zero_left]
  · next h =>
    split
    · next h' => rw [(isZero_iff b).1 h', Nat.gcd_zero_right]
    · next h' =>
      have ha : 0 < a.val := Nat.pos_of_ne_zero (by simpa using h)
      have hb : 0 < b.val := Nat.pos_of_ne_zero (by simpa using h')
      obtain ⟨hoa, hsa⟩ := shrN_trailingZeros ha
      obtain ⟨hob, hsb⟩ := shrN_trailingZeros hb
      set za := a.trailingZeros
      set zb := b.trailingZeros
      set oa := a.shrN za
      set ob := b.shrN zb
      have hbound : oa.val * ob.val < 2 ^ (128 * L) := calc
        oa.val * ob.val < 2 ^ (64 * L) * 2 ^ (64 * L) := Nat.mul_lt_mul'' oa.lt ob.lt
        _ = 2 ^ (128 * L) := by rw [← pow_add]; congr 1; omega
      have hloop := gcdLoop_val (128 * L) oa ob hoa hob hbound
      have hgcd : Nat.gcd a.val b.val = 2 ^ min za zb * Nat.gcd oa.val ob.val := by
        have hca : Nat.Coprime (2 ^ (zb - za)) oa.val :=
          Nat.Coprime.pow_left _ (Nat.coprime_two_left.2 (Nat.odd_iff.2 hoa))
        have hcb : Nat.Coprime (2 ^ (za - zb)) ob.val :=
          Nat.Coprime.pow_left _ (Nat.coprime_two_left.2 (Nat.odd_iff.2 hob))
        rcases Nat.le_total za zb with hle | hle
        · have hpow : 2 ^ zb = 2 ^ za * 2 ^ (zb - za) := by rw [← pow_add, Nat.add_sub_cancel' hle]
          rw [Nat.min_eq_left hle, hsa, hsb, hpow, mul_assoc, Nat.gcd_mul_left,
            hca.gcd_mul_left_cancel_right]
        · have hpow : 2 ^ za = 2 ^ zb * 2 ^ (za - zb) := by rw [← pow_add, Nat.add_sub_cancel' hle]
          rw [Nat.min_eq_right hle, hsa, hsb, hpow, mul_assoc, Nat.gcd_mul_left,
            hcb.gcd_mul_left_cancel]
      have hle : Nat.gcd a.val b.val < 2 ^ (64 * L) :=
        (Nat.le_of_dvd ha (Nat.gcd_dvd_left _ _)).trans_lt a.lt
      have hpos : 0 < Nat.gcd oa.val ob.val := Nat.gcd_pos_of_pos_left _ (by omega)
      rw [shlN_val (by rw [hloop, ← hgcd]; exact hle) (by rw [hloop]; exact hpos), hloop, hgcd]

/-! ## Reduction -/

/-- A number up to `2 * n` loses `n` once it reaches it, past the width too. -/
theorem reduceOnce_val {t : Nat} {n : BigUint L} (ht : t ≤ 2 * n.val) :
    (reduceOnce (wrap L t) (t / 2 ^ (64 * L)) n).val = if t < n.val then t else t - n.val := by
  have hn := n.lt
  unfold reduceOnce
  rcases Nat.lt_or_ge t (2 ^ (64 * L)) with hsmall | hbig
  · have hval : (wrap L t).val = t := wrap_of_lt hsmall
    rw [if_neg (by simp [Nat.div_eq_of_lt hsmall])]
    by_cases hlt : t < n.val
    · rw [if_pos ((cmpTo_lt _ _).2 (by rwa [hval])), if_pos hlt, hval]
    · obtain ⟨c, hc, hcval⟩ := checkedSub_of_le (a := wrap L t) (b := n) (by omega)
      rw [if_neg (by rw [cmpTo_lt, hval]; exact hlt), if_neg hlt, hc, Option.getD_some, hcval, hval]
  · -- The carry stands for `2 ^ (64 * L)`, which the complement of `n` makes up for.
    have hval : (wrap L t).val = t - 2 ^ (64 * L) := by
      rw [wrap_val, Nat.mod_eq_sub_mod hbig, Nat.mod_eq_of_lt (by omega)]
    have hsum : (wrap L t).val + (2 ^ (64 * L) - n.val) = t - n.val := by omega
    rw [if_pos (Nat.div_pos hbig (by positivity)).ne', hsum, wrap_of_lt (by omega),
      if_neg (by omega)]

theorem modEq_reduce (t n : Nat) : (if t < n then t else t - n) ≡ t [MOD n] := by
  split
  · rfl
  · next h => exact (Nat.mod_eq_sub_mod (not_lt.1 h)).symm

theorem modDouble_val {a n : BigUint L} (h : a.val ≤ n.val) :
    (a.modDouble n).val = if 2 * a.val < n.val then 2 * a.val else 2 * a.val - n.val :=
  reduceOnce_val (Nat.mul_le_mul_left 2 h)

/-- Repeated doubling stays at most `n` and multiplies the residue by a power of two. -/
theorem modDouble_iterate {a n : BigUint L} (h : a.val ≤ n.val) (k : Nat) :
    ((fun v => v.modDouble n)^[k] a).val ≤ n.val
      ∧ ((fun v => v.modDouble n)^[k] a).val ≡ 2 ^ k * a.val [MOD n.val] := by
  induction k with
  | zero => exact ⟨h, by rw [pow_zero, one_mul]; rfl⟩
  | succ k ih =>
    rw [Function.iterate_succ_apply']
    refine ⟨?_, ?_⟩
    · rw [modDouble_val ih.1]
      split <;> omega
    · rw [modDouble_val ih.1, pow_succ', mul_assoc]
      exact (modEq_reduce _ _).trans (ih.2.mul_left 2)

end BigUint

end DiscCleaner.Vdf
