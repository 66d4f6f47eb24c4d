import Mathlib.Data.List.GetD
import Mathlib.Data.List.OfFn
import Mathlib.Tactic.Ring

/-!
# Sponges

The sponge construction on bytes: a state of `w` bytes, a permutation of it, a rate of `r` bytes
and a domain byte that holds the suffix of the message and the first bit of its padding.

* **`sponge`** — the definition: pad, absorb block by block, squeeze block by block, truncate.
* **`bitsOf_padding`** — the padding bytes are the domain's suffix and `pad10*1`, bit for bit.
* **`Absorbed`**, **`Squeezed`** — where a streaming implementation stands, and what one more run
  of bytes does to it.
-/

namespace SpongeLib

/-- The bytes of a state. -/
abbrev Bytes (w : Nat) := Fin w → UInt8

variable {w : Nat}

/-- `S ⊕ (P ‖ 0…0)`. -/
def xorBlock (s : Bytes w) (block : List UInt8) : Bytes w := fun i => s i ^^^ block.getD i 0

/-- The state with a run of bytes added from an offset on. -/
def xorFrom (s : Bytes w) (pos : Nat) (run : List UInt8) : Bytes w := fun i =>
  if pos ≤ i then s i ^^^ run.getD (i - pos) 0 else s i

/-- A byte of the state, zero past its end. -/
def byte (s : Bytes w) (k : Nat) : UInt8 := if h : k < w then s ⟨k, h⟩ else 0

/-! ## The construction -/

/-- What follows a message of `m` bytes: the domain byte, zeros, and the last bit of the block. The
first and the last bit of the padding are two bits: a domain byte that has its own top bit in the
last byte of a block needs a block more. -/
def padding (r : Nat) (domain : UInt8) (m : Nat) : List UInt8 :=
  if m % r + 1 < r then domain :: List.replicate (r - m % r - 2) 0 ++ [0x80]
  else if domain < 0x80 then [domain ||| 0x80]
  else domain :: List.replicate (r - 1) 0 ++ [0x80]

section
variable (f : Bytes w → Bytes w) (r : Nat)

/-- `S ← f (S ⊕ (P ‖ 0…0))`, block by block. -/
def absorb : Nat → Bytes w → List UInt8 → Bytes w
  | 0, s, _ => s
  | k + 1, s, p => absorb k (f (xorBlock s (p.take r))) (p.drop r)

/-- `Z ← Z ‖ Trunc r S`, `S ← f S`, block by block. -/
def squeeze : Nat → Bytes w → List UInt8
  | 0, _ => []
  | k + 1, s => (List.ofFn s).take r ++ squeeze k (f s)

/-- The state when the padded message is absorbed. -/
def digestState (domain : UInt8) (m : List UInt8) : Bytes w :=
  let p := m ++ padding r domain m.length
  absorb f r (p.length / r) (fun _ => 0) p

/-- The first `n` bytes of the sponge of a message. -/
def sponge (domain : UInt8) (m : List UInt8) (n : Nat) : List UInt8 :=
  (squeeze f r (n / r + 1) (digestState f r domain m)).take n

end

/-! ## The padding, bit by bit -/

/-- The bits of a byte, lowest first. -/
def bits (b : UInt8) : List Bool := (List.range 8).map b.toNat.testBit

/-- The bits of a string of bytes. -/
def bitsOf (bs : List UInt8) : List Bool := bs.flatMap bits

/-- The bits of the domain byte below its highest one. -/
def suffix (domain : UInt8) : List Bool := (bits domain).take (Nat.log2 domain.toNat)

/-- `pad10*1`: a one, as few zeros as fill the block, a one; `len` bits stand before it. -/
def pad101 (rate len : Nat) : List Bool :=
  true :: List.replicate ((rate - (len + 2) % rate) % rate) false ++ [true]

theorem length_bits (b : UInt8) : (bits b).length = 8 := by simp [bits]

theorem bitsOf_append (as bs : List UInt8) : bitsOf (as ++ bs) = bitsOf as ++ bitsOf bs :=
  List.flatMap_append

theorem length_bitsOf (bs : List UInt8) : (bitsOf bs).length = 8 * bs.length := by
  induction bs with
  | nil => rfl
  | cons b bs ih =>
    show (bits b ++ bitsOf bs).length = 8 * (bs.length + 1)
    rw [List.length_append, length_bits, ih]
    ring

theorem bitsOf_zeros (n : Nat) : bitsOf (List.replicate n 0) = List.replicate (8 * n) false := by
  induction n with
  | zero => rfl
  | succ n ih =>
    show bits 0 ++ bitsOf (List.replicate n 0) = _
    have h0 : bits 0 = List.replicate 8 false := by decide
    rw [ih, h0, List.replicate_append_replicate]
    congr 1
    ring

theorem bits_last : bits 0x80 = List.replicate 7 false ++ [true] := by decide

theorem bits_table : ∀ n : Fin 256, n ≠ 0 →
    (suffix (UInt8.ofNat n)).length ≤ 7 ∧
    bits (UInt8.ofNat n) = suffix (UInt8.ofNat n) ++
      true :: List.replicate (7 - (suffix (UInt8.ofNat n)).length) false ∧
    (n < 128 ↔ (suffix (UInt8.ofNat n)).length ≤ 6) ∧
    (n < 128 → bits (UInt8.ofNat n ||| 0x80) = suffix (UInt8.ofNat n) ++
      (true :: List.replicate (6 - (suffix (UInt8.ofNat n)).length) false ++ [true])) := by
  set_option maxRecDepth 4000 in
  decide

/-- A domain byte is its suffix, the first bit of the padding, and zeros. -/
theorem bits_domain {domain : UInt8} (h0 : domain ≠ 0) :
    (suffix domain).length ≤ 7 ∧
    bits domain = suffix domain ++ true :: List.replicate (7 - (suffix domain).length) false ∧
    (domain < 0x80 ↔ (suffix domain).length ≤ 6) ∧
    (domain < 0x80 → bits (domain ||| 0x80) = suffix domain ++
      (true :: List.replicate (6 - (suffix domain).length) false ++ [true])) := by
  have hn : (⟨domain.toNat, domain.toNat_lt⟩ : Fin 256) ≠ 0 := fun h =>
    h0 (UInt8.toNat_inj.mp (congrArg Fin.val h))
  have ht := bits_table ⟨domain.toNat, domain.toNat_lt⟩ hn
  have hlt : (⟨domain.toNat, domain.toNat_lt⟩ : Fin 256) < 128 ↔ domain < 0x80 := by
    rw [UInt8.lt_iff_toNat_lt]
    exact Fin.lt_def
  rw [UInt8.ofNat_toNat, hlt] at ht
  exact ht

/-- A bit that is not there is added and set alike. -/
theorem top_bit {domain : UInt8} (h : domain < 0x80) : domain ^^^ 0x80 = domain ||| 0x80 := by
  have table : ∀ n : Fin 128, UInt8.ofNat n ^^^ 0x80 = UInt8.ofNat n ||| 0x80 := by decide
  have ht := table ⟨domain.toNat, UInt8.lt_iff_toNat_lt.mp h⟩
  rwa [UInt8.ofNat_toNat] at ht

/-- The zeros between the two ones are told by how many they are and what they fill up. -/
theorem zeros_unique {rate len z : Nat} (hz : z < rate) (h : (len + 2 + z) % rate = 0) :
    (rate - (len + 2) % rate) % rate = z := by
  have hlt : (len + 2) % rate < rate := Nat.mod_lt _ (by omega)
  have hsum : ((len + 2) % rate + z) % rate = 0 := by rw [Nat.mod_add_mod, h]
  by_cases hs : (len + 2) % rate + z < rate
  · rw [Nat.mod_eq_of_lt hs] at hsum
    have h0 : (len + 2) % rate = 0 := by omega
    rw [h0, Nat.sub_zero, Nat.mod_self]
    omega
  · have hle : (len + 2) % rate + z - rate < rate := by omega
    rw [Nat.mod_eq_sub_mod (by omega), Nat.mod_eq_of_lt hle] at hsum
    rw [Nat.mod_eq_of_lt (by omega)]
    omega

/-- **The padding of the definition.** Read as bits, the padded message is the message, the
suffix of its domain, and `pad10*1` up to the end of a block. -/
theorem bitsOf_padding {r : Nat} (hr : 0 < r) {domain : UInt8} (h0 : domain ≠ 0)
    (m : List UInt8) :
    bitsOf (m ++ padding r domain m.length) = bitsOf m ++ (suffix domain ++
      pad101 (8 * r) ((bitsOf m).length + (suffix domain).length)) := by
  obtain ⟨hlen, hbits, hsmall, hlast⟩ := bits_domain h0
  rw [bitsOf_append, length_bitsOf]
  congr 1
  have hp : m.length % r < r := Nat.mod_lt _ hr
  have hm : m.length = r * (m.length / r) + m.length % r := (Nat.div_add_mod _ _).symm
  generalize hlz : (suffix domain).length = l at *
  -- `z` zeros fill the block
  have fill : ∀ z blocks : Nat, z < 8 * r →
      8 * (m.length % r) + l + 2 + z = 8 * r * blocks →
      (8 * r - (8 * m.length + l + 2) % (8 * r)) % (8 * r) = z := by
    intro z blocks hz hsum
    refine zeros_unique hz ?_
    have : 8 * m.length + l + 2 + z = 8 * r * (m.length / r + blocks) := by
      rw [Nat.mul_add, ← hsum, Nat.mul_assoc 8 r]
      omega
    rw [this, Nat.mul_mod_right]
  have long : ∀ n, bitsOf (domain :: List.replicate n 0 ++ [0x80]) =
      suffix domain ++ (true :: List.replicate (7 - l + 8 * n + 7) false ++ [true]) := by
    intro n
    show bits domain ++ bitsOf (List.replicate n 0 ++ [0x80]) = _
    rw [bitsOf_append, bitsOf_zeros, hbits]
    show _ ++ (_ ++ (bits 0x80 ++ [])) = _
    rw [bits_last]
    simp only [List.append_nil, List.append_assoc, List.cons_append,
      ← List.replicate_append_replicate]
  unfold padding pad101
  by_cases h1 : m.length % r + 1 < r
  · rw [if_pos h1, long, fill (7 - l + 8 * (r - m.length % r - 2) + 7) 1 (by omega) (by omega)]
  · by_cases h2 : domain < 0x80
    · have h6 := hsmall.mp h2
      rw [if_neg h1, if_pos h2, fill (6 - l) 1 (by omega) (by omega), ← hlast h2]
      exact List.append_nil _
    · have h7 : ¬l ≤ 6 := fun h => h2 (hsmall.mpr h)
      rw [if_neg h1, if_neg h2, long, fill (7 - l + 8 * (r - 1) + 7) 2 (by omega) (by omega)]

/-! ## Runs of bytes -/

theorem xorFrom_nil (s : Bytes w) (pos : Nat) : xorFrom s pos [] = s := by
  funext i
  unfold xorFrom
  split <;> simp

theorem xorFrom_append (s : Bytes w) (pos : Nat) (as bs : List UInt8) :
    xorFrom s pos (as ++ bs) = xorFrom (xorFrom s pos as) (pos + as.length) bs := by
  funext i
  unfold xorFrom
  by_cases h1 : pos ≤ i
  · by_cases h2 : pos + as.length ≤ i
    · have hout : as.getD (i - pos) 0 = 0 := List.getD_eq_default _ _ (by omega)
      rw [if_pos h1, if_pos h2, if_pos h1, List.getD_append_right _ _ _ _ (by omega), hout,
        UInt8.xor_zero, Nat.sub_add_eq]
    · rw [if_pos h1, if_neg h2, if_pos h1, List.getD_append _ _ _ _ (by omega)]
  · rw [if_neg h1, if_neg (by omega), if_neg h1]

theorem xorFrom_zeros (s : Bytes w) (pos n : Nat) : xorFrom s pos (List.replicate n 0) = s := by
  funext i
  unfold xorFrom
  by_cases h : i - pos < n <;> simp [List.getD_eq_getElem?_getD, h]

theorem xorFrom_xorBlock (s : Bytes w) (block run : List UInt8) :
    xorFrom (xorBlock s block) block.length run = xorBlock s (block ++ run) := by
  have hzero : ∀ (t : Bytes w) (bs : List UInt8), xorBlock t bs = xorFrom t 0 bs := by
    intro t bs
    funext i
    unfold xorBlock xorFrom
    rw [if_pos (Nat.zero_le _), Nat.sub_zero]
  rw [hzero, hzero, xorFrom_append, Nat.zero_add]

theorem xorBlock_nil (s : Bytes w) : xorBlock s [] = s := by
  funext i
  simp [xorBlock]

section
variable (f : Bytes w → Bytes w) (r : Nat)

/-! ## Absorbing -/

theorem absorb_append {q : Nat} {s : Bytes w} {m run : List UInt8} (h : q * r ≤ m.length) :
    absorb f r q s (m ++ run) = absorb f r q s m := by
  induction q generalizing s m with
  | zero => rfl
  | succ q ih =>
    have hr : r ≤ m.length := by
      rw [Nat.succ_mul] at h
      omega
    show absorb f r q _ _ = absorb f r q _ _
    rw [List.take_append_of_le_length hr, List.drop_append_of_le_length hr]
    refine ih ?_
    rw [List.length_drop]
    rw [Nat.succ_mul] at h
    omega

/-- The last block of those absorbed. -/
theorem absorb_last (q : Nat) (s : Bytes w) (p : List UInt8) :
    absorb f r (q + 1) s p = f (xorBlock (absorb f r q s p) ((p.drop (q * r)).take r)) := by
  induction q generalizing s p with
  | zero => rw [Nat.zero_mul, List.drop_zero]; rfl
  | succ q ih =>
    show absorb f r (q + 1) (f (xorBlock s (p.take r))) (p.drop r) = _
    rw [ih, List.drop_drop, Nat.succ_mul, Nat.add_comm r]
    rfl

/-- The message so far, block after block, and the bytes of the block it stands in. -/
structure Absorbed (m : List UInt8) (s : Bytes w) (pos : Nat) : Prop where
  pos_lt : pos < r
  split : ∃ q, m.length = q * r + pos ∧
    s = xorBlock (absorb f r q (fun _ => 0) m) (m.drop (q * r))

namespace Absorbed

variable {f r} {m : List UInt8} {s : Bytes w} {pos : Nat}

theorem start (hr : 0 < r) : Absorbed f r [] (fun _ => 0 : Bytes w) 0 :=
  ⟨hr, 0, by simp, by simp [absorb, xorBlock_nil]⟩

/-- The block with a run of bytes behind the ones it has. -/
theorem xorFrom_run (h : Absorbed f r m s pos) (run : List UInt8) :
    ∃ q, m.length = q * r + pos ∧ xorFrom s pos run =
      xorBlock (absorb f r q (fun _ => 0) (m ++ run)) ((m ++ run).drop (q * r)) := by
  obtain ⟨q, hlen, hs⟩ := h.split
  refine ⟨q, hlen, ?_⟩
  have hrest : (m.drop (q * r)).length = pos := by
    rw [List.length_drop]
    omega
  rw [absorb_append f r (by omega), List.drop_append_of_le_length (by omega), hs,
    ← xorFrom_xorBlock, hrest]

/-- A run that stays in the block. -/
theorem within (h : Absorbed f r m s pos) {run : List UInt8} (hrun : pos + run.length < r) :
    Absorbed f r (m ++ run) (xorFrom s pos run) (pos + run.length) := by
  obtain ⟨q, hlen, hs⟩ := h.xorFrom_run run
  refine ⟨hrun, q, ?_, hs⟩
  rw [List.length_append]
  omega

/-- A run that fills the block. -/
theorem full (h : Absorbed f r m s pos) {run : List UInt8} (hrun : pos + run.length = r) :
    Absorbed f r (m ++ run) (f (xorFrom s pos run)) 0 := by
  obtain ⟨q, hlen, hs⟩ := h.xorFrom_run run
  have hall : (m ++ run).length = (q + 1) * r := by
    rw [List.length_append, Nat.succ_mul]
    omega
  refine ⟨lt_of_le_of_lt (Nat.zero_le pos) h.pos_lt, q + 1, hall, ?_⟩
  have hblock : ((m ++ run).drop (q * r)).take r = (m ++ run).drop (q * r) := by
    refine List.take_of_length_le ?_
    rw [List.length_drop, hall, Nat.succ_mul]
    omega
  have hdone : (m ++ run).drop ((q + 1) * r) = [] := List.drop_eq_nil_of_le (le_of_eq hall)
  rw [hs, hdone, xorBlock_nil, absorb_last, hblock]

/-- Once the message stands at the end of a block, the blocks are all there is. -/
theorem state_eq (h : Absorbed f r m s 0) : s = absorb f r (m.length / r) (fun _ => 0) m := by
  obtain ⟨q, hlen, hs⟩ := h.split
  have hq : m.length / r = q := by
    rw [hlen, Nat.add_zero]
    exact Nat.mul_div_cancel q h.pos_lt
  have hdone : m.drop (q * r) = [] := List.drop_eq_nil_of_le (by omega)
  rw [hq, hs, hdone, xorBlock_nil]

theorem pos_eq (h : Absorbed f r m s pos) : m.length % r = pos := by
  obtain ⟨q, hlen, _⟩ := h.split
  rw [hlen, Nat.mul_add_mod', Nat.mod_eq_of_lt h.pos_lt]

/-- Closing in a block with room for both ends of the padding. -/
theorem close (h : Absorbed f r m s pos) {domain : UInt8}
    (hroom : ¬(0x80 ≤ domain ∧ pos + 1 = r)) :
    f (xorFrom (xorFrom s pos [domain]) (r - 1) [0x80]) = digestState f r domain m := by
  have hpos := h.pos_lt
  have hp := h.pos_eq
  have key : ∀ pad, padding r domain m.length = pad → pos + pad.length = r →
      f (xorFrom s pos pad) = digestState f r domain m := by
    intro pad hpad hfill
    unfold digestState
    rw [hpad]
    exact (h.full hfill).state_eq
  unfold padding at key
  rw [hp] at key
  by_cases h1 : pos + 1 < r
  · rw [if_pos h1] at key
    have hzeros : xorFrom s pos (domain :: List.replicate (r - pos - 2) 0) =
        xorFrom s pos [domain] := by
      rw [← List.singleton_append, xorFrom_append, xorFrom_zeros]
    have hend : pos + (domain :: List.replicate (r - pos - 2) (0 : UInt8)).length = r - 1 := by
      rw [List.length_cons, List.length_replicate]
      omega
    rw [← key _ rfl (by simp; omega), xorFrom_append, hzeros, hend]
  · have hlast : pos = r - 1 := by omega
    have hlow : domain < 0x80 := by
      rw [← UInt8.not_le]
      exact fun hd => hroom ⟨hd, by omega⟩
    rw [if_neg h1, if_pos hlow] at key
    rw [← key _ rfl (by simp; omega), ← hlast]
    congr 1
    funext i
    unfold xorFrom
    by_cases hi : pos ≤ i
    · rw [if_pos hi, if_pos hi, if_pos hi, UInt8.xor_assoc]
      by_cases h0 : i - pos = 0
      · rw [h0]
        simp [top_bit hlow]
      · have hout : ∀ b : UInt8, [b].getD (i - pos) 0 = 0 := fun b =>
          List.getD_eq_default _ _ (by simp; omega)
        rw [hout, hout, hout, UInt8.xor_zero]
    · rw [if_neg hi, if_neg hi, if_neg hi]

end Absorbed

/-! ## Squeezing -/

/-- The byte `k` of what a state gives. -/
def outByte (s : Bytes w) (k : Nat) : UInt8 := byte (f^[k / r] s) (k % r)

theorem outByte_add (s : Bytes w) (k : Nat) (hr : 0 < r) :
    outByte f r s (r + k) = outByte f r (f s) k := by
  unfold outByte
  rw [Nat.add_div_left _ hr, Nat.add_mod_left, Function.iterate_succ_apply]

theorem squeeze_eq (hr : 0 < r) (hw : r ≤ w) (k : Nat) (s : Bytes w) :
    squeeze f r k s = (List.range (k * r)).map (outByte f r s) := by
  induction k generalizing s with
  | zero => simp [squeeze]
  | succ k ih =>
    have hblock : (List.ofFn s).take r = (List.range r).map (outByte f r s) := by
      refine List.ext_getElem (by simp [hw]) fun i h1 h2 => ?_
      have hi : i < r := by simpa using h2
      have hiw : i < w := by omega
      simp [outByte, byte, Nat.div_eq_of_lt hi, Nat.mod_eq_of_lt hi, hiw]
    have hrest : (List.range (k * r)).map (outByte f r (f s)) =
        (List.range (k * r)).map (outByte f r s ∘ (r + ·)) :=
      List.map_congr_left fun j _ => (outByte_add f r s j hr).symm
    show (List.ofFn s).take r ++ squeeze f r k (f s) = _
    rw [ih, hblock, hrest, Nat.succ_mul, Nat.add_comm (k * r), List.range_add, List.map_append,
      List.map_map]

/-- The sponge, byte by byte. -/
theorem sponge_eq (hr : 0 < r) (hw : r ≤ w) (domain : UInt8) (m : List UInt8) (n : Nat) :
    sponge f r domain m n = (List.range n).map (outByte f r (digestState f r domain m)) := by
  have hn : n ≤ (n / r + 1) * r := by
    have := Nat.lt_div_mul_add hr (a := n)
    rw [Nat.succ_mul]
    omega
  unfold sponge
  rw [squeeze_eq f r hr hw, ← List.map_take, List.take_range, Nat.min_eq_left hn]

/-- The state from which the byte `n` comes next, and its place in the block. -/
structure Squeezed (s₀ : Bytes w) (n : Nat) (s : Bytes w) (pos : Nat) : Prop where
  pos_lt : pos < r
  split : ∃ q, n = q * r + pos ∧ s = f^[q] s₀

namespace Squeezed

variable {f r} {s₀ s : Bytes w} {n pos : Nat}

theorem start (hr : 0 < r) (s₀ : Bytes w) : Squeezed f r s₀ 0 s₀ 0 :=
  ⟨hr, 0, (Nat.zero_mul r).symm, rfl⟩

theorem byte_eq (h : Squeezed f r s₀ n s pos) {k : Nat} (hk : pos + k < r) :
    byte s (pos + k) = outByte f r s₀ (n + k) := by
  obtain ⟨q, hn, hs⟩ := h.split
  have hr : 0 < r := lt_of_le_of_lt (Nat.zero_le _) hk
  unfold outByte
  rw [hn, Nat.add_assoc, Nat.mul_add_mod', Nat.mod_eq_of_lt hk, Nat.add_comm (q * r),
    Nat.add_mul_div_right _ _ hr, Nat.div_eq_of_lt hk, Nat.zero_add, hs]

theorem within (h : Squeezed f r s₀ n s pos) {k : Nat} (hk : pos + k < r) :
    Squeezed f r s₀ (n + k) s (pos + k) := by
  obtain ⟨q, hn, hs⟩ := h.split
  exact ⟨hk, q, by omega, hs⟩

theorem full (h : Squeezed f r s₀ n s pos) {k : Nat} (hk : pos + k = r) :
    Squeezed f r s₀ (n + k) (f s) 0 := by
  obtain ⟨q, hn, hs⟩ := h.split
  refine ⟨lt_of_le_of_lt (Nat.zero_le pos) h.pos_lt, q + 1, ?_, ?_⟩
  · rw [Nat.succ_mul]
    omega
  · rw [hs, Function.iterate_succ_apply']

end Squeezed

end

end SpongeLib
