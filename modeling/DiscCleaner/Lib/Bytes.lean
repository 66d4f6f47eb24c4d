import Mathlib.Data.List.Basic
import Mathlib.Data.Nat.Basic
import Mathlib.Tactic.IntervalCases

/-!
# Byte strings, fixed-width words and hexadecimal text

The byte-level vocabulary of the file formats: a cursor read (`readExact`), the
little-endian 32-bit length word (`le32` / `ofLe32`), fixed-size byte blocks
(`Block`), and lower-case hexadecimal text with its case-insensitive decoder.
Nothing here names a particular format.
-/

namespace ByteLib

abbrev Bytes := List UInt8

/-! ## Cursor reads -/

/-- Split the next `n` bytes off a cursor, or fail when fewer remain. -/
def readExact (n : Nat) (bs : Bytes) : Option (Bytes × Bytes) :=
  if n ≤ bs.length then some (bs.take n, bs.drop n) else none

@[simp] theorem readExact_append (a b : Bytes) : readExact a.length (a ++ b) = some (a, b) := by
  simp [readExact]

theorem readExact_append_of_length {n : Nat} {a : Bytes} (h : a.length = n) (b : Bytes) :
    readExact n (a ++ b) = some (a, b) := by
  subst h; exact readExact_append a b

theorem readExact_eq_none {n : Nat} {bs : Bytes} : readExact n bs = none ↔ bs.length < n := by
  simp [readExact]

theorem readExact_eq_some {n : Nat} {bs a b : Bytes} :
    readExact n bs = some (a, b) ↔ bs = a ++ b ∧ a.length = n := by
  constructor
  · intro h
    unfold readExact at h
    split at h
    · next hn =>
      obtain ⟨rfl, rfl⟩ := Prod.mk.inj (Option.some.inj h)
      exact ⟨(List.take_append_drop n bs).symm, by simpa using hn⟩
    · exact absurd h (by simp)
  · rintro ⟨rfl, hlen⟩
    exact readExact_append_of_length hlen b

/-! ## The little-endian length word -/

/-- The four little-endian bytes of `n`, as an unsigned 32-bit word (`n` wraps at `2^32`). -/
def le32 (n : Nat) : Bytes :=
  [UInt8.ofNat n, UInt8.ofNat (n / 256), UInt8.ofNat (n / 65536), UInt8.ofNat (n / 16777216)]

/-- The value of a little-endian byte string. -/
def ofLe : Bytes → Nat
  | [] => 0
  | b :: bs => b.toNat + 256 * ofLe bs

/-- The little-endian 16-bit word at an offset. -/
def le16At (raw : Bytes) (i : Nat) : Nat := (raw.getD i 0).toNat + 256 * (raw.getD (i + 1) 0).toNat

@[simp] theorem le32_length (n : Nat) : (le32 n).length = 4 := rfl

theorem ofLe_le32_mod (n : Nat) : ofLe (le32 n) = n % 2 ^ 32 := by
  simp only [le32, ofLe, UInt8.toNat_ofNat']
  omega

theorem ofLe_le32 {n : Nat} (h : n < 2 ^ 32) : ofLe (le32 n) = n := by
  rw [ofLe_le32_mod, Nat.mod_eq_of_lt h]

theorem ofNat_eq_iff {n : Nat} {a : UInt8} : UInt8.ofNat n = a ↔ n % 256 = a.toNat := by
  rw [← UInt8.toNat_inj, UInt8.toNat_ofNat']

theorem le32_ofLe {bs : Bytes} (h : bs.length = 4) : le32 (ofLe bs) = bs := by
  match bs, h with
  | [a, b, c, d], _ =>
    have ha := a.toNat_lt
    have hb := b.toNat_lt
    have hc := c.toNat_lt
    have hd := d.toNat_lt
    simp only [le32, ofLe, List.cons.injEq, and_true]
    refine ⟨?_, ?_, ?_, ?_⟩ <;> rw [ofNat_eq_iff] <;> omega

/-- A byte string of zeros has value zero. -/
theorem ofLe_append (a b : Bytes) : ofLe (a ++ b) = ofLe a + 256 ^ a.length * ofLe b := by
  induction a with
  | nil => simp [ofLe]
  | cons x a ih =>
    rw [List.cons_append, ofLe, ofLe, ih, List.length_cons, Nat.pow_succ, Nat.mul_add,
      ← Nat.mul_assoc, Nat.mul_comm (256 ^ a.length), Nat.add_assoc]

theorem ofLe_lt (bs : Bytes) : ofLe bs < 256 ^ bs.length := by
  induction bs with
  | nil => decide
  | cons b bs ih =>
    have hb : b.toNat < 256 := b.toNat_lt
    rw [ofLe, List.length_cons, Nat.pow_succ]
    omega

theorem ofLe_eq_zero_of_all_zero {bs : Bytes} (h : ∀ b ∈ bs, b = 0) : ofLe bs = 0 := by
  induction bs with
  | nil => rfl
  | cons b bs ih =>
    have hb : b = 0 := h b (by simp)
    have hbs : ofLe bs = 0 := ih fun x hx => h x (by simp [hx])
    simp [ofLe, hb, hbs]

/-! ## Fixed-size blocks -/

/-- A byte string of exactly `n` bytes. -/
structure Block (n : Nat) where
  bytes : Bytes
  size : bytes.length = n
  deriving DecidableEq

theorem zeroDigest_length : (List.replicate 32 (0 : UInt8)).length = 32 := rfl

@[ext] theorem Block.ext {n : Nat} {a b : Block n} (h : a.bytes = b.bytes) : a = b := by
  cases a; cases b; simp_all

/-- View a byte string as a block, when it has the right size. -/
def Block.ofBytes? (n : Nat) (bs : Bytes) : Option (Block n) :=
  if h : bs.length = n then some ⟨bs, h⟩ else none

@[simp] theorem Block.ofBytes?_bytes {n : Nat} (b : Block n) :
    Block.ofBytes? n b.bytes = some b := by
  simp [Block.ofBytes?, b.size]

theorem Block.ofBytes?_eq_some {n : Nat} {bs : Bytes} {b : Block n} :
    Block.ofBytes? n bs = some b ↔ b.bytes = bs := by
  constructor
  · intro h
    unfold Block.ofBytes? at h
    split at h
    · exact (Option.some.inj h) ▸ rfl
    · exact absurd h (by simp)
  · rintro rfl
    exact Block.ofBytes?_bytes b

/-- The block of `n` bytes that spells a number, most significant byte first. -/
def Block.ofNat (n v : Nat) : Block n where
  bytes := (List.range n).map fun i => UInt8.ofNat (v / 256 ^ (n - 1 - i))
  size := by simp

def Block.append {m n : Nat} (a : Block m) (b : Block n) : Block (m + n) where
  bytes := a.bytes ++ b.bytes
  size := by rw [List.length_append, a.size, b.size]

/-- Read a block off a cursor. -/
def readBlock (n : Nat) (bs : Bytes) : Option (Block n × Bytes) :=
  if h : n ≤ bs.length then some (⟨bs.take n, by simpa using h⟩, bs.drop n) else none

@[simp] theorem readBlock_append {n : Nat} (b : Block n) (rest : Bytes) :
    readBlock n (b.bytes ++ rest) = some (b, rest) := by
  have hlen : n ≤ (b.bytes ++ rest).length := by simp [b.size]
  unfold readBlock
  rw [dif_pos hlen]
  congr 2
  · exact Block.ext (List.take_left' b.size)
  · exact List.drop_left' b.size

theorem readBlock_eq_none {n : Nat} {bs : Bytes} : readBlock n bs = none ↔ bs.length < n := by
  simp [readBlock]

theorem readBlock_eq_some {n : Nat} {bs rest : Bytes} {b : Block n} :
    readBlock n bs = some (b, rest) ↔ bs = b.bytes ++ rest := by
  constructor
  · intro h
    unfold readBlock at h
    split at h
    · obtain ⟨rfl, rfl⟩ := Prod.mk.inj (Option.some.inj h)
      exact (List.take_append_drop n bs).symm
    · exact absurd h (by simp)
  · rintro rfl
    exact readBlock_append b rest

/-! ## Text as bytes -/

/-- The UTF-8 bytes of a text. -/
def utf8 (s : String) : Bytes := s.toList.flatMap String.utf8EncodeChar

/-- The text a byte string encodes; ill-formed UTF-8 fails. -/
def fromUtf8 (bs : Bytes) : Option String := String.fromUTF8? bs.toByteArray

@[simp] theorem fromUtf8_utf8 (s : String) : fromUtf8 (utf8 s) = some s := by
  have hbytes : (utf8 s).toByteArray = s.toByteArray := by
    rw [← String.ofList_toList (s := s), String.toByteArray_ofList]
    simp [utf8, List.utf8Encode]
  unfold fromUtf8 String.fromUTF8?
  rw [dif_pos (hbytes ▸ s.isValidUTF8), Option.some.injEq, ← String.toByteArray_inj]
  exact hbytes

theorem utf8_injective : Function.Injective utf8 := by
  intro a b h
  have := congrArg fromUtf8 h
  simpa using this

/-- The Unicode `White_Space` property. -/
def isWhitespace (c : Char) : Bool :=
  let n := c.toNat
  9 ≤ n ∧ n ≤ 13 ∨ n = 0x20 ∨ n = 0x85 ∨ n = 0xA0 ∨ n = 0x1680 ∨ 0x2000 ≤ n ∧ n ≤ 0x200A
    ∨ n = 0x2028 ∨ n = 0x2029 ∨ n = 0x202F ∨ n = 0x205F ∨ n = 0x3000

/-- A text without the white space at its ends. -/
def trim (s : String) : String :=
  String.ofList (((s.toList.dropWhile isWhitespace).reverse.dropWhile isWhitespace).reverse)

/-! ## Hexadecimal text -/

/-- The lower-case digit of a nibble. -/
def hexDigit (n : Nat) : Char :=
  if n < 10 then Char.ofNat (48 + n) else Char.ofNat (87 + n)

/-- The nibble of a digit, in either case. -/
def unhexDigit (c : Char) : Option Nat :=
  let n := c.toNat
  if 48 ≤ n ∧ n ≤ 57 then some (n - 48)
  else if 97 ≤ n ∧ n ≤ 102 then some (n - 87)
  else if 65 ≤ n ∧ n ≤ 70 then some (n - 55)
  else none

theorem unhexDigit_hexDigit {n : Nat} (h : n < 16) : unhexDigit (hexDigit n) = some n := by
  interval_cases n <;> decide

/-- Lower-case hexadecimal text of a byte string. -/
def hexEncode (bs : Bytes) : String :=
  String.ofList (bs.flatMap fun b => [hexDigit (b.toNat / 16), hexDigit (b.toNat % 16)])

/-- Decode a digit sequence two digits at a time; an odd digit or a foreign character fails. -/
def hexDecodeChars : List Char → Option Bytes
  | [] => some []
  | [_] => none
  | c :: d :: rest => do
    let hi ← unhexDigit c
    let lo ← unhexDigit d
    let bs ← hexDecodeChars rest
    some (UInt8.ofNat (16 * hi + lo) :: bs)

def hexDecode (s : String) : Option Bytes := hexDecodeChars s.toList

theorem hexDecodeChars_encode (bs : Bytes) :
    hexDecodeChars (bs.flatMap fun b => [hexDigit (b.toNat / 16), hexDigit (b.toNat % 16)])
      = some bs := by
  induction bs with
  | nil => rfl
  | cons b bs ih =>
    have hlt : b.toNat < 256 := b.toNat_lt
    have hhi := unhexDigit_hexDigit (n := b.toNat / 16) (by omega)
    have hlo := unhexDigit_hexDigit (n := b.toNat % 16) (by omega)
    have hbyte : UInt8.ofNat (16 * (b.toNat / 16) + b.toNat % 16) = b := by
      rw [Nat.div_add_mod]; exact UInt8.ofNat_toNat
    rw [List.flatMap_cons, List.cons_append, List.cons_append, List.nil_append, hexDecodeChars,
      hhi, hlo, ih]
    simp only [Option.bind_eq_bind, Option.bind_some, hbyte]

/-- **Decoding inverts encoding.** -/
@[simp] theorem hexDecode_hexEncode (bs : Bytes) : hexDecode (hexEncode bs) = some bs := by
  simp [hexDecode, hexEncode, hexDecodeChars_encode]

theorem hexEncode_injective : Function.Injective hexEncode := by
  intro a b h
  have := congrArg hexDecode h
  simpa using this

end ByteLib
