import DiscCleaner.Lib.Bytes

/-!
# The syntax of JSON texts

JSON documents as they are spelled. The tree keeps every choice the grammar leaves to a writer:
the white space, the spelling of each character of a string, the parts of a number. So a text is a
valid document exactly when some tree spells it, and what a document says (its keys, its nesting) is
read off the tree, beside how it says it.
-/

namespace JsonSyntax

open ByteLib

/-! ## White space and numbers -/

/-- The white space of the grammar, which is less than that of Unicode. -/
def IsSpace (c : Char) : Prop := c = ' ' ∨ c = '\t' ∨ c = '\n' ∨ c = '\r'

structure Gap where
  text : List Char
  ok : ∀ c ∈ text, IsSpace c

def Gap.none : Gap := ⟨[], by simp⟩

/-- A run of digits, at least one. -/
structure Digits where
  text : List Char
  ok : text ≠ [] ∧ ∀ c ∈ text, c.isDigit = true

structure Exponent where
  upper : Bool
  /-- `+` or `-`, or no sign. -/
  sign : Option Bool
  digits : Digits

def Exponent.text (e : Exponent) : List Char :=
  (if e.upper then 'E' else 'e') ::
    ((match e.sign with
      | some true => ['+']
      | some false => ['-']
      | none => []) ++ e.digits.text)

/-- A number; its integer part has no zero in front. -/
structure Number where
  minus : Bool
  int : Digits
  plain : int.text.head? = some '0' → int.text = ['0']
  frac : Option Digits
  exp : Option Exponent

def Number.text (n : Number) : List Char :=
  (if n.minus then ['-'] else []) ++ n.int.text
    ++ (match n.frac with
      | some ds => '.' :: ds.text
      | none => [])
    ++ (match n.exp with
      | some e => e.text
      | none => [])

def IsNumberChar (c : Char) : Prop :=
  c.isDigit = true ∨ c = '-' ∨ c = '+' ∨ c = '.' ∨ c = 'e' ∨ c = 'E'

theorem Digits.isNumberChar (ds : Digits) {c : Char} (h : c ∈ ds.text) : IsNumberChar c :=
  .inl (ds.ok.2 c h)

theorem Exponent.isNumberChar (e : Exponent) {c : Char} (h : c ∈ e.text) : IsNumberChar c := by
  simp only [Exponent.text, List.mem_cons, List.mem_append] at h
  rcases h with hletter | hsign | hdigits
  · unfold IsNumberChar
    split at hletter <;> simp [hletter]
  · unfold IsNumberChar
    split at hsign <;> simp_all
  · exact e.digits.isNumberChar hdigits

/-- What a number is written with. -/
theorem Number.isNumberChar (n : Number) {c : Char} (h : c ∈ n.text) : IsNumberChar c := by
  simp only [Number.text, List.mem_append] at h
  rcases h with ((hminus | hint) | hfrac) | hexp
  · unfold IsNumberChar
    split at hminus <;> simp_all
  · exact n.int.isNumberChar hint
  · split at hfrac
    · rcases List.mem_cons.mp hfrac with hdot | hdigits
      · simp [IsNumberChar, hdot]
      · exact Digits.isNumberChar _ hdigits
    · simp at hfrac
  · split at hexp
    · exact Exponent.isNumberChar _ hexp
    · simp at hexp

/-! ## Strings -/

/-- A hexadecimal digit, in either case. -/
structure HexDigit where
  char : Char
  ok : (unhexDigit char).isSome = true
  deriving DecidableEq

def HexDigit.value (d : HexDigit) : Nat := (unhexDigit d.char).get d.ok

/-- The escapes of two characters. -/
inductive Escape where
  | quote | backslash | slash | backspace | formFeed | lineFeed | carriageReturn | tab
  deriving DecidableEq

/-- What stands behind the backslash. -/
def Escape.letter : Escape → Char
  | .quote => '"'
  | .backslash => '\\'
  | .slash => '/'
  | .backspace => 'b'
  | .formFeed => 'f'
  | .lineFeed => 'n'
  | .carriageReturn => 'r'
  | .tab => 't'

/-- The character it stands for. -/
def Escape.meaning : Escape → Char
  | .quote => '"'
  | .backslash => '\\'
  | .slash => '/'
  | .backspace => Char.ofNat 8
  | .formFeed => Char.ofNat 12
  | .lineFeed => '\n'
  | .carriageReturn => '\r'
  | .tab => '\t'

/-- One character of a string, or one half of a surrogate pair. -/
inductive StringItem where
  | plain (c : Char) (ok : 0x20 ≤ c.toNat ∧ c ≠ '"' ∧ c ≠ '\\')
  | escape (e : Escape)
  | unicode (d₃ d₂ d₁ d₀ : HexDigit)
  deriving DecidableEq

abbrev Str := List StringItem

def StringItem.text : StringItem → List Char
  | .plain c _ => [c]
  | .escape e => ['\\', e.letter]
  | .unicode d₃ d₂ d₁ d₀ => ['\\', 'u', d₃.char, d₂.char, d₁.char, d₀.char]

/-- The UTF-16 code units of a character: itself, or a surrogate pair. -/
def utf16 (c : Char) : List Nat :=
  if c.toNat < 0x10000 then [c.toNat]
  else [0xD800 + (c.toNat - 0x10000) / 0x400, 0xDC00 + (c.toNat - 0x10000) % 0x400]

def StringItem.units : StringItem → List Nat
  | .plain c _ => utf16 c
  | .escape e => utf16 e.meaning
  | .unicode d₃ d₂ d₁ d₀ => [((d₃.value * 16 + d₂.value) * 16 + d₁.value) * 16 + d₀.value]

/-- What stands between the quotes. -/
def Str.body (s : Str) : List Char := s.flatMap StringItem.text

def Str.text (s : Str) : List Char := '"' :: (s.body ++ ['"'])

/-- The string that is meant, in UTF-16 code units: two spellings are equal after decoding exactly
when these are, for a surrogate pair is two units however it is spelled. -/
def Str.units (s : Str) : List Nat := s.flatMap StringItem.units

/-! ## Values -/

mutual

inductive Value where
  | null
  | bool (b : Bool)
  | number (n : Number)
  | string (s : Str)
  | emptyArray (gap : Gap)
  | array (elems : Elems)
  | emptyObject (gap : Gap)
  | object (members : Members)

/-- The elements of an array, each with the white space around it. -/
inductive Elems where
  | last (before : Gap) (value : Value) (after : Gap)
  | more (before : Gap) (value : Value) (after : Gap) (rest : Elems)

/-- The members of an object. -/
inductive Members where
  | last (before : Gap) (key : Str) (mid before' : Gap) (value : Value) (after : Gap)
  | more (before : Gap) (key : Str) (mid before' : Gap) (value : Value) (after : Gap)
      (rest : Members)

end

mutual

def Value.text : Value → List Char
  | .null => ['n', 'u', 'l', 'l']
  | .bool true => ['t', 'r', 'u', 'e']
  | .bool false => ['f', 'a', 'l', 's', 'e']
  | .number n => n.text
  | .string s => Str.text s
  | .emptyArray gap => '[' :: (gap.text ++ [']'])
  | .array es => '[' :: (es.text ++ [']'])
  | .emptyObject gap => '{' :: (gap.text ++ ['}'])
  | .object ms => '{' :: (ms.text ++ ['}'])

def Elems.text : Elems → List Char
  | .last before v after => before.text ++ (v.text ++ after.text)
  | .more before v after es => before.text ++ (v.text ++ (after.text ++ ',' :: es.text))

def Members.text : Members → List Char
  | .last before key mid before' v after =>
    before.text ++ (Str.text key ++ (mid.text ++ ':' :: (before'.text ++ (v.text ++ after.text))))
  | .more before key mid before' v after ms =>
    before.text ++ (Str.text key ++ (mid.text ++ ':' :: (before'.text ++ (v.text ++
      (after.text ++ ',' :: ms.text)))))

end

mutual

/-- The containers around the innermost value, an array counted with weight `w`. -/
def Value.nesting (w : Nat) : Value → Nat
  | .emptyArray _ => w
  | .array es => w + es.nesting w
  | .emptyObject _ => 1
  | .object ms => 1 + ms.nesting w
  | .null | .bool _ | .number _ | .string _ => 0

def Elems.nesting (w : Nat) : Elems → Nat
  | .last _ v _ => v.nesting w
  | .more _ v _ es => max (v.nesting w) (es.nesting w)

def Members.nesting (w : Nat) : Members → Nat
  | .last _ _ _ _ v _ => v.nesting w
  | .more _ _ _ _ v _ ms => max (v.nesting w) (ms.nesting w)

end

/-- The nesting depth of objects and arrays. -/
def Value.depth (v : Value) : Nat := v.nesting 1

/-- The nesting depth of the objects alone. -/
def Value.objectDepth (v : Value) : Nat := v.nesting 0

def Members.keys : Members → List Str
  | .last _ key _ _ _ _ => [key]
  | .more _ key _ _ _ _ ms => key :: ms.keys

mutual

/-- The keys of each object in a value, at any depth. -/
def Value.scopes : Value → List (List Str)
  | .array es => es.scopes
  | .object ms => ms.keys :: ms.scopes
  | .null | .bool _ | .number _ | .string _ | .emptyArray _ | .emptyObject _ => []

def Elems.scopes : Elems → List (List Str)
  | .last _ v _ => v.scopes
  | .more _ v _ es => v.scopes ++ es.scopes

def Members.scopes : Members → List (List Str)
  | .last _ _ _ _ v _ => v.scopes
  | .more _ _ _ _ v _ ms => v.scopes ++ ms.scopes

end

/-- No object among `scopes` has two keys that `read` gives one reading. -/
def KeysDistinct {κ : Type*} (read : Str → κ) (scopes : List (List Str)) : Prop :=
  ∀ keys ∈ scopes, (keys.map read).Nodup

instance {κ : Type*} [DecidableEq κ] (read : Str → κ) (scopes : List (List Str)) :
    Decidable (KeysDistinct read scopes) :=
  inferInstanceAs (Decidable (∀ keys ∈ scopes, (keys.map read).Nodup))

section Reading

variable {κ : Type*} (read : Str → κ)

@[simp] theorem keysDistinct_nil : KeysDistinct read [] := by simp [KeysDistinct]

@[simp] theorem keysDistinct_cons (keys : List Str) (scopes : List (List Str)) :
    KeysDistinct read (keys :: scopes)
      ↔ (keys.map read).Nodup ∧ KeysDistinct read scopes := List.forall_mem_cons

@[simp] theorem keysDistinct_append (a b : List (List Str)) :
    KeysDistinct read (a ++ b) ↔ KeysDistinct read a ∧ KeysDistinct read b :=
  List.forall_mem_append

end Reading

mutual

/-- A heavier weight finds deeper nesting. -/
theorem Value.nesting_mono {w w' : Nat} (h : w ≤ w') : ∀ v : Value, v.nesting w ≤ v.nesting w'
  | .emptyArray _ => h
  | .array es => Nat.add_le_add h (es.nesting_mono h)
  | .emptyObject _ => Nat.le_refl 1
  | .object ms => Nat.add_le_add_left (ms.nesting_mono h) 1
  | .null | .bool _ | .number _ | .string _ => Nat.le_refl 0

theorem Elems.nesting_mono {w w' : Nat} (h : w ≤ w') : ∀ es : Elems, es.nesting w ≤ es.nesting w'
  | .last _ v _ => v.nesting_mono h
  | .more _ v _ es => max_le_max (v.nesting_mono h) (es.nesting_mono h)

theorem Members.nesting_mono {w w' : Nat} (h : w ≤ w') :
    ∀ ms : Members, ms.nesting w ≤ ms.nesting w'
  | .last _ _ _ _ v _ => v.nesting_mono h
  | .more _ _ _ _ v _ ms => max_le_max (v.nesting_mono h) (ms.nesting_mono h)

end

theorem Value.objectDepth_le_depth (v : Value) : v.objectDepth ≤ v.depth :=
  v.nesting_mono (Nat.zero_le 1)

/-! ## Documents -/

/-- A document: one value, white space around it, and at most a byte order mark in front. -/
structure Document where
  byteOrderMark : Bool
  before : Gap
  value : Value
  after : Gap

def Document.text (doc : Document) : List Char :=
  doc.before.text ++ (doc.value.text ++ doc.after.text)

def byteOrderMarkBytes : Bytes := [0xEF, 0xBB, 0xBF]

def Document.bytes (doc : Document) : Bytes :=
  (if doc.byteOrderMark then byteOrderMarkBytes else []) ++ utf8 (String.ofList doc.text)

theorem Number.head_text (n : Number) : ∃ c rest, n.text = c :: rest ∧ c.toNat < 128 := by
  have hne : n.text ≠ [] := by
    simp [Number.text, n.int.ok.1]
  obtain ⟨c, rest, hcons⟩ := List.exists_cons_of_ne_nil hne
  refine ⟨c, rest, hcons, ?_⟩
  have hc : IsNumberChar c := n.isNumberChar (hcons ▸ List.mem_cons_self)
  unfold IsNumberChar at hc
  rcases hc with hdigit | hsign
  · -- Nine is the last digit.
    simp only [Char.isDigit, Bool.and_eq_true, decide_eq_true_eq] at hdigit
    have hle : c.toNat ≤ 57 := hdigit.2
    omega
  · rcases hsign with rfl | rfl | rfl | rfl | rfl <;> decide

/-- A value opens with an ASCII character. -/
theorem Value.head_text (v : Value) : ∃ c rest, v.text = c :: rest ∧ c.toNat < 128 := by
  cases v with
  | null => exact ⟨_, _, rfl, by decide⟩
  | bool b => cases b <;> exact ⟨_, _, rfl, by decide⟩
  | number n =>
    obtain ⟨c, rest, hcons, hc⟩ := n.head_text
    exact ⟨c, rest, by rw [Value.text, hcons], hc⟩
  | string s => exact ⟨'"', s.body ++ ['"'], by rw [Value.text]; rfl, by decide⟩
  | emptyArray gap => exact ⟨'[', gap.text ++ [']'], by rw [Value.text], by decide⟩
  | array es => exact ⟨'[', es.text ++ [']'], by rw [Value.text], by decide⟩
  | emptyObject gap => exact ⟨_, gap.text ++ ['\x7d'], by rw [Value.text], by decide⟩
  | object ms => exact ⟨_, ms.text ++ ['\x7d'], by rw [Value.text], by decide⟩

/-- So does a document, behind its byte order mark. -/
theorem Document.head_text (doc : Document) :
    ∃ c rest, doc.text = c :: rest ∧ c.toNat < 128 := by
  unfold Document.text
  cases hgap : doc.before.text with
  | nil =>
    obtain ⟨c, rest, hcons, hc⟩ := doc.value.head_text
    exact ⟨c, rest ++ doc.after.text, by rw [hcons]; rfl, hc⟩
  | cons c gap =>
    refine ⟨c, gap ++ (doc.value.text ++ doc.after.text), rfl, ?_⟩
    rcases doc.before.ok c (hgap ▸ List.mem_cons_self) with rfl | rfl | rfl | rfl <;> decide

/-- A document never starts with a byte order mark of its own. -/
theorem Document.not_byteOrderMark (doc : Document) :
    utf8 (String.ofList doc.text) ≠ []
      ∧ (utf8 (String.ofList doc.text)).take 3 ≠ byteOrderMarkBytes := by
  obtain ⟨c, rest, hcons, hc⟩ := doc.head_text
  have hbyte : String.utf8EncodeChar c = [UInt8.ofNat c.toNat] := by
    unfold String.utf8EncodeChar
    exact if_pos (show c.toNat ≤ 127 by omega)
  have hhead : utf8 (String.ofList doc.text)
      = UInt8.ofNat c.toNat :: utf8 (String.ofList rest) := by
    simp [utf8, hcons, hbyte]
  rw [hhead]
  -- The mark begins with 0xEF, an ASCII character with less.
  refine ⟨by simp, fun h => ?_⟩
  have hmark : UInt8.ofNat c.toNat = 0xEF := (List.cons.inj h).1
  have htoNat := ByteLib.ofNat_eq_iff.mp hmark
  rw [Nat.mod_eq_of_lt (by omega)] at htoNat
  have : (0xEF : UInt8).toNat = 239 := rfl
  omega

end JsonSyntax
