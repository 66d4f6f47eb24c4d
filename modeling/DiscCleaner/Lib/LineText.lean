import DiscCleaner.Lib.Bytes
import Mathlib.Data.List.DropRight
import Mathlib.Tactic.IntervalCases

/-!
# Texts of lines, words and numerals

A text is the list of its characters. The operations are those of a line-oriented reader: the lines
of a text, the words of a line, what stands after a prefix, and the numerals among the words. Beside
each stands what it gives on a text that was put together from the parts it looks for.
-/

namespace TextLib

open ByteLib

abbrev Text := List Char

/-! ## White space at the ends -/

def trimStart (t : Text) : Text := t.dropWhile isWhitespace

def trimEnd (t : Text) : Text := t.rdropWhile isWhitespace

/-- A text without the white space at its ends. -/
def trim (t : Text) : Text := trimEnd (trimStart t)

@[simp] theorem trim_nil : trim [] = [] := rfl

/-- White space goes off the end only up to the last character that is none. -/
theorem trimEnd_append_cons (a b : Text) {c : Char} (h : isWhitespace c = false) :
    trimEnd (a ++ c :: b) = a ++ c :: trimEnd b := by
  induction b using List.reverseRecOn with
  | nil =>
    show (a ++ [c]).rdropWhile isWhitespace = a ++ [c]
    rw [List.rdropWhile_concat, h]
    rfl
  | append_singleton b d ih =>
    have hassoc : a ++ c :: (b ++ [d]) = (a ++ c :: b) ++ [d] := by simp
    show (a ++ c :: (b ++ [d])).rdropWhile isWhitespace
      = a ++ c :: (b ++ [d]).rdropWhile isWhitespace
    rw [hassoc, List.rdropWhile_concat, List.rdropWhile_concat]
    cases isWhitespace d with
    | true => exact ih
    | false => simp

theorem trimEnd_concat_space (t : Text) {c : Char} (h : isWhitespace c = true) :
    trimEnd (t ++ [c]) = trimEnd t := by
  show (t ++ [c]).rdropWhile isWhitespace = _
  rw [List.rdropWhile_concat, h]
  rfl

/-- Nothing in front of a text whose first character is no white space. -/
theorem trim_cons (t : Text) {c : Char} (h : isWhitespace c = false) :
    trim (c :: t) = c :: trimEnd t := by
  have hstart : trimStart (c :: t) = c :: t := by
    rw [trimStart, List.dropWhile_cons, h]
    rfl
  rw [trim, hstart]
  exact trimEnd_append_cons [] t h

@[simp] theorem trim_space (t : Text) {c : Char} (h : isWhitespace c = true) :
    trim (c :: t) = trim t := by
  rw [trim, trim, trimStart, List.dropWhile_cons, if_pos h]
  rfl

/-- Nor does white space at the end count. -/
theorem trim_concat_space (t : Text) {c : Char} (h : isWhitespace c = true) :
    trim (t ++ [c]) = trim t := by
  rw [trim, trim, trimStart, trimStart, List.dropWhile_append]
  split_ifs with hall
  · -- The text is white space through and through.
    rw [List.isEmpty_iff.mp hall, List.dropWhile_cons, if_pos h]
    rfl
  · exact trimEnd_concat_space _ h

theorem trim_trimEnd (t : Text) : trim (trimEnd t) = trim t := by
  induction t using List.reverseRecOn with
  | nil => rfl
  | append_singleton t c ih =>
    cases hc : isWhitespace c with
    | true => rw [trimEnd_concat_space t hc, trim_concat_space t hc, ih]
    | false => rw [trimEnd_append_cons t [] hc]; rfl

/-- A text with no white space at either end. -/
structure Tidy (t : Text) : Prop where
  head : ∀ c ∈ t.head?, isWhitespace c = false
  last : ∀ c ∈ t.getLast?, isWhitespace c = false

theorem Tidy.trim {t : Text} (h : Tidy t) : TextLib.trim t = t := by
  cases t with
  | nil => rfl
  | cons c t =>
    rw [trim_cons t (h.head c rfl)]
    congr 1
    induction t using List.reverseRecOn with
    | nil => rfl
    | append_singleton t d _ =>
      have hd : isWhitespace d = false := h.last d (by simp [List.getLast?_cons])
      exact trimEnd_append_cons t [] hd

/-- What stands between two tidy texts does not matter. -/
theorem Tidy.append {a b : Text} (ha : Tidy a) (hb : Tidy b) (hane : a ≠ []) (hbne : b ≠ [])
    (mid : Text) : Tidy (a ++ mid ++ b) where
  head c hc := ha.head c (by rwa [List.append_assoc, List.head?_append_of_ne_nil _ hane] at hc)
  last c hc := hb.last c (by rwa [List.getLast?_append_of_ne_nil _ hbne] at hc)

/-! ## Lines -/

/-- A carriage return before the end of a line belongs to that end. -/
def stripReturn (line : Text) : Text :=
  if line.getLast? = some '\r' then line.dropLast else line

/-- `str::lines`: the parts between line feeds, without an empty one after the last; only a part that
a line feed ends loses its carriage return. -/
def lines (t : Text) : List Text :=
  let parts := t.splitOn '\n'
  let final := parts.getLastD []
  parts.dropLast.map stripReturn ++ (if final = [] then [] else [final])

theorem trim_stripReturn (line : Text) : trim (stripReturn line) = trim line := by
  unfold stripReturn
  split_ifs with h
  · obtain ⟨pre, rfl⟩ := List.getLast?_eq_some_iff.mp h
    rw [List.dropLast_concat, trim_concat_space pre (by decide)]
  · rfl

/-- A text put together from lines splits into them. -/
theorem splitOn_flatMap_lines {ls : List Text} (h : ∀ line ∈ ls, '\n' ∉ line) :
    (ls.flatMap (· ++ ['\n'])).splitOn '\n' = ls ++ [[]] := by
  induction ls with
  | nil => rfl
  | cons line ls ih =>
    have hline : ∀ c ∈ line, (c == '\n') = false := fun c hc =>
      beq_eq_false_iff_ne.mpr fun heq => h line (by simp) (heq ▸ hc)
    have htail := ih fun l hl => h l (by simp [hl])
    rw [List.splitOn_eq_splitOnP] at htail ⊢
    rw [List.flatMap_cons, List.append_assoc, List.singleton_append,
      List.splitOnP_append_cons_of_forall_mem hline '\n' (by decide), htail, List.cons_append]

/-- **The lines of a text of lines are those lines**, less a carriage return at an end. -/
theorem lines_flatMap {ls : List Text} (h : ∀ line ∈ ls, '\n' ∉ line) :
    lines (ls.flatMap (· ++ ['\n'])) = ls.map stripReturn := by
  unfold lines
  rw [splitOn_flatMap_lines h]
  simp

/-! ## Words -/

/-- `str::split_whitespace`. -/
def words (t : Text) : List Text := (t.splitOnP isWhitespace).filter (· ≠ [])

/-- A text with no white space in it, and something in it. -/
structure IsWord (w : Text) : Prop where
  nonempty : w ≠ []
  dense : ∀ c ∈ w, isWhitespace c = false

theorem words_word {w : Text} (h : IsWord w) : words w = [w] := by
  rw [words, List.splitOnP_eq_singleton h.dense]
  simp [h.nonempty]

theorem words_append_space {w : Text} (h : IsWord w) (rest : Text) :
    words (w ++ ' ' :: rest) = w :: words rest := by
  have hspace : isWhitespace ' ' = true := by decide
  rw [words, List.splitOnP_append_cons_of_forall_mem h.dense ' ' hspace, List.filter_cons,
    if_pos (decide_eq_true h.nonempty), words]

theorem IsWord.tidy {w : Text} (h : IsWord w) : Tidy w where
  head c hc := h.dense c (List.mem_of_mem_head? hc)
  last c hc := h.dense c (List.mem_of_mem_getLast? hc)

/-- Words in a row, one space between each two. -/
def unwords : List Text → Text
  | [] => []
  | [w] => w
  | w :: ws => w ++ ' ' :: unwords ws

theorem words_unwords {ws : List Text} (h : ∀ w ∈ ws, IsWord w) : words (unwords ws) = ws := by
  induction ws with
  | nil => rfl
  | cons w ws ih =>
    cases ws with
    | nil => exact words_word (h w (by simp))
    | cons v ws =>
      show words (w ++ ' ' :: unwords (v :: ws)) = _
      rw [words_append_space (h w (by simp)), ih fun u hu => h u (by simp [hu])]

theorem unwords_ne_nil {ws : List Text} (h : ∀ w ∈ ws, IsWord w) (hne : ws ≠ []) :
    unwords ws ≠ [] := by
  have hwords := words_unwords h
  intro hnil
  rw [hnil] at hwords
  exact hne hwords.symm

theorem tidy_unwords {ws : List Text} (h : ∀ w ∈ ws, IsWord w) : Tidy (unwords ws) := by
  induction ws with
  | nil => exact ⟨by simp [unwords], by simp [unwords]⟩
  | cons w ws ih =>
    have hw := h w (by simp)
    have hws : ∀ u ∈ ws, IsWord u := fun u hu => h u (by simp [hu])
    cases ws with
    | nil => exact hw.tidy
    | cons v ws =>
      have htidy := hw.tidy.append (ih hws) hw.nonempty (unwords_ne_nil hws (by simp)) [' ']
      simpa [unwords] using htidy

theorem IsWord.notMem {w : Text} (h : IsWord w) {c : Char} (hc : isWhitespace c = true) : c ∉ w :=
  fun hmem => absurd hc (by simp [h.dense c hmem])

theorem notMem_unwords {ws : List Text} {c : Char} (h : ∀ w ∈ ws, c ∉ w) (hc : c ≠ ' ') :
    c ∉ unwords ws := by
  induction ws with
  | nil => simp [unwords]
  | cons w ws ih =>
    have hw := h w (by simp)
    have hws := ih fun u hu => h u (by simp [hu])
    cases ws with
    | nil => exact hw
    | cons v ws => simp [unwords, hw, hc] at hws ⊢; exact hws

/-! ## Prefixes -/

/-- `str::strip_prefix`. -/
def stripPrefix (key t : Text) : Option Text :=
  if key.isPrefixOf t then some (t.drop key.length) else none

@[simp] theorem stripPrefix_append (key t : Text) : stripPrefix key (key ++ t) = some t := by
  unfold stripPrefix
  rw [if_pos (List.isPrefixOf_iff_prefix.mpr (List.prefix_append key t)), List.drop_left]

theorem takeWhile_marked {mark : Char} {key : Text} (h : mark ∉ key) (rest : Text) :
    (key ++ mark :: rest).takeWhile (· ≠ mark) = key := by
  have hkey : ∀ c ∈ key, decide (c ≠ mark) = true := fun c hc =>
    decide_eq_true fun heq => h (heq ▸ hc)
  rw [List.takeWhile_append_of_pos hkey, List.takeWhile_cons_of_neg (by simp), List.append_nil]

/-- Two keys that end at their first mark are prefixes of the same text only when they are one. -/
theorem stripPrefix_marked {mark : Char} {key key' : Text} (hkey : mark ∉ key) (hkey' : mark ∉ key')
    (hne : key ≠ key') (rest : Text) :
    stripPrefix (key ++ [mark]) (key' ++ mark :: rest) = none := by
  unfold stripPrefix
  rw [if_neg]
  intro hprefix
  obtain ⟨tail, htail⟩ := List.isPrefixOf_iff_prefix.mp hprefix
  rw [List.append_assoc, List.singleton_append] at htail
  -- What stands before the first mark of one text is either key.
  have hfirst := takeWhile_marked hkey tail
  rw [htail, takeWhile_marked hkey'] at hfirst
  exact hne hfirst.symm

/-! ## Numerals -/

/-- `n` in decimal. -/
def decimal (n : Nat) : Text := Nat.toDigits 10 n

/-- The last `w` hexadecimal digits of `n`. -/
def hexPad : Nat → Nat → Text
  | 0, _ => []
  | w + 1, n => hexPad w (n / 16) ++ [hexDigit (n % 16)]

/-- The digits of one radix, the first one the most significant. -/
def parseDigits (radix : Nat) (t : Text) : Option Nat :=
  t.foldlM (fun value c => do
    let d ← unhexDigit c
    if d < radix then some (value * radix + d) else none) 0

/-- A sign is none when nothing follows it. -/
def dropSign : Text → Text
  | '+' :: c :: t => c :: t
  | t => t

/-- `from_str_radix` into the numbers below a bound. -/
def fromStrRadix (radix bound : Nat) (t : Text) : Option Nat :=
  if t = [] then none else (parseDigits radix (dropSign t)).filter (· < bound)

/-! ### What a numeral is read as -/

theorem parseDigits_append_singleton {radix value d : Nat} {t : Text} {c : Char}
    (ht : parseDigits radix t = some value) (hc : unhexDigit c = some d) (hd : d < radix) :
    parseDigits radix (t ++ [c]) = some (value * radix + d) := by
  rw [parseDigits] at ht ⊢
  rw [List.foldlM_append, ht]
  simp [hc, hd]

theorem unhexDigit_digitChar {d : Nat} (h : d < 10) : unhexDigit (Nat.digitChar d) = some d := by
  interval_cases d <;> rfl

/-- A decimal numeral is read as its number: the digit at the end is the remainder by ten. -/
theorem parseDigits_decimal (n : Nat) : parseDigits 10 (decimal n) = some n := by
  induction n using Nat.strongRecOn with
  | ind n ih =>
    have hdigit : n % 10 < 10 := Nat.mod_lt n (by decide)
    rcases Nat.lt_or_ge n 10 with hlt | hge
    · have hone := parseDigits_append_singleton (t := []) rfl (unhexDigit_digitChar hlt) hlt
      rw [decimal, Nat.toDigits_of_lt_base hlt]
      simpa using hone
    · have hsmaller : n / 10 < n := Nat.div_lt_self (by omega) (by decide)
      have hsplit : decimal n = decimal (n / 10) ++ [Nat.digitChar (n % 10)] :=
        Nat.toDigits_of_base_le (by decide) hge
      rw [hsplit, parseDigits_append_singleton (ih (n / 10) hsmaller)
        (unhexDigit_digitChar hdigit) hdigit]
      congr 1
      omega

theorem parseDigits_hexPad (w n : Nat) : parseDigits 16 (hexPad w n) = some (n % 16 ^ w) := by
  induction w generalizing n with
  | zero =>
    show some 0 = some (n % 16 ^ 0)
    rw [Nat.pow_zero, Nat.mod_one]
  | succ w ih =>
    have hdigit : n % 16 < 16 := Nat.mod_lt n (by decide)
    rw [hexPad, parseDigits_append_singleton (ih (n / 16)) (unhexDigit_hexDigit hdigit) hdigit]
    congr 1
    rw [Nat.pow_succ', Nat.mod_mul, Nat.mul_comm, Nat.add_comm]

/-! ### What a numeral is made of -/

/-- A character that a numeral may hold: neither a space, nor a sign, nor a mark of any kind. -/
def IsNumeral (c : Char) : Prop := (unhexDigit c).isSome = true

instance (c : Char) : Decidable (IsNumeral c) := inferInstanceAs (Decidable (_ = true))

theorem IsNumeral.range {c : Char} (h : IsNumeral c) : 48 ≤ c.toNat ∧ c.toNat ≤ 102 := by
  simp only [IsNumeral, unhexDigit] at h
  split_ifs at h with hdec hlower hupper
  · omega
  · omega
  · omega
  · exact absurd h (by decide)

theorem IsNumeral.not_space {c : Char} (h : IsNumeral c) : isWhitespace c = false := by
  have hrange := h.range
  simp only [isWhitespace, decide_eq_false_iff_not]
  omega

theorem IsNumeral.utf8Size {c : Char} (h : IsNumeral c) : c.utf8Size = 1 := by
  have hle : c.toNat ≤ 127 := h.range.2.trans (by decide)
  exact Char.utf8Size_eq_one_iff.mpr (UInt32.le_iff_toNat_le.mpr hle)

theorem isNumeral_decimal {n : Nat} {c : Char} (h : c ∈ decimal n) : IsNumeral c := by
  have hdigit : 48 ≤ c.toNat ∧ c.toNat ≤ 57 :=
    Char.isDigit_iff_toNat.mp (Nat.isDigit_of_mem_toDigits (by decide) (by decide) h)
  simp only [IsNumeral, unhexDigit]
  rw [if_pos hdigit]
  rfl

theorem isNumeral_hexDigit {n : Nat} (h : n < 16) : IsNumeral (hexDigit n) := by
  rw [IsNumeral, unhexDigit_hexDigit h]
  rfl

theorem isNumeral_hexPad {w n : Nat} {c : Char} (h : c ∈ hexPad w n) : IsNumeral c := by
  induction w generalizing n with
  | zero => exact absurd h (by simp [hexPad])
  | succ w ih =>
    rw [hexPad, List.mem_append, List.mem_singleton] at h
    rcases h with hinit | rfl
    · exact ih hinit
    · exact isNumeral_hexDigit (Nat.mod_lt n (by decide))

theorem dropSign_of_isNumeral {t : Text} (h : ∀ c ∈ t, IsNumeral c) : dropSign t = t := by
  unfold dropSign
  split
  · exact absurd (h '+' (by simp)) (by decide)
  · rfl

theorem decimal_ne_nil (n : Nat) : decimal n ≠ [] := Nat.toDigits_ne_nil

theorem hexPad_ne_nil {w : Nat} (hw : w ≠ 0) (n : Nat) : hexPad w n ≠ [] := by
  cases w with
  | zero => exact absurd rfl hw
  | succ w => simp [hexPad]

theorem isWord_decimal (n : Nat) : IsWord (decimal n) :=
  ⟨decimal_ne_nil n, fun _ hc => (isNumeral_decimal hc).not_space⟩

theorem isWord_hexPad {w : Nat} (hw : w ≠ 0) (n : Nat) : IsWord (hexPad w n) :=
  ⟨hexPad_ne_nil hw n, fun _ hc => (isNumeral_hexPad hc).not_space⟩

theorem fromStrRadix_of_digits {radix bound value : Nat} {t : Text} (hne : t ≠ [])
    (hdigits : ∀ c ∈ t, IsNumeral c) (hvalue : parseDigits radix t = some value)
    (hlt : value < bound) : fromStrRadix radix bound t = some value := by
  rw [fromStrRadix, if_neg hne, dropSign_of_isNumeral hdigits, hvalue]
  simp [Option.filter, hlt]

/-- **A number below the bound is read back from its decimal numeral.** -/
theorem fromStrRadix_decimal {bound n : Nat} (h : n < bound) :
    fromStrRadix 10 bound (decimal n) = some n :=
  fromStrRadix_of_digits (decimal_ne_nil n) (fun _ hc => isNumeral_decimal hc)
    (parseDigits_decimal n) h

/-- **A number that fits its padded numeral is read back from it.** -/
theorem fromStrRadix_hexPad {w bound n : Nat} (hw : w ≠ 0) (hfits : n < 16 ^ w) (h : n < bound) :
    fromStrRadix 16 bound (hexPad w n) = some n := by
  have hvalue := parseDigits_hexPad w n
  rw [Nat.mod_eq_of_lt hfits] at hvalue
  exact fromStrRadix_of_digits (hexPad_ne_nil hw n) (fun _ hc => isNumeral_hexPad hc) hvalue h

end TextLib

/-!
# Text from bytes that may be ill-formed

`fromUtf8Lossy` puts a replacement character for each maximal ill-formed part; `splitOnce` cuts a
text at the first occurrence of a character.
-/

namespace ByteLib

/-! ## Lossy decoding -/

def isContinuation (b : UInt8) : Bool := b &&& 0xC0 == 0x80

/-- The second bytes that may follow a first byte. -/
def isSecond (first second : UInt8) : Bool :=
  if first = 0xE0 then 0xA0 ≤ second ∧ second ≤ 0xBF
  else if first = 0xED then 0x80 ≤ second ∧ second ≤ 0x9F
  else if first = 0xF0 then 0x90 ≤ second ∧ second ≤ 0xBF
  else if first = 0xF4 then 0x80 ≤ second ∧ second ≤ 0x8F
  else isContinuation second

/-- The length of the sequence that starts with a byte; 0 for a byte that starts none. -/
def sequenceLength (first : UInt8) : Nat :=
  if first < 0x80 then 1
  else if 0xC2 ≤ first ∧ first ≤ 0xDF then 2
  else if 0xE0 ≤ first ∧ first ≤ 0xEF then 3
  else if 0xF0 ≤ first ∧ first ≤ 0xF4 then 4
  else 0

/-- The number of bytes behind the first that belong to its sequence. -/
def sequenceTail (first : UInt8) (rest : Bytes) : Nat :=
  match rest with
  | [] => 0
  | second :: rest =>
    if isSecond first second then 1 + ((rest.take (sequenceLength first - 2)).takeWhile isContinuation).length
    else 0

/-- The code point of a whole sequence. -/
def codePoint (first : UInt8) (tail : Bytes) : Nat :=
  let lead := match tail.length with
    | 0 => first
    | 1 => first &&& 0x1F
    | 2 => first &&& 0x0F
    | _ => first &&& 0x07
  tail.foldl (fun acc b => acc * 64 + (b &&& 0x3F).toNat) lead.toNat

def lossyChars : Nat → Bytes → List Char
  | 0, _ => []
  | _, [] => []
  | fuel + 1, b :: rest =>
    if b < 0x80 then Char.ofNat b.toNat :: lossyChars fuel rest
    else
      let tail := if sequenceLength b = 0 then 0 else sequenceTail b rest
      let c := if tail + 1 = sequenceLength b then Char.ofNat (codePoint b (rest.take tail))
        else '\uFFFD'
      c :: lossyChars fuel (rest.drop tail)

def fromUtf8Lossy (bs : Bytes) : String :=
  match fromUtf8 bs with
  | some s => s
  | none => String.ofList (lossyChars bs.length bs)

example : fromUtf8Lossy [0x4B, 0xC3, 0x28, 0xF0, 0x9F, 0x98] = "K\uFFFD(\uFFFD" := by decide

@[simp] theorem fromUtf8Lossy_utf8 (s : String) : fromUtf8Lossy (utf8 s) = s := by
  rw [fromUtf8Lossy, fromUtf8_utf8]

@[simp] theorem utf8_append (a b : String) : utf8 (a ++ b) = utf8 a ++ utf8 b := by
  rw [utf8, String.toList_append, List.flatMap_append]
  rfl

/-! ## Splitting -/

/-- The text before and behind the first occurrence of a character. -/
def splitOnce (sep : Char) (s : String) : Option (String × String) :=
  match s.toList.dropWhile (· != sep) with
  | [] => none
  | _ :: tail => some (String.ofList (s.toList.takeWhile (· != sep)), String.ofList tail)

theorem splitOnce_append {sep : Char} {a : String} (h : sep ∉ a.toList) (b : String) :
    splitOnce sep (a ++ String.singleton sep ++ b) = some (a, b) := by
  have hall : ∀ c ∈ a.toList, (c != sep) = true := by
    intro c hc
    rw [bne_iff_ne]
    rintro rfl
    exact h hc
  have hlist : (a ++ String.singleton sep ++ b).toList = a.toList ++ sep :: b.toList := by
    simp [String.toList_append]
  unfold splitOnce
  rw [hlist, List.dropWhile_append_of_pos hall, List.takeWhile_append_of_pos hall]
  simp

end ByteLib
