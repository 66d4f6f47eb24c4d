import DiscCleaner.Lib.Bytes
import Mathlib.Data.List.Basic

/-!
# Compact JSON text

The bytes a compact serializer writes: strings with the short escapes and `\u00xx` for
the other control characters, decimal numbers, arrays and objects without white space.
An object lists its members in the order it is given.

A scan that counts braces and brackets outside of string literals finds the end of an object: what
the serializer writes inside one leaves the scan where it was, whatever follows. So objects need no
separator, and a sequence of objects has one concatenation only.
-/

namespace Json

open ByteLib

/-- The bytes of one character of a string literal. -/
def escapeChar (c : Char) : Bytes :=
  if c = '"' then utf8 "\\\""
  else if c = '\\' then utf8 "\\\\"
  else if c.toNat < 32 then
    match c.toNat with
    | 8 => utf8 "\\b"
    | 9 => utf8 "\\t"
    | 10 => utf8 "\\n"
    | 12 => utf8 "\\f"
    | 13 => utf8 "\\r"
    | n => utf8 "\\u00" ++ utf8 (hexEncode [UInt8.ofNat n])
  else String.utf8EncodeChar c

def quoteByte : UInt8 := 0x22
def commaByte : UInt8 := 0x2C
def colonByte : UInt8 := 0x3A
def openBrace : UInt8 := 0x7B
def closeBrace : UInt8 := 0x7D
def openBracket : UInt8 := 0x5B
def closeBracket : UInt8 := 0x5D

def string (s : String) : Bytes := quoteByte :: (s.toList.flatMap escapeChar ++ [quoteByte])

def null : Bytes := utf8 "null"

def bool (b : Bool) : Bytes := utf8 (toString b)

def nat (n : Nat) : Bytes := utf8 (toString n)

def int (n : Int) : Bytes := utf8 (toString n)

/-- `null`, or the value. -/
def option {α : Type*} (f : α → Bytes) : Option α → Bytes
  | some a => f a
  | none => null

/-- Values separated by commas. -/
def commaSep : List Bytes → Bytes
  | [] => []
  | [v] => v
  | v :: vs => v ++ commaByte :: commaSep vs

def array (vs : List Bytes) : Bytes := openBracket :: (commaSep vs ++ [closeBracket])

def member (key : String) (value : Bytes) : Bytes := string key ++ colonByte :: value

def object (members : List (String × Bytes)) : Bytes :=
  openBrace :: (commaSep (members.map fun m => member m.1 m.2) ++ [closeBrace])

/-- An object is never empty text. -/
theorem object_length_pos (members : List (String × Bytes)) :
    0 < (object members).length := Nat.succ_pos _

/-- A non-empty object opens with a brace and the quote of its first key. -/
theorem object_cons_head (key : String) (value : Bytes) (ms : List (String × Bytes)) :
    ∃ rest, object ((key, value) :: ms) = openBrace :: quoteByte :: rest := by
  cases ms with
  | nil => exact ⟨_, rfl⟩
  | cons m ms => exact ⟨_, rfl⟩

/-! ## Where an object ends -/

/-- Outside of a string literal, inside of one, and behind its escape character. -/
inductive ScanMode where
  | plain | text | escaped
  deriving DecidableEq

/-- What is left behind the brace that closes the object, `depth` brackets being open inside it. -/
def afterClose (depth : Nat) : ScanMode → Bytes → Option Bytes
  | _, [] => none
  | .plain, b :: bs =>
    if b = quoteByte then afterClose depth .text bs
    else if b = openBrace ∨ b = openBracket then afterClose (depth + 1) .plain bs
    else if b = closeBrace ∨ b = closeBracket then
      if depth = 0 then some bs else afterClose (depth - 1) .plain bs
    else afterClose depth .plain bs
  | .text, b :: bs =>
    if b = quoteByte then afterClose depth .plain bs
    else if b = 0x5C then afterClose depth .escaped bs
    else afterClose depth .text bs
  | .escaped, _ :: bs => afterClose depth .text bs

/-! ## String literals -/

/-- A byte that a string literal holds as it is. -/
def IsText (b : UInt8) : Prop := b ≠ quoteByte ∧ b ≠ 0x5C

theorem afterClose_text {depth : Nat} {bs : Bytes} (h : ∀ b ∈ bs, IsText b) (rest : Bytes) :
    afterClose depth .text (bs ++ rest) = afterClose depth .text rest := by
  induction bs with
  | nil => rfl
  | cons b bs ih =>
    obtain ⟨hquote, hescape⟩ := h b List.mem_cons_self
    rw [List.cons_append, afterClose, if_neg hquote, if_neg hescape]
    exact ih fun b hb => h b (List.mem_cons_of_mem _ hb)

/-- A character above 127 is spelled with bytes above 127. -/
theorem le_toNat_of_mem_utf8EncodeChar {c : Char} {b : UInt8} (hc : 127 < c.val.toNat)
    (h : b ∈ String.utf8EncodeChar c) : 128 ≤ b.toNat := by
  have hbyte : ∀ n : Nat, 128 ≤ n → n < 256 → b = UInt8.ofNat n → 128 ≤ b.toNat := by
    intro n hn hn' heq
    rw [heq, UInt8.toNat_ofNat', Nat.mod_eq_of_lt hn']
    exact hn
  unfold String.utf8EncodeChar at h
  rw [if_neg (by omega)] at h
  split at h
  · simp only [List.mem_cons, List.not_mem_nil, or_false] at h
    rcases h with h | h
    · exact hbyte _ (by omega) (by omega) h
    · exact hbyte _ (by omega) (by omega) h
  · split at h
    · simp only [List.mem_cons, List.not_mem_nil, or_false] at h
      rcases h with h | h | h
      · exact hbyte _ (by omega) (by omega) h
      · exact hbyte _ (by omega) (by omega) h
      · exact hbyte _ (by omega) (by omega) h
    · simp only [List.mem_cons, List.not_mem_nil, or_false] at h
      rcases h with h | h | h | h
      · exact hbyte _ (by omega) (by omega) h
      · exact hbyte _ (by omega) (by omega) h
      · exact hbyte _ (by omega) (by omega) h
      · exact hbyte _ (by omega) (by omega) h

theorem isText_of_mem_utf8EncodeChar {c : Char} {b : UInt8} (hquote : c ≠ '"') (hescape : c ≠ '\\')
    (h : b ∈ String.utf8EncodeChar c) : IsText b := by
  by_cases hc : 127 < c.val.toNat
  · have hb := le_toNat_of_mem_utf8EncodeChar hc h
    constructor
    · rintro rfl
      exact absurd hb (by decide)
    · rintro rfl
      exact absurd hb (by decide)
  · -- an ASCII character is spelled with its own code
    rw [String.utf8EncodeChar, if_pos (by omega), List.mem_singleton] at h
    have hcode : ∀ d : Char, c.val.toNat = d.val.toNat → c = d := fun d hd =>
      Char.ext (UInt32.toNat_inj.mp hd)
    constructor
    · intro hb
      have hmod := ofNat_eq_iff.mp (h.symm.trans hb)
      refine hquote (hcode '"' ?_)
      rwa [Nat.mod_eq_of_lt (by omega)] at hmod
    · intro hb
      have hmod := ofNat_eq_iff.mp (h.symm.trans hb)
      refine hescape (hcode '\\' ?_)
      rwa [Nat.mod_eq_of_lt (by omega)] at hmod

/-- A control character is spelled with an escape and plain letters. -/
theorem escapeChar_control {c : Char} (h : c.toNat < 32) :
    ∃ e bs, escapeChar c = 0x5C :: e :: bs ∧ ∀ b ∈ bs, IsText b := by
  have hall : ∀ n < 32, ∃ e bs, escapeChar (Char.ofNat n) = 0x5C :: e :: bs
      ∧ ∀ b ∈ bs, b ≠ quoteByte ∧ b ≠ 0x5C := by
    intro n hn
    have hcode : ∀ n < 32, (escapeChar (Char.ofNat n)).head? = some 0x5C
        ∧ 2 ≤ (escapeChar (Char.ofNat n)).length
        ∧ ∀ b ∈ (escapeChar (Char.ofNat n)).drop 2, b ≠ quoteByte ∧ b ≠ 0x5C := by
      decide +kernel
    obtain ⟨hhead, hlen, htail⟩ := hcode n hn
    match hesc : escapeChar (Char.ofNat n), hhead, hlen, htail with
    | e₀ :: e :: bs, hhead, _, htail =>
      exact ⟨e, bs, by rw [Option.some.inj hhead], htail⟩
  have hc := hall c.toNat h
  rwa [Char.ofNat_toNat] at hc

/-- The scan stays inside of a literal over each of its characters. -/
theorem afterClose_escapeChar (depth : Nat) (c : Char) (rest : Bytes) :
    afterClose depth .text (escapeChar c ++ rest) = afterClose depth .text rest := by
  by_cases hquote : c = '"'
  · subst hquote
    rfl
  by_cases hescape : c = '\\'
  · subst hescape
    rfl
  by_cases hcontrol : c.toNat < 32
  · obtain ⟨e, bs, hesc, hbs⟩ := escapeChar_control hcontrol
    rw [hesc]
    exact afterClose_text hbs rest
  · rw [escapeChar, if_neg hquote, if_neg hescape, if_neg hcontrol]
    exact afterClose_text (fun b hb => isText_of_mem_utf8EncodeChar hquote hescape hb) rest

/-! ## Values -/

/-- Text that leaves the scan of what encloses it where it was. -/
def Transparent (value : Bytes) : Prop :=
  ∀ depth rest, afterClose depth .plain (value ++ rest) = afterClose depth .plain rest

namespace Transparent

theorem nil : Transparent [] := fun _ _ => rfl

theorem append {v w : Bytes} (hv : Transparent v) (hw : Transparent w) : Transparent (v ++ w) := by
  intro depth rest
  rw [List.append_assoc, hv, hw]

/-- A byte that neither opens nor closes anything. -/
def isPlain (b : UInt8) : Bool :=
  b ≠ quoteByte ∧ b ≠ openBrace ∧ b ≠ openBracket ∧ b ≠ closeBrace ∧ b ≠ closeBracket

theorem of_all {v : Bytes} (h : v.all isPlain = true) : Transparent v := by
  induction v with
  | nil => exact nil
  | cons b v ih =>
    intro depth rest
    rw [List.all_cons, Bool.and_eq_true] at h
    obtain ⟨hquote, hopen, hopen', hclose, hclose'⟩ := of_decide_eq_true h.1
    rw [List.cons_append, afterClose, if_neg hquote, if_neg (by simp [hopen, hopen']),
      if_neg (by simp [hclose, hclose'])]
    exact ih h.2 depth rest

theorem string (s : String) : Transparent (Json.string s) := by
  intro depth rest
  have htext : ∀ cs : List Char, afterClose depth .text (cs.flatMap escapeChar ++ quoteByte :: rest)
      = afterClose depth .plain rest := by
    intro cs
    induction cs with
    | nil => rfl
    | cons c cs ih => rw [List.flatMap_cons, List.append_assoc, afterClose_escapeChar, ih]
  rw [Json.string, List.cons_append, List.append_assoc]
  exact htext s.toList

theorem bool (b : Bool) : Transparent (Json.bool b) := by
  cases b <;> exact of_all (by decide)

theorem nat (n : Nat) : Transparent (Json.nat n) := by
  refine of_all (List.all_eq_true.mpr fun b hb => ?_)
  obtain ⟨c, hc, hb⟩ := List.mem_flatMap.mp hb
  rw [Nat.toString_eq_repr, Nat.toList_repr] at hc
  have hdigits : ∀ n < 58, 48 ≤ n →
      (String.utf8EncodeChar (Char.ofNat n)).all isPlain = true := by decide +kernel
  have hdigit := Nat.isDigit_of_mem_toDigits (by decide) (by decide) hc
  obtain ⟨hlow, hhigh⟩ : 48 ≤ c.toNat ∧ c.toNat ≤ 57 := by
    simpa [Char.isDigit, UInt32.le_iff_toNat_le] using hdigit
  have hall := hdigits c.toNat (by omega) hlow
  rw [Char.ofNat_toNat] at hall
  exact List.all_eq_true.mp hall b hb

theorem commaSep {vs : List Bytes} (h : ∀ v ∈ vs, Transparent v) : Transparent (commaSep vs) := by
  induction vs using Json.commaSep.induct with
  | case1 => exact nil
  | case2 v => exact h v (List.mem_singleton_self v)
  | case3 v vs hne ih =>
    have hcomma : Transparent [commaByte] := of_all (by decide)
    have hvs := ih fun v hv => h v (List.mem_cons_of_mem _ hv)
    rw [Json.commaSep]
    exact (h v List.mem_cons_self).append (hcomma.append hvs)
    exact hne

theorem member {key : String} {value : Bytes} (h : Transparent value) :
    Transparent (Json.member key value) := by
  have hcolon : Transparent [colonByte] := of_all (by decide)
  exact (string key).append (hcolon.append h)

end Transparent

/-! ## Objects -/

/-- The text of an object whose values are transparent. -/
def IsObject (text : Bytes) : Prop :=
  ∃ members : List (String × Bytes), (∀ m ∈ members, Transparent m.2) ∧ text = object members

theorem transparent_members {members : List (String × Bytes)}
    (h : ∀ m ∈ members, Transparent m.2) :
    Transparent (Json.commaSep (members.map fun m => Json.member m.1 m.2)) := by
  refine Transparent.commaSep fun v hv => ?_
  obtain ⟨m, hm, rfl⟩ := List.mem_map.mp hv
  exact Transparent.member (h m hm)

/-- An object is a transparent value of another one. -/
theorem IsObject.transparent {text : Bytes} (h : IsObject text) : Transparent text := by
  obtain ⟨members, hmembers, rfl⟩ := h
  intro depth rest
  show afterClose (depth + 1) .plain
    ((Json.commaSep (members.map fun m => Json.member m.1 m.2) ++ [closeBrace]) ++ rest) = _
  rw [List.append_assoc, transparent_members hmembers]
  rfl

theorem IsObject.ne_nil {text : Bytes} (h : IsObject text) : text ≠ [] := by
  obtain ⟨members, -, rfl⟩ := h
  exact List.cons_ne_nil _ _

/-- The scan finds the end of an object, whatever follows. -/
theorem IsObject.afterClose {text : Bytes} (h : IsObject text) (rest : Bytes) :
    afterClose 0 .plain (text.tail ++ rest) = some rest := by
  obtain ⟨members, hmembers, rfl⟩ := h
  rw [object, List.tail_cons, List.append_assoc, transparent_members hmembers]
  rfl

/-- **An object ends in one place**: what follows it is not part of another object. -/
theorem IsObject.append_inj {o o' x y : Bytes} (ho : IsObject o) (ho' : IsObject o')
    (h : o ++ x = o' ++ y) : o = o' ∧ x = y := by
  have hrest : x = y := by
    have htail : o.tail ++ x = o'.tail ++ y := by
      rw [← List.tail_append_of_ne_nil ho.ne_nil, ← List.tail_append_of_ne_nil ho'.ne_nil, h]
    have hscan := congrArg (Json.afterClose 0 .plain) htail
    rw [ho.afterClose, ho'.afterClose] at hscan
    exact Option.some.inj hscan
  subst hrest
  exact ⟨List.append_cancel_right h, rfl⟩

/-- **Objects need no separator.** -/
theorem flatten_objects_inj {os os' : List Bytes} (hos : ∀ o ∈ os, IsObject o)
    (hos' : ∀ o ∈ os', IsObject o) (h : os.flatten = os'.flatten) : os = os' := by
  induction os generalizing os' with
  | nil =>
    cases os' with
    | nil => rfl
    | cons o' os' =>
      rw [List.flatten_nil, List.flatten_cons] at h
      exact absurd (List.append_eq_nil_iff.mp h.symm).1 (hos' o' List.mem_cons_self).ne_nil
  | cons o os ih =>
    cases os' with
    | nil =>
      rw [List.flatten_nil, List.flatten_cons] at h
      exact absurd (List.append_eq_nil_iff.mp h).1 (hos o List.mem_cons_self).ne_nil
    | cons o' os' =>
      rw [List.flatten_cons, List.flatten_cons] at h
      obtain ⟨rfl, hrest⟩ := (hos o List.mem_cons_self).append_inj (hos' o' List.mem_cons_self) h
      rw [ih (fun p hp => hos p (List.mem_cons_of_mem _ hp))
        (fun p hp => hos' p (List.mem_cons_of_mem _ hp)) hrest]

end Json
