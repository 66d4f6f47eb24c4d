import DiscCleaner.Cert.CertFile
import DiscCleaner.Lib.JsonSyntax
import Mathlib.Data.List.TakeWhile

/-!
# DiscCleaner — what the strict scan finds in a JSON document (`cert.rs`)

The scan tracks strings, escapes and objects by itself, without parsing. On a document it accepts
exactly when its own readings of the keys are distinct in every object and the objects alone are
nested at most 32 deep. Its reading of a key drops the backslashes and decodes nothing, so it is
neither finer nor coarser than the decoded key, and the arrays never count.
-/

namespace DiscCleaner

open ByteLib JsonSyntax

namespace SanitizationCertificate

/-! ## The tokenizer turn by turn -/

/-- The tokenizer accepts what is left of a text. -/
def Accepts (st : ScanState) (chars : List Char) : Prop :=
  scanLoop chars.length st chars = .ok ()

/-- A character that is nothing to the tokenizer. -/
def IsQuiet (c : Char) : Prop := c ≠ '{' ∧ c ≠ '}' ∧ c ≠ '"'

theorem accepts_nil (st : ScanState) : Accepts st [] := rfl

/-- After a turn the tokenizer goes on with what that left. -/
theorem accepts_of_turn {st st' : ScanState} {c : Char} {rest rest' : List Char}
    (h : scanTurn st c rest = .ok (st', rest')) :
    Accepts st (c :: rest) ↔ Accepts st' rest' := by
  unfold Accepts
  rw [List.length_cons, scanLoop, h]
  show scanLoop rest.length st' rest' = .ok () ↔ _
  rw [scanLoop_fuel (scanTurn_rest_length h)]

theorem not_accepts_of_error {st : ScanState} {c : Char} {rest : List Char} {e : String}
    (h : scanTurn st c rest = .error e) : ¬ Accepts st (c :: rest) := by
  unfold Accepts
  rw [List.length_cons, scanLoop, h]
  simp

theorem accepts_quiet (st : ScanState) {c : Char} (hc : IsQuiet c) (rest : List Char) :
    Accepts st (c :: rest) ↔ Accepts st rest :=
  accepts_of_turn (by rw [scanTurn, if_neg hc.1, if_neg hc.2.1, if_neg hc.2.2])

theorem accepts_quiet_append (st : ScanState) {t : List Char} (ht : ∀ c ∈ t, IsQuiet c)
    (rest : List Char) : Accepts st (t ++ rest) ↔ Accepts st rest := by
  induction t with
  | nil => exact Iff.rfl
  | cons c t ih =>
    have hrest := ih fun c hc => ht c (List.mem_cons_of_mem _ hc)
    exact (accepts_quiet st (ht c List.mem_cons_self) (t ++ rest)).trans hrest

/-- An open brace counts, up to 32 of them. -/
theorem accepts_open (st : ScanState) (rest : List Char) :
    Accepts st ('{' :: rest)
      ↔ st.depth + 1 ≤ 32 ∧ Accepts ⟨st.depth + 1, [] :: st.seenKeys⟩ rest := by
  by_cases hdepth : st.depth + 1 > 32
  · -- The 33rd open object is an error on the spot.
    have herror : scanTurn st '{' rest = .error "JSON nesting depth exceeded limit of 32" := by
      rw [scanTurn, if_pos rfl, if_pos hdepth]
    exact iff_of_false (not_accepts_of_error herror) fun h => by omega
  · have hturn : scanTurn st '{' rest = .ok (⟨st.depth + 1, [] :: st.seenKeys⟩, rest) := by
      rw [scanTurn, if_pos rfl, if_neg hdepth]
    rw [accepts_of_turn hturn]
    exact (and_iff_right (by omega)).symm

theorem accepts_close (st : ScanState) (rest : List Char) :
    Accepts st ('}' :: rest) ↔ Accepts ⟨st.depth - 1, st.seenKeys.tail⟩ rest :=
  accepts_of_turn (by rw [scanTurn, if_neg (by decide), if_pos rfl])

/-! ## White space and numbers -/

theorem isQuiet_of_isSpace {c : Char} (h : IsSpace c) : IsQuiet c := by
  rcases h with rfl | rfl | rfl | rfl <;> exact ⟨by decide, by decide, by decide⟩

theorem isQuiet_of_isNumberChar {c : Char} (h : IsNumberChar c) : IsQuiet c := by
  rcases h with hdigit | hsign
  · -- None of the three characters is a digit.
    refine ⟨?_, ?_, ?_⟩ <;> rintro rfl <;> exact absurd hdigit (by decide)
  · rcases hsign with rfl | rfl | rfl | rfl | rfl <;> exact ⟨by decide, by decide, by decide⟩

theorem isWhitespace_of_isSpace {c : Char} (h : IsSpace c) : isWhitespace c = true := by
  rcases h with rfl | rfl | rfl | rfl <;> decide

theorem accepts_gap (st : ScanState) (gap : Gap) (rest : List Char) :
    Accepts st (gap.text ++ rest) ↔ Accepts st rest :=
  accepts_quiet_append st (fun c hc => isQuiet_of_isSpace (gap.ok c hc)) rest

theorem dropWhile_gap (gap : Gap) (rest : List Char) :
    (gap.text ++ rest).dropWhile isWhitespace = rest.dropWhile isWhitespace := by
  rw [List.dropWhile_append_of_pos fun c hc => isWhitespace_of_isSpace (gap.ok c hc)]

/-- White space of Unicode is quiet as well. -/
theorem accepts_dropWhile (st : ScanState) (rest : List Char) :
    Accepts st (rest.dropWhile isWhitespace) ↔ Accepts st rest := by
  have hquiet : ∀ c ∈ rest.takeWhile isWhitespace, IsQuiet c := by
    intro c hc
    have hspace := List.mem_takeWhile_imp hc
    refine ⟨?_, ?_, ?_⟩ <;> rintro rfl <;> exact absurd hspace (by decide)
  have happend := accepts_quiet_append st hquiet (rest.dropWhile isWhitespace)
  rw [List.takeWhile_append_dropWhile] at happend
  exact happend.symm

/-! ## String literals -/

/-- What the scan takes from a character of a string: escapes lose their backslash only. -/
def rawItem : StringItem → List Char
  | .plain c _ => [c]
  | .escape e => [e.letter]
  | .unicode d₃ d₂ d₁ d₀ => ['u', d₃.char, d₂.char, d₁.char, d₀.char]

/-- The scan's reading of a string. -/
def rawKey (s : Str) : List Char := s.flatMap rawItem

theorem hexDigit_ne (d : HexDigit) : d.char ≠ '\\' ∧ d.char ≠ '"' := by
  have hok := d.ok
  refine ⟨?_, ?_⟩ <;> intro h <;> rw [h] at hok <;> exact absurd hok (by decide)

/-- A character that is neither a quote nor a backslash goes into the key. -/
theorem scanString_plain {c : Char} (hc : c ≠ '\\' ∧ c ≠ '"') (rest key : List Char) :
    scanString (c :: rest) false key = scanString rest false (key ++ [c]) := by
  rw [scanString, if_neg (by simp), if_neg hc.1, if_neg hc.2]

/-- So does any character behind a backslash. -/
theorem scanString_escaped (c : Char) (rest key : List Char) :
    scanString ('\\' :: c :: rest) false key = scanString rest false (key ++ [c]) := by
  rw [scanString, if_neg (by simp), if_pos rfl, scanString, if_pos rfl]

theorem scanString_item (item : StringItem) (rest key : List Char) :
    scanString (item.text ++ rest) false key = scanString rest false (key ++ rawItem item) := by
  cases item with
  | plain c ok => exact scanString_plain ⟨ok.2.2, ok.2.1⟩ rest key
  | escape e => exact scanString_escaped e.letter rest key
  | unicode d₃ d₂ d₁ d₀ =>
    -- The `u` is taken as escaped, the four digits as they stand.
    show scanString ('\\' :: 'u' :: d₃.char :: d₂.char :: d₁.char :: d₀.char :: rest) false key = _
    rw [scanString_escaped, scanString_plain (hexDigit_ne d₃), scanString_plain (hexDigit_ne d₂),
      scanString_plain (hexDigit_ne d₁), scanString_plain (hexDigit_ne d₀)]
    simp [rawItem]

theorem scanString_body (s : Str) (rest key : List Char) :
    scanString (s.body ++ '"' :: rest) false key = (key ++ rawKey s, rest) := by
  induction s generalizing key with
  | nil =>
    show scanString ('"' :: rest) false key = _
    rw [scanString, if_neg (by simp), if_neg (by decide), if_pos rfl]
    simp [rawKey]
  | cons item s ih =>
    have hcons : Str.body (item :: s) = item.text ++ Str.body s := by simp [Str.body]
    rw [hcons, List.append_assoc, scanString_item, ih]
    simp [rawKey]

theorem text_append (s : Str) (rest : List Char) :
    s.text ++ rest = '"' :: (s.body ++ '"' :: rest) := by simp [Str.text]

/-- The turn on a string literal: the key check against what follows the white space behind it. -/
theorem scanTurn_string (st : ScanState) (s : Str) (rest : List Char) :
    scanTurn st '"' (s.body ++ '"' :: rest)
      = (scanKey st (rawKey s) (rest.dropWhile isWhitespace)).map
          fun st => (st, rest.dropWhile isWhitespace) := by
  rw [scanTurn, if_neg (by decide), if_neg (by decide), if_pos rfl]
  simp only [scanString_body, List.nil_append]

/-- What follows is no colon, but for white space. -/
def NoColon (rest : List Char) : Prop := (rest.dropWhile isWhitespace).head? ≠ some ':'

theorem noColon_nil : NoColon [] := by simp [NoColon]

theorem noColon_cons {c : Char} (hspace : isWhitespace c = false) (hc : c ≠ ':')
    (rest : List Char) : NoColon (c :: rest) := by
  simp [NoColon, hspace, hc]

theorem noColon_gap (gap : Gap) {rest : List Char} (h : NoColon rest) :
    NoColon (gap.text ++ rest) := by
  unfold NoColon
  rw [dropWhile_gap]
  exact h

/-- A string that is no key passes, whatever it says. -/
theorem accepts_string (st : ScanState) (s : Str) {rest : List Char} (h : NoColon rest) :
    Accepts st (s.text ++ rest) ↔ Accepts st rest := by
  have hkey : scanKey st (rawKey s) (rest.dropWhile isWhitespace) = .ok st := by
    unfold scanKey
    split
    · rw [if_neg h]
    · rfl
  have hturn : scanTurn st '"' (s.body ++ '"' :: rest)
      = .ok (st, rest.dropWhile isWhitespace) := by
    rw [scanTurn_string, hkey]
    rfl
  rw [text_append, accepts_of_turn hturn, accepts_dropWhile]

/-- A key passes if its reading is new in its object. -/
theorem accepts_key (depth : Nat) (scope : List (List Char)) (outer : List (List (List Char)))
    (key : Str) (gap : Gap) (rest : List Char) :
    Accepts ⟨depth, scope :: outer⟩ (key.text ++ (gap.text ++ ':' :: rest))
      ↔ rawKey key ∉ scope ∧ Accepts ⟨depth, (rawKey key :: scope) :: outer⟩ rest := by
  have hdrop : (gap.text ++ ':' :: rest).dropWhile isWhitespace = ':' :: rest := by
    rw [dropWhile_gap, List.dropWhile_cons, if_neg (by decide)]
  have hturn := scanTurn_string ⟨depth, scope :: outer⟩ key (gap.text ++ ':' :: rest)
  have hkey : scanKey ⟨depth, scope :: outer⟩ (rawKey key) (':' :: rest)
      = if rawKey key ∈ scope then .error (duplicateKey (rawKey key))
        else .ok ⟨depth, (rawKey key :: scope) :: outer⟩ := rfl
  rw [hdrop, hkey] at hturn
  rw [text_append]
  -- The colon is left for the next turn, which passes over it.
  by_cases hmem : rawKey key ∈ scope
  · rw [if_pos hmem] at hturn
    exact iff_of_false (not_accepts_of_error hturn) fun h => h.1 hmem
  · rw [if_neg hmem] at hturn
    have hcolon := accepts_quiet ⟨depth, (rawKey key :: scope) :: outer⟩
      (c := ':') ⟨by decide, by decide, by decide⟩ rest
    rw [accepts_of_turn hturn, hcolon]
    exact (and_iff_right hmem).symm

/-! ## Values -/

/-- The scan comes out of a value as it went in, if the objects inside are nested within the limit
and no two keys of one read the same. -/
def ComesThrough (v : Value) : Prop :=
  ∀ (st : ScanState) (rest : List Char), st.depth ≤ 32 → NoColon rest →
    (Accepts st (v.text ++ rest)
      ↔ st.depth + v.nesting 0 ≤ 32 ∧ KeysDistinct rawKey v.scopes ∧ Accepts st rest)

/-- A value without strings and objects. -/
theorem accepts_leaf {st : ScanState} (hst : st.depth ≤ 32) {t : List Char}
    (ht : ∀ c ∈ t, IsQuiet c) (rest : List Char) :
    Accepts st (t ++ rest)
      ↔ st.depth + 0 ≤ 32 ∧ KeysDistinct rawKey [] ∧ Accepts st rest := by
  rw [accepts_quiet_append st ht]
  simp [hst]

/-- An element with the white space around it; `tail` goes on with a comma or a bracket. -/
theorem accepts_element {v : Value} (hv : ComesThrough v) {st : ScanState} (hst : st.depth ≤ 32)
    (before after : Gap) {tail : List Char} (htail : NoColon tail) :
    Accepts st (before.text ++ (v.text ++ (after.text ++ tail)))
      ↔ st.depth + v.nesting 0 ≤ 32 ∧ KeysDistinct rawKey v.scopes ∧ Accepts st tail := by
  rw [accepts_gap, hv st _ hst (noColon_gap after htail), accepts_gap]

/-- Keys that are new in their object, one after the other. -/
def Fresh (scope : List (List Char)) (keys : List Str) : Prop :=
  (∀ key ∈ keys, rawKey key ∉ scope) ∧ (keys.map rawKey).Nodup

theorem fresh_nil (scope : List (List Char)) : Fresh scope [] := by simp [Fresh]

theorem fresh_cons (scope : List (List Char)) (key : Str) (keys : List Str) :
    Fresh scope (key :: keys)
      ↔ rawKey key ∉ scope ∧ Fresh (rawKey key :: scope) keys := by
  unfold Fresh
  rw [List.forall_mem_cons, List.map_cons, List.nodup_cons]
  simp only [List.mem_map, List.mem_cons, not_or, not_exists, not_and]
  constructor
  · rintro ⟨⟨hkey, hkeys⟩, hnew, hnodup⟩
    exact ⟨hkey, fun k hk => ⟨hnew k hk, hkeys k hk⟩, hnodup⟩
  · rintro ⟨hkey, hkeys, hnodup⟩
    exact ⟨⟨hkey, fun k hk => (hkeys k hk).2⟩, fun k hk => (hkeys k hk).1, hnodup⟩

/-- In an object that has just been opened, the keys only have to differ from each other. -/
theorem fresh_open (keys : List Str) : Fresh [] keys ↔ (keys.map rawKey).Nodup := by
  simp [Fresh]

theorem accepts_member {v : Value} (hv : ComesThrough v) {depth : Nat} (hdepth : depth ≤ 32)
    (scope : List (List Char)) (outer : List (List (List Char))) (key : Str)
    (before mid before' after : Gap) {tail : List Char} (htail : NoColon tail) :
    Accepts ⟨depth, scope :: outer⟩ (before.text ++ (key.text ++ (mid.text ++ ':' ::
        (before'.text ++ (v.text ++ (after.text ++ tail))))))
      ↔ rawKey key ∉ scope ∧ depth + v.nesting 0 ≤ 32 ∧ KeysDistinct rawKey v.scopes
        ∧ Accepts ⟨depth, (rawKey key :: scope) :: outer⟩ tail := by
  have hst : (ScanState.mk depth ((rawKey key :: scope) :: outer)).depth ≤ 32 := hdepth
  rw [accepts_gap, accepts_key, accepts_element hv hst before' after htail]

theorem add_max_le_iff (depth a b : Nat) :
    depth + max a b ≤ 32 ↔ depth + a ≤ 32 ∧ depth + b ≤ 32 := by omega

theorem noColon_comma (rest : List Char) : NoColon (',' :: rest) :=
  noColon_cons (by decide) (by decide) rest

theorem noColon_bracket (rest : List Char) : NoColon (']' :: rest) :=
  noColon_cons (by decide) (by decide) rest

theorem noColon_brace (rest : List Char) : NoColon ('}' :: rest) :=
  noColon_cons (by decide) (by decide) rest

mutual

/-- **Every value comes through**: induction on the tree. A string is told from a key by what
follows the value, which is never a colon. -/
theorem comesThrough : ∀ v : Value, ComesThrough v
  | .null, st, rest, hst, _ => by
    rw [Value.text]
    exact accepts_leaf hst (by simp [IsQuiet]) rest
  | .bool b, st, rest, hst, _ => by
    cases b with
    | true => rw [Value.text]; exact accepts_leaf hst (by simp [IsQuiet]) rest
    | false => rw [Value.text]; exact accepts_leaf hst (by simp [IsQuiet]) rest
  | .number n, st, rest, hst, _ => by
    rw [Value.text]
    exact accepts_leaf hst (fun _ hc => isQuiet_of_isNumberChar (n.isNumberChar hc)) rest
  | .string s, st, rest, hst, hrest => by
    -- A string value: no colon follows, so no scope learns of it.
    rw [Value.text, accepts_string st s hrest]
    simp [Value.nesting, Value.scopes, hst]
  | .emptyArray gap, st, rest, hst, _ => by
    rw [Value.text]
    refine accepts_leaf hst (fun c hc => ?_) rest
    simp only [List.mem_cons, List.mem_append, List.not_mem_nil, or_false] at hc
    rcases hc with rfl | hgap | rfl
    · exact ⟨by decide, by decide, by decide⟩
    · exact isQuiet_of_isSpace (gap.ok c hgap)
    · exact ⟨by decide, by decide, by decide⟩
  | .array es, st, rest, hst, _ => by
    have hopen : IsQuiet '[' := ⟨by decide, by decide, by decide⟩
    rw [Value.text, List.cons_append, List.append_assoc, accepts_quiet st hopen]
    show Accepts st (es.text ++ ']' :: rest) ↔ _
    rw [accepts_elems es hst rest]
    simp only [Value.nesting, Value.scopes, Nat.zero_add]
  | .emptyObject gap, st, rest, _, _ => by
    rw [Value.text, List.cons_append, List.append_assoc, accepts_open, accepts_gap]
    show _ ∧ Accepts _ ('}' :: rest) ↔ _
    rw [accepts_close]
    simp [Value.nesting, Value.scopes]
  | .object ms, st, rest, _, _ => by
    rw [Value.text, List.cons_append, List.append_assoc, accepts_open]
    show _ ∧ Accepts _ (ms.text ++ '}' :: rest) ↔ _
    -- The members are entered one level down, with no keys seen, and left where they began.
    by_cases hdepth : st.depth + 1 ≤ 32
    · rw [accepts_members ms hdepth, fresh_open]
      simp only [Value.nesting, Value.scopes, keysDistinct_cons, ← Nat.add_assoc]
      tauto
    · refine iff_of_false (fun h => hdepth h.1) fun h => hdepth ?_
      have hnested := h.1
      simp only [Value.nesting] at hnested
      omega

theorem accepts_elems : ∀ (es : Elems) {st : ScanState} (_ : st.depth ≤ 32) (rest : List Char),
    Accepts st (es.text ++ ']' :: rest)
      ↔ st.depth + es.nesting 0 ≤ 32 ∧ KeysDistinct rawKey es.scopes ∧ Accepts st rest
  | .last before v after, st, hst, rest => by
    have hclose : IsQuiet ']' := ⟨by decide, by decide, by decide⟩
    simp only [Elems.text, List.append_assoc]
    rw [accepts_element (comesThrough v) hst before after (noColon_bracket rest),
      accepts_quiet st hclose]
    rfl
  | .more before v after es, st, hst, rest => by
    have hcomma : IsQuiet ',' := ⟨by decide, by decide, by decide⟩
    simp only [Elems.text, List.append_assoc, List.cons_append]
    rw [accepts_element (comesThrough v) hst before after (noColon_comma _),
      accepts_quiet st hcomma, accepts_elems es hst rest]
    simp only [Elems.nesting, Elems.scopes, keysDistinct_append, add_max_le_iff]
    tauto

theorem accepts_members : ∀ (ms : Members) {depth : Nat} (_ : depth ≤ 32)
    {scope : List (List Char)} {outer : List (List (List Char))} {rest : List Char},
    Accepts ⟨depth, scope :: outer⟩ (ms.text ++ '}' :: rest)
      ↔ depth + ms.nesting 0 ≤ 32 ∧ Fresh scope ms.keys ∧ KeysDistinct rawKey ms.scopes
        ∧ Accepts ⟨depth - 1, outer⟩ rest
  | .last before key mid before' v after, depth, hdepth, scope, outer, rest => by
    simp only [Members.text, List.append_assoc, List.cons_append]
    rw [accepts_member (comesThrough v) hdepth scope outer key before mid before' after
      (noColon_brace rest), accepts_close]
    simp only [Members.nesting, Members.keys, Members.scopes, fresh_cons, fresh_nil]
    tauto
  | .more before key mid before' v after ms, depth, hdepth, scope, outer, rest => by
    have hcomma : IsQuiet ',' := ⟨by decide, by decide, by decide⟩
    simp only [Members.text, List.append_assoc, List.cons_append]
    rw [accepts_member (comesThrough v) hdepth scope outer key before mid before' after
      (noColon_comma _), accepts_quiet _ hcomma, accepts_members ms hdepth]
    simp only [Members.nesting, Members.keys, Members.scopes, fresh_cons, keysDistinct_append,
      add_max_le_iff]
    tauto

end

/-! ## Documents -/

theorem accepts_document (doc : Document) :
    Accepts ⟨0, []⟩ doc.text
      ↔ doc.value.objectDepth ≤ 32 ∧ KeysDistinct rawKey doc.value.scopes := by
  have hend : Accepts ⟨0, []⟩ doc.after.text := by
    rw [← List.append_nil doc.after.text, accepts_gap]
    exact accepts_nil _
  have hafter : NoColon doc.after.text := by
    rw [← List.append_nil doc.after.text]
    exact noColon_gap doc.after noColon_nil
  rw [Document.text, accepts_gap,
    comesThrough doc.value ⟨0, []⟩ doc.after.text (Nat.zero_le 32) hafter]
  show 0 + doc.value.objectDepth ≤ 32 ∧ _ ↔ _
  rw [Nat.zero_add]
  exact and_congr_right fun _ => and_iff_left hend

variable (cp : CertPrimitives)

/-- **What the strict scan accepts**: no byte order mark, the objects nested at most 32 deep, and
in each of them keys that read differently without their backslashes. -/
theorem strictJsonScan_document (doc : Document) :
    strictJsonScan cp doc.bytes = .ok ()
      ↔ doc.byteOrderMark = false ∧ doc.value.objectDepth ≤ 32
        ∧ KeysDistinct rawKey doc.value.scopes := by
  cases hmark : doc.byteOrderMark with
  | true =>
    have hbytes : doc.bytes = byteOrderMarkBytes ++ utf8 (String.ofList doc.text) := by
      rw [Document.bytes, hmark, if_pos rfl]
    have hne : doc.bytes ≠ [] := by simp [hbytes, byteOrderMarkBytes]
    have htake : doc.bytes.take 3 = [0xEF, 0xBB, 0xBF] := by rw [hbytes]; rfl
    rw [strictJsonScan, if_neg hne, if_pos htake]
    simp
  | false =>
    have hbytes : doc.bytes = utf8 (String.ofList doc.text) := by
      rw [Document.bytes, hmark, if_neg (by simp), List.nil_append]
    obtain ⟨hne, htake⟩ := doc.not_byteOrderMark
    have hno : (utf8 (String.ofList doc.text)).take 3 ≠ [0xEF, 0xBB, 0xBF] := htake
    rw [strictJsonScan, hbytes, if_neg hne, if_neg hno, fromUtf8_utf8]
    show scanLoop (String.ofList doc.text).toList.length ⟨0, []⟩ (String.ofList doc.text).toList
      = .ok () ↔ _
    rw [String.toList_ofList, and_iff_right rfl]
    exact accepts_document doc

/-- What a strict document is to be: no object with two keys that decode to one string, and
objects and arrays nested at most 32 deep. -/
structure IsStrict (v : Value) : Prop where
  distinct : KeysDistinct Str.units v.scopes
  shallow : v.depth ≤ 32

/-- The scan accepts strict documents only, and all that carry no byte order mark. -/
structure ScansStrictly (doc : Document) : Prop where
  sound : strictJsonScan cp doc.bytes = .ok () → IsStrict doc.value
  complete : doc.byteOrderMark = false → IsStrict doc.value → strictJsonScan cp doc.bytes = .ok ()

/-- A defect the scan does not see: two spellings of one key, of which one is escaped, or arrays
that take the nesting over the limit. -/
structure Overlooked (v : Value) : Prop where
  objects : v.objectDepth ≤ 32
  readings : KeysDistinct rawKey v.scopes
  defect : 32 < v.depth ∨ ¬ KeysDistinct Str.units v.scopes

/-- A defect the scan sees where there is none: an escaped key that reads like another one when
its backslashes are dropped. -/
structure Misread (v : Value) : Prop where
  strict : IsStrict v
  readings : ¬ KeysDistinct rawKey v.scopes

/-- **When the strict scan is right**: on every document with a byte order mark, and on the others
unless it overlooks a defect or misreads a key. -/
theorem scansStrictly_iff (doc : Document) :
    ScansStrictly cp doc
      ↔ doc.byteOrderMark = true ∨ ¬ Overlooked doc.value ∧ ¬ Misread doc.value := by
  have hscan := strictJsonScan_document cp doc
  cases hmark : doc.byteOrderMark with
  | true =>
    refine iff_of_true ⟨fun hok => ?_, fun h => ?_⟩ (.inl rfl)
    · exact absurd (hscan.mp hok).1 (by simp [hmark])
    · exact absurd h (by simp [hmark])
  | false =>
    rw [hmark, and_iff_right rfl] at hscan
    constructor
    · intro h
      refine .inr ⟨fun hover => ?_, fun hmis => hmis.readings ?_⟩
      · have hstrict := h.sound (hscan.mpr ⟨hover.objects, hover.readings⟩)
        rcases hover.defect with hdeep | hdup
        · exact absurd hstrict.shallow (Nat.not_le.mpr hdeep)
        · exact hdup hstrict.distinct
      · exact (hscan.mp (h.complete hmark hmis.strict)).2
    · intro h
      obtain ⟨hover, hmis⟩ := h.resolve_left (by simp)
      refine ⟨fun hok => ?_, fun _ hstrict => hscan.mpr ⟨?_, ?_⟩⟩
      · -- Accepted, so a defect would have been overlooked.
        have haccepted := hscan.mp hok
        by_contra hnot
        refine hover ⟨haccepted.1, haccepted.2, ?_⟩
        by_cases hdeep : 32 < doc.value.depth
        · exact .inl hdeep
        · exact .inr fun hdistinct => hnot ⟨hdistinct, Nat.not_lt.mp hdeep⟩
      · exact doc.value.objectDepth_le_depth.trans hstrict.shallow
      · by_contra hreadings
        exact hmis ⟨hstrict, hreadings⟩

/-! ## Documents it is wrong about -/

def digit (c : Char) (h : c.isDigit = true) (hzero : c ≠ '0') : Value :=
  .number ⟨false, ⟨[c], by simp [h]⟩, by simp [hzero], none, none⟩

/-- An object of two members without white space. -/
def twoMembers (key key' : Str) : Document where
  byteOrderMark := false
  before := .none
  value := .object (.more .none key .none .none (digit '1' rfl (by decide)) .none
    (.last .none key' .none .none (digit '2' rfl (by decide)) .none))
  after := .none

def plainKey (c : Char) (ok : 0x20 ≤ c.toNat ∧ c ≠ '"' ∧ c ≠ '\\') : Str := [.plain c ok]

/-- The key `a`, spelled as it is and by its code. -/
def twiceNamed : Document :=
  twoMembers (plainKey 'a' (by decide))
    [.unicode ⟨'0', by decide⟩ ⟨'0', by decide⟩ ⟨'6', by decide⟩ ⟨'1', by decide⟩]

/-- The key `n` and the key that is a line feed. -/
def lineFeedNamed : Document := twoMembers (plainKey 'n' (by decide)) [.escape .lineFeed]

/-- Arrays around an empty one. -/
def arrayNest : Nat → Value
  | 0 => .emptyArray .none
  | n + 1 => .array (.last .none (arrayNest n) .none)

def deepArrays : Document := ⟨false, .none, arrayNest 32, .none⟩

/-- **The strict scan is wrong both ways**: it accepts a key that is given twice and an array of
33 levels, and refuses two keys that differ. -/
theorem strictScan_wrong :
    twiceNamed.bytes = utf8 "\x7b\"a\":1,\"\\u0061\":2\x7d"
      ∧ lineFeedNamed.bytes = utf8 "\x7b\"n\":1,\"\\n\":2\x7d"
      ∧ deepArrays.value.depth = 33
      ∧ ¬ ScansStrictly hollowPrimitives twiceNamed
      ∧ ¬ ScansStrictly hollowPrimitives lineFeedNamed
      ∧ ¬ ScansStrictly hollowPrimitives deepArrays := by
  refine ⟨by decide, by decide, by decide, fun h => ?_, fun h => ?_, fun h => ?_⟩
  · have hok := (strictJsonScan_document hollowPrimitives twiceNamed).mpr
      ⟨rfl, by decide, by decide⟩
    exact absurd (h.sound hok).distinct (by decide)
  · have hok := h.complete rfl ⟨by decide, by decide⟩
    exact absurd ((strictJsonScan_document hollowPrimitives lineFeedNamed).mp hok).2.2 (by decide)
  · have hok := (strictJsonScan_document hollowPrimitives deepArrays).mpr
      ⟨rfl, by decide, by decide⟩
    exact absurd (h.sound hok).shallow (by decide)

end SanitizationCertificate

end DiscCleaner
