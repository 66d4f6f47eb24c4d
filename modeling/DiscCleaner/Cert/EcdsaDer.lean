import DiscCleaner.Lib.BigEndian
import DiscCleaner.Lib.Prog
import DiscCleaner.Lib.Slices
import Mathlib.Data.List.GetD
import Mathlib.Data.Nat.Size

/-!
# DiscCleaner — ECDSA signatures of a card (`token.rs`)

A card answers with a signature in DER, a SEQUENCE of two INTEGERs, or with the 64 bytes `r || s`
themselves. `der_ecdsa_to_rs` makes the second form of the first, and takes 64 bytes for the second
form whatever they are. The length bytes come from the card: where they announce more than there
is, the slice unwinds.

* **`derEcdsaToRs_panic_iff`** — the answers that unwind.
* **`der_conversion_iff`** — and the signatures that are read.
-/

namespace DiscCleaner

open ByteLib ProgLib SliceLib

/-! ## The conversion -/

/-- `while len > 32`: a leading byte that is not zero is refused, a missing one unwinds. -/
def dropPadding (der : Bytes) : Nat → Nat → Outcome Unit (Nat × Nat)
  | start, 0 => .ok (start, 0)
  | start, len + 1 =>
    if len + 1 ≤ 32 then .ok (start, len + 1)
    else
      match der[start]? with
      | none => .panic
      | some b => if b ≠ 0x00 then .err () else dropPadding der (start + 1) len

/-- One turn of the loop: the INTEGER at `cursor`, to the right of its half of `rs`. The
destination is as long as the content, and inside of the 64 bytes. -/
def readInteger (der : Bytes) (half : Nat) (rs : Bytes) (cursor : Nat) :
    Outcome Unit (Bytes × Nat) :=
  if der.length < cursor + 2 ∨ der.getD cursor 0 ≠ 0x02 then .err ()
  else
    let len := (der.getD (cursor + 1) 0).toNat
    if 33 < len then .err ()
    else
      match dropPadding der (cursor + 2) len with
      | .ok (start, len) =>
        match range? der start (start + len) with
        | none => .panic
        | some content => .ok (patch rs (half * 32 + (32 - len)) content, start + len)
      | .err e => .err e
      | .panic => .panic
      | .blocked => .blocked

/-- `err` is the `None` of the source. -/
def derEcdsaToRs (der : Bytes) : Outcome Unit Bytes :=
  if der.length = 64 then .ok der
  else if der.length < 6 ∨ der.getD 0 0 ≠ 0x30 then .err ()
  else
    match readInteger der 0 (List.replicate 64 0) 2 with
    | .ok (rs, cursor) =>
      match readInteger der 1 rs cursor with
      | .ok (rs, _) => .ok rs
      | .err e => .err e
      | .panic => .panic
      | .blocked => .blocked
    | .err e => .err e
    | .panic => .panic
    | .blocked => .blocked

/-! ## Where it unwinds -/

/-- The INTEGER at `cursor` announces `len` bytes, at most 33, and of 33 the first that is there
is zero. -/
structure Announces (der : Bytes) (cursor : Nat) (len : UInt8) : Prop where
  tag : der[cursor]? = some 0x02
  length : der[cursor + 1]? = some len
  le : len.toNat ≤ 33
  padding : len.toNat = 33 → ∀ b, der[cursor + 2]? = some b → b = 0x00

/-- An INTEGER at `cursor` whose content is there. -/
def HasInteger (der : Bytes) (cursor : Nat) (len : UInt8) : Prop :=
  Announces der cursor len ∧ cursor + 2 + len.toNat ≤ der.length

/-- An INTEGER at `cursor` that announces more than there is. -/
def Overruns (der : Bytes) (cursor : Nat) : Prop :=
  ∃ len, Announces der cursor len ∧ der.length < cursor + 2 + len.toNat

/-- A SEQUENCE that is cut off in the first INTEGER, or behind a whole one in the second. -/
def CutOff (der : Bytes) : Prop :=
  der.length ≠ 64 ∧ 6 ≤ der.length ∧ der[0]? = some 0x30
    ∧ (Overruns der 2 ∨ ∃ len, HasInteger der 2 len ∧ Overruns der (4 + len.toNat))

/-- The half of `rs` with the content of the INTEGER in it, without the padding of 33 bytes. -/
def putInteger (der : Bytes) (half : Nat) (rs : Bytes) (cursor : Nat) (len : UInt8) : Bytes :=
  patch rs (half * 32 + (32 - len.toNat))
    (((der.drop (cursor + 2)).take len.toNat).drop (len.toNat - 32))

theorem dropPadding_small {der : Bytes} {start len : Nat} (h : len ≤ 32) :
    dropPadding der start len = .ok (start, len) := by
  cases len with
  | zero => rfl
  | succ len => rw [dropPadding, if_pos h]

theorem dropPadding_33 (der : Bytes) (start : Nat) :
    dropPadding der start 33 = match der[start]? with
      | none => .panic
      | some b => if b ≠ 0x00 then .err () else .ok (start + 1, 32) := by
  rw [dropPadding, if_neg (by decide)]
  cases der[start]? with
  | none => rfl
  | some b => simp only [dropPadding_small (Nat.le_refl 32)]

variable {der rs : Bytes} {half cursor : Nat} {len : UInt8}

theorem Announces.lt_length (h : Announces der cursor len) : cursor + 1 < der.length :=
  (List.getElem?_eq_some_iff.mp h.length).1

/-- What is left of a turn over an announced INTEGER. -/
theorem readInteger_announced (h : Announces der cursor len) :
    readInteger der half rs cursor =
      match dropPadding der (cursor + 2) len.toNat with
      | .ok (start, len) =>
        match range? der start (start + len) with
        | none => .panic
        | some content => .ok (patch rs (half * 32 + (32 - len)) content, start + len)
      | .err e => .err e
      | .panic => .panic
      | .blocked => .blocked := by
  have hlt := h.lt_length
  have htag : der.getD cursor 0 = 0x02 := by
    rw [List.getD_eq_getElem?_getD, h.tag, Option.getD_some]
  have hlen : der.getD (cursor + 1) 0 = len := by
    rw [List.getD_eq_getElem?_getD, h.length, Option.getD_some]
  rw [readInteger, htag, hlen, if_neg (by simp; omega)]
  dsimp only
  rw [if_neg (Nat.not_lt.mpr h.le)]

theorem readInteger_ok (h : HasInteger der cursor len) :
    readInteger der half rs cursor
      = .ok (putInteger der half rs cursor len, cursor + 2 + len.toNat) := by
  obtain ⟨hann, hfit⟩ := h
  rw [readInteger_announced hann, putInteger]
  by_cases hlen : len.toNat ≤ 32
  · rw [dropPadding_small hlen]
    dsimp only
    rw [range?_eq (Nat.le_add_right _ _) hfit, Nat.add_sub_cancel_left,
      Nat.sub_eq_zero_of_le hlen, List.drop_zero]
  · have hpad : len.toNat = 33 := by
      have := hann.le
      omega
    have hget : der[cursor + 2]? = some 0x00 := by
      have hlt : cursor + 2 < der.length := by omega
      rw [List.getElem?_eq_getElem hlt, hann.padding hpad _ (List.getElem?_eq_getElem hlt)]
    rw [hpad, dropPadding_33, hget]
    dsimp only
    rw [if_neg (by simp)]
    dsimp only
    rw [range?_eq (Nat.le_add_right _ _) (by omega), Nat.add_sub_cancel_left, List.drop_take,
      List.drop_drop]

theorem readInteger_panic (h : Overruns der cursor) : readInteger der half rs cursor = .panic := by
  obtain ⟨len, hann, hover⟩ := h
  rw [readInteger_announced hann]
  by_cases hlen : len.toNat ≤ 32
  · rw [dropPadding_small hlen]
    dsimp only
    rw [range?_eq_none.mpr (by omega)]
  · have hpad : len.toNat = 33 := by
      have := hann.le
      omega
    rw [hpad, dropPadding_33]
    cases hget : der[cursor + 2]? with
    | none => rfl
    | some b =>
      dsimp only
      rw [if_neg (by simp [hann.padding hpad b hget])]
      dsimp only
      rw [range?_eq_none.mpr (by omega)]

/-- Anything else is refused. -/
theorem readInteger_err (h : ∀ len, ¬ Announces der cursor len) :
    readInteger der half rs cursor = .err () := by
  rw [readInteger]
  split
  · rfl
  · next hhead =>
    rw [not_or, Nat.not_lt, Decidable.not_not] at hhead
    obtain ⟨hbound, htag⟩ := hhead
    have hlt : cursor + 1 < der.length := by omega
    have htag' : der[cursor]? = some 0x02 := by
      rw [List.getElem?_eq_getElem (by omega), ← htag, List.getD_eq_getElem _ _ (by omega)]
    rw [List.getD_eq_getElem _ _ hlt]
    dsimp only
    split
    · rfl
    · next hle =>
      -- only the padding is left to be wrong
      have hpad : ¬ (der[cursor + 1].toNat = 33 → ∀ b, der[cursor + 2]? = some b → b = 0x00) :=
        fun hpad => h _ ⟨htag', List.getElem?_eq_getElem hlt, Nat.not_lt.mp hle, hpad⟩
      push Not at hpad
      obtain ⟨hlen, b, hget, hb⟩ := hpad
      rw [hlen, dropPadding_33, hget]
      dsimp only
      rw [if_pos hb]

/-- An INTEGER that is announced is there, or overruns. -/
theorem Announces.hasInteger_or (h : Announces der cursor len) :
    HasInteger der cursor len ∨ Overruns der cursor := by
  by_cases hfit : cursor + 2 + len.toNat ≤ der.length
  · exact .inl ⟨h, hfit⟩
  · exact .inr ⟨len, h, Nat.not_le.mp hfit⟩

theorem HasInteger.not_overruns (h : HasInteger der cursor len) : ¬ Overruns der cursor := by
  rintro ⟨len', hann, hover⟩
  obtain rfl := Option.some.inj (hann.length.symm.trans h.1.length)
  exact absurd h.2 (Nat.not_le.mpr hover)

/-- **What one turn does**: it reads, it unwinds, or it refuses. -/
theorem readInteger_cases (der rs : Bytes) (half cursor : Nat) :
    (∃ len, HasInteger der cursor len ∧ readInteger der half rs cursor
        = .ok (putInteger der half rs cursor len, cursor + 2 + len.toNat))
      ∨ (Overruns der cursor ∧ readInteger der half rs cursor = .panic)
      ∨ ((∀ len, ¬ Announces der cursor len) ∧ readInteger der half rs cursor = .err ()) := by
  by_cases h : ∃ len, Announces der cursor len
  · obtain ⟨len, hann⟩ := h
    rcases hann.hasInteger_or with hhas | hover
    · exact .inl ⟨len, hhas, readInteger_ok hhas⟩
    · exact .inr (.inl ⟨hover, readInteger_panic hover⟩)
  · rw [not_exists] at h
    exact .inr (.inr ⟨h, readInteger_err h⟩)

theorem readInteger_panic_iff : readInteger der half rs cursor = .panic ↔ Overruns der cursor := by
  rcases readInteger_cases der rs half cursor with ⟨len, hhas, hrun⟩ | ⟨hover, hrun⟩ | ⟨hno, hrun⟩
  · rw [hrun]
    exact iff_of_false (by simp) hhas.not_overruns
  · exact iff_of_true hrun hover
  · rw [hrun]
    exact iff_of_false (by simp) fun ⟨len, hann, _⟩ => hno len hann

/-- **The answers that unwind** are those cut off inside of an INTEGER. -/
theorem derEcdsaToRs_panic_iff (der : Bytes) : derEcdsaToRs der = .panic ↔ CutOff der := by
  unfold derEcdsaToRs CutOff
  split
  · next hraw => exact iff_of_false (by simp) fun h => h.1 hraw
  · next hraw =>
    split
    · next hhead =>
      refine iff_of_false (by simp) fun ⟨_, hlen, htag, _⟩ => ?_
      rw [List.getD_eq_getElem?_getD, htag] at hhead
      exact hhead.elim (by omega) fun hne => hne rfl
    · next hhead =>
      rw [not_or, Nat.not_lt, Decidable.not_not] at hhead
      obtain ⟨hlen, htag⟩ := hhead
      have htag' : der[0]? = some 0x30 := by
        rw [List.getElem?_eq_getElem (by omega), ← htag, List.getD_eq_getElem _ _ (by omega)]
      rcases readInteger_cases der (List.replicate 64 0) 0 2 with
        ⟨len, hhas, hrun⟩ | ⟨hover, hrun⟩ | ⟨hno, hrun⟩
      · -- the first INTEGER is whole: the second one decides
        rw [hrun]
        dsimp only
        have hsecond : (∃ len, HasInteger der 2 len ∧ Overruns der (4 + len.toNat))
            ↔ Overruns der (2 + 2 + len.toNat) := by
          refine ⟨fun ⟨len', hhas', hover⟩ => ?_, fun hover => ⟨len, hhas, hover⟩⟩
          obtain rfl := Option.some.inj (hhas'.1.length.symm.trans hhas.1.length)
          exact hover
        have hfirst := hhas.not_overruns
        rw [← @readInteger_panic_iff der (putInteger der 0 (List.replicate 64 0) 2 len) 1]
          at hsecond
        rcases readInteger_cases der (putInteger der 0 (List.replicate 64 0) 2 len) 1
          (2 + 2 + len.toNat) with ⟨len', -, hrun'⟩ | ⟨-, hrun'⟩ | ⟨-, hrun'⟩
        · rw [hrun'] at hsecond ⊢
          simp [hsecond, hfirst]
        · rw [hrun'] at hsecond ⊢
          simp only [iff_true] at hsecond
          simp [hsecond, hraw, hlen, htag']
        · rw [hrun'] at hsecond ⊢
          simp [hsecond, hfirst]
      · rw [hrun]
        exact iff_of_true rfl ⟨hraw, hlen, htag', .inl hover⟩
      · rw [hrun]
        refine iff_of_false (by simp) fun ⟨_, _, _, h⟩ => ?_
        rcases h with ⟨len, hann, -⟩ | ⟨len, hhas, -⟩
        · exact hno len hann
        · exact hno len hhas.1

/-! ## The signatures that are read -/

/-- The content octets of a positive INTEGER: as few as leave the top bit clear. -/
def derContent (v : Nat) : Bytes := be (v.size / 8 + 1) v

def derInteger (v : Nat) : Bytes := 0x02 :: UInt8.ofNat (derContent v).length :: derContent v

/-- `SEQUENCE \x7b INTEGER r, INTEGER s \x7d`. -/
def derSignature (r s : Nat) : Bytes :=
  0x30 :: UInt8.ofNat (derInteger r ++ derInteger s).length :: (derInteger r ++ derInteger s)

@[simp] theorem length_derContent (v : Nat) : (derContent v).length = v.size / 8 + 1 :=
  be_length _ _

@[simp] theorem length_derInteger (v : Nat) : (derInteger v).length = v.size / 8 + 3 := by
  simp [derInteger]

@[simp] theorem length_derSignature (r s : Nat) :
    (derSignature r s).length = r.size / 8 + s.size / 8 + 8 := by
  simp [derSignature]
  omega

theorem lt_pow_length_derContent (v : Nat) : v < 256 ^ (v.size / 8 + 1) := by
  have hsize : v < 2 ^ v.size := Nat.lt_size_self v
  have hle : v.size ≤ 8 * (v.size / 8 + 1) := by omega
  calc v < 2 ^ v.size := hsize
    _ ≤ 2 ^ (8 * (v.size / 8 + 1)) := Nat.pow_le_pow_right (by decide) hle
    _ = 256 ^ (v.size / 8 + 1) := by rw [Nat.pow_mul]

theorem lt_pow_32 {v : Nat} (h : v < 2 ^ 256) : v < 256 ^ 32 := by
  rwa [show (256 : Nat) ^ 32 = 2 ^ 256 from (Nat.pow_mul 2 8 32).symm]

/-- Leading zeros of a word that is longer than its number. -/
theorem be_add_of_lt {n v : Nat} (h : v < 256 ^ n) (k : Nat) :
    be (k + n) v = List.replicate k 0 ++ be n v := by
  induction k with
  | zero => rw [Nat.zero_add, List.replicate_zero, List.nil_append]
  | succ k ih =>
    have hle : 256 ^ n ≤ 256 ^ (k + n) := Nat.pow_le_pow_right (by decide) (Nat.le_add_left _ _)
    have hzero : v / 256 ^ (k + n) = 0 := Nat.div_eq_of_lt (by omega)
    rw [show k + 1 + n = k + n + 1 by omega, be, hzero, ih, List.replicate_succ, List.cons_append]
    rfl

/-- The content without its padding, in front of it the zeros that make it 32 bytes. -/
theorem padded_derContent {v : Nat} (h : v < 2 ^ 256) :
    List.replicate (32 - (derContent v).length) 0
      ++ (derContent v).drop ((derContent v).length - 32) = be 32 v := by
  have hsize : v.size ≤ 256 := Nat.size_le.mpr h
  rw [length_derContent, derContent]
  by_cases hlen : v.size / 8 + 1 ≤ 32
  · rw [Nat.sub_eq_zero_of_le hlen, List.drop_zero,
      ← be_add_of_lt (lt_pow_length_derContent v), Nat.sub_add_cancel hlen]
  · have hlen' : v.size / 8 + 1 = 1 + 32 := by omega
    rw [hlen', be_add_of_lt (lt_pow_32 h)]
    rfl

/-- An INTEGER between any two texts is there. -/
theorem hasInteger_derInteger {v : Nat} (h : v < 2 ^ 256) (before rest : Bytes) :
    HasInteger (before ++ (derInteger v ++ rest)) before.length
      (UInt8.ofNat (derContent v).length) := by
  have hsize : v.size ≤ 256 := Nat.size_le.mpr h
  have hval : (UInt8.ofNat (derContent v).length).toNat = v.size / 8 + 1 := by
    rw [UInt8.toNat_ofNat', length_derContent, Nat.mod_eq_of_lt (by omega)]
  have hget : ∀ i, (before ++ (derInteger v ++ rest))[before.length + i]?
      = (derInteger v ++ rest)[i]? := fun i => by
    rw [List.getElem?_append_right (Nat.le_add_right _ _), Nat.add_sub_cancel_left]
  refine ⟨⟨hget 0, hget 1, by omega, fun hlen b hb => ?_⟩, ?_⟩
  · -- 33 bytes: the first one is the sign
    have hlen' : v.size / 8 + 1 = 33 := hval.symm.trans hlen
    have hpow : v / 256 ^ 32 = 0 := Nat.div_eq_of_lt (lt_pow_32 h)
    rw [hget 2, derInteger, derContent, hlen', be, hpow] at hb
    exact (Option.some.inj hb).symm
  · rw [hval]
    simp
    omega

/-- A turn over an INTEGER between any two texts. -/
theorem readInteger_derInteger {v : Nat} (h : v < 2 ^ 256) (before rest : Bytes) (half : Nat)
    (rs : Bytes) :
    readInteger (before ++ (derInteger v ++ rest)) half rs before.length
      = .ok (patch rs (half * 32 + (32 - (derContent v).length))
          ((derContent v).drop ((derContent v).length - 32)),
        before.length + (derInteger v).length) := by
  have hsize : v.size ≤ 256 := Nat.size_le.mpr h
  have hval : (UInt8.ofNat (derContent v).length).toNat = (derContent v).length := by
    rw [UInt8.toNat_ofNat', Nat.mod_eq_of_lt (by rw [length_derContent]; omega)]
  have hcontent : ((before ++ (derInteger v ++ rest)).drop (before.length + 2)).take
      (derContent v).length = derContent v := by
    rw [← List.drop_drop, List.drop_left]
    show (derContent v ++ rest).take _ = _
    exact List.take_left
  rw [readInteger_ok (hasInteger_derInteger h before rest), putInteger, hval, hcontent]
  congr 2
  rw [length_derInteger, length_derContent]
  omega

/-- The two halves, put in one after the other. -/
theorem put_halves {r s : Nat} (hr : r < 2 ^ 256) (hs : s < 2 ^ 256) :
    patch (patch (List.replicate 64 0) (0 * 32 + (32 - (derContent r).length))
        ((derContent r).drop ((derContent r).length - 32)))
      (1 * 32 + (32 - (derContent s).length))
      ((derContent s).drop ((derContent s).length - 32)) = be 32 r ++ be 32 s := by
  have hr' := padded_derContent hr
  have hs' := padded_derContent hs
  have hlr : 32 - (derContent r).length + ((derContent r).length - ((derContent r).length - 32))
      = 32 := by
    have := Nat.size_le.mpr hr
    rw [length_derContent]
    omega
  have hls : 32 - (derContent s).length + ((derContent s).length - ((derContent s).length - 32))
      = 32 := by
    have := Nat.size_le.mpr hs
    rw [length_derContent]
    omega
  have hfirst : patch (List.replicate 64 0) (0 * 32 + (32 - (derContent r).length))
      ((derContent r).drop ((derContent r).length - 32))
      = be 32 r ++ List.replicate 32 0 := by
    rw [patch, Nat.zero_mul, Nat.zero_add, List.take_replicate, List.drop_replicate,
      List.length_drop, hlr, Nat.min_eq_left (by omega), hr']
  have htake : (be 32 r ++ List.replicate 32 (0 : UInt8)).take
      (1 * 32 + (32 - (derContent s).length))
      = be 32 r ++ List.replicate (32 - (derContent s).length) 0 := by
    rw [List.take_append, be_length, Nat.one_mul, Nat.add_sub_cancel_left, List.take_replicate,
      Nat.min_eq_left (Nat.sub_le _ _), List.take_of_length_le (by rw [be_length]; omega)]
  have hdrop : (be 32 r ++ List.replicate 32 (0 : UInt8)).drop
      (1 * 32 + (32 - (derContent s).length)
        + ((derContent s).length - ((derContent s).length - 32))) = [] := by
    refine List.drop_eq_nil_of_le ?_
    rw [List.length_append, be_length, List.length_replicate]
    omega
  rw [hfirst, patch, List.length_drop, htake, hdrop, List.append_nil, List.append_assoc, hs']

/-- A signature that is not 64 bytes long is read. -/
theorem derEcdsaToRs_derSignature {r s : Nat} (hr : r < 2 ^ 256) (hs : s < 2 ^ 256)
    (hlen : (derSignature r s).length ≠ 64) :
    derEcdsaToRs (derSignature r s) = .ok (be 32 r ++ be 32 s) := by
  let header : Bytes := [0x30, UInt8.ofNat (derInteger r ++ derInteger s).length]
  let first := patch (List.replicate 64 0) (0 * 32 + (32 - (derContent r).length))
    ((derContent r).drop ((derContent r).length - 32))
  have hfirst : readInteger (derSignature r s) 0 (List.replicate 64 0) 2
      = .ok (first, 2 + (derInteger r).length) :=
    readInteger_derInteger hr header (derInteger s) 0 _
  have hsecond := readInteger_derInteger hs (header ++ derInteger r) [] 1 first
  have hcursor : (header ++ derInteger r).length = 2 + (derInteger r).length :=
    List.length_append
  rw [List.append_nil, List.append_assoc, hcursor, put_halves hr hs] at hsecond
  have hhead : ¬ ((derSignature r s).length < 6 ∨ (derSignature r s).getD 0 0 ≠ 0x30) := by
    rw [not_or, length_derSignature]
    exact ⟨by omega, fun h => h rfl⟩
  rw [derEcdsaToRs, if_neg hlen, if_neg hhead, hfirst]
  dsimp only
  rw [show derSignature r s = header ++ (derInteger r ++ derInteger s) from rfl, hsecond]

/-- A number whose 32 bytes start like a SEQUENCE has 32 bytes of content. -/
theorem size_of_sequence_byte {r : Nat} (hr : r < 2 ^ 256)
    (h : UInt8.ofNat (r / 256 ^ 31) = 0x30) : r.size / 8 = 31 := by
  have hbyte : r / 256 ^ 31 = 48 := by
    have hlt : r / 256 ^ 31 < 256 := Nat.div_lt_of_lt_mul (lt_pow_32 hr)
    have hmod := ofNat_eq_iff.mp h
    rwa [Nat.mod_eq_of_lt hlt] at hmod
  have hpow : (256 : Nat) ^ 31 = 2 ^ 248 := (Nat.pow_mul 2 8 31).symm
  have hlow : 2 ^ 253 ≤ r := by
    have := Nat.div_mul_le_self r (256 ^ 31)
    rw [hbyte, hpow] at this
    omega
  have hhigh : r < 2 ^ 254 := by
    have := Nat.lt_mul_of_div_lt (Nat.lt_succ_of_le (Nat.le_of_eq hbyte)) (Nat.pow_pos (by decide))
    rw [hpow] at this
    omega
  have hle := Nat.size_le.mpr hhigh
  have hlt := Nat.lt_size.mpr hlow
  omega

/-- A signature of 64 bytes is not the raw form of its own numbers. -/
theorem raw_ne_derSignature {r s : Nat} (hr : r < 2 ^ 256) (hlen : (derSignature r s).length = 64) :
    be 32 r ++ be 32 s ≠ derSignature r s := by
  intro h
  rw [length_derSignature] at hlen
  -- the tag of the SEQUENCE starts `r`, so `r` has 32 bytes and `s` has 26
  have hrsize : r.size / 8 = 31 := size_of_sequence_byte hr (List.head_eq_of_cons_eq h)
  have hssize : s.size / 8 + 1 = 26 := by omega
  have hs : be 32 s = List.replicate 6 0 ++ be 26 s :=
    be_add_of_lt (hssize ▸ lt_pow_length_derContent s) 6
  -- byte 36 is a leading zero of `s` on one side, and the tag of its INTEGER on the other
  have hraw : (be 32 r ++ be 32 s)[36]? = some 0x00 := by
    rw [List.getElem?_append_right (by rw [be_length]; omega), be_length, hs]
    rfl
  have hder : (derSignature r s)[36]? = some 0x02 := by
    have hlenr : (derInteger r).length = 34 := by rw [length_derInteger, hrsize]
    show (derInteger r ++ derInteger s)[34]? = _
    rw [List.getElem?_append_right (Nat.le_of_eq hlenr), hlenr]
    rfl
  rw [h, hder] at hraw
  exact absurd hraw (by decide)

/-- **When the conversion keeps its promise**: an answer does not unwind exactly if no INTEGER of
it is cut off, and the signature of two numbers is read exactly if it is not 64 bytes long. -/
theorem der_conversion_iff (der : Bytes) {r s : Nat} (hr : r < 2 ^ 256) (hs : s < 2 ^ 256) :
    (derEcdsaToRs der ≠ .panic ↔ ¬ CutOff der)
      ∧ (derEcdsaToRs (derSignature r s) = .ok (be 32 r ++ be 32 s)
        ↔ (derSignature r s).length ≠ 64) := by
  refine ⟨not_congr (derEcdsaToRs_panic_iff der), fun hread hlen => ?_, fun hlen =>
    derEcdsaToRs_derSignature hr hs hlen⟩
  rw [derEcdsaToRs, if_pos hlen, Outcome.ok.injEq] at hread
  exact raw_ne_derSignature hr hlen hread.symm

/-- A whole signature of small numbers. -/
theorem der_conversion_small :
    (derEcdsaToRs (derSignature 1 128) ≠ .panic ↔ ¬ CutOff (derSignature 1 128))
      ∧ (derEcdsaToRs (derSignature 1 128) = .ok (be 32 1 ++ be 32 128)
        ↔ (derSignature 1 128).length ≠ 64) :=
  der_conversion_iff (derSignature 1 128) (by decide) (by decide)

/-- A SEQUENCE that ends behind a length byte unwinds, and a signature of two numbers of 29 bytes
is handed on as it is. -/
theorem der_conversion_fails :
    derEcdsaToRs [0x30, 0x04, 0x02, 0x20, 0x00, 0x00] = .panic
      ∧ derEcdsaToRs (derSignature (2 ^ 224) (2 ^ 224))
        ≠ .ok (be 32 (2 ^ 224) ++ be 32 (2 ^ 224)) := by
  refine ⟨by rfl, fun h => ?_⟩
  have hlen : (derSignature (2 ^ 224) (2 ^ 224)).length = 64 := by
    rw [length_derSignature, Nat.size_pow]
  rw [derEcdsaToRs, if_pos hlen, Outcome.ok.injEq] at h
  exact raw_ne_derSignature (Nat.pow_lt_pow_right (by decide) (by decide)) hlen h.symm

end DiscCleaner
