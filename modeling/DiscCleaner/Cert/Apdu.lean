import DiscCleaner.Lib.BigEndian

/-!
# DiscCleaner — command APDUs (`iso7816.rs`)

A card command is a header of four bytes and a body that says its own shape: data with its length,
the number of bytes that are expected back, both or neither, each with one-byte lengths or with
longer ones. The encoder chooses the shape; the card tells the shapes apart by the length of the
body and its first bytes.

* **`isoDecode`** — the decoding rules of the standard, for the seven shapes.
* **`encode_recovered`** — what the card makes of an encoded command is the command.
-/

namespace DiscCleaner

open ByteLib

/-- `ne` is the number of bytes expected back, if any are; `extended` asks for long length fields
where short ones would do. -/
structure CommandApdu where
  cla : UInt8
  ins : UInt8
  p1 : UInt8
  p2 : UInt8
  data : Bytes
  ne : Option Nat
  extended : Bool
  deriving DecidableEq

namespace CommandApdu

/-- Long length fields. -/
def big (c : CommandApdu) : Bool := c.extended || 255 < c.data.length || 256 < c.ne.getD 0

/-- The data with its length; a length alone still needs the marker of the long form. -/
def encodeData (c : CommandApdu) : Bytes :=
  if c.data ≠ [] then
    (if c.big then 0x00 :: be 2 c.data.length else [UInt8.ofNat c.data.length]) ++ c.data
  else if c.big ∧ c.ne.isSome then [0x00]
  else []

/-- One byte, zero for 256. -/
def shortLe (ne : Nat) : UInt8 :=
  let le := min ne 256
  if le = 256 then 0 else UInt8.ofNat le

/-- What two bytes say, zero for 65536. -/
def extendedLe (ne : Nat) : Nat :=
  let le := min ne 65536
  if le = 65536 then 0 else le

/-- The expected length, if there is one. -/
def encodeNe (c : CommandApdu) : Bytes :=
  match c.ne with
  | none => []
  | some ne => if c.big then be 2 (extendedLe ne) else [shortLe ne]

def encode (c : CommandApdu) : Bytes := [c.cla, c.ins, c.p1, c.p2] ++ c.encodeData ++ c.encodeNe

end CommandApdu

/-! ## The decoding rules of the standard -/

namespace Iso7816

/-- A command as a card sees it: header, data, and the number of bytes expected back. -/
structure Command where
  cla : UInt8
  ins : UInt8
  p1 : UInt8
  p2 : UInt8
  data : Bytes
  ne : Option Nat
  deriving DecidableEq

/-- `Ne` of a short `Le` field. -/
def shortNe (le : UInt8) : Nat := if le = 0 then 256 else le.toNat

/-- `Ne` of an extended `Le` field. -/
def extendedNe (le : Bytes) : Nat := if beNat le = 0 then 65536 else beNat le

/-- Cases 3S and 4S: `lc` bytes of data, and a byte more where an answer is expected. -/
def shortBody (lc : Nat) (rest : Bytes) : Option (Bytes × Option Nat) :=
  if rest.length = lc then some (rest, none)
  else if rest.length = lc + 1 then some (rest.take lc, (rest[lc]?).map shortNe)
  else none

/-- Cases 3E and 4E: `lc` bytes of data, not none, and two bytes more where an answer is
expected. -/
def extendedBody (lc : Nat) (rest : Bytes) : Option (Bytes × Option Nat) :=
  if lc = 0 then none
  else if rest.length = lc then some (rest, none)
  else if rest.length = lc + 2 then some (rest.take lc, some (extendedNe (rest.drop lc)))
  else none

/-- Data and `Ne` of a command body. -/
def decodeBody : Bytes → Option (Bytes × Option Nat)
  | [] => some ([], none)
  | [le] => some ([], some (shortNe le))
  | 0 :: [leHigh, leLow] => some ([], some (extendedNe [leHigh, leLow]))
  | 0 :: lcHigh :: lcLow :: rest => extendedBody (beNat [lcHigh, lcLow]) rest
  | lc :: rest => if lc = 0 then none else shortBody lc.toNat rest

/-- A command APDU by the standard's rules; `none` is one that fits no case. -/
def decode : Bytes → Option Command
  | cla :: ins :: p1 :: p2 :: body =>
    (decodeBody body).map fun d => ⟨cla, ins, p1, p2, d.1, d.2⟩
  | _ => none

/-- A body whose first byte is not zero has short length fields. -/
theorem decodeBody_short {lc : UInt8} (hlc : lc ≠ 0) {rest : Bytes} (hrest : rest ≠ []) :
    decodeBody (lc :: rest) = shortBody lc.toNat rest := by
  match rest, hrest with
  | [_], _ => simp [decodeBody, hlc]
  | [_, _], _ => simp [decodeBody, hlc]
  | _ :: _ :: _ :: _, _ => simp [decodeBody, hlc]

/-- A body that starts with zero and a length of two bytes, and does not end there. -/
theorem decodeBody_extended (lcHigh lcLow : UInt8) {rest : Bytes} (hrest : rest ≠ []) :
    decodeBody (0 :: lcHigh :: lcLow :: rest) = extendedBody (beNat [lcHigh, lcLow]) rest := by
  match rest, hrest with
  | _ :: _, _ => rfl

end Iso7816

/-! ## What a card makes of an encoded command -/

namespace CommandApdu

open Iso7816

/-- What the encoder is for: at most 65535 bytes of data, and from 1 to 65536 bytes expected. -/
structure Encodable (c : CommandApdu) : Prop where
  data_le : c.data.length ≤ 65535
  ne_pos : ∀ ne, c.ne = some ne → 1 ≤ ne
  ne_le : ∀ ne, c.ne = some ne → ne ≤ 65536

variable {c : CommandApdu}

theorem be_two (v : Nat) : be 2 v = [UInt8.ofNat (v / 256), UInt8.ofNat v] := by
  simp [be]

theorem shortNe_shortLe {ne : Nat} (hpos : 1 ≤ ne) (hle : ne ≤ 256) :
    shortNe (shortLe ne) = ne := by
  rw [shortLe, Nat.min_eq_left hle]
  -- 256 is written as zero and read back from it.
  by_cases hmax : ne = 256
  · subst hmax
    rfl
  · have hval : (UInt8.ofNat ne).toNat = ne := by
      rw [UInt8.toNat_ofNat', Nat.mod_eq_of_lt (by omega)]
    have hzero : UInt8.ofNat ne ≠ 0 := by
      intro h
      rw [h] at hval
      exact absurd hval (by simp; omega)
    rw [if_neg hmax, shortNe, if_neg hzero, hval]

theorem extendedNe_extendedLe {ne : Nat} (hpos : 1 ≤ ne) (hle : ne ≤ 65536) :
    extendedNe (be 2 (extendedLe ne)) = ne := by
  rw [extendedLe, Nat.min_eq_left hle]
  by_cases hmax : ne = 65536
  · have hzero : beNat (be 2 0) = 0 := beNat_be (by decide)
    rw [if_pos hmax, extendedNe, if_pos hzero, hmax]
  · have hval : beNat (be 2 ne) = ne := beNat_be (by omega)
    rw [if_neg hmax, extendedNe, hval, if_neg (by omega)]

/-- A command with short length fields has no more than those can say. -/
theorem bounds_of_not_big (h : c.big = false) :
    c.data.length ≤ 255 ∧ ∀ ne, c.ne = some ne → ne ≤ 256 := by
  simp only [big, Bool.or_eq_false_iff, decide_eq_false_iff_not, Nat.not_lt] at h
  obtain ⟨⟨-, hdata⟩, hne⟩ := h
  refine ⟨hdata, fun ne hsome => ?_⟩
  rw [hsome] at hne
  exact hne

/-- Short data, with or without an expected length. -/
theorem shortBody_recovered (hne : ∀ ne, c.ne = some ne → 1 ≤ ne ∧ ne ≤ 256)
    (hbig : c.big = false) :
    shortBody c.data.length (c.data ++ c.encodeNe) = some (c.data, c.ne) := by
  unfold encodeNe shortBody
  cases hval : c.ne with
  | none => simp
  | some ne =>
    obtain ⟨hpos, hle⟩ := hne ne hval
    have hdecoded := shortNe_shortLe hpos hle
    simp [hbig, hdecoded]

/-- Extended data, with or without an expected length. -/
theorem extendedBody_recovered (hne : ∀ ne, c.ne = some ne → 1 ≤ ne ∧ ne ≤ 65536)
    (hbig : c.big = true) (hdata : c.data ≠ []) :
    extendedBody c.data.length (c.data ++ c.encodeNe) = some (c.data, c.ne) := by
  have hlen : c.data.length ≠ 0 := fun h => hdata (List.length_eq_zero_iff.mp h)
  unfold encodeNe extendedBody
  cases hval : c.ne with
  | none => simp [hlen]
  | some ne =>
    obtain ⟨hpos, hle⟩ := hne ne hval
    have hdecoded := extendedNe_extendedLe hpos hle
    simp [hbig, hlen, hdecoded]

/-- The body of a command without data. -/
theorem decodeBody_empty (h : c.Encodable) (hdata : c.data = []) :
    decodeBody (c.encodeData ++ c.encodeNe) = some ([], c.ne) := by
  unfold encodeData encodeNe
  cases hval : c.ne with
  | none => simp [hdata, decodeBody]
  | some ne =>
    have hpos := h.ne_pos ne hval
    cases hbig : c.big with
    | true =>
      have hdecoded := extendedNe_extendedLe hpos (h.ne_le ne hval)
      rw [be_two] at hdecoded
      simp [hdata, be_two, decodeBody, hdecoded]
    | false =>
      have hdecoded := shortNe_shortLe hpos ((bounds_of_not_big hbig).2 ne hval)
      simp [hdata, decodeBody, hdecoded]

/-- The body of a command with data. -/
theorem decodeBody_data (h : c.Encodable) (hdata : c.data ≠ []) :
    decodeBody (c.encodeData ++ c.encodeNe) = some (c.data, c.ne) := by
  have hrest : c.data ++ c.encodeNe ≠ [] := List.append_ne_nil_of_left_ne_nil hdata _
  cases hbig : c.big with
  | true =>
    have hlc : beNat [UInt8.ofNat (c.data.length / 256), UInt8.ofNat c.data.length]
        = c.data.length := by
      rw [← be_two]
      exact beNat_be (Nat.lt_succ_of_le h.data_le)
    rw [encodeData, if_pos hdata, if_pos hbig, be_two, List.append_assoc]
    show decodeBody (0 :: _ :: _ :: (c.data ++ c.encodeNe)) = _
    rw [decodeBody_extended _ _ hrest, hlc]
    exact extendedBody_recovered (fun ne hne => ⟨h.ne_pos ne hne, h.ne_le ne hne⟩) hbig hdata
  | false =>
    obtain ⟨hlen, hshort⟩ := bounds_of_not_big hbig
    have hval : (UInt8.ofNat c.data.length).toNat = c.data.length := by
      rw [UInt8.toNat_ofNat', Nat.mod_eq_of_lt (by omega)]
    have hlc : UInt8.ofNat c.data.length ≠ 0 := by
      intro hzero
      rw [hzero] at hval
      exact hdata (List.length_eq_zero_iff.mp hval.symm)
    rw [encodeData, if_pos hdata, if_neg (by simp [hbig]), List.append_assoc]
    show decodeBody (_ :: (c.data ++ c.encodeNe)) = _
    rw [decodeBody_short hlc hrest, hval]
    exact shortBody_recovered (fun ne hne => ⟨h.ne_pos ne hne, hshort ne hne⟩) hbig

/-- **Encoded commands are what the card decodes**: in each of the seven cases. -/
theorem encode_recovered (c : CommandApdu) (h : c.Encodable) :
    Iso7816.decode c.encode = some ⟨c.cla, c.ins, c.p1, c.p2, c.data, c.ne⟩ := by
  have hbody : decodeBody (c.encodeData ++ c.encodeNe) = some (c.data, c.ne) := by
    by_cases hdata : c.data = []
    · rw [decodeBody_empty h hdata, hdata]
    · exact decodeBody_data h hdata
  show (decodeBody (c.encodeData ++ c.encodeNe)).map _ = _
  rw [hbody]
  rfl

/-- Sixteen bytes of data and 256 expected, with long length fields. -/
theorem encode_recovered_mixed :
    Encodable ⟨0x00, 0x47, 0x00, 0x9A, List.replicate 16 0xAA, some 256, true⟩
      ∧ Iso7816.decode
        (encode ⟨0x00, 0x47, 0x00, 0x9A, List.replicate 16 0xAA, some 256, true⟩)
        = some ⟨0x00, 0x47, 0x00, 0x9A, List.replicate 16 0xAA, some 256⟩ := by
  have h : Encodable ⟨0x00, 0x47, 0x00, 0x9A, List.replicate 16 0xAA, some 256, true⟩ := by
    refine ⟨by decide, fun ne hne => ?_, fun ne hne => ?_⟩
    · obtain rfl := Option.some.inj hne
      decide
    · obtain rfl := Option.some.inj hne
      decide
  exact ⟨h, encode_recovered _ h⟩

end CommandApdu

end DiscCleaner
