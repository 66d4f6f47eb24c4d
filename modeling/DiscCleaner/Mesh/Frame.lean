import DiscCleaner.Mesh.Node
import DiscCleaner.Lib.Slices

/-!
# DiscCleaner — the signed envelope (`frame.rs`)

A wire payload is a header of 46 bytes, the message and an Ed25519 signature over both under the
key the header names. The payload of a frame is parsed by its message type.
-/

namespace DiscCleaner.Mesh

open ByteLib

inductive MsgType where
  | hello | helloAck | peerList | driveReport | challenge | spotProof | proposal | prepare
  | commit | changeView | accuse | isolate | sealCommit | sealShare | heartbeat | transcript
  deriving DecidableEq

namespace MsgType

def fromU8 (v : UInt8) : Option MsgType :=
  match v.toNat with
  | 1 => some .hello
  | 2 => some .helloAck
  | 3 => some .peerList
  | 4 => some .driveReport
  | 5 => some .challenge
  | 6 => some .spotProof
  | 7 => some .proposal
  | 8 => some .prepare
  | 9 => some .commit
  | 10 => some .changeView
  | 11 => some .accuse
  | 12 => some .isolate
  | 13 => some .sealCommit
  | 14 => some .sealShare
  | 15 => some .heartbeat
  | 16 => some .transcript
  | _ => none

end MsgType

/-- "DCMS". -/
def meshMagic : Bytes := [0x44, 0x43, 0x4D, 0x53]

def protocolVersion : UInt8 := 1

def envelopeLen : Nat := 4 + 1 + 1 + 4 + 32 + 4

/-- A frame before its payload is parsed. -/
structure Envelope where
  view : UInt32
  node : ByteLib.Block 32
  msg : MsgType
  payload : Bytes
  deriving DecidableEq

/-- A big-endian number. -/
def ofBe (bs : Bytes) : Nat := ofLe bs.reverse

/-- Decode and verify a wire payload: the signature covers header and payload. -/
def decodeVerify (cr : Crypto) (wire : Bytes) : Except MeshError Envelope :=
  if wire.length < envelopeLen + 64 then .error (.frame "truncated envelope")
  else if wire.take 4 ≠ meshMagic then .error (.frame "bad magic (not a DCMS frame)")
  else if wire.getD 4 0 ≠ protocolVersion then
    .error (.frame ("unsupported protocol version " ++ toString (wire.getD 4 0).toNat))
  else
    match MsgType.fromU8 (wire.getD 5 0) with
    | none => .error (.frame ("unknown message type " ++ toString (wire.getD 5 0).toNat))
    | some msg =>
      let view := UInt32.ofNat (ofBe ((wire.drop 6).take 4))
      let plen := ofBe ((wire.drop 42).take 4)
      let bodyLen := envelopeLen + plen
      if wire.length < bodyLen + 64 then .error (.frame "payload length exceeds frame")
      else if maxFramePayload < plen then
        .error (.frame ("payload " ++ toString plen ++ " exceeds wire limit "
          ++ toString maxFramePayload))
      else
        match ByteLib.Block.ofBytes? 32 ((wire.drop 10).take 32),
          ByteLib.Block.ofBytes? 64 ((wire.drop bodyLen).take 64) with
        | some node, some sig =>
          if cr.ed25519FromBytes node ∧ cr.ed25519Verify node (wire.take bodyLen) sig then
            .ok ⟨view, node, msg, (wire.take bodyLen).drop envelopeLen⟩
          else .error (.badSignature (hexEncode node.bytes))
        -- the length was checked, so both slices are there
        | _, _ => .error (.frame "truncated envelope")

/-- A frame as the inbox takes it; `parse` is `serde_json::from_slice` at the type of each
message. -/
def openFrame (cr : Crypto) (parse : MsgType → Bytes → Message) (x : Mac × Bytes) :
    Except MeshError MeshFrame :=
  (decodeVerify cr x.2).map fun env => ⟨env.node, x.1, env.view, parse env.msg env.payload⟩

end DiscCleaner.Mesh

/-!
# one wire form for a signed frame (`frame.rs`)

`encode_signed` writes header, payload and signature; `decode_verify` reads them back with every
slice inside the wire. What it accepts starts with the encoding of the frame it returns. The length
of the wire is compared in one direction only, so whatever follows the signature is accepted too.

* **`decodeSigned`** — the decoder with its slices and its signature.
* **`Layout`** — what the bytes of an accepted wire are.
* **`frame_codec_iff`** — round trip, no unwinding, and when re-encoding gives back the wire.
-/

namespace DiscCleaner.Mesh

open ByteLib SliceLib

/-! ## Encoding -/

/-- `msg as u8`. -/
def MsgType.code : MsgType → UInt8
  | hello => 1
  | helloAck => 2
  | peerList => 3
  | driveReport => 4
  | challenge => 5
  | spotProof => 6
  | proposal => 7
  | prepare => 8
  | commit => 9
  | changeView => 10
  | accuse => 11
  | isolate => 12
  | sealCommit => 13
  | sealShare => 14
  | heartbeat => 15
  | transcript => 16

theorem MsgType.fromU8_code (m : MsgType) : fromU8 m.code = some m := by
  cases m <;> rfl

theorem MsgType.fromU8_eq_some {v : UInt8} {m : MsgType} : fromU8 v = some m ↔ v = m.code := by
  constructor
  · intro h
    have hall : ∀ n < 256, ∀ m ∈ fromU8 (UInt8.ofNat n), UInt8.ofNat n = m.code := by
      decide +kernel
    have hv := hall v.toNat v.toNat_lt m
    rw [UInt8.ofNat_toNat] at hv
    exact hv h
  · rintro rfl
    exact fromU8_code m

namespace Envelope

/-- Canonical signing input: header and payload with no signature. -/
def canonical (f : Envelope) : Bytes :=
  meshMagic ++ [protocolVersion] ++ [f.msg.code] ++ be32 f.view ++ f.node.bytes
    ++ be32 (UInt32.ofNat f.payload.length) ++ f.payload

/-- Encode and sign a frame for the wire. -/
def encodeSigned (cr : Crypto) (signing : SigningKey) (f : Envelope) : Bytes :=
  f.canonical ++ (cr.ed25519Sign signing f.canonical).bytes

theorem length_canonical (f : Envelope) :
    f.canonical.length = envelopeLen + f.payload.length := by
  simp only [canonical, be32, meshMagic, envelopeLen, List.length_append, List.length_reverse,
    le32_length, List.length_cons, List.length_nil, f.node.size]

end Envelope

/-! ## Decoding -/

/-- `decode_verify` with its slices: a slice outside the wire unwinds. -/
def decodeSigned (cr : Crypto) (wire : Bytes) :
    Option (Except MeshError (Envelope × Signature)) :=
  if wire.length < envelopeLen + 64 then some (.error (.frame "truncated envelope"))
  else do
    let magic ← range? wire 0 4
    let version ← wire[4]?
    let ty ← wire[5]?
    if magic ≠ meshMagic then some (.error (.frame "bad magic (not a DCMS frame)"))
    else if version ≠ protocolVersion then
      some (.error (.frame ("unsupported protocol version " ++ toString version.toNat)))
    else
      match MsgType.fromU8 ty with
      | none => some (.error (.frame ("unknown message type " ++ toString ty.toNat)))
      | some msg => do
        let view ← range? wire 6 10
        let node ← (range? wire 10 42).bind (ByteLib.Block.ofBytes? 32)
        let len ← range? wire 42 46
        let plen := ofBe len
        let bodyLen := envelopeLen + plen
        if wire.length < bodyLen + 64 then some (.error (.frame "payload length exceeds frame"))
        else if maxFramePayload < plen then
          some (.error (.frame ("payload " ++ toString plen ++ " exceeds wire limit "
            ++ toString maxFramePayload)))
        else do
          let canonical ← range? wire 0 bodyLen
          let sigBytes ← range? wire bodyLen wire.length
          let sig ← (range? sigBytes 0 64).bind (ByteLib.Block.ofBytes? 64)
          if ¬ cr.ed25519FromBytes node then
            some (.error (.badSignature (hexEncode node.bytes)))
          else if ¬ cr.ed25519Verify node canonical sig then
            some (.error (.badSignature (hexEncode node.bytes)))
          else do
            let payload ← range? canonical 46 canonical.length
            some (.ok (⟨UInt32.ofNat (ofBe view), node, msg, payload⟩, sig))

/-- The decoder with its slices finds the frame, or the error, that the decoder finds. -/
theorem decodeSigned_eq (cr : Crypto) (wire : Bytes) :
    (decodeSigned cr wire).map (Except.map Prod.fst) = some (decodeVerify cr wire) := by
  by_cases hshort : wire.length < envelopeLen + 64
  · rw [decodeSigned, decodeVerify, if_pos hshort, if_pos hshort]
    rfl
  have hlong : 110 ≤ wire.length := by
    unfold envelopeLen at hshort
    omega
  have hindex : ∀ i < 110, wire[i]? = some (wire.getD i 0) := by
    intro i hi
    rw [List.getD_eq_getElem?_getD, List.getElem?_eq_getElem (by omega), Option.getD_some]
  have hnode : ByteLib.Block.ofBytes? 32 ((wire.drop 10).take (42 - 10))
      = some ⟨(wire.drop 10).take 32, length_range (a := 10) (b := 42) (by omega)⟩ := dif_pos _
  rw [decodeSigned, decodeVerify, if_neg hshort, if_neg hshort, hindex 4 (by decide),
    hindex 5 (by decide), range?_eq (by decide) (by omega), range?_eq (by decide) (by omega),
    range?_eq (by decide) (by omega), range?_eq (by decide) (by omega)]
  simp only [Option.bind_eq_bind, Option.bind_some, hnode]
  show Option.map _ (if wire.take 4 ≠ meshMagic then _ else _) = _
  split
  · rfl
  · split
    · rfl
    · cases MsgType.fromU8 (wire.getD 5 0) with
      | none => rfl
      | some msg =>
        generalize hplen : ofBe ((wire.drop 42).take 4) = plen
        simp only [Nat.reduceSub]
        split
        · rfl
        · next hfits =>
          split
          · rfl
          · have hsigLen : ((wire.drop (envelopeLen + plen)).take 64).length = 64 := by
              rw [List.length_take, List.length_drop]
              omega
            have hsig : ByteLib.Block.ofBytes? 64 ((wire.drop (envelopeLen + plen)).take 64)
              = some ⟨_, hsigLen⟩ := dif_pos _
            have hbody : (wire.take (envelopeLen + plen)).length = envelopeLen + plen := by
              rw [List.length_take]
              omega
            rw [range?_zero (by omega), range?_length (by omega)]
            simp only [Option.bind_some]
            rw [range?_zero (by rw [List.length_drop]; omega), range?_length (by
              rw [hbody, envelopeLen]; omega)]
            simp only [Option.bind_some, hsig]
            -- the two tests, one after the other or as one conjunction
            split
            · next hkey => rw [if_neg fun h => hkey h.1]; rfl
            · next hkey =>
              split
              · next hverify => rw [if_neg fun h => hverify h.2]; rfl
              · next hverify =>
                rw [if_pos ⟨not_not.mp hkey, not_not.mp hverify⟩]
                rfl

/-! ## The header of a wire -/

/-- The 46 bytes before the payload, cut into fields. -/
structure WireHeader where
  magic : ByteLib.Block 4
  version : UInt8
  ty : UInt8
  view : ByteLib.Block 4
  node : ByteLib.Block 32
  len : ByteLib.Block 4

namespace WireHeader

def bytes (h : WireHeader) : Bytes :=
  h.magic.bytes ++ (h.version :: h.ty :: (h.view.bytes ++ (h.node.bytes ++ h.len.bytes)))

/-- The payload length the header announces. -/
def plen (h : WireHeader) : Nat := ofBe h.len.bytes

theorem length_bytes (h : WireHeader) : h.bytes.length = envelopeLen := by
  simp only [bytes, envelopeLen, List.length_append, List.length_cons, h.magic.size, h.view.size,
    h.node.size, h.len.size]

theorem exists_block {n : Nat} {bs : Bytes} (h : n ≤ bs.length) :
    ∃ (b : ByteLib.Block n) (rest : Bytes), bs = b.bytes ++ rest :=
  ⟨⟨bs.take n, List.length_take_of_le h⟩, bs.drop n, (List.take_append_drop n bs).symm⟩

/-- Every wire that is long enough starts with a header. -/
theorem exists_of_le {wire : Bytes} (h : envelopeLen ≤ wire.length) :
    ∃ (header : WireHeader) (rest : Bytes), wire = header.bytes ++ rest := by
  have hlen : 46 ≤ wire.length := h
  obtain ⟨magic, w, rfl⟩ := exists_block (n := 4) (show 4 ≤ wire.length by omega)
  rw [List.length_append, magic.size] at hlen
  match w, hlen with
  | version :: ty :: w, hlen =>
    rw [List.length_cons, List.length_cons] at hlen
    obtain ⟨view, w, rfl⟩ := exists_block (n := 4) (show 4 ≤ w.length by omega)
    rw [List.length_append, view.size] at hlen
    obtain ⟨node, w, rfl⟩ := exists_block (n := 32) (show 32 ≤ w.length by omega)
    rw [List.length_append, node.size] at hlen
    obtain ⟨len, rest, rfl⟩ := exists_block (n := 4) (show 4 ≤ w.length by omega)
    exact ⟨⟨magic, version, ty, view, node, len⟩, rest, by simp [bytes]⟩

variable (h : WireHeader) (rest : Bytes)

theorem magic_range : range? (h.bytes ++ rest) 0 4 = some h.magic.bytes := by
  rw [range?_zero (by rw [List.length_append, length_bytes, envelopeLen]; omega), bytes,
    List.append_assoc, List.take_left' h.magic.size]

theorem version_index : (h.bytes ++ rest)[4]? = some h.version := by
  rw [bytes, List.append_assoc, List.getElem?_append_right h.magic.size.le, h.magic.size]
  rfl

theorem ty_index : (h.bytes ++ rest)[5]? = some h.ty := by
  rw [bytes, List.append_assoc, List.getElem?_append_right (by rw [h.magic.size]; omega),
    h.magic.size]
  rfl

theorem view_range : range? (h.bytes ++ rest) 6 10 = some h.view.bytes := by
  have hmid := range?_append (p := h.magic.bytes ++ [h.version, h.ty]) (m := h.view.bytes)
    (s := h.node.bytes ++ h.len.bytes ++ rest) (a := 6) (b := 10)
    (by rw [List.length_append, h.magic.size]; rfl) (by rw [h.view.size])
  rw [← hmid]
  simp [bytes]

theorem node_range : (range? (h.bytes ++ rest) 10 42).bind (ByteLib.Block.ofBytes? 32)
    = some h.node := by
  have hmid := range?_append (p := h.magic.bytes ++ ([h.version, h.ty] ++ h.view.bytes))
    (m := h.node.bytes) (s := h.len.bytes ++ rest) (a := 10) (b := 42)
    (by rw [List.length_append, List.length_append, h.magic.size, h.view.size]; rfl)
    (by rw [h.node.size])
  have hbytes : h.bytes ++ rest = h.magic.bytes ++ ([h.version, h.ty] ++ h.view.bytes)
      ++ (h.node.bytes ++ (h.len.bytes ++ rest)) := by simp [bytes]
  rw [hbytes, hmid, Option.bind_some, Block.ofBytes?_bytes]

theorem len_range : range? (h.bytes ++ rest) 42 46 = some h.len.bytes := by
  have hmid := range?_append
    (p := h.magic.bytes ++ ([h.version, h.ty] ++ (h.view.bytes ++ h.node.bytes)))
    (m := h.len.bytes) (s := rest) (a := 42) (b := 46)
    (by simp only [List.length_append, h.magic.size, h.view.size, h.node.size]; rfl)
    (by rw [h.len.size])
  rw [← hmid]
  simp [bytes]

end WireHeader

/-! ## What is decoded -/

theorem decodeSigned_short (cr : Crypto) {wire : Bytes} (h : wire.length < envelopeLen + 64) :
    decodeSigned cr wire = some (.error (.frame "truncated envelope")) := if_pos h

/-- The checks of the header, and what is left to the rest of the wire. -/
def checkHeader (h : WireHeader) (rest : Bytes)
    (body : MsgType → Except MeshError (Envelope × Signature)) :
    Except MeshError (Envelope × Signature) :=
  if h.magic.bytes ≠ meshMagic then .error (.frame "bad magic (not a DCMS frame)")
  else if h.version ≠ protocolVersion then
    .error (.frame ("unsupported protocol version " ++ toString h.version.toNat))
  else
    match MsgType.fromU8 h.ty with
    | none => .error (.frame ("unknown message type " ++ toString h.ty.toNat))
    | some msg =>
      if rest.length < h.plen + 64 then .error (.frame "payload length exceeds frame")
      else if maxFramePayload < h.plen then
        .error (.frame ("payload " ++ toString h.plen ++ " exceeds wire limit "
          ++ toString maxFramePayload))
      else body msg

/-- The signature check, and the frame. -/
def checkSigned (cr : Crypto) (h : WireHeader) (payload : Bytes) (sig : Signature) (msg : MsgType) :
    Except MeshError (Envelope × Signature) :=
  if ¬ cr.ed25519FromBytes h.node then .error (.badSignature (hexEncode h.node.bytes))
  else if ¬ cr.ed25519Verify h.node (h.bytes ++ payload) sig then
    .error (.badSignature (hexEncode h.node.bytes))
  else .ok (⟨UInt32.ofNat (ofBe h.view.bytes), h.node, msg, payload⟩, sig)

/-- A wire that ends before its signature is refused whatever would have followed. -/
theorem decodeSigned_cut (cr : Crypto) {h : WireHeader} {rest : Bytes} (hlong : 64 ≤ rest.length)
    (hcut : rest.length < h.plen + 64)
    (body : MsgType → Except MeshError (Envelope × Signature)) :
    decodeSigned cr (h.bytes ++ rest) = some (checkHeader h rest body) := by
  have hlen : (h.bytes ++ rest).length = envelopeLen + rest.length := by
    rw [List.length_append, h.length_bytes]
  have hcut' : (h.bytes ++ rest).length < envelopeLen + ofBe h.len.bytes + 64 := by
    rw [hlen]
    unfold WireHeader.plen at hcut
    omega
  rw [decodeSigned, if_neg (by omega), checkHeader]
  simp only [h.magic_range, h.version_index, h.ty_index, h.view_range, h.node_range, h.len_range,
    Option.bind_eq_bind, Option.bind_some, if_pos hcut, if_pos hcut']
  split
  · rfl
  · split
    · rfl
    · cases MsgType.fromU8 h.ty <;> rfl

/-- A whole wire: header, payload, signature, and whatever follows. -/
theorem decodeSigned_whole (cr : Crypto) {h : WireHeader} {payload : Bytes}
    (hplen : payload.length = h.plen) (sig : Signature) (surplus : Bytes) :
    decodeSigned cr (h.bytes ++ (payload ++ (sig.bytes ++ surplus)))
      = some (checkHeader h (payload ++ (sig.bytes ++ surplus)) (checkSigned cr h payload sig)) := by
  have hrest : (payload ++ (sig.bytes ++ surplus)).length = h.plen + 64 + surplus.length := by
    rw [List.length_append, List.length_append, sig.size, hplen, Nat.add_assoc]
  set rest := payload ++ (sig.bytes ++ surplus) with hdef
  have hlen : (h.bytes ++ rest).length = envelopeLen + rest.length := by
    rw [List.length_append, h.length_bytes]
  have hplen' : ofBe h.len.bytes = h.plen := rfl
  have hbody : h.bytes ++ rest = (h.bytes ++ payload) ++ (sig.bytes ++ surplus) := by
    rw [hdef, List.append_assoc]
  have hbodyLen : (h.bytes ++ payload).length = envelopeLen + h.plen := by
    rw [List.length_append, h.length_bytes, hplen]
  have hcanonical : range? (h.bytes ++ rest) 0 (envelopeLen + h.plen)
      = some (h.bytes ++ payload) := by
    rw [hbody, range?_zero (by rw [List.length_append, hbodyLen]; omega), List.take_left' hbodyLen]
  have hsigBytes : range? (h.bytes ++ rest) (envelopeLen + h.plen) (h.bytes ++ rest).length
      = some (sig.bytes ++ surplus) := by
    rw [range?_length (by omega), hbody, List.drop_left' hbodyLen]
  have hsig : (range? (sig.bytes ++ surplus) 0 64).bind (ByteLib.Block.ofBytes? 64) = some sig := by
    rw [range?_zero (by rw [List.length_append, sig.size]; omega), List.take_left' sig.size,
      Option.bind_some, Block.ofBytes?_bytes]
  have hpayload : range? (h.bytes ++ payload) 46 (h.bytes ++ payload).length = some payload := by
    rw [range?_length (by rw [hbodyLen, envelopeLen]; omega)]
    exact congrArg some (List.drop_left' h.length_bytes)
  have hfits : ¬ (h.bytes ++ rest).length < envelopeLen + h.plen + 64 := by omega
  have hfits' : ¬ rest.length < h.plen + 64 := by omega
  rw [decodeSigned, if_neg (by omega), checkHeader]
  simp only [h.magic_range, h.version_index, h.ty_index, h.view_range, h.node_range, h.len_range,
    Option.bind_eq_bind, Option.bind_some, hplen', hcanonical, hsigBytes, hsig, hpayload,
    if_neg hfits, if_neg hfits']
  split
  · rfl
  · split
    · rfl
    · cases MsgType.fromU8 h.ty with
      | none => rfl
      | some msg =>
        simp only [checkSigned]
        split
        · rfl
        · split
          · rfl
          · split <;> rfl

/-! ## What is accepted -/

/-- Every wire ends short, is cut before its signature, or is whole. -/
theorem wire_cases (wire : Bytes) : wire.length < envelopeLen + 64 ∨
    (∃ (h : WireHeader) (rest : Bytes), wire = h.bytes ++ rest ∧ 64 ≤ rest.length
      ∧ rest.length < h.plen + 64) ∨
    ∃ (h : WireHeader) (payload : Bytes) (sig : Signature) (surplus : Bytes),
      payload.length = h.plen ∧ wire = h.bytes ++ (payload ++ (sig.bytes ++ surplus)) := by
  by_cases hshort : wire.length < envelopeLen + 64
  · exact .inl hshort
  · obtain ⟨h, rest, rfl⟩ := WireHeader.exists_of_le (show envelopeLen ≤ wire.length by omega)
    rw [List.length_append, h.length_bytes] at hshort
    by_cases hcut : rest.length < h.plen + 64
    · exact .inr (.inl ⟨h, rest, rfl, by omega, hcut⟩)
    · obtain ⟨payload, tail, rfl⟩ := WireHeader.exists_block (show h.plen ≤ rest.length by omega)
      rw [List.length_append, payload.size] at hcut
      obtain ⟨sig, surplus, rfl⟩ := WireHeader.exists_block (show 64 ≤ tail.length by omega)
      exact .inr (.inr ⟨h, payload.bytes, sig, surplus, payload.size, rfl⟩)

/-- **No slice is out of range.** -/
theorem decodeSigned_isSome (cr : Crypto) (wire : Bytes) : (decodeSigned cr wire).isSome := by
  rcases wire_cases wire with hshort | ⟨h, rest, rfl, hlong, hcut⟩ |
    ⟨h, payload, sig, surplus, hplen, rfl⟩
  · rw [decodeSigned_short cr hshort]
    rfl
  · rw [decodeSigned_cut cr hlong hcut fun _ => .error (.frame "")]
    rfl
  · rw [decodeSigned_whole cr hplen]
    rfl

theorem ofBe_lt {bs : Bytes} (h : bs.length = 4) : ofBe bs < 2 ^ 32 := by
  have hlt := ofLe_lt bs.reverse
  rw [List.length_reverse, h] at hlt
  exact hlt

/-- Four bytes are the big-endian spelling of their number. -/
theorem be32_ofBe {bs : Bytes} (h : bs.length = 4) : be32 (UInt32.ofNat (ofBe bs)) = bs := by
  rw [be32, UInt32.toNat_ofNat', Nat.mod_eq_of_lt (ofBe_lt h), ofBe,
    le32_ofLe (by rw [List.length_reverse, h]), List.reverse_reverse]

theorem ofBe_be32 (w : UInt32) : ofBe (be32 w) = w.toNat := by
  rw [ofBe, be32, List.reverse_reverse, ofLe_le32 w.toNat_lt]

/-- The header of a frame. -/
def Envelope.header (f : Envelope) : WireHeader where
  magic := ⟨meshMagic, rfl⟩
  version := protocolVersion
  ty := f.msg.code
  view := ⟨be32 f.view, by rw [be32, List.length_reverse, le32_length]⟩
  node := f.node
  len := ⟨be32 (UInt32.ofNat f.payload.length), by rw [be32, List.length_reverse, le32_length]⟩

theorem Envelope.canonical_eq (f : Envelope) : f.canonical = f.header.bytes ++ f.payload := by
  simp [canonical, header, WireHeader.bytes]

/-- The header of the frame that is read from it is the header that was read. -/
theorem WireHeader.eq_header {h : WireHeader} {msg : MsgType} {payload : Bytes}
    (hplen : payload.length = h.plen) (hmagic : h.magic.bytes = meshMagic)
    (hversion : h.version = protocolVersion) (hty : h.ty = msg.code) :
    h = Envelope.header ⟨UInt32.ofNat (ofBe h.view.bytes), h.node, msg, payload⟩ := by
  obtain ⟨magic, version, ty, view, node, len⟩ := h
  have hview : be32 (UInt32.ofNat (ofBe view.bytes)) = view.bytes := be32_ofBe view.size
  have hlen : be32 (UInt32.ofNat payload.length) = len.bytes := by
    rw [hplen, plen, be32_ofBe len.size]
  simp only [Envelope.header, WireHeader.mk.injEq, Block.ext_iff]
  exact ⟨hmagic, hversion, hty, hview.symm, trivial, hlen.symm⟩

theorem checkSigned_eq_ok {cr : Crypto} {h : WireHeader} {payload : Bytes} {sig sig' : Signature}
    {msg : MsgType} {f : Envelope} :
    checkSigned cr h payload sig msg = .ok (f, sig') ↔
      cr.ed25519FromBytes h.node = true ∧ cr.ed25519Verify h.node (h.bytes ++ payload) sig = true
        ∧ ⟨UInt32.ofNat (ofBe h.view.bytes), h.node, msg, payload⟩ = f ∧ sig = sig' := by
  unfold checkSigned
  split
  · next hkey => exact iff_of_false (by simp) fun h => hkey h.1
  · next hkey =>
    split
    · next hverify => exact iff_of_false (by simp) fun h => hverify h.2.1
    · next hverify =>
      rw [Except.ok.injEq, Prod.mk.injEq]
      exact ⟨fun h => ⟨not_not.mp hkey, not_not.mp hverify, h⟩, fun h => h.2.2⟩

theorem checkHeader_eq_ok {h : WireHeader} {rest : Bytes}
    {body : MsgType → Except MeshError (Envelope × Signature)} {x : Envelope × Signature} :
    checkHeader h rest body = .ok x ↔ h.magic.bytes = meshMagic ∧ h.version = protocolVersion ∧
      h.plen + 64 ≤ rest.length ∧ h.plen ≤ maxFramePayload
        ∧ ∃ msg : MsgType, h.ty = msg.code ∧ body msg = .ok x := by
  unfold checkHeader
  split
  · next hmagic => exact iff_of_false (by simp) fun h => hmagic h.1
  · next hmagic =>
    split
    · next hversion => exact iff_of_false (by simp) fun h => hversion h.2.1
    · next hversion =>
      rw [not_not] at hmagic hversion
      split
      · next hty =>
        refine iff_of_false (by simp) ?_
        intro ⟨_, _, _, _, msg, hcode, _⟩
        rw [hcode, MsgType.fromU8_code] at hty
        exact Option.some_ne_none msg hty
      · next msg hty =>
        rw [MsgType.fromU8_eq_some] at hty
        split
        · next hcut => exact iff_of_false (by simp) fun h => by omega
        · next hfits =>
          split
          · next hmax => exact iff_of_false (by simp) fun h => by omega
          · next hmax =>
            constructor
            · intro hbody
              exact ⟨hmagic, hversion, by omega, by omega, msg, hty, hbody⟩
            · intro ⟨_, _, _, _, msg', hty', hbody⟩
              have hsame := MsgType.fromU8_eq_some.mpr hty'
              rw [hty, MsgType.fromU8_code] at hsame
              rwa [Option.some.inj hsame]

/-- What the decoder accepts is the encoding of the frame, under a signature that verifies, and
whatever follows it. -/
theorem decodeSigned_eq_ok {cr : Crypto} {wire : Bytes} {f : Envelope} {sig : Signature} :
    decodeSigned cr wire = some (.ok (f, sig)) ↔
      f.payload.length ≤ maxFramePayload ∧ cr.ed25519FromBytes f.node = true
        ∧ cr.ed25519Verify f.node f.canonical sig = true
        ∧ ∃ surplus, wire = f.canonical ++ (sig.bytes ++ surplus) := by
  constructor
  · intro hok
    rcases wire_cases wire with hshort | ⟨h, rest, rfl, hlong, hcut⟩ |
      ⟨h, payload, sig₀, surplus, hplen, rfl⟩
    · exact absurd (decodeSigned_short cr hshort ▸ hok) (by simp)
    · rw [decodeSigned_cut cr hlong hcut fun _ => .error (.frame ""), Option.some.injEq,
        checkHeader_eq_ok] at hok
      obtain ⟨-, -, hfits, -⟩ := hok
      omega
    · rw [decodeSigned_whole cr hplen, Option.some.injEq, checkHeader_eq_ok] at hok
      obtain ⟨hmagic, hversion, -, hmax, msg, hty, hsigned⟩ := hok
      obtain ⟨hkey, hverify, rfl, rfl⟩ := checkSigned_eq_ok.mp hsigned
      have hheader := WireHeader.eq_header hplen hmagic hversion hty
      have hcanonical := Envelope.canonical_eq ⟨UInt32.ofNat (ofBe h.view.bytes), h.node, msg,
        payload⟩
      rw [← hheader] at hcanonical
      rw [hcanonical]
      exact ⟨hplen ▸ hmax, hkey, hverify, surplus, (List.append_assoc _ _ _).symm⟩
  · intro ⟨hmax, hkey, hverify, surplus, hwire⟩
    have hplen : f.payload.length = f.header.plen := by
      show f.payload.length = ofBe (be32 (UInt32.ofNat f.payload.length))
      have hmax' : f.payload.length ≤ 5120 := hmax
      rw [ofBe_be32, UInt32.toNat_ofNat', Nat.mod_eq_of_lt (by omega)]
    rw [hwire, Envelope.canonical_eq, List.append_assoc, decodeSigned_whole cr hplen,
      Option.some.injEq, checkHeader_eq_ok]
    refine ⟨rfl, rfl, ?_, hplen ▸ hmax, f.msg, rfl, ?_⟩
    · rw [List.length_append, List.length_append, sig.size, ← hplen]
      omega
    · rw [checkSigned_eq_ok, ← Envelope.canonical_eq]
      have hview : UInt32.ofNat (ofBe f.header.view.bytes) = f.view := by
        show UInt32.ofNat (ofBe (be32 f.view)) = f.view
        rw [ofBe_be32, UInt32.ofNat_toNat]
      exact ⟨hkey, hverify, by rw [hview]; rfl, rfl⟩

/-! ## The codec -/

/-- **The frame codec**: no wire unwinds the decoder, a signed frame is decoded to itself, and an
accepted wire is the one its frame encodes to exactly if it ends where its length field says. -/
theorem frame_codec_iff (cr : Crypto) : (∀ wire, (decodeSigned cr wire).isSome) ∧
    (∀ (signing : SigningKey) (f : Envelope), cr.Ed25519Correct signing →
      f.node = cr.ed25519Public signing → f.payload.length ≤ maxFramePayload →
        decodeSigned cr (f.encodeSigned cr signing)
          = some (.ok (f, cr.ed25519Sign signing f.canonical))) ∧
    ∀ (wire : Bytes) (f : Envelope) (sig : Signature), decodeSigned cr wire = some (.ok (f, sig)) →
      (f.canonical ++ sig.bytes = wire ↔
        wire.length = envelopeLen + ofBe ((wire.drop 42).take 4) + 64) := by
  refine ⟨decodeSigned_isSome cr, ?_, ?_⟩
  · intro signing f ⟨hkey, hsigns⟩ hnode hmax
    refine decodeSigned_eq_ok.mpr ⟨hmax, hnode ▸ hkey, hnode ▸ hsigns f.canonical, [], ?_⟩
    rw [Envelope.encodeSigned, List.append_nil]
  · intro wire f sig hok
    obtain ⟨hmax, -, -, surplus, rfl⟩ := decodeSigned_eq_ok.mp hok
    have hlenField : ((f.canonical ++ (sig.bytes ++ surplus)).drop 42).take 4
        = be32 (UInt32.ofNat f.payload.length) := by
      have hrange := f.header.len_range (f.payload ++ (sig.bytes ++ surplus))
      rw [← List.append_assoc, ← f.canonical_eq] at hrange
      exact (range?_eq_some.mp hrange).2.2.symm
    have hmax' : f.payload.length ≤ 5120 := hmax
    rw [hlenField, ofBe_be32, UInt32.toNat_ofNat', Nat.mod_eq_of_lt (by omega),
      List.length_append, List.length_append, f.length_canonical, sig.size]
    rw [List.append_cancel_left_eq, List.self_eq_append_right, ← List.length_eq_zero_iff]
    omega

def heartbeatKey : SigningKey :=
  ByteLib.Block.ofNat 32 0x0707070707070707070707070707070707070707070707070707070707070707

/-- An empty heartbeat under that key. -/
def heartbeatFrame : Envelope where
  view := 0
  node := ByteLib.Block.ofNat 32 0xea4a6c63e29c520abef5507b132ec5f9954776aebebe7b92421eea691446d22c
  msg := .heartbeat
  payload := []

def heartbeatCrypto : Crypto :=
  tableCrypto heartbeatFrame.node [] [(heartbeatFrame.canonical,
    (ByteLib.Block.ofNat 32 0x1b195614a06d4fb5bf8223be1d848a329c41ee6dded59e9cb0c3f89757f7ab85).append
      (ByteLib.Block.ofNat 32 0x8bd83ea7b31adf5232ca3cfd1c52962cbcdf263d8e3d6faeff6157ee63c2cc07))]

/-- The heartbeat is decoded to itself. -/
theorem frame_codec_heartbeat :
    decodeSigned heartbeatCrypto (heartbeatFrame.encodeSigned heartbeatCrypto heartbeatKey)
      = some (.ok (heartbeatFrame,
        heartbeatCrypto.ed25519Sign heartbeatKey heartbeatFrame.canonical)) :=
  (frame_codec_iff heartbeatCrypto).2.1 _ heartbeatFrame (tableCrypto_correct _ _ _ _) rfl
    (by decide)

/-- One more byte behind the signature, and the wire is accepted as the same signed frame. -/
theorem surplus_byte_accepted : ∃ sig : Signature,
    decodeSigned heartbeatCrypto (heartbeatFrame.encodeSigned heartbeatCrypto heartbeatKey ++ [0])
        = some (.ok (heartbeatFrame, sig))
      ∧ heartbeatFrame.canonical ++ sig.bytes
        ≠ heartbeatFrame.encodeSigned heartbeatCrypto heartbeatKey ++ [0] := by
  refine ⟨heartbeatCrypto.ed25519Sign heartbeatKey heartbeatFrame.canonical, ?_, ?_⟩
  · refine decodeSigned_eq_ok.mpr ⟨by decide, by simp [heartbeatCrypto, tableCrypto],
      by simp [heartbeatCrypto, tableCrypto], [0], ?_⟩
    rw [Envelope.encodeSigned, List.append_assoc]
  · rw [Envelope.encodeSigned, ne_eq, List.self_eq_append_right]
    exact List.cons_ne_nil 0 []

end DiscCleaner.Mesh
