import DiscCleaner.Photon.Frame
import DiscCleaner.Photon.Qr

/-!
# DiscCleaner — the photon transmitter's frames (`frame.rs`)

A frame is a header of 52 bytes and as many symbols as it counts, each with its number in front.
Encoding and decoding undo each other: a frame is read back whatever follows it, and what is read
is the frame that spells the bytes it was read from. The frames of a stream are frames of that
kind.
-/

namespace DiscCleaner

open ByteLib ProgLib

namespace Frame

/-! ## Encoding -/

/-- The two little-endian bytes of a 16-bit word. -/
def le16 (n : Nat) : Bytes := [UInt8.ofNat n, UInt8.ofNat (n / 256)]

def encodeHeader (h : FrameHeader) : Bytes :=
  magic ++ [1] ++ le32 h.streamId ++ le32 h.payloadLen ++ h.payloadBlake3.bytes
    ++ le32 h.firstSymbol ++ [UInt8.ofNat h.symbolCount] ++ le16 h.symbolSize

def encodeSymbol (s : Nat × Bytes) : Bytes := le32 s.1 ++ s.2

def encode (f : Frame) : Bytes := encodeHeader f.header ++ f.symbols.flatMap encodeSymbol

/-- The length a header announces. -/
def frameLen (h : FrameHeader) : Nat := headerLen + h.symbolCount * (4 + h.symbolSize)

/-- A header whose numbers fit their fields. -/
structure HeaderFits (h : FrameHeader) : Prop where
  streamId : h.streamId < 2 ^ 32
  payloadLen : h.payloadLen < 2 ^ 32
  firstSymbol : h.firstSymbol < 2 ^ 32
  symbolCount : h.symbolCount < 2 ^ 8
  symbolSize : h.symbolSize < 2 ^ 16

/-- A frame whose numbers fit their fields, with as many symbols as it counts, each of its symbol
size. -/
structure Valid (f : Frame) : Prop where
  header : HeaderFits f.header
  count : f.symbols.length = f.header.symbolCount
  ids : ∀ s ∈ f.symbols, s.1 < 2 ^ 32
  sizes : ∀ s ∈ f.symbols, s.2.length = f.header.symbolSize

theorem ofLe_le16 {n : Nat} (h : n < 2 ^ 16) : ofLe (le16 n) = n := by
  simp only [le16, ofLe, UInt8.toNat_ofNat']
  omega

theorem le16_ofLe {bs : Bytes} (h : bs.length = 2) : le16 (ofLe bs) = bs := by
  match bs, h with
  | [a, b], _ =>
    have ha := a.toNat_lt
    have hb := b.toNat_lt
    simp only [le16, ofLe, List.cons.injEq, and_true]
    refine ⟨?_, ?_⟩ <;> rw [ofNat_eq_iff] <;> omega

@[simp] theorem length_encodeHeader (h : FrameHeader) : (encodeHeader h).length = headerLen := by
  simp [encodeHeader, h.payloadBlake3.size, magic, le16, headerLen]

/-! ## Decoding what was encoded -/

/-- The middle of three parts. -/
theorem slice_of_eq {buf p m s : Bytes} {lo hi : Nat} (hbuf : buf = p ++ (m ++ s))
    (hlo : p.length = lo) (hhi : lo + m.length = hi) : slice buf lo hi = some m := by
  subst hbuf hlo hhi
  rw [slice, if_pos (by simp), List.drop_left, Nat.add_sub_cancel_left, List.take_left]

/-- The header is read back, whatever follows. -/
theorem decodeHeader_encodeHeader {h : FrameHeader} (hfits : HeaderFits h) (rest : Bytes) :
    decodeHeader (encodeHeader h ++ rest) = some h := by
  have hdigest := h.payloadBlake3.size
  -- the header, cut in front of each of its fields
  let p₀ := magic ++ [1]
  let p₁ := p₀ ++ le32 h.streamId
  let p₂ := p₁ ++ le32 h.payloadLen
  let p₃ := p₂ ++ h.payloadBlake3.bytes
  let p₄ := p₃ ++ le32 h.firstSymbol
  let p₅ := p₄ ++ [UInt8.ofNat h.symbolCount]
  have hp₃ : p₃.length = 45 := by rw [List.length_append, hdigest]; rfl
  have hp₄ : p₄.length = 49 := by rw [List.length_append, hp₃]; rfl
  have hp₅ : p₅.length = 50 := by rw [List.length_append, hp₄]; rfl
  have hbuf : ∀ s, encodeHeader h ++ s = p₅ ++ (le16 h.symbolSize ++ s) := fun s =>
    List.append_assoc _ _ _
  have hstream : slice (encodeHeader h ++ rest) 5 9 = some (le32 h.streamId) :=
    slice_of_eq (p := p₀) (by simp [encodeHeader, p₀]; rfl) rfl rfl
  have hpayload : slice (encodeHeader h ++ rest) 9 13 = some (le32 h.payloadLen) :=
    slice_of_eq (p := p₁) (by simp [encodeHeader, p₀, p₁]; rfl) rfl rfl
  have hblake : slice (encodeHeader h ++ rest) 13 45 = some h.payloadBlake3.bytes :=
    slice_of_eq (p := p₂) (by simp [encodeHeader, p₀, p₁, p₂]; rfl) rfl (by rw [hdigest])
  have hfirst : slice (encodeHeader h ++ rest) 45 49 = some (le32 h.firstSymbol) :=
    slice_of_eq (p := p₃) (by simp [encodeHeader, p₀, p₁, p₂, p₃]; rfl) hp₃ rfl
  have hcount : (encodeHeader h ++ rest)[49]? = some (UInt8.ofNat h.symbolCount) := by
    rw [hbuf, List.append_assoc, List.getElem?_append_right (Nat.le_of_eq hp₄), hp₄]
    rfl
  have hsize : slice (encodeHeader h ++ rest) 50 52 = some (le16 h.symbolSize) :=
    slice_of_eq (hbuf rest) hp₅ rfl
  rw [decodeHeader, hstream, hpayload, hblake, hfirst, hcount, hsize, Option.bind_some,
    Block.ofBytes?_bytes]
  dsimp only
  rw [ofLe_le32 hfits.streamId, ofLe_le32 hfits.payloadLen, ofLe_le32 hfits.firstSymbol,
    ofLe_le16 hfits.symbolSize, UInt8.toNat_ofNat', Nat.mod_eq_of_lt hfits.symbolCount]

/-- **Step lemma of the symbol loop**: the symbols from an offset on are read back. -/
theorem decodeSymbols_flatMap {symbols : List (Nat × Bytes)} {size : Nat}
    (hids : ∀ s ∈ symbols, s.1 < 2 ^ 32) (hsizes : ∀ s ∈ symbols, s.2.length = size)
    (before rest : Bytes) :
    decodeSymbols (before ++ (symbols.flatMap encodeSymbol ++ rest)) size symbols.length
      before.length = some symbols := by
  induction symbols generalizing before with
  | nil => rfl
  | cons s symbols ih =>
    obtain ⟨id, bytes⟩ := s
    have hid : id < 2 ^ 32 := hids _ List.mem_cons_self
    have hlen : bytes.length = size := hsizes _ List.mem_cons_self
    have htail := ih (fun s hs => hids s (List.mem_cons_of_mem _ hs))
      (fun s hs => hsizes s (List.mem_cons_of_mem _ hs)) (before ++ encodeSymbol (id, bytes))
    have hnext : (before ++ encodeSymbol (id, bytes)).length = before.length + 4 + size := by
      rw [List.length_append, encodeSymbol, List.length_append, le32_length, hlen, Nat.add_assoc]
    rw [hnext] at htail
    have hbuf : before ++ ((((id, bytes) :: symbols).flatMap encodeSymbol) ++ rest)
        = before ++ encodeSymbol (id, bytes) ++ (symbols.flatMap encodeSymbol ++ rest) := by
      simp only [List.flatMap_cons, List.append_assoc]
    have hsliceId : slice
        (before ++ encodeSymbol (id, bytes) ++ (symbols.flatMap encodeSymbol ++ rest))
        before.length (before.length + 4) = some (le32 id) :=
      slice_of_eq (s := bytes ++ (symbols.flatMap encodeSymbol ++ rest))
        (by simp only [encodeSymbol, List.append_assoc]) rfl rfl
    have hsliceBytes : slice (before ++ encodeSymbol (id, bytes)
        ++ (symbols.flatMap encodeSymbol ++ rest)) (before.length + 4) (before.length + 4 + size)
        = some bytes :=
      slice_of_eq (p := before ++ le32 id) (s := symbols.flatMap encodeSymbol ++ rest)
        (by simp only [encodeSymbol, List.append_assoc]) List.length_append (by rw [hlen])
    rw [hbuf, List.length_cons, decodeSymbols, hsliceId, hsliceBytes]
    dsimp only
    rw [htail, Option.map_some, ofLe_le32 hid]

theorem length_flatMap_encodeSymbol {symbols : List (Nat × Bytes)} {size : Nat}
    (hsizes : ∀ s ∈ symbols, s.2.length = size) :
    (symbols.flatMap encodeSymbol).length = symbols.length * (4 + size) := by
  induction symbols with
  | nil => simp
  | cons s symbols ih =>
    rw [List.flatMap_cons, List.length_append, ih fun t ht => hsizes t (List.mem_cons_of_mem _ ht),
      encodeSymbol, List.length_append, le32_length, hsizes s List.mem_cons_self, List.length_cons,
      Nat.succ_mul, Nat.add_comm]

/-- **Decoding inverts encoding**, whatever follows the frame. -/
theorem decode_encode {f : Frame} (h : f.Valid) (rest : Bytes) :
    decode (f.encode ++ rest) = .ok f := by
  have hbuf : f.encode ++ rest
      = encodeHeader f.header ++ (f.symbols.flatMap encodeSymbol ++ rest) := List.append_assoc _ _ _
  have hheader := decodeHeader_encodeHeader h.header (f.symbols.flatMap encodeSymbol ++ rest)
  have hsymbols := decodeSymbols_flatMap h.ids h.sizes (encodeHeader f.header) rest
  have hlen : (f.encode ++ rest).length
      = headerLen + f.header.symbolCount * (4 + f.header.symbolSize) + rest.length := by
    rw [List.length_append, encode, List.length_append, length_encodeHeader,
      length_flatMap_encodeSymbol h.sizes, h.count]
  rw [length_encodeHeader, h.count] at hsymbols
  rw [← hbuf] at hheader hsymbols
  rw [decode, if_neg (by omega), if_neg (fun hmagic => hmagic rfl),
    show (f.encode ++ rest)[4]? = some 1 from rfl]
  dsimp only
  rw [if_neg (fun hversion => hversion rfl), hheader]
  dsimp only
  rw [if_neg (by omega), hsymbols]

/-! ## Encoding what was decoded -/

/-- A slice is what a longer prefix adds to a shorter one. -/
theorem take_of_slice {buf m : Bytes} {lo hi : Nat} (h : slice buf lo hi = some m) :
    buf.take hi = buf.take lo ++ m ∧ m.length = hi - lo := by
  unfold slice at h
  split at h
  · next hbounds =>
    obtain rfl := Option.some.inj h
    refine ⟨?_, by rw [List.length_take, List.length_drop]; omega⟩
    have hsplit := List.take_append_drop lo (buf.take hi)
    rw [List.take_take, Nat.min_eq_left hbounds.1, List.drop_take] at hsplit
    exact hsplit.symm
  · cases h

/-- Four bytes spell their number. -/
theorem ofLe_lt_of_slice {buf m : Bytes} {lo hi n : Nat} (h : slice buf lo hi = some m)
    (hn : hi - lo = n) : ofLe m < 256 ^ n := by
  have hlt := ofLe_lt m
  rwa [(take_of_slice h).2, hn] at hlt

/-- **The header is spelled by its bytes.** -/
theorem encodeHeader_of_decode {buf : Bytes} {h : FrameHeader} (hmagic : buf.take 4 = magic)
    (hversion : buf[4]? = some 1) (hdecode : decodeHeader buf = some h) :
    encodeHeader h = buf.take headerLen ∧ HeaderFits h := by
  unfold decodeHeader at hdecode
  split at hdecode
  · next streamId payloadLen payloadBlake3 firstSymbol symbolCount symbolSize
      hstream hpayload hblake hfirst hcount hsize =>
    obtain rfl := Option.some.inj hdecode
    obtain ⟨digest, hdigest, hblock⟩ := Option.bind_eq_some_iff.mp hblake
    obtain rfl := Block.ofBytes?_eq_some.mp hblock
    -- each field is what the next prefix adds
    have h₅ : buf.take 5 = magic ++ [1] := by
      rw [List.take_add_one, hmagic, hversion]
      rfl
    have h₉ := (take_of_slice hstream).1
    have h₁₃ := (take_of_slice hpayload).1
    have h₄₅ := (take_of_slice hdigest).1
    have h₄₉ := (take_of_slice hfirst).1
    have h₅₀ : buf.take 50 = buf.take 49 ++ [symbolCount] := by
      rw [List.take_add_one, hcount]
      rfl
    have h₅₂ := (take_of_slice hsize).1
    refine ⟨?_, ?_⟩
    · rw [encodeHeader, le32_ofLe (take_of_slice hstream).2, le32_ofLe (take_of_slice hpayload).2,
        le32_ofLe (take_of_slice hfirst).2, le16_ofLe (take_of_slice hsize).2, UInt8.ofNat_toNat,
        headerLen, h₅₂, h₅₀, h₄₉, h₄₅, h₁₃, h₉, h₅]
    · exact ⟨ofLe_lt_of_slice (n := 4) hstream rfl, ofLe_lt_of_slice (n := 4) hpayload rfl,
        ofLe_lt_of_slice (n := 4) hfirst rfl, symbolCount.toNat_lt,
        ofLe_lt_of_slice (n := 2) hsize rfl⟩
  · cases hdecode

/-- **Step lemma of the symbol loop**: the symbols are spelled by the bytes from the offset on. -/
theorem flatMap_of_decodeSymbols {buf : Bytes} {size count off : Nat}
    {symbols : List (Nat × Bytes)} (h : decodeSymbols buf size count off = some symbols) :
    buf.take (off + count * (4 + size)) = buf.take off ++ symbols.flatMap encodeSymbol
      ∧ symbols.length = count ∧ ∀ s ∈ symbols, s.1 < 2 ^ 32 ∧ s.2.length = size := by
  induction count generalizing off symbols with
  | zero =>
    obtain rfl := Option.some.inj h
    refine ⟨?_, rfl, fun s hs => absurd hs List.not_mem_nil⟩
    rw [Nat.zero_mul, Nat.add_zero, List.flatMap_nil, List.append_nil]
  | succ count ih =>
    unfold decodeSymbols at h
    split at h
    · next symbolId bytes hid hbytes =>
      obtain ⟨rest, hrest, rfl⟩ := Option.map_eq_some_iff.mp h
      obtain ⟨htake, hlen, hall⟩ := ih hrest
      obtain ⟨hsplitId, hlenId⟩ := take_of_slice hid
      obtain ⟨hsplit, hlenBytes⟩ := take_of_slice hbytes
      refine ⟨?_, by rw [List.length_cons, hlen], fun s hs => ?_⟩
      · rw [show off + (count + 1) * (4 + size) = off + 4 + size + count * (4 + size) by
          rw [Nat.succ_mul]; omega, htake, hsplit, hsplitId, List.flatMap_cons, encodeSymbol,
          le32_ofLe (by omega), List.append_assoc, List.append_assoc, List.append_assoc]
      · rcases List.mem_cons.mp hs with rfl | hs
        · refine ⟨ofLe_lt_of_slice (n := 4) hid (Nat.add_sub_cancel_left off 4), ?_⟩
          rw [hlenBytes, Nat.add_sub_cancel_left]
        · exact hall s hs
    · cases h

/-- **Encoding inverts decoding**: a frame spells the prefix of its header's length. -/
theorem encode_of_decode {buf : Bytes} {f : Frame} (h : decode buf = .ok f) :
    f.Valid ∧ f.encode = buf.take (frameLen f.header) ∧ frameLen f.header ≤ buf.length := by
  unfold decode at h
  split at h
  · cases h
  · next hlen =>
    split at h
    · cases h
    · next hmagic =>
      split at h
      · cases h
      · next version hget =>
        split at h
        · cases h
        · next hversion =>
          split at h
          · cases h
          · next header hheader =>
            split at h
            · cases h
            · next hneed =>
              split at h
              · cases h
              · next symbols hsymbols =>
                obtain rfl := Outcome.ok.inj h
                obtain rfl := Decidable.not_not.mp hversion
                obtain ⟨hspelled, hfits⟩ :=
                  encodeHeader_of_decode (Decidable.not_not.mp hmagic) hget hheader
                obtain ⟨htake, hcount, hall⟩ := flatMap_of_decodeSymbols hsymbols
                refine ⟨⟨hfits, hcount, fun s hs => (hall s hs).1, fun s hs => (hall s hs).2⟩, ?_,
                  Nat.not_lt.mp hneed⟩
                rw [encode, hspelled, frameLen, htake]

end Frame

/-! ## The frames of a stream -/

/-- `blake3` and `neighbors` are what the stream calls. -/
structure FrameStream where
  encoder : LtEncoder
  payloadBlake3 : Block 32
  streamId : Nat
  payloadLen : Nat
  symbolsPerFrame : Nat
  nextSymbol : Nat

namespace FrameStream

open DiscCleaner.Frame
open FrameReassembler (leastSampling zeroDigest)

def new (blake3 : Bytes → Block 32) (payload : Bytes) (blockSize symbolsPerFrame : Nat)
    (seed : UInt64) : Except LtError FrameStream :=
  let perSymbol := 4 + blockSize
  let room := Qr.maxBytePayloadV10M - headerLen
  if room < perSymbol then
    .error (.invalid ("block size " ++ toString blockSize
      ++ " leaves no room in a v10-M QR (need ≤ " ++ toString (room - 4) ++ " bytes/symbol)"))
  else
    let maxBatch := room / perSymbol % 2 ^ 8
    let symbolsPerFrame := max 1 (min symbolsPerFrame (max maxBatch 1))
    match LtEncoder.new payload blockSize seed with
    | .error e => .error e
    | .ok encoder =>
      let digest := blake3 payload
      .ok
        { encoder
          payloadBlake3 := digest
          streamId := ofLe (digest.bytes.take 4)
          payloadLen := payload.length
          symbolsPerFrame := max symbolsPerFrame 1
          nextSymbol := 0 }

/-- The next frame; the symbol numbers wrap as they do without overflow checks. -/
def nextFrame (neighbors : Neighbors) (s : FrameStream) : Option (Frame × FrameStream) :=
  let count := s.symbolsPerFrame
  let first := s.nextSymbol
  ((List.range count).mapM fun i =>
      let id := (first + i) % 2 ^ 32
      (s.encoder.encode neighbors id).map fun bytes => (id, bytes)).map fun symbols =>
    (⟨{ streamId := s.streamId
        payloadLen := s.payloadLen % 2 ^ 32
        payloadBlake3 := s.payloadBlake3
        firstSymbol := first
        symbolCount := count % 2 ^ 8
        symbolSize := s.encoder.blockSize % 2 ^ 16 }, symbols⟩,
      { s with nextSymbol := (first + count) % 2 ^ 32 })

/-- The first `n` frames. -/
def frames (neighbors : Neighbors) : Nat → FrameStream → Option (List Frame)
  | 0, _ => some []
  | n + 1, s =>
    match s.nextFrame neighbors with
    | none => none
    | some (f, s) => (frames neighbors n s).map (f :: ·)

/-- A stream whose numbers fit the fields of its headers. -/
structure Ready (s : FrameStream) : Prop where
  streamId : s.streamId < 2 ^ 32
  symbolsPerFrame : s.symbolsPerFrame < 2 ^ 8
  blockSize : s.encoder.blockSize < 2 ^ 16
  nextSymbol : s.nextSymbol < 2 ^ 32

theorem mapM_option_spec {α β : Type} {f : α → Option β} {l : List α} {ys : List β}
    (h : l.mapM f = some ys) : ys.length = l.length ∧ ∀ y ∈ ys, ∃ x ∈ l, f x = some y := by
  induction l generalizing ys with
  | nil =>
    obtain rfl := Option.some.inj h
    exact ⟨rfl, fun y hy => absurd hy List.not_mem_nil⟩
  | cons x l ih =>
    rw [List.mapM_cons] at h
    obtain ⟨y, hy, h⟩ := Option.bind_eq_some_iff.mp h
    obtain ⟨rest, hrest, h⟩ := Option.bind_eq_some_iff.mp h
    obtain rfl := Option.some.inj h
    obtain ⟨hlen, hall⟩ := ih hrest
    refine ⟨by rw [List.length_cons, List.length_cons, hlen], fun z hz => ?_⟩
    rcases List.mem_cons.mp hz with rfl | hz
    · exact ⟨x, List.mem_cons_self, hy⟩
    · obtain ⟨w, hw, hfw⟩ := hall z hz
      exact ⟨w, List.mem_cons_of_mem _ hw, hfw⟩

/-- A symbol has the size of a block. -/
theorem length_of_encode {e : LtEncoder} {neighbors : Neighbors} {id : Nat} {bytes : Bytes}
    (h : e.encode neighbors id = some bytes) : bytes.length = e.blockSize := by
  have hfold : ∀ (l : List Nat) (out bytes : Bytes),
      l.foldlM (fun out n => (e.blocks[n]?).map (PeelingLib.xorInto out)) out = some bytes →
        bytes.length = out.length := by
    intro l
    induction l with
    | nil =>
      intro out bytes h
      rw [Option.some.inj h]
    | cons n l ih =>
      intro out bytes h
      rw [List.foldlM_cons] at h
      obtain ⟨out', hout, h⟩ := Option.bind_eq_some_iff.mp h
      obtain ⟨b, -, rfl⟩ := Option.map_eq_some_iff.mp hout
      rw [ih _ _ h, PeelingLib.xorInto_length]
  obtain ⟨l, -, hl⟩ := Option.bind_eq_some_iff.mp h
  rw [hfold l _ _ hl, List.length_replicate]

/-- A stream starts ready. -/
theorem ready_of_new {blake3 : Bytes → Block 32} {payload : Bytes} {blockSize batch : Nat}
    {seed : UInt64} {s : FrameStream} (h : new blake3 payload blockSize batch seed = .ok s) :
    s.Ready := by
  unfold new at h
  dsimp only at h
  split at h
  · cases h
  · next hroom =>
    split at h
    · cases h
    · next encoder hnew =>
      obtain rfl := Except.ok.inj h
      have hroom' : 4 + blockSize ≤ 161 := Nat.not_lt.mp hroom
      have hsize := (LtEncoder.new_spec hnew).1
      refine ⟨?_, ?_, ?_, show 0 < 2 ^ 32 by decide⟩
      · have hlt := ofLe_lt ((blake3 payload).bytes.take 4)
        rwa [List.length_take, (blake3 payload).size] at hlt
      · have hbatch : (Qr.maxBytePayloadV10M - headerLen) / (4 + blockSize) % 2 ^ 8 < 2 ^ 8 :=
          Nat.mod_lt _ (by decide)
        show max (max 1 (min batch (max _ 1))) 1 < 2 ^ 8
        omega
      · show encoder.blockSize < 2 ^ 16
        omega

/-- **Step lemma**: the next frame of a ready stream is valid, and the stream stays ready. -/
theorem Ready.nextFrame {s s' : FrameStream} {neighbors : Neighbors} {f : Frame} (h : s.Ready)
    (hnext : s.nextFrame neighbors = some (f, s')) : f.Valid ∧ s'.Ready := by
  obtain ⟨symbols, hsymbols, hframe⟩ := Option.map_eq_some_iff.mp hnext
  obtain ⟨rfl, rfl⟩ := Prod.mk.inj hframe
  obtain ⟨hlen, hall⟩ := mapM_option_spec hsymbols
  have hsymbol : ∀ sym ∈ symbols, sym.1 < 2 ^ 32 ∧ sym.2.length = s.encoder.blockSize := by
    intro sym hsym
    obtain ⟨i, -, hi⟩ := hall sym hsym
    obtain ⟨bytes, hbytes, rfl⟩ := Option.map_eq_some_iff.mp hi
    exact ⟨Nat.mod_lt _ (by decide), length_of_encode hbytes⟩
  have hmod : ∀ n, n % 2 ^ 32 < 2 ^ 32 := fun n => Nat.mod_lt n (by decide)
  refine ⟨⟨⟨h.streamId, hmod _, h.nextSymbol, Nat.mod_lt _ (by decide), Nat.mod_lt _ (by decide)⟩,
    ?_, fun sym hsym => (hsymbol sym hsym).1, fun sym hsym => ?_⟩,
    ⟨h.streamId, h.symbolsPerFrame, h.blockSize, hmod _⟩⟩
  · show symbols.length = s.symbolsPerFrame % 2 ^ 8
    rw [hlen, List.length_range, Nat.mod_eq_of_lt h.symbolsPerFrame]
  · show sym.2.length = s.encoder.blockSize % 2 ^ 16
    rw [(hsymbol sym hsym).2, Nat.mod_eq_of_lt h.blockSize]

/-- **Run lemma**: all frames of a ready stream are valid. -/
theorem Ready.frames {neighbors : Neighbors} {n : Nat} {s : FrameStream} {fs : List Frame}
    (h : s.Ready) (hframes : frames neighbors n s = some fs) : ∀ f ∈ fs, f.Valid := by
  induction n generalizing s fs with
  | zero =>
    obtain rfl := Option.some.inj hframes
    exact fun f hf => absurd hf List.not_mem_nil
  | succ n ih =>
    rw [FrameStream.frames] at hframes
    split at hframes
    · cases hframes
    · next f s' hnext =>
      obtain ⟨rest, hrest, rfl⟩ := Option.map_eq_some_iff.mp hframes
      obtain ⟨hvalid, hready⟩ := h.nextFrame hnext
      intro g hg
      rcases List.mem_cons.mp hg with rfl | hg
      · exact hvalid
      · exact ih hready hrest g hg

/-- **The frame codec**: a valid frame is read back whatever follows it, the frames of a stream
are valid, and an accepted byte string starts with the encoding of what it was read as. -/
theorem frames_roundTrip {f : Frame} (hf : f.Valid) (rest : Bytes) {blake3 : Bytes → Block 32}
    {payload : Bytes} {blockSize batch : Nat} {seed : UInt64} {s : FrameStream}
    (hnew : new blake3 payload blockSize batch seed = .ok s) {neighbors : Neighbors} {n : Nat}
    {fs : List Frame} (hframes : FrameStream.frames neighbors n s = some fs) {buf : Bytes}
    {g : Frame} (hdecode : decode buf = .ok g) :
    decode (f.encode ++ rest) = .ok f
      ∧ (∀ f' ∈ fs, f'.Valid ∧ ∀ rest', decode (f'.encode ++ rest') = .ok f')
      ∧ g.encode = buf.take (frameLen g.header) ∧ frameLen g.header ≤ buf.length := by
  have hvalid := (ready_of_new hnew).frames hframes
  obtain ⟨-, hencode, hlen⟩ := encode_of_decode hdecode
  exact ⟨decode_encode hf rest, fun f' hf' => ⟨hvalid f' hf', decode_encode (hvalid f' hf')⟩,
    hencode, hlen⟩

/-- The frame of a payload of one byte, under the given stream. -/
def singleFrame (streamId : Nat) : Frame := ⟨⟨streamId, 1, zeroDigest, 0, 1, 1⟩, [(0, [7])]⟩

/-- A byte behind the frame, and the first frame of a stream. -/
theorem frames_roundTrip_single :
    decode ((singleFrame 9).encode ++ [0xFF]) = .ok (singleFrame 9)
      ∧ (∀ f' ∈ [singleFrame 0], f'.Valid ∧ ∀ rest', decode (f'.encode ++ rest') = .ok f')
      ∧ (singleFrame 9).encode
        = ((singleFrame 9).encode ++ [0xFF]).take (frameLen (singleFrame 9).header)
      ∧ frameLen (singleFrame 9).header ≤ ((singleFrame 9).encode ++ [0xFF]).length := by
  have hvalid : (singleFrame 9).Valid := by
    refine ⟨⟨by decide, by decide, by decide, by decide, by decide⟩, rfl, ?_, ?_⟩
    · decide
    · decide
  have hnew : new (fun _ => zeroDigest) [7] 1 1 0
      = .ok ⟨⟨[[7]], 1, 0⟩, zeroDigest, 0, 1, 1, 0⟩ := by rfl
  have hframes : frames (neighbors leastSampling) 1 ⟨⟨[[7]], 1, 0⟩, zeroDigest, 0, 1, 1, 0⟩
      = some [singleFrame 0] := by rfl
  have hdecode : decode ((singleFrame 9).encode ++ [0xFF]) = .ok (singleFrame 9) := by rfl
  exact frames_roundTrip hvalid [0xFF] hnew hframes hdecode

end FrameStream

end DiscCleaner
