import DiscCleaner.Photon.Fountain

/-!
# DiscCleaner — the photon receiver (`frame.rs`)

Frames arrive as byte strings of any content. Decoding one never panics; taking one in does in
two places: the first frame's symbol size divides the payload length, and the decoder is gone
once a payload was delivered or found corrupt. Whatever payload is returned hashes to the
digest of the first frame taken in.
-/

namespace DiscCleaner

open ByteLib PeelingLib ProgLib

/-! ## Frames -/

structure FrameHeader where
  streamId : Nat
  payloadLen : Nat
  payloadBlake3 : Block 32
  firstSymbol : Nat
  symbolCount : Nat
  symbolSize : Nat
  deriving DecidableEq

structure Frame where
  header : FrameHeader
  symbols : List (Nat × Bytes)
  deriving DecidableEq

inductive PhotonFrameError where
  | truncated
  | badMagic
  | badVersion (version : UInt8)
  deriving DecidableEq

namespace Frame

/-- "DCPH". -/
def magic : Bytes := [0x44, 0x43, 0x50, 0x48]

def headerLen : Nat := 52

/-- `&buf[lo..hi]`; a range outside the buffer is a panic. -/
def slice (buf : Bytes) (lo hi : Nat) : Option Bytes :=
  if lo ≤ hi ∧ hi ≤ buf.length then some ((buf.drop lo).take (hi - lo)) else none

/-- The symbol loop: `count` symbols from offset `off` on. -/
def decodeSymbols (buf : Bytes) (symbolSize : Nat) : Nat → Nat → Option (List (Nat × Bytes))
  | 0, _ => some []
  | count + 1, off =>
    match slice buf off (off + 4), slice buf (off + 4) (off + 4 + symbolSize) with
    | some symbolId, some bytes =>
      (decodeSymbols buf symbolSize count (off + 4 + symbolSize)).map ((ofLe symbolId, bytes) :: ·)
    | _, _ => none

/-- The fixed header of a buffer that is long enough. -/
def decodeHeader (buf : Bytes) : Option FrameHeader :=
  match slice buf 5 9, slice buf 9 13, (slice buf 13 45).bind (Block.ofBytes? 32),
    slice buf 45 49, buf[49]?, slice buf 50 52 with
  | some streamId, some payloadLen, some payloadBlake3, some firstSymbol, some symbolCount,
    some symbolSize =>
    some
      { streamId := ofLe streamId
        payloadLen := ofLe payloadLen
        payloadBlake3 := payloadBlake3
        firstSymbol := ofLe firstSymbol
        symbolCount := symbolCount.toNat
        symbolSize := ofLe symbolSize }
  | _, _, _, _, _, _ => none

def decode (buf : Bytes) : Outcome PhotonFrameError Frame :=
  if buf.length < headerLen then .err .truncated
  else if buf.take 4 ≠ magic then .err .badMagic
  else
    match buf[4]? with
    | none => .panic
    | some version =>
      if version ≠ 1 then .err (.badVersion version)
      else
        match decodeHeader buf with
        | none => .panic
        | some header =>
          if buf.length < headerLen + header.symbolCount * (4 + header.symbolSize) then
            .err .truncated
          else
            match decodeSymbols buf header.symbolSize header.symbolCount headerLen with
            | none => .panic
            | some symbols => .ok ⟨header, symbols⟩

theorem slice_of_le {buf : Bytes} {lo hi : Nat} (hlo : lo ≤ hi) (hhi : hi ≤ buf.length) :
    ∃ s, slice buf lo hi = some s ∧ s.length = hi - lo := by
  refine ⟨_, if_pos ⟨hlo, hhi⟩, ?_⟩
  rw [List.length_take, List.length_drop]
  omega

theorem decodeSymbols_total {buf : Bytes} {symbolSize count off : Nat}
    (h : off + count * (4 + symbolSize) ≤ buf.length) :
    ∃ symbols, decodeSymbols buf symbolSize count off = some symbols := by
  induction count generalizing off with
  | zero => exact ⟨[], rfl⟩
  | succ count ih =>
    rw [Nat.succ_mul] at h
    obtain ⟨symbolId, hid, -⟩ := @slice_of_le buf off (off + 4) (by omega) (by omega)
    obtain ⟨bytes, hbytes, -⟩ :=
      @slice_of_le buf (off + 4) (off + 4 + symbolSize) (by omega) (by omega)
    obtain ⟨rest, hrest⟩ := @ih (off + 4 + symbolSize) (by omega)
    rw [decodeSymbols, hid, hbytes]
    dsimp only
    rw [hrest]
    exact ⟨_, rfl⟩

theorem decodeHeader_total {buf : Bytes} (h : headerLen ≤ buf.length) :
    ∃ header, decodeHeader buf = some header := by
  have hlen : 52 ≤ buf.length := h
  obtain ⟨a, ha, -⟩ := @slice_of_le buf 5 9 (by decide) (by omega)
  obtain ⟨b, hb, -⟩ := @slice_of_le buf 9 13 (by decide) (by omega)
  obtain ⟨c, hc, hsize⟩ := @slice_of_le buf 13 45 (by decide) (by omega)
  obtain ⟨d, hd, -⟩ := @slice_of_le buf 45 49 (by decide) (by omega)
  obtain ⟨e, he, -⟩ := @slice_of_le buf 50 52 (by decide) (by omega)
  unfold decodeHeader
  rw [ha, hb, hc, hd, he, List.getElem?_eq_getElem (show 49 < buf.length by omega),
    Option.bind_some, Block.ofBytes?, dif_pos hsize]
  exact ⟨_, rfl⟩

/-- **Decoding never panics**: the checks before each access cover it. -/
theorem decode_total (buf : Bytes) :
    (∃ frame, decode buf = .ok frame) ∨ ∃ e, decode buf = .err e := by
  unfold decode
  by_cases hlen : buf.length < headerLen
  · rw [if_pos hlen]
    exact Or.inr ⟨_, rfl⟩
  · rw [if_neg hlen]
    have hversion : 4 < buf.length := by
      have : headerLen = 52 := rfl
      omega
    obtain ⟨header, hheader⟩ := decodeHeader_total (Nat.not_lt.mp hlen)
    rw [List.getElem?_eq_getElem hversion, hheader]
    dsimp only
    split
    · exact Or.inr ⟨_, rfl⟩
    · split
      · exact Or.inr ⟨_, rfl⟩
      · split
        · exact Or.inr ⟨_, rfl⟩
        · next hneed =>
          obtain ⟨symbols, hsymbols⟩ := decodeSymbols_total (Nat.not_lt.mp hneed)
          rw [hsymbols]
          exact Or.inl ⟨_, rfl⟩

end Frame

/-! ## Reassembly -/

inductive PhotonStreamError where
  | streamMismatch
  | lt (e : LtError)
  | hashMismatch
  deriving DecidableEq

structure FrameReassembler where
  decoder : Option LtDecoder
  payloadBlake3 : Option (Block 32)
  payloadLen : Nat
  streamId : Nat
  framesSeen : Nat
  streamSeed : UInt64

namespace FrameReassembler

def new (streamSeed : UInt64) : FrameReassembler := ⟨none, none, 0, 0, 0, streamSeed⟩

/-- The symbols of a frame, one by one; an error leaves the decoder as it is by then. -/
def pushSymbols (neighbors : Neighbors) :
    List (Nat × Bytes) → LtDecoder → Outcome LtError Unit × LtDecoder
  | [], d => (.ok (), d)
  | (symbolId, bytes) :: rest, d =>
    match d.pushSymbol neighbors symbolId bytes with
    | .ok d => pushSymbols neighbors rest d
    | .err e => (.err e, d)
    | .panic => (.panic, d)
    | .blocked => (.blocked, d)

/-- The first part of `push_frame`: the frame is checked against the stream, or binds it. The
block count divides by the frame's symbol size. -/
def bindStream (r : FrameReassembler) (frame : Frame) :
    Outcome PhotonStreamError Unit × FrameReassembler :=
  match r.payloadBlake3 with
  | some expected =>
    if expected ≠ frame.header.payloadBlake3 ∨ r.streamId ≠ frame.header.streamId then
      (.err .streamMismatch, r)
    else (.ok (), r)
  | none =>
    let r := { r with
      payloadBlake3 := some frame.header.payloadBlake3
      streamId := frame.header.streamId
      payloadLen := frame.header.payloadLen }
    let blockSize := frame.header.symbolSize
    if blockSize = 0 then (.panic, r)
    else
      let k := max ((r.payloadLen + blockSize - 1) / blockSize) 1
      (.ok (), { r with decoder := some (.new k blockSize r.streamSeed) })

/-- The last part: the payload of a finished decoder, checked against the digest. -/
def deliver (blake3 : Bytes → Block 32) (r : FrameReassembler) (d : LtDecoder) :
    Outcome PhotonStreamError (Option Bytes) :=
  match d.finish, r.payloadBlake3 with
  | .ok full, some expected =>
    let full := full.take r.payloadLen
    if blake3 full ≠ expected then .err .hashMismatch else .ok (some full)
  | .err e, _ => .err (.lt e)
  | _, _ => .panic

/-- `push_frame`; the frame counter wraps as it does without overflow checks. -/
def pushFrame (neighbors : Neighbors) (blake3 : Bytes → Block 32) (r : FrameReassembler)
    (frame : Frame) : Outcome PhotonStreamError (Option Bytes) × FrameReassembler :=
  match r.bindStream frame with
  | (.err e, r) => (.err e, r)
  | (.panic, r) => (.panic, r)
  | (.blocked, r) => (.blocked, r)
  | (.ok (), r) =>
    let r := { r with framesSeen := (r.framesSeen + 1) % 2 ^ 32 }
    match r.decoder with
    | none => (.panic, r)
    | some d =>
      match pushSymbols neighbors frame.symbols d with
      | (.err e, d) => (.err (.lt e), { r with decoder := some d })
      | (.panic, d) => (.panic, { r with decoder := some d })
      | (.blocked, d) => (.blocked, { r with decoder := some d })
      | (.ok (), d) =>
        if d.resolved < d.k then (.ok none, { r with decoder := some d })
        else (r.deliver blake3 d, { r with decoder := none })

/-! ### What one frame does -/

/-- The decoder, while there is one, is peeling the symbols of some frames. -/
def Decoding (s : Sampling) (r : FrameReassembler) : Prop :=
  ∀ d, r.decoder = some d → ∃ (k size : Nat) (hk : 0 < k) (fed : Set Nat),
    d.Peeling (sampledNeighbors s hk r.streamSeed) size r.streamSeed fed fed [] 0 []

/-- A frame that `push_frame` takes in without a panic: the first one divides by a symbol size
other than zero, and a later one of the stream finds the decoder. -/
def Ready (r : FrameReassembler) (frame : Frame) : Prop :=
  (r.payloadBlake3 = none → frame.header.symbolSize ≠ 0) ∧
    (r.payloadBlake3 = some frame.header.payloadBlake3 → r.streamId = frame.header.streamId →
      r.decoder ≠ none)

variable {s : Sampling} {blake3 : Bytes → Block 32} {r : FrameReassembler} {frame : Frame}

theorem new_decoding (s : Sampling) (streamSeed : UInt64) : (new streamSeed).Decoding s :=
  nofun

/-- The symbols of a frame are taken in or refused. -/
theorem pushSymbols_spec {k size : Nat} {seed : UInt64} (hk : 0 < k) (symbols : List (Nat × Bytes))
    {d : LtDecoder} {fed : Set Nat}
    (h : d.Peeling (sampledNeighbors s hk seed) size seed fed fed [] 0 []) :
    ∃ out d' fed', pushSymbols (neighbors s) symbols d = (out, d')
      ∧ (out = .ok () ∨ ∃ e, out = .err e)
      ∧ d'.Peeling (sampledNeighbors s hk seed) size seed fed' fed' [] 0 [] := by
  induction symbols generalizing d fed with
  | nil => exact ⟨.ok (), d, fed, rfl, Or.inl rfl, h⟩
  | cons symbol rest ih =>
    obtain ⟨id, bytes⟩ := symbol
    rw [pushSymbols]
    by_cases hlen : bytes.length = size
    · obtain ⟨d', hpush, h'⟩ := h.push (neighbors_eq s hk seed) id hlen
      rw [hpush]
      exact ih h'
    · rw [LtDecoder.pushSymbol, if_pos (show bytes.length ≠ d.blockSize by rw [h.blockSize_eq]; exact hlen)]
      exact ⟨_, d, fed, rfl, Or.inr ⟨_, rfl⟩, h⟩

/-- **Inversion of `bindStream`**: the frame is of another stream, has no symbol size, or the
stream is bound to the digest of its first frame. -/
theorem bindStream_cases (r : FrameReassembler) (frame : Frame) :
    ((∃ expected, r.payloadBlake3 = some expected) ∧ r.Ready frame
        ∧ r.bindStream frame = (.err .streamMismatch, r)) ∨
    (∃ r', ¬ r.Ready frame ∧ r.bindStream frame = (.panic, r')
        ∧ r.payloadBlake3 = none ∧ r'.payloadBlake3 = some frame.header.payloadBlake3
        ∧ r'.decoder = r.decoder ∧ r'.streamSeed = r.streamSeed) ∨
    (∃ r', r.bindStream frame = (.ok (), r') ∧ (r'.decoder ≠ none ↔ r.Ready frame)
        ∧ r'.payloadBlake3 = some (r.payloadBlake3.getD frame.header.payloadBlake3)
        ∧ r'.streamSeed = r.streamSeed
        ∧ (r'.decoder = r.decoder ∨ ∃ k size, 0 < k ∧ r'.decoder = some (.new k size r.streamSeed))) := by
  unfold bindStream
  cases hbound : r.payloadBlake3 with
  | some expected =>
    by_cases hother : expected ≠ frame.header.payloadBlake3 ∨ r.streamId ≠ frame.header.streamId
    · refine Or.inl ⟨⟨expected, rfl⟩, ⟨fun hnone => ?_, fun hsame hid => ?_⟩, if_pos hother⟩
      · rw [hbound] at hnone
        cases hnone
      · rw [hbound] at hsame
        exact absurd hid (hother.resolve_left fun hne => hne (Option.some.inj hsame))
    · push Not at hother
      refine Or.inr (Or.inr ⟨r, if_neg (by simp [hother]), ?_, hbound, rfl, Or.inl rfl⟩)
      unfold Ready
      rw [hbound, hother.1, hother.2]
      simp
  | none =>
    by_cases hsize : frame.header.symbolSize = 0
    · exact Or.inr (Or.inl ⟨_, fun hready => hready.1 hbound hsize, if_pos hsize, rfl, rfl, rfl, rfl⟩)
    · refine Or.inr (Or.inr ⟨_, if_neg hsize, ?_, rfl, rfl, Or.inr ⟨_, _, Nat.le_max_right _ 1, rfl⟩⟩)
      unfold Ready
      rw [hbound]
      simp [hsize]

/-- What is delivered hashes to the digest; a finished decoder makes no panic. -/
theorem deliver_spec {k size : Nat} {seed : UInt64} {nf : NeighborFn k} {fed : Set Nat}
    {d : LtDecoder} {expected : Block 32} (h : d.Peeling nf size seed fed fed [] 0 [])
    (hdone : ¬ d.resolved < d.k) (hbound : r.payloadBlake3 = some expected) :
    r.deliver blake3 d = .err .hashMismatch ∨
      ∃ p, r.deliver blake3 d = .ok (some p) ∧ blake3 p = expected := by
  obtain ⟨blocks, -, hfinish⟩ := h.finish hdone
  unfold deliver
  rw [hfinish, hbound]
  dsimp only
  by_cases hhash : blake3 (blocks.flatten.take r.payloadLen) = expected
  · rw [if_neg fun hne => hne hhash]
    exact Or.inr ⟨_, rfl, hhash⟩
  · exact Or.inl (if_pos hhash)

/-- The outcome of a frame and the state it leaves: it panics exactly when it was not ready, the
digest stays bound, and a payload hashes to it. -/
structure Taken (s : Sampling) (blake3 : Bytes → Block 32) (r : FrameReassembler) (frame : Frame)
    (out : Outcome PhotonStreamError (Option Bytes)) (r' : FrameReassembler) : Prop where
  panic_iff : out = .panic ↔ ¬ r.Ready frame
  not_blocked : out ≠ .blocked
  decoding : r'.Decoding s
  bound : r'.payloadBlake3 = some (r.payloadBlake3.getD frame.header.payloadBlake3)
  payload : ∀ p, out = .ok (some p) → r'.payloadBlake3 = some (blake3 p)

/-- Any reassembler whose decoder peels the symbols of some frames. -/
theorem Decoding.of_peeling {d : LtDecoder} {k size : Nat} {hk : 0 < k} {fed : Set Nat}
    (hd : r.decoder = some d)
    (hpeel : d.Peeling (sampledNeighbors s hk r.streamSeed) size r.streamSeed fed fed [] 0 []) :
    r.Decoding s := by
  intro e he
  rw [hd, Option.some.injEq] at he
  subst he
  exact ⟨k, size, hk, fed, hpeel⟩

/-- A stream that is bound goes on with its decoder or starts with a fresh one. -/
theorem Decoding.bindStream {r' : FrameReassembler} (h : r.Decoding s)
    (hseed : r'.streamSeed = r.streamSeed)
    (hdecoder : r'.decoder = r.decoder
      ∨ ∃ k size, 0 < k ∧ r'.decoder = some (.new k size r.streamSeed)) : r'.Decoding s := by
  rcases hdecoder with hsame | ⟨k, size, hk, hnew⟩
  · intro d hd
    rw [hseed]
    exact h d (hsame ▸ hd)
  · rw [← hseed] at hnew
    exact .of_peeling hnew (.new (sampledNeighbors s hk r'.streamSeed) size _)

/-- **Step lemma**: what one frame does to the reassembler. -/
theorem pushFrame_taken (h : r.Decoding s) (blake3 : Bytes → Block 32) (frame : Frame) :
    ∃ out r', pushFrame (neighbors s) blake3 r frame = (out, r') ∧ r.Taken s blake3 frame out r' := by
  unfold pushFrame
  rcases bindStream_cases r frame with ⟨⟨expected, hbound⟩, hready, hbind⟩
    | ⟨r', hnot, hbind, hnone, hbound, hdecoder, hseed⟩ | ⟨r', hbind, hready, hbound, hseed, hdecoder⟩
  · -- The frame is of another stream.
    rw [hbind]
    refine ⟨_, _, rfl, ⟨by simp [hready], by simp, h, ?_, by simp⟩⟩
    rw [hbound]
    rfl
  · -- The first frame has no symbol size.
    rw [hbind]
    refine ⟨_, _, rfl, ⟨by simp [hnot], by simp, h.bindStream hseed (Or.inl hdecoder), ?_, by simp⟩⟩
    rw [hbound, hnone]
    rfl
  · rw [hbind]
    dsimp only
    have hbinds : r'.Decoding s := h.bindStream hseed hdecoder
    cases hd : r'.decoder with
    | none =>
      -- The decoder was taken when the payload was complete.
      have hnot : ¬ r.Ready frame := fun hr => hready.mpr hr hd
      exact ⟨_, _, rfl, ⟨by simp [hnot], by simp, nofun, hbound, by simp⟩⟩
    | some d =>
      have hr : r.Ready frame := hready.mp (by rw [hd]; simp)
      obtain ⟨k, size, hk, fed, hpeel⟩ := hbinds d hd
      obtain ⟨out, d', fed', hrun, hout, hpeel'⟩ := pushSymbols_spec hk frame.symbols hpeel
      have hkeep : Decoding s { r' with
          framesSeen := (r'.framesSeen + 1) % 2 ^ 32, decoder := some d' } := .of_peeling rfl hpeel'
      dsimp only
      rw [hrun]
      rcases hout with rfl | ⟨e, rfl⟩
      · dsimp only
        by_cases hdone : d'.resolved < d'.k
        · rw [if_pos hdone]
          exact ⟨_, _, rfl, ⟨by simp [hr], by simp, hkeep, hbound, by simp⟩⟩
        · -- The payload is complete: its digest decides.
          rw [if_neg hdone]
          refine ⟨_, _, rfl, ?_⟩
          rcases @deliver_spec blake3
            { r' with decoder := some d, framesSeen := (r'.framesSeen + 1) % 2 ^ 32 }
            _ _ _ _ _ _ _ hpeel' hdone hbound
            with hmis | ⟨p, hp, hhash⟩
          · rw [hmis]
            exact ⟨by simp [hr], by simp, nofun, hbound, by simp⟩
          · rw [hp]
            refine ⟨by simp [hr], by simp, nofun, hbound, fun q hq => ?_⟩
            rw [Outcome.ok.injEq, Option.some.injEq] at hq
            rw [← hq, hhash]
            exact hbound
      · exact ⟨_, _, rfl, ⟨by simp [hr], by simp, hkeep, hbound, by simp⟩⟩

/-! ### Runs over captured byte strings -/

/-- Decode each byte string and push every accepted frame; what each push returned. A panic
ends the run. -/
def receive (neighbors : Neighbors) (blake3 : Bytes → Block 32) :
    List Bytes → FrameReassembler → List (Outcome PhotonStreamError (Option Bytes))
  | [], _ => []
  | buf :: bufs, r =>
    match Frame.decode buf with
    | .ok frame =>
      match r.pushFrame neighbors blake3 frame with
      | (.panic, _) => [.panic]
      | (out, r) => out :: receive neighbors blake3 bufs r
    | .err _ => receive neighbors blake3 bufs r
    | _ => [.panic]

/-- Every accepted frame of the run is one that is taken in without a panic. -/
def AllReady (neighbors : Neighbors) (blake3 : Bytes → Block 32) :
    List Bytes → FrameReassembler → Prop
  | [], _ => True
  | buf :: bufs, r =>
    match Frame.decode buf with
    | .ok frame =>
      r.Ready frame ∧ AllReady neighbors blake3 bufs (r.pushFrame neighbors blake3 frame).2
    | _ => AllReady neighbors blake3 bufs r

/-- The first byte string that is a frame. -/
def firstAccepted (bufs : List Bytes) : Option Frame :=
  bufs.findSome? fun buf =>
    match Frame.decode buf with
    | .ok frame => some frame
    | _ => none

/-- Every payload handed out hashes to the digest the first accepted frame carries. -/
def Genuine (blake3 : Bytes → Block 32) (bufs : List Bytes)
    (outs : List (Outcome PhotonStreamError (Option Bytes))) : Prop :=
  ∀ p, .ok (some p) ∈ outs →
    ∃ frame, firstAccepted bufs = some frame ∧ blake3 p = frame.header.payloadBlake3

/-- **Run lemma**: a run panics exactly at a frame that is not ready, and what it hands out
hashes to the digest bound before it or else by its first frame. -/
theorem receive_spec (h : r.Decoding s) (blake3 : Bytes → Block 32) (bufs : List Bytes) :
    (.panic ∉ receive (neighbors s) blake3 bufs r ↔ AllReady (neighbors s) blake3 bufs r)
      ∧ ∀ p, .ok (some p) ∈ receive (neighbors s) blake3 bufs r →
          r.payloadBlake3.or ((firstAccepted bufs).map fun frame => frame.header.payloadBlake3)
            = some (blake3 p) := by
  induction bufs generalizing r with
  | nil => simp [receive, AllReady]
  | cons buf bufs ih =>
    rw [receive, AllReady, firstAccepted, List.findSome?_cons]
    rcases Frame.decode_total buf with ⟨frame, hbuf⟩ | ⟨e, hbuf⟩
    · rw [hbuf]
      obtain ⟨out, r', hpush, htaken⟩ := pushFrame_taken h blake3 frame
      obtain ⟨hpanics, hpayloads⟩ := ih htaken.decoding
      have hbound : r.payloadBlake3.or ((some frame).map fun frame => frame.header.payloadBlake3)
          = r'.payloadBlake3 := by
        rw [htaken.bound]
        cases r.payloadBlake3 <;> rfl
      dsimp only
      rw [hpush, hbound]
      by_cases hready : r.Ready frame
      · have hout : out ≠ .panic := fun heq => htaken.panic_iff.mp heq hready
        have hcons : (match (out, r') with
            | (.panic, _) => [.panic]
            | (out, r) => out :: receive (neighbors s) blake3 bufs r)
            = out :: receive (neighbors s) blake3 bufs r' := by
          cases out with
          | panic => exact absurd rfl hout
          | ok p => rfl
          | err e => rfl
          | blocked => rfl
        rw [hcons]
        refine ⟨?_, fun p hp => ?_⟩
        · rw [List.mem_cons, not_or, hpanics]
          exact and_congr (iff_of_true (fun heq => hout heq.symm) hready) Iff.rfl
        · rcases List.mem_cons.mp hp with heq | htail
          · exact htaken.payload p heq.symm
          · have hrest := hpayloads p htail
            rw [htaken.bound] at hrest ⊢
            exact hrest
      · obtain rfl := htaken.panic_iff.mpr hready
        exact ⟨iff_of_false (by simp) fun hall => hready hall.1, by simp⟩
    · rw [hbuf]
      exact ih h

/-- **The receiver never crashes exactly on the runs whose frames are ready**: a first frame
with a symbol size, and no further frame of the stream once a payload was delivered or found
corrupt. Every payload it hands out is the one the first frame's digest names, on every run. -/
theorem receiver_never_crashes_iff (s : Sampling) (blake3 : Bytes → Block 32) (streamSeed : UInt64)
    (bufs : List Bytes) :
    ((.panic ∉ receive (neighbors s) blake3 bufs (new streamSeed)
          ∧ Genuine blake3 bufs (receive (neighbors s) blake3 bufs (new streamSeed)))
        ↔ AllReady (neighbors s) blake3 bufs (new streamSeed))
      ∧ Genuine blake3 bufs (receive (neighbors s) blake3 bufs (new streamSeed)) := by
  obtain ⟨hpanics, hpayloads⟩ := receive_spec (new_decoding s streamSeed) blake3 bufs
  have hgenuine : Genuine blake3 bufs (receive (neighbors s) blake3 bufs (new streamSeed)) := by
    intro p hp
    have hdigest := hpayloads p hp
    rw [show (new streamSeed).payloadBlake3 = none from rfl, Option.none_or, Option.map_eq_some_iff]
      at hdigest
    obtain ⟨frame, hfirst, hhash⟩ := hdigest
    exact ⟨frame, hfirst, hhash.symm⟩
  exact ⟨(and_iff_left hgenuine).trans hpanics, hgenuine⟩

/-! ### Two streams that crash the receiver -/

/-- The degree and the draws of least value. -/
def leastSampling : Sampling where
  degree _ _ := 1
  below _ _ _ := 0
  degree_pos _ _ := Nat.one_pos
  below_lt _ _ _ hbound := hbound

def zeroDigest : Block 32 := ⟨List.replicate 32 0, rfl⟩

/-- The header of a one-byte payload with the given number of symbols and their size. -/
def oneByteHeader (symbolCount symbolSize : UInt8) : Bytes :=
  Frame.magic ++ [1] ++ [9, 0, 0, 0] ++ [1, 0, 0, 0] ++ zeroDigest.bytes ++ [0, 0, 0, 0]
    ++ [symbolCount] ++ [symbolSize, 0]

/-- The frame that carries the payload whole. -/
def oneByteFrame : Bytes := oneByteHeader 1 1 ++ [0, 0, 0, 0] ++ [7]

theorem oneByteFrame_decodes :
    Frame.decode oneByteFrame = .ok ⟨⟨9, 1, zeroDigest, 0, 1, 1⟩, [(0, [7])]⟩ := by
  rfl

/-- The one symbol completes the payload and the decoder is gone. -/
theorem oneByteFrame_delivers :
    (new 0).pushFrame (neighbors leastSampling) (fun _ => zeroDigest)
        ⟨⟨9, 1, zeroDigest, 0, 1, 1⟩, [(0, [7])]⟩
      = (.ok (some [7]), ⟨none, some zeroDigest, 1, 9, 1, 0⟩) := by
  have hresolve : (LtDecoder.new 1 1 0).resolve 0 [7] = some ⟨1, 1, 0, [some [7]], [], [[]], 1⟩ := by
    simp [LtDecoder.resolve, LtDecoder.ripple, LtDecoder.new, LtDecoder.peelRefs]
  have hpush : (LtDecoder.new 1 1 0).pushSymbol (neighbors leastSampling) 0 [7]
      = .ok ⟨1, 1, 0, [some [7]], [], [[]], 1⟩ := by
    show (match (LtDecoder.new 1 1 0).resolve 0 [7] with
      | none => Outcome.panic
      | some d => .ok d) = _
    rw [hresolve]
  have hsymbols : pushSymbols (neighbors leastSampling) [(0, [7])] (.new 1 1 0)
      = (.ok (), ⟨1, 1, 0, [some [7]], [], [[]], 1⟩) := by
    rw [pushSymbols, hpush]
    rfl
  show (match pushSymbols (neighbors leastSampling) [(0, [7])] (.new 1 1 0) with
    | (.err e, d) => _
    | (.panic, d) => _
    | (.blocked, d) => _
    | (.ok (), d) => _) = _
  rw [hsymbols]
  rfl

/-- A first frame without a symbol size divides by zero; a stream that goes on after its
payload was delivered finds the decoder gone. -/
theorem receiver_crashes :
    receive (neighbors leastSampling) (fun _ => zeroDigest) [oneByteHeader 0 0] (new 0) = [.panic]
      ∧ receive (neighbors leastSampling) (fun _ => zeroDigest) [oneByteFrame, oneByteFrame] (new 0)
        = [.ok (some [7]), .panic] := by
  refine ⟨by rfl, ?_⟩
  rw [receive, oneByteFrame_decodes]
  dsimp only
  rw [oneByteFrame_delivers]
  dsimp only
  rw [receive, oneByteFrame_decodes]
  rfl

end FrameReassembler

end DiscCleaner
