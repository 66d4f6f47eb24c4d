import DiscCleaner.Resurrect.BromShell

/-!
# The host's side of the Boot-ROM shell (dc-resurrect `uart_brom.rs`)

`BromChannel` over the simulated link. A download announces a length, sends the payload in chunks of
1024 bytes and sends a chunk again when it is refused, at most four times. The line may corrupt the
body of a chunk on any attempt, as long as the CRC shows it.
-/

namespace DiscCleaner.Resurrect

open ByteLib SimTarget

/-! ## The line -/

/-- What the line does to chunk bodies: for a chunk, an attempt and a body, the body that arrives. It
has the length that was announced, and CRC-16 tells it from the one that was sent. -/
structure Line where
  body : Nat → Nat → Bytes → Bytes
  length_body : ∀ c attempt sent, (body c attempt sent).length = sent.length
  detected : ∀ c attempt sent, body c attempt sent ≠ sent →
    crc16Xmodem (body c attempt sent) ≠ crc16Xmodem sent

/-- A line that corrupts nothing. -/
def Line.clear : Line where
  body _ _ sent := sent
  length_body _ _ _ := rfl
  detected _ _ _ h := absurd rfl h

namespace BromChannel

def CHUNK : Nat := 1024

variable {ν κ : Type} (parts : Parts ν κ)

/-! ## Reading replies -/

def readExact : Nat → SimTarget ν κ → Option Bytes × SimTarget ν κ
  | 0, t => (some [], t)
  | n + 1, t =>
    match t.uartRead parts with
    | (some b, t) =>
      let (rest, t) := readExact n t
      (rest.map (b :: ·), t)
    | (none, t) => (none, t)

def expectAck (t : SimTarget ν κ) : Except LinkError Unit × SimTarget ν κ :=
  match t.uartRead parts with
  | (some b, t) =>
    if b = Cmd.ACK then (.ok (), t)
    else if b = Cmd.NAK then (.error (.fault "BROM NAK"), t)
    else (.error (.fault "unexpected BROM reply byte"), t)
  | (none, t) => (.error .noAck, t)

def sendFrame (head : Bytes) (t : SimTarget ν κ) : SimTarget ν κ :=
  t.writeAll parts (commandFrame head)

/-! ## Opening the shell -/

/-- The host's knobs are those of the profile. -/
def autobaud (params : BromParams) (t : SimTarget ν κ) : Except LinkError Unit × SimTarget ν κ :=
  match (t.writeAll parts [params.sync]).uartRead parts with
  | (some b, t) =>
    if b = params.ack then (.ok (), t)
    else (.error (.fault "autobaud reply mismatch — no BROM on this port"), t)
  | (none, t) => (.error .noAck, t)

def hello (params : BromParams) (t : SimTarget ν κ) : Except LinkError Unit × SimTarget ν κ :=
  match readExact parts 2 (t.writeAll parts params.magic) with
  | (some v, t) =>
    if u16Of v = crc16Xmodem params.magic then (.ok (), t)
    else (.error (.fault "HELLO CRC mismatch — wrong magic or locked shell"), t)
  | (none, t) => (.error .noAck, t)

/-- Answer the challenge of the shell. -/
def auth (params : BromParams) (t : SimTarget ν κ) : Except LinkError Unit × SimTarget ν κ :=
  match readExact parts 10 (sendFrame parts [Cmd.AUTH] t) with
  | (some v, t) =>
    if u16Of (v.drop 8) ≠ crc16Xmodem (v.take 8) then
      (.error (.fault "challenge CRC mismatch"), t)
    else expectAck parts
      (t.writeAll parts ((parts.sha256 (params.key ++ v.take 8)).bytes.take 8))
  | (none, t) => (.error .noAck, t)

/-- `open`: autobaud, hello, and the challenge where the shell demands it. -/
def openShell (params : BromParams) (t : SimTarget ν κ) : Except LinkError Unit × SimTarget ν κ :=
  match autobaud parts params t with
  | (.error e, t) => (.error e, t)
  | (.ok (), t) =>
    match hello parts params t with
    | (.error e, t) => (.error e, t)
    | (.ok (), t) => if params.authRequired then auth parts params t else (.ok (), t)

/-! ## Commands -/

/-- Read four bytes of target memory. -/
def peek32 (addr : UInt32) (t : SimTarget ν κ) : Except LinkError UInt32 × SimTarget ν κ :=
  match readExact parts 6 (sendFrame parts (Cmd.PEEK :: le32 addr.toNat) t) with
  | (some v, t) =>
    if u16Of (v.drop 4) ≠ crc16Xmodem (v.take 4) then (.error (.fault "PEEK CRC mismatch"), t)
    else (.ok (u32Of (v.take 4)), t)
  | (none, t) => (.error .noAck, t)

/-- Write four bytes of target memory. -/
def poke32 (addr value : UInt32) (t : SimTarget ν κ) : Except LinkError Unit × SimTarget ν κ :=
  expectAck parts
    (sendFrame parts (Cmd.POKE :: (le32 addr.toNat ++ le32 value.toNat)) t)

/-- Execute the downloaded payload. -/
def jump (entry : UInt32) (t : SimTarget ν κ) : Except LinkError Unit × SimTarget ν κ :=
  expectAck parts (sendFrame parts (Cmd.JUMP :: le32 entry.toNat) t)

/-! ## Download -/

/-- The chunk at a position of the payload. -/
def chunkAt (blob : Bytes) (c : Nat) : Bytes := slice blob (CHUNK * c) CHUNK

def chunkCount (blob : Bytes) : Nat := (blob.length + (CHUNK - 1)) / CHUNK

/-- The frames of a chunk, until one is accepted; the first argument counts the refusals that are
left. -/
def sendChunk (line : Line) (c : Nat) (chunk : Bytes) :
    Nat → Nat → SimTarget ν κ → Except LinkError Unit × SimTarget ν κ
  | 0, _, t => (.error (.fault "BROM kept NAKing chunk"), t)
  | left + 1, attempt, t =>
    let frame := chunkFrame chunk.length (line.body c attempt chunk) (crc16Xmodem chunk)
    match (t.writeAll parts frame).uartRead parts with
    | (some b, t) =>
      if b = Cmd.ACK then (.ok (), t)
      else if b = Cmd.NAK then sendChunk line c chunk left (attempt + 1) t
      else (.error (.fault "unexpected chunk reply"), t)
    | (none, t) => (.error .noAck, t)

/-- The chunks from one on; the first argument counts those that are left. -/
def sendChunks (line : Line) (blob : Bytes) :
    Nat → Nat → SimTarget ν κ → Except LinkError Unit × SimTarget ν κ
  | 0, _, t => (.ok (), t)
  | left + 1, c, t =>
    match sendChunk parts line c (chunkAt blob c) 4 0 t with
    | (.ok (), t) => sendChunks line blob left (c + 1) t
    | (.error e, t) => (.error e, t)

/-- `download`: a payload image into SRAM. -/
def download (line : Line) (blob : Bytes) (loadAddr : UInt32) (t : SimTarget ν κ) :
    Except LinkError Unit × SimTarget ν κ :=
  match expectAck parts
    (sendFrame parts (Cmd.DOWNLOAD :: (le32 loadAddr.toNat ++ le32 blob.length)) t) with
  | (.ok (), t) => sendChunks parts line blob (chunkCount blob) 0 t
  | (.error e, t) => (.error e, t)

/-- How `run_via_brom` starts a payload: open the shell, download, jump. An error is told with the
step it came from. -/
def stageOne (params : BromParams) (line : Line) (blob : Bytes) (loadAddr entry : UInt32)
    (t : SimTarget ν κ) : Except (String × LinkError) Unit × SimTarget ν κ :=
  match openShell parts params t with
  | (.error e, t) => (.error ("BROM open failed", e), t)
  | (.ok (), t) =>
    match download parts line blob loadAddr t with
    | (.error e, t) => (.error ("probe download failed", e), t)
    | (.ok (), t) =>
      match jump parts entry t with
      | (.error e, t) => (.error ("probe jump failed", e), t)
      | (.ok (), t) => (.ok (), t)

/-! ## Replies -/

/-- The shell waits for a command, nothing waits on the wire and nothing runs on the drive. -/
structure Ready (t : SimTarget ν κ) : Prop where
  on : t.Listening
  shell : t.bsm = .cmd []
  quiet : t.uartOut = []
  idle : t.Idle

/-- One byte that waits alone. -/
theorem uartRead_send {t : SimTarget ν κ} (hidle : t.Idle) (hquiet : t.uartOut = []) (b : UInt8) :
    (t.send [b]).uartRead parts = (some b, t) := by
  rw [uartRead_of_idle parts (t := t.send [b]) ⟨hidle.noJump, hidle.still⟩]
  simp only [send, hquiet, List.nil_append, List.head?_cons, List.tail_cons]
  rw [← hquiet]

theorem expectAck_send {t : SimTarget ν κ} (hidle : t.Idle) (hquiet : t.uartOut = []) :
    expectAck parts (t.send [Cmd.ACK]) = (.ok (), t) := by
  rw [expectAck, uartRead_send parts hidle hquiet]
  rfl

/-- What was sent on a quiet wire has been read. -/
theorem drained {t : SimTarget ν κ} (hquiet : t.uartOut = []) (bytes : Bytes) :
    ({ t.send bytes with uartOut := [] } : SimTarget ν κ) = t := by
  cases t
  cases hquiet
  rfl

/-- Bytes that wait are read in order. -/
theorem readExact_send {t : SimTarget ν κ} (hidle : t.Idle) (bs : Bytes) (hout : t.uartOut = bs) :
    readExact parts bs.length t = (some bs, { t with uartOut := [] }) := by
  induction bs generalizing t with
  | nil =>
    rw [List.length_nil, readExact, ← hout]
  | cons b bs ih =>
    have hrest := ih (t := { t with uartOut := bs }) ⟨hidle.noJump, hidle.still⟩ rfl
    rw [List.length_cons, readExact, uartRead_of_idle parts hidle, hout]
    show (((readExact parts bs.length { t with uartOut := bs }).1.map (b :: ·)),
      (readExact parts bs.length { t with uartOut := bs }).2) = _
    rw [hrest]
    rfl

/-! ## An open shell -/

section Open

variable {t : SimTarget ν κ}

/-- The first byte of the sync word wakes the shell. -/
theorem autobaud_ok (hon : t.Listening) (hbsm : t.bsm = .waitSync) (hquiet : t.uartOut = [])
    (hidle : t.Idle) : autobaud parts t.bromParams t = (.ok (), t.withBsm (.magic 0)) := by
  have hpower := power_of_listening hon
  have hsync : t.writeAll parts [t.bromParams.sync] =
      (t.withBsm (.magic 0)).send [t.bromParams.ack] := by
    show t.uartRx parts t.bromParams.sync = _
    simp only [uartRx, hpower, hbsm, Bool.false_eq_true, if_false, if_true]
    rfl
  unfold autobaud
  rw [hsync, uartRead_send (t := t.withBsm (.magic 0)) parts ⟨hidle.noJump, hidle.still⟩ hquiet]
  exact if_pos rfl

/-- A byte of the magic word. -/
theorem uartRx_magic (hon : t.Listening) {got : Nat} {byte : UInt8}
    (hbyte : t.bromParams.magic[got]? = some byte)
    (hsync : t.bromParams.magic.head? ≠ some t.bromParams.sync) :
    (t.withBsm (.magic got)).uartRx parts byte =
      if got + 1 = t.bromParams.magic.length then
        (t.withBsm (.cmd [])).send (le16 (crc16Xmodem t.bromParams.magic))
      else t.withBsm (.magic (got + 1)) := by
  have hpower := power_of_listening hon
  have hresync : ¬ (got = 0 ∧ byte = t.bromParams.sync) := by
    rintro ⟨rfl, rfl⟩
    exact hsync (List.head?_eq_getElem?.trans hbyte)
  simp only [uartRx, withBsm, hpower, Bool.false_eq_true, if_false, if_neg hresync, hbyte, if_true]
  rfl

/-- The magic word is answered with its CRC. -/
theorem hello_ok (hon : t.Listening) (hquiet : t.uartOut = []) (hidle : t.Idle)
    (hmagic : t.bromParams.magic ≠ [])
    (hsync : t.bromParams.magic.head? ≠ some t.bromParams.sync) :
    hello parts t.bromParams (t.withBsm (.magic 0)) = (.ok (), t.withBsm (.cmd [])) := by
  obtain ⟨front, last, hsplit⟩ : ∃ front last, t.bromParams.magic = front ++ [last] := by
    rcases List.eq_nil_or_concat t.bromParams.magic with hnil | ⟨front, last, h⟩
    · exact absurd hnil hmagic
    · exact ⟨front, last, h.trans List.concat_eq_append⟩
  have hlen : t.bromParams.magic.length = front.length + 1 := by
    rw [hsplit, List.length_append, List.length_singleton]
  have hkeep : ∀ i, (hi : i < front.length) →
      (t.withBsm (.magic (front.take i).length)).uartRx parts front[i] =
        t.withBsm (.magic (front.take (i + 1)).length) := by
    intro i hi
    have hbyte : t.bromParams.magic[i]? = some front[i] := by
      rw [hsplit, List.getElem?_append_left hi, List.getElem?_eq_getElem hi]
    rw [List.length_take, List.length_take, Nat.min_eq_left (Nat.le_of_lt hi), Nat.min_eq_left hi,
      uartRx_magic parts hon hbyte hsync, if_neg (by omega)]
  have hbyte : t.bromParams.magic[front.length]? = some last := by
    rw [hsplit, List.getElem?_append_right (Nat.le_refl _), Nat.sub_self]
    rfl
  have hcollect := writeAll_collect parts (fun heard => t.withBsm (.magic heard.length)) last hkeep
  have hsent : (t.withBsm (.magic 0)).writeAll parts t.bromParams.magic =
      (t.withBsm (.cmd [])).send (le16 (crc16Xmodem t.bromParams.magic)) := by
    refine (congrArg ((t.withBsm (.magic 0)).writeAll parts) hsplit).trans (hcollect.trans ?_)
    rw [uartRx_magic parts hon hbyte hsync, if_pos hlen.symm]
  have hread := readExact_send parts
    (t := (t.withBsm (.cmd [])).send (le16 (crc16Xmodem t.bromParams.magic)))
    ⟨hidle.noJump, hidle.still⟩ (le16 (crc16Xmodem t.bromParams.magic))
    (by rw [send]; show t.uartOut ++ _ = _; rw [hquiet, List.nil_append])
  rw [length_le16, drained (t := t.withBsm (.cmd [])) hquiet] at hread
  unfold hello
  rw [hsent, hread]
  exact if_pos (u16Of_le16 _)

theorem length_challengeOf (n : Nat) (rng : XorShift) : (challengeOf n rng).1.length = n := by
  induction n generalizing rng with
  | zero => rfl
  | succ n ih => exact congrArg (· + 1) (ih rng.nextU64.2)

/-- The right answer to a challenge opens the shell. -/
theorem writeAll_authResp (hon : t.Listening) {challenge response : Bytes}
    (hlen : response.length = 8)
    (hright : (parts.sha256 (t.bromParams.key ++ challenge)).bytes.take 8 = response) :
    (t.withBsm (.authResp challenge [])).writeAll parts response =
      ({ t with bromAuthed := true, bsm := .cmd [] } : SimTarget ν κ).send [Cmd.ACK] := by
  obtain ⟨front, last, rfl⟩ : ∃ front last, response = front ++ [last] := by
    rcases List.eq_nil_or_concat response with rfl | ⟨front, last, h⟩
    · cases hlen
    · exact ⟨front, last, h.trans List.concat_eq_append⟩
  have hpower := power_of_listening hon
  have hbyte : ∀ (heard : Bytes) (byte : UInt8),
      (t.withBsm (.authResp challenge heard)).uartRx parts byte =
        if (heard ++ [byte]).length = 8 then
          if (parts.sha256 (t.bromParams.key ++ challenge)).bytes.take 8 = heard ++ [byte] then
            ({ t with bromAuthed := true, bsm := .cmd [] } : SimTarget ν κ).send [Cmd.ACK]
          else (t.withBsm .waitSync).send [Cmd.NAK]
        else t.withBsm (.authResp challenge (heard ++ [byte])) := by
    intro heard byte
    simp only [uartRx, withBsm, hpower]
    rfl
  rw [List.length_append, List.length_singleton] at hlen
  have hkeep : ∀ i, (hi : i < front.length) →
      (t.withBsm (.authResp challenge (front.take i))).uartRx parts front[i] =
        t.withBsm (.authResp challenge (front.take (i + 1))) := by
    intro i hi
    rw [hbyte, List.take_append_getElem hi, if_neg]
    rw [List.length_take]
    omega
  have hcollect := writeAll_collect parts (fun heard => t.withBsm (.authResp challenge heard)) last
    hkeep
  rw [hcollect, hbyte, if_pos (by rw [List.length_append, List.length_singleton, hlen]),
    if_pos hright]

/-- The host, who has the key, is let in. -/
theorem auth_ok (hready : Ready t) :
    ∃ rng, auth parts t.bromParams t =
      (.ok (), { t with rng, bromAuthed := true }) := by
  obtain ⟨challenge, rng, hchallenge⟩ : ∃ challenge rng, challengeOf 8 t.rng = (challenge, rng) :=
    ⟨_, _, rfl⟩
  have height : challenge.length = 8 := by
    have h := length_challengeOf 8 t.rng
    rwa [hchallenge] at h
  have hargs : frameLength Cmd.AUTH = some (([] : Bytes).length + 3) := rfl
  have hrun : t.runCommand parts (commandFrame [Cmd.AUTH]) =
      ({ t with rng, bsm := .authResp challenge [] } : SimTarget ν κ).send
        (challenge ++ le16 (crc16Xmodem challenge)) := by
    show (SimTarget.send { t with
      rng := (challengeOf 8 t.rng).2, bsm := .authResp (challengeOf 8 t.rng).1 [] }
      ((challengeOf 8 t.rng).1 ++ le16 (crc16Xmodem (challengeOf 8 t.rng).1))) = _
    rw [hchallenge]
  have hread := readExact_send parts
    (t := ({ t with rng, bsm := .authResp challenge [] } : SimTarget ν κ).send
      (challenge ++ le16 (crc16Xmodem challenge)))
    ⟨hready.idle.noJump, hready.idle.still⟩ (challenge ++ le16 (crc16Xmodem challenge))
    (by rw [send]; show t.uartOut ++ _ = _; rw [hready.quiet, List.nil_append])
  rw [List.length_append, height, length_le16,
    drained (t := { t with rng, bsm := .authResp challenge [] }) hready.quiet] at hread
  have hdrop : (challenge ++ le16 (crc16Xmodem challenge)).drop 8 = le16 (crc16Xmodem challenge) :=
    List.drop_left' height
  have htake : (challenge ++ le16 (crc16Xmodem challenge)).take 8 = challenge :=
    List.take_left' height
  have hresponse : ((parts.sha256 (t.bromParams.key ++ challenge)).bytes.take 8).length = 8 := by
    rw [List.length_take, (parts.sha256 _).size]
    rfl
  have hanswer := writeAll_authResp (t := { t with rng }) parts
    ⟨hready.on.rails, hready.on.brom⟩ hresponse rfl
  have hack := expectAck_send parts (t := { t with rng, bromAuthed := true, bsm := .cmd [] })
    ⟨hready.idle.noJump, hready.idle.still⟩ hready.quiet
  refine ⟨rng, ?_⟩
  unfold auth sendFrame
  rw [writeAll_commandFrame parts hready.on hready.shell hargs, hrun, hread]
  simp only [hdrop, htake, u16Of_le16, ne_eq, not_true, if_false]
  refine (congrArg (expectAck parts) hanswer).trans (hack.trans ?_)
  rw [← hready.shell]

/-- A drive that has just been powered up: its shell waits for the sync byte, nothing waits on the
wire and nothing runs. The magic word of its profile does not begin with the sync byte. -/
structure PoweredUp (t : SimTarget ν κ) : Prop where
  on : t.Listening
  shell : t.bsm = .waitSync
  quiet : t.uartOut = []
  idle : t.Idle
  magic : t.bromParams.magic ≠ []
  sync : t.bromParams.magic.head? ≠ some t.bromParams.sync

/-- **What `open` establishes**: on a drive that has just been powered up, with the profile's own
knobs, the shell is ready and the host is let in; nothing but the shell has changed. -/
theorem openShell_ready (h : PoweredUp t) :
    ∃ t', openShell parts t.bromParams t = (.ok (), t') ∧ Ready t' ∧
      (t'.bromParams.authRequired = true → t'.bromAuthed = true) ∧
      ∃ rng authed, t' = { t with bsm := .cmd [], rng, bromAuthed := authed } := by
  have hready : Ready (t.withBsm (.cmd [])) :=
    ⟨⟨h.on.rails, h.on.brom⟩, rfl, h.quiet, ⟨h.idle.noJump, h.idle.still⟩⟩
  unfold openShell
  rw [autobaud_ok parts h.on h.shell h.quiet h.idle]
  simp only [hello_ok parts h.on h.quiet h.idle h.magic h.sync]
  cases hrequired : t.bromParams.authRequired with
  | false =>
    refine ⟨t.withBsm (.cmd []), rfl, hready, fun hauth => ?_, t.rng, t.bromAuthed, rfl⟩
    exact absurd (hrequired.symm.trans hauth) (by decide)
  | true =>
    obtain ⟨rng, hauth⟩ := auth_ok parts hready
    exact ⟨_, hauth, ⟨⟨h.on.rails, h.on.brom⟩, rfl, h.quiet, ⟨h.idle.noJump, h.idle.still⟩⟩,
      fun _ => rfl, rng, true, rfl⟩

end Open

/-! ## One chunk -/

section Chunk

variable {t : SimTarget ν κ} {line : Line} {addr total got : UInt32} {c : Nat} {chunk : Bytes}

/-- An attempt that arrives clean is stored and acknowledged. -/
theorem attempt_clean (hon : t.Listening) (hidle : t.Idle) (hquiet : t.uartOut = [])
    (hlen : chunk.length < 65536) (hsram : t.InSram (addr + got) chunk.length) :
    ((t.withBsm (.download addr total got [])).writeAll parts
      (chunkFrame chunk.length chunk (crc16Xmodem chunk))).uartRead parts =
        (some Cmd.ACK, (t.withSram (t.sramOffset (addr + got)) chunk).withBsm
          (received addr total (got + UInt32.ofNat chunk.length))) := by
  rw [writeAll_chunkFrame parts hon hlen rfl _ hsram, if_pos rfl]
  exact uartRead_send (t := (t.withSram (t.sramOffset (addr + got)) chunk).withBsm
    (received addr total (got + UInt32.ofNat chunk.length))) parts ⟨hidle.noJump, hidle.still⟩
    hquiet Cmd.ACK

/-- An attempt that arrives corrupted is refused, and the shell waits for the chunk again. -/
theorem attempt_corrupted (hon : t.Listening) (hidle : t.Idle) (hquiet : t.uartOut = [])
    (hlen : chunk.length < 65536) (hsram : t.InSram (addr + got) chunk.length)
    (hgot : ¬ total ≤ got) {attempt : Nat} (hbad : line.body c attempt chunk ≠ chunk) :
    ((t.withBsm (.download addr total got [])).writeAll parts
      (chunkFrame chunk.length (line.body c attempt chunk) (crc16Xmodem chunk))).uartRead parts =
        (some Cmd.NAK, t.withBsm (.download addr total got [])) := by
  rw [writeAll_chunkFrame parts hon hlen (line.length_body c attempt chunk) _ hsram,
    if_neg (line.detected c attempt chunk hbad), received, if_neg hgot]
  exact uartRead_send (t := t.withBsm (.download addr total got [])) parts
    ⟨hidle.noJump, hidle.still⟩ hquiet Cmd.NAK

/-- **A chunk is stored once, when one of the attempts that are left arrives clean.** -/
theorem sendChunk_ok (hon : t.Listening) (hidle : t.Idle) (hquiet : t.uartOut = [])
    (hlen : chunk.length < 65536) (hsram : t.InSram (addr + got) chunk.length)
    (hgot : ¬ total ≤ got) {left attempt : Nat}
    (hclean : ∃ k < left, line.body c (attempt + k) chunk = chunk) :
    sendChunk parts line c chunk left attempt (t.withBsm (.download addr total got [])) =
      (.ok (), (t.withSram (t.sramOffset (addr + got)) chunk).withBsm
        (received addr total (got + UInt32.ofNat chunk.length))) := by
  induction left generalizing attempt with
  | zero =>
    obtain ⟨k, hk, -⟩ := hclean
    cases hk
  | succ left ih =>
    by_cases hnow : line.body c attempt chunk = chunk
    · rw [sendChunk, hnow, attempt_clean parts hon hidle hquiet hlen hsram]
      rfl
    · have hlater : ∃ k < left, line.body c (attempt + 1 + k) chunk = chunk := by
        obtain ⟨k, hk, hbody⟩ := hclean
        cases k with
        | zero => exact absurd hbody hnow
        | succ k => exact ⟨k, Nat.lt_of_succ_lt_succ hk, by rwa [Nat.add_assoc, Nat.add_comm 1]⟩
      rw [sendChunk, attempt_corrupted parts hon hidle hquiet hlen hsram hgot hnow]
      show sendChunk parts line c chunk left (attempt + 1) _ = _
      exact ih hlater

/-- A chunk that never arrives clean ends the download. -/
theorem sendChunk_error (hon : t.Listening) (hidle : t.Idle) (hquiet : t.uartOut = [])
    (hlen : chunk.length < 65536) (hsram : t.InSram (addr + got) chunk.length)
    (hgot : ¬ total ≤ got) {left attempt : Nat}
    (hbad : ∀ k < left, line.body c (attempt + k) chunk ≠ chunk) :
    (sendChunk parts line c chunk left attempt (t.withBsm (.download addr total got []))).1 =
      .error (.fault "BROM kept NAKing chunk") := by
  induction left generalizing attempt with
  | zero => rfl
  | succ left ih =>
    have hnow : line.body c attempt chunk ≠ chunk := hbad 0 (Nat.succ_pos left)
    rw [sendChunk, attempt_corrupted parts hon hidle hquiet hlen hsram hgot hnow]
    show (sendChunk parts line c chunk left (attempt + 1) _).1 = _
    refine ih fun k hk => ?_
    have hlater := hbad (k + 1) (Nat.succ_lt_succ hk)
    rwa [Nat.add_comm k, ← Nat.add_assoc] at hlater

end Chunk

/-! ## The whole payload -/

section Payload

variable {t : SimTarget ν κ} {line : Line} {blob : Bytes} {addr : UInt32}

/-- The drive when `got` bytes of the payload have been accepted. -/
def progress (t : SimTarget ν κ) (blob : Bytes) (addr : UInt32) (got : Nat) : SimTarget ν κ :=
  (t.withSram (t.sramOffset addr) (blob.take got)).withBsm
    (received addr (UInt32.ofNat blob.length) (UInt32.ofNat got))

/-- Of the first four attempts of every chunk one arrives clean: no chunk is corrupted more than
three times. -/
def ArrivesByFourth (line : Line) (blob : Bytes) : Prop :=
  ∀ c < chunkCount blob, ∃ attempt < 4, line.body c attempt (chunkAt blob c) = chunkAt blob c

theorem chunk_start_lt {c : Nat} (hc : c < chunkCount blob) : CHUNK * c < blob.length := by
  unfold chunkCount CHUNK at *
  omega

theorem length_chunkAt (blob : Bytes) (c : Nat) :
    (chunkAt blob c).length = min CHUNK (blob.length - CHUNK * c) := by
  rw [chunkAt, slice, List.length_take, List.length_drop]

/-- What is there when a chunk begins: all of it is still to come. -/
theorem received_lt (hlen : blob.length < 2 ^ 32) {got : Nat} (hgot : got < blob.length) :
    ¬ UInt32.ofNat blob.length ≤ UInt32.ofNat got := by
  rw [UInt32.le_iff_toNat_le, UInt32.toNat_ofNat', UInt32.toNat_ofNat']
  omega

theorem inSram_progress (hsram : t.InSram addr blob.length) {got n : Nat}
    (h : got + n ≤ blob.length) :
    (t.withSram (t.sramOffset addr) (blob.take got)).InSram (addr + UInt32.ofNat got) n := by
  have hlength : (t.withSram (t.sramOffset addr) (blob.take got)).sram.length = t.sram.length := by
    refine patch_length ?_
    have hoff := hsram.offset_le
    rw [List.length_take]
    omega
  have hpart := (hsram.suffix (m := got) (by omega)).prefix_of_le (m := n) (by omega)
  exact ⟨hlength ▸ hpart.window, hpart.above, hlength ▸ hpart.below⟩

/-- Storing the next bytes of the payload behind those that are there. -/
theorem withSram_progress (hsram : t.InSram addr blob.length) {got n : Nat}
    (h : got + n ≤ blob.length) :
    (t.withSram (t.sramOffset addr) (blob.take got)).withSram
        ((t.withSram (t.sramOffset addr) (blob.take got)).sramOffset (addr + UInt32.ofNat got))
        (slice blob got n) =
      t.withSram (t.sramOffset addr) (blob.take (got + n)) := by
  have habove := hsram.above
  have hoff := hsram.offset_le
  have hlen : (blob.take got).length = got := by
    rw [List.length_take]
    omega
  have hoffset : (t.withSram (t.sramOffset addr) (blob.take got)).sramOffset
      (addr + UInt32.ofNat got) = t.sramOffset addr + (blob.take got).length := by
    rw [hlen]
    show (addr + UInt32.ofNat got).toNat - t.map.sramBase.toNat =
      addr.toNat - t.map.sramBase.toNat + got
    rw [hsram.toNat_add (by omega)]
    omega
  have hjoined : patch (patch t.sram (t.sramOffset addr) (blob.take got))
      (t.sramOffset addr + (blob.take got).length) (slice blob got n) =
        patch t.sram (t.sramOffset addr) (blob.take (got + n)) := by
    rw [patch_patch (by omega), List.take_add, slice]
  rw [hoffset, withSram, withSram, withSram, hjoined]

/-- One chunk of the payload takes the drive to the start of the next. -/
theorem sendChunk_progress (hready : Ready t) (hlen : blob.length < 2 ^ 32)
    (hsram : t.InSram addr blob.length) {c : Nat} (hc : c < chunkCount blob)
    (hclean : ∃ attempt < 4, line.body c attempt (chunkAt blob c) = chunkAt blob c) :
    sendChunk parts line c (chunkAt blob c) 4 0 (progress t blob addr (CHUNK * c)) =
      (.ok (), progress t blob addr (min (CHUNK * (c + 1)) blob.length)) := by
  have hstart := chunk_start_lt hc
  have hchunk := length_chunkAt blob c
  have hsize : (chunkAt blob c).length < 65536 := by
    rw [hchunk]
    exact Nat.lt_of_le_of_lt (Nat.min_le_left _ _) (by decide)
  have hfits : CHUNK * c + (chunkAt blob c).length ≤ blob.length := by omega
  have hnext : CHUNK * c + (chunkAt blob c).length = min (CHUNK * (c + 1)) blob.length := by
    rw [hchunk, Nat.mul_succ]
    omega
  have hslice : chunkAt blob c = slice blob (CHUNK * c) (chunkAt blob c).length := by
    rw [hchunk, chunkAt, slice, slice, List.take_eq_take_iff, List.length_drop]
    omega
  have hbegin : progress t blob addr (CHUNK * c) =
      (t.withSram (t.sramOffset addr) (blob.take (CHUNK * c))).withBsm
        (.download addr (UInt32.ofNat blob.length) (UInt32.ofNat (CHUNK * c)) []) := by
    rw [progress, received, if_neg (received_lt hlen hstart)]
  have hstored := withSram_progress hsram hfits
  rw [← hslice] at hstored
  have hclean' : ∃ k < 4, line.body c (0 + k) (chunkAt blob c) = chunkAt blob c := by
    simpa only [Nat.zero_add] using hclean
  have hsent := sendChunk_ok parts
    (t := t.withSram (t.sramOffset addr) (blob.take (CHUNK * c)))
    ⟨hready.on.rails, hready.on.brom⟩ ⟨hready.idle.noJump, hready.idle.still⟩ hready.quiet hsize
    (inSram_progress hsram hfits) (received_lt hlen hstart) hclean'
  rw [hbegin, hsent, hstored, ← UInt32.ofNat_add, hnext]
  rfl

/-- **The run over the chunks**: when each of them arrives, the whole payload is stored. -/
theorem sendChunks_ok (hready : Ready t) (hlen : blob.length < 2 ^ 32)
    (hsram : t.InSram addr blob.length) {left c : Nat} (hleft : c + left = chunkCount blob)
    (hclean : ∀ c', c ≤ c' → c' < chunkCount blob →
      ∃ attempt < 4, line.body c' attempt (chunkAt blob c') = chunkAt blob c') :
    sendChunks parts line blob left c (progress t blob addr (min (CHUNK * c) blob.length)) =
      (.ok (), progress t blob addr blob.length) := by
  induction left generalizing c with
  | zero =>
    have hend : min (CHUNK * c) blob.length = blob.length := by
      unfold chunkCount CHUNK at *
      omega
    rw [sendChunks, hend]
  | succ left ih =>
    have hc : c < chunkCount blob := by omega
    have hstart := chunk_start_lt hc
    rw [sendChunks, Nat.min_eq_left (Nat.le_of_lt hstart),
      sendChunk_progress parts hready hlen hsram hc (hclean c (Nat.le_refl c) hc)]
    show sendChunks parts line blob left (c + 1) _ = _
    exact ih (by omega) fun c' hle hlt => hclean c' (by omega) hlt

/-- When a chunk does not arrive, the run ends with an error. -/
theorem sendChunks_error (hready : Ready t) (hlen : blob.length < 2 ^ 32)
    (hsram : t.InSram addr blob.length) {left c : Nat} (hleft : c + left = chunkCount blob)
    (hbad : ∃ c', c ≤ c' ∧ c' < chunkCount blob ∧
      ∀ attempt < 4, line.body c' attempt (chunkAt blob c') ≠ chunkAt blob c') :
    ∃ e, (sendChunks parts line blob left c
      (progress t blob addr (min (CHUNK * c) blob.length))).1 = .error e := by
  induction left generalizing c with
  | zero =>
    obtain ⟨c', hle, hlt, -⟩ := hbad
    omega
  | succ left ih =>
    have hc : c < chunkCount blob := by omega
    have hstart := chunk_start_lt hc
    by_cases hclean : ∃ attempt < 4, line.body c attempt (chunkAt blob c) = chunkAt blob c
    · -- this chunk arrives; the one that does not is a later one
      have hlater : ∃ c', c + 1 ≤ c' ∧ c' < chunkCount blob ∧
          ∀ attempt < 4, line.body c' attempt (chunkAt blob c') ≠ chunkAt blob c' := by
        obtain ⟨c', hle, hlt, hall⟩ := hbad
        rcases Nat.eq_or_lt_of_le hle with rfl | hle
        · obtain ⟨attempt, hattempt, hbody⟩ := hclean
          exact absurd hbody (hall attempt hattempt)
        · exact ⟨c', hle, hlt, hall⟩
      rw [sendChunks, Nat.min_eq_left (Nat.le_of_lt hstart),
        sendChunk_progress parts hready hlen hsram hc hclean]
      exact ih (by omega) hlater
    · have hall : ∀ k < 4, line.body c (0 + k) (chunkAt blob c) ≠ chunkAt blob c := fun k hk hbody =>
        hclean ⟨0 + k, by omega, hbody⟩
      have hchunk := length_chunkAt blob c
      have hsize : (chunkAt blob c).length < 65536 := by
        rw [hchunk]
        exact Nat.lt_of_le_of_lt (Nat.min_le_left _ _) (by decide)
      have hrefused := sendChunk_error parts
        (t := t.withSram (t.sramOffset addr) (blob.take (CHUNK * c)))
        ⟨hready.on.rails, hready.on.brom⟩ ⟨hready.idle.noJump, hready.idle.still⟩ hready.quiet hsize
        (inSram_progress hsram (n := (chunkAt blob c).length) (by omega))
        (received_lt hlen hstart) hall
      rw [sendChunks, Nat.min_eq_left (Nat.le_of_lt hstart), progress, received,
        if_neg (received_lt hlen hstart)]
      rcases hsent : sendChunk parts line c (chunkAt blob c) 4 0
        ((t.withSram (t.sramOffset addr) (blob.take (CHUNK * c))).withBsm
          (.download addr (UInt32.ofNat blob.length) (UInt32.ofNat (CHUNK * c)) []))
        with ⟨_ | _, t'⟩
      · exact ⟨_, rfl⟩
      · rw [hsent] at hrefused
        cases hrefused

/-- The shell agrees to the download and waits for the first chunk. -/
theorem announce (hready : Ready t) (hauth : t.bromParams.authRequired = true → t.bromAuthed = true)
    (hne : blob ≠ []) (hlen : blob.length < 2 ^ 32) :
    expectAck parts (sendFrame parts
      (Cmd.DOWNLOAD :: (le32 addr.toNat ++ le32 blob.length)) t) =
        (.ok (), progress t blob addr 0) := by
  have hargs : frameLength Cmd.DOWNLOAD =
      some ((le32 addr.toNat ++ le32 blob.length).length + 3) := rfl
  have haddr : u32Of (slice (commandFrame (Cmd.DOWNLOAD :: (le32 addr.toNat ++ le32 blob.length)))
      1 4) = addr := u32Of_le32 addr
  have htotal : u32Of (slice (commandFrame (Cmd.DOWNLOAD :: (le32 addr.toNat ++ le32 blob.length)))
      5 4) = UInt32.ofNat blob.length := by
    show UInt32.ofNat (ofLe (le32 blob.length)) = UInt32.ofNat blob.length
    rw [ofLe_le32 hlen]
  have hallowed : (t.bromParams.authRequired && !t.bromAuthed) = false := by
    cases hrequired : t.bromParams.authRequired with
    | false => rfl
    | true => rw [hauth hrequired]; rfl
  have hbegin : progress t blob addr 0 =
      t.withBsm (.download addr (UInt32.ofNat blob.length) 0 []) := by
    rw [progress, List.take_zero, withSram, patch_nil, received,
      if_neg (received_lt hlen (List.length_pos_iff.mpr hne))]
    rfl
  have hrun : t.runCommand parts
      (commandFrame (Cmd.DOWNLOAD :: (le32 addr.toNat ++ le32 blob.length))) =
        (t.withBsm (.download addr (UInt32.ofNat blob.length) 0 [])).send [Cmd.ACK] := by
    show (if t.bromParams.authRequired && !t.bromAuthed then t.send [Cmd.NAK]
      else ({ t with bsm := .download (u32Of (slice _ 1 4)) (u32Of (slice _ 5 4)) 0 [] } :
        SimTarget ν κ).send [Cmd.ACK]) = _
    rw [hallowed, haddr, htotal]
    rfl
  rw [sendFrame, writeAll_commandFrame parts hready.on hready.shell hargs, hrun, hbegin]
  exact expectAck_send (t := t.withBsm (.download addr (UInt32.ofNat blob.length) 0 [])) parts
    ⟨hready.idle.noJump, hready.idle.still⟩ hready.quiet

/-- **A download succeeds exactly when every chunk arrives by its fourth attempt**, and then the
payload lies at its address and the shell waits for a command. -/
theorem download_eq (hready : Ready t)
    (hauth : t.bromParams.authRequired = true → t.bromAuthed = true) (hne : blob ≠ [])
    (hsram : t.InSram addr blob.length) :
    ((download parts line blob addr t).1 = .ok () ↔ ArrivesByFourth line blob) ∧
      ((download parts line blob addr t).1 = .ok () →
        (download parts line blob addr t).2 = t.withSram (t.sramOffset addr) blob) := by
  have hlen : blob.length < 2 ^ 32 := by
    have hwindow := hsram.window
    have hoff := hsram.offset_le
    omega
  have hstart : progress t blob addr 0 = progress t blob addr (min (CHUNK * 0) blob.length) := by
    rw [Nat.mul_zero, Nat.zero_min]
  have hannounced := @announce _ _ parts t blob addr hready hauth hne hlen
  rw [hstart] at hannounced
  have hdownload : download parts line blob addr t = sendChunks parts line blob (chunkCount blob) 0
      (progress t blob addr (min (CHUNK * 0) blob.length)) := by
    unfold download
    rw [hannounced]
  have hend : progress t blob addr blob.length = t.withSram (t.sramOffset addr) blob := by
    rw [progress, List.take_length, received, if_pos (UInt32.le_refl _)]
    exact withBsm_self hready.shell
  by_cases harrives : ArrivesByFourth line blob
  · have hok := sendChunks_ok parts hready hlen hsram (c := 0) (Nat.zero_add _)
      fun c' _ hlt => harrives c' hlt
    rw [hdownload, hok, hend]
    exact ⟨iff_of_true rfl harrives, fun _ => rfl⟩
  · have hbad : ∃ c', 0 ≤ c' ∧ c' < chunkCount blob ∧
        ∀ attempt < 4, line.body c' attempt (chunkAt blob c') ≠ chunkAt blob c' := by
      simp only [ArrivesByFourth, not_forall, not_exists, not_and] at harrives
      obtain ⟨c', hlt, hall⟩ := harrives
      exact ⟨c', Nat.zero_le c', hlt, hall⟩
    have hleft : 0 + chunkCount blob = chunkCount blob := Nat.zero_add _
    obtain ⟨e, he⟩ := sendChunks_error parts hready hlen hsram hleft hbad
    rw [hdownload, he]
    exact ⟨iff_of_false nofun harrives, nofun⟩

end Payload

/-! ## The commands that follow -/

/-- A read on the bus changes nothing but the NAND controller. -/
theorem coreRead_snd (t : SimTarget ν κ) (addr : UInt32) (w : Width) :
    ∃ nand, (t.coreRead parts addr w).2 = { t with nand } := by
  unfold coreRead
  split
  · split <;> exact ⟨t.nand, rfl⟩
  · exact ⟨_, rfl⟩
  · exact ⟨t.nand, rfl⟩
  · split
    · exact ⟨t.nand, rfl⟩
    · split <;> exact ⟨t.nand, rfl⟩
  · exact ⟨t.nand, rfl⟩

/-- Only the transmit register puts bytes on the wire. -/
theorem coreWrite_quiet {t : SimTarget ν κ} {addr : UInt32} (h : t.region addr ≠ .uart 0)
    (value : UInt32) (w : Width) : (t.coreWrite parts addr value w).2.uartOut = t.uartOut := by
  unfold coreWrite
  split
  · split <;> rfl
  · rfl
  · next off hoff =>
    rw [if_neg fun hzero => h (hoff.trans (congrArg Region.uart hzero.1))]
  · split
    · split <;> rfl
    · split <;> rfl
  · rfl

/-- The reply is the first byte that waits, whatever the core adds in its turn. -/
theorem uartRead_fst {t : SimTarget ν κ} {b : UInt8} {rest : Bytes} (h : t.uartOut = b :: rest) :
    (t.uartRead parts).1 = some b := by
  obtain ⟨sent, hsent⟩ := service_uartOut parts t
  show (t.service parts).uartOut.head? = some b
  rw [hsent, h]
  rfl

theorem expectAck_first {t : SimTarget ν κ} {rest : Bytes} (h : t.uartOut = Cmd.ACK :: rest) :
    expectAck parts t = (.ok (), (t.uartRead parts).2) := by
  have hfirst := uartRead_fst parts h
  rw [expectAck]
  rcases hread : t.uartRead parts with ⟨_ | b, t'⟩
  · rw [hread] at hfirst
    cases hfirst
  · rw [hread] at hfirst
    rw [Option.some.inj hfirst]
    rfl

section Answers

variable {t : SimTarget ν κ}

/-- A word and its CRC, read back. -/
theorem readExact_word {t : SimTarget ν κ} (hidle : t.Idle) (hquiet : t.uartOut = [])
    (val : UInt32) :
    readExact parts 6 (t.send (le32 val.toNat ++ le16 (crc16Xmodem (le32 val.toNat)))) =
      (some (le32 val.toNat ++ le16 (crc16Xmodem (le32 val.toNat))), t) := by
  have hread := readExact_send parts
    (t := t.send (le32 val.toNat ++ le16 (crc16Xmodem (le32 val.toNat))))
    ⟨hidle.noJump, hidle.still⟩ (le32 val.toNat ++ le16 (crc16Xmodem (le32 val.toNat)))
    (by rw [send, hquiet, List.nil_append])
  rwa [List.length_append, le32_length, length_le16, drained hquiet] at hread

/-- A peek reads the word on the bus. -/
theorem peek32_ready (hready : Ready t) (addr : UInt32) :
    peek32 parts addr t =
      (.ok ((t.coreRead parts addr .word).1.getD 0xDEADDEAD), (t.coreRead parts addr .word).2) := by
  have hargs : frameLength Cmd.PEEK = some ((le32 addr.toNat).length + 3) := rfl
  have haddr : u32Of (slice (commandFrame (Cmd.PEEK :: le32 addr.toNat)) 1 4) = addr :=
    u32Of_le32 addr
  have hcode : (commandFrame (Cmd.PEEK :: le32 addr.toNat)).headD 0 = Cmd.PEEK := rfl
  have hrun := runCommand_peek parts (t := t) hcode haddr
  unfold peek32 sendFrame
  rw [writeAll_commandFrame parts hready.on hready.shell hargs, hrun]
  generalize (t.coreRead parts addr .word).1.getD 0xDEADDEAD = val
  obtain ⟨nand, hnand⟩ := coreRead_snd parts t addr .word
  have hread := readExact_word parts (t := { t with nand }) ⟨hready.idle.noJump, hready.idle.still⟩
    hready.quiet val
  have hdrop : (le32 val.toNat ++ le16 (crc16Xmodem (le32 val.toNat))).drop 4 =
      le16 (crc16Xmodem (le32 val.toNat)) := List.drop_left' (le32_length _)
  have htake : (le32 val.toNat ++ le16 (crc16Xmodem (le32 val.toNat))).take 4 = le32 val.toNat :=
    List.take_left' (le32_length _)
  rw [hnand, hread]
  simp only [hdrop, htake, u16Of_le16, u32Of_le32, ne_eq, not_true, if_false]

/-- The frame of a poke is run as a bus write and an acknowledgement. -/
theorem sendFrame_poke (hready : Ready t) (addr value : UInt32) :
    sendFrame parts (Cmd.POKE :: (le32 addr.toNat ++ le32 value.toNat)) t =
      (t.coreWrite parts addr value .word).2.send [Cmd.ACK] := by
  have hargs : frameLength Cmd.POKE =
      some ((le32 addr.toNat ++ le32 value.toNat).length + 3) := rfl
  have hfirst : u32Of (slice (commandFrame (Cmd.POKE :: (le32 addr.toNat ++ le32 value.toNat)))
      1 4) = addr := u32Of_le32 addr
  have hsecond : u32Of (slice (commandFrame (Cmd.POKE :: (le32 addr.toNat ++ le32 value.toNat)))
      5 4) = value := u32Of_le32 value
  rw [sendFrame, writeAll_commandFrame parts hready.on hready.shell hargs]
  show (t.coreWrite parts (u32Of (slice _ 1 4)) (u32Of (slice _ 5 4)) .word).2.send [Cmd.ACK] = _
  rw [hfirst, hsecond]

/-- A poke writes the word on the bus; it is acknowledged unless the write itself transmits. -/
theorem poke32_ready (hready : Ready t) {addr : UInt32} (haddr : t.region addr ≠ .uart 0)
    (value : UInt32) :
    poke32 parts addr value t =
      (.ok (), (((t.coreWrite parts addr value .word).2.send [Cmd.ACK]).uartRead parts).2) := by
  rw [poke32, sendFrame_poke parts hready]
  have hout : ((t.coreWrite parts addr value .word).2.send [Cmd.ACK]).uartOut = [Cmd.ACK] := by
    rw [send, coreWrite_quiet parts haddr, hready.quiet, List.nil_append]
  exact expectAck_first parts hout

/-- A jump is acknowledged, and the core is started at the entry. -/
theorem jump_ready (hready : Ready t) (entry : UInt32) :
    jump parts entry t =
      (.ok (), ((({ t with bromJumped := true, pendingJump := some entry } : SimTarget ν κ).send
        [Cmd.ACK]).uartRead parts).2) := by
  have hargs : frameLength Cmd.JUMP = some ((le32 entry.toNat).length + 3) := rfl
  have hfirst : u32Of (slice (commandFrame (Cmd.JUMP :: le32 entry.toNat)) 1 4) = entry :=
    u32Of_le32 entry
  have hrun : t.runCommand parts (commandFrame (Cmd.JUMP :: le32 entry.toNat)) =
      ({ t with bromJumped := true, pendingJump := some entry } : SimTarget ν κ).send
        [Cmd.ACK] := by
    show ({ t with bromJumped := true, pendingJump := some (u32Of (slice _ 1 4)) } :
      SimTarget ν κ).send [Cmd.ACK] = _
    rw [hfirst]
  rw [jump, sendFrame, writeAll_commandFrame parts hready.on hready.shell hargs, hrun]
  have hout : (({ t with bromJumped := true, pendingJump := some entry } : SimTarget ν κ).send
      [Cmd.ACK]).uartOut = [Cmd.ACK] := by
    rw [send, hready.quiet, List.nil_append]
  exact expectAck_first parts hout

/-- What the next command finds: a peek the word on the bus, a poke its write, a jump its start, each
with its own reply. -/
structure Answers (t : SimTarget ν κ) : Prop where
  peek : ∀ addr, peek32 parts addr t =
    (.ok ((t.coreRead parts addr .word).1.getD 0xDEADDEAD), (t.coreRead parts addr .word).2)
  poke : ∀ addr value, t.region addr ≠ .uart 0 → poke32 parts addr value t =
    (.ok (), (((t.coreWrite parts addr value .word).2.send [Cmd.ACK]).uartRead parts).2)
  jump : ∀ entry, jump parts entry t =
    (.ok (), ((({ t with bromJumped := true, pendingJump := some entry } : SimTarget ν κ).send
      [Cmd.ACK]).uartRead parts).2)

theorem Ready.answers (hready : Ready t) : Answers parts t :=
  ⟨peek32_ready parts hready, fun _ value haddr => poke32_ready parts hready haddr value,
    jump_ready parts hready⟩

end Answers

/-- **Boot-ROM download is reliable.** On a shell that waits for a command, a download succeeds
exactly when every chunk arrives by its fourth attempt; then SRAM holds the payload at its address and
is otherwise as it was, as is the rest of the drive; the shell waits for a command, and the peek, the
poke (to any register that does not transmit) and the jump that follow are answered. -/
theorem download_reliable {t : SimTarget ν κ} {line : Line} {blob : Bytes} {addr : UInt32}
    (hready : Ready t) (hauth : t.bromParams.authRequired = true → t.bromAuthed = true)
    (hne : blob ≠ []) (hsram : t.InSram addr blob.length) :
    ((download parts line blob addr t).1 = .ok () ↔ ArrivesByFourth line blob) ∧
      ((download parts line blob addr t).1 = .ok () →
        ∃ t', download parts line blob addr t = (.ok (), t') ∧
          t' = { t with sram := patch t.sram (t.sramOffset addr) blob } ∧
          slice t'.sram (t.sramOffset addr) blob.length = blob ∧
          t'.bsm = .cmd [] ∧ Answers parts t') := by
  obtain ⟨hiff, hstate⟩ := @download_eq _ _ parts t line blob addr hready hauth hne hsram
  refine ⟨hiff, fun hok => ?_⟩
  have hready' : Ready (t.withSram (t.sramOffset addr) blob) :=
    ⟨⟨hready.on.rails, hready.on.brom⟩, hready.shell, hready.quiet,
      ⟨hready.idle.noJump, hready.idle.still⟩⟩
  have hoff : t.sramOffset addr ≤ t.sram.length :=
    Nat.le_trans (Nat.le_add_right _ _) hsram.offset_le
  exact ⟨t.withSram (t.sramOffset addr) blob, Prod.ext hok (hstate hok), rfl,
    slice_patch_self hoff, hready.shell, hready'.answers parts⟩

/-! ## A payload from power-up -/

/-- The drive when the host has read the acknowledgement of a jump. The core has had its turn by
then; an entry without the Thumb bit is acknowledged all the same, and starts nothing. -/
def afterJump (t : SimTarget ν κ) (entry : UInt32) : SimTarget ν κ :=
  if entry &&& 1 = 1 then
    let started : Core κ := { t.core with
      running := true, parked := false, halted := false, faulted := false
      registers := parts.startedAt entry t.core.registers }
    let turn := exec parts (parts.run started 400000)
      (({ t with core := { registers := parts.zeroed } } : SimTarget ν κ).send [Cmd.ACK])
    { turn.2 with core := turn.1, uartOut := turn.2.uartOut.tail }
  else t

theorem uartRead_jumped {t : SimTarget ν κ} (hidle : t.Idle) (hquiet : t.uartOut = [])
    (entry : UInt32) :
    ((({ t with bromJumped := true, pendingJump := some entry } : SimTarget ν κ).send
        [Cmd.ACK]).uartRead parts).2 = afterJump parts { t with bromJumped := true } entry := by
  obtain ⟨hjump, hstill⟩ := hidle
  cases t
  simp only at hjump hquiet hstill
  subst hjump hquiet
  by_cases hthumb : entry &&& 1 = 1
  · simp only [uartRead, service, send, Core.start, afterJump, hthumb, if_true, Bool.not_false,
      Bool.and_self]
  · simp only [uartRead, service, send, Core.start, afterJump, hthumb, if_false, hstill,
      Bool.false_eq_true, List.nil_append, List.tail_cons]

/-- **A payload starts from power-up** exactly when every chunk arrives by its fourth attempt:
nothing but the download can fail. What the core then runs on is the drive with the payload at its
address, otherwise as it was but for the shell. -/
theorem payload_starts {t : SimTarget ν κ} {line : Line} {blob : Bytes} {addr : UInt32}
    (hpower : PoweredUp t) (hne : blob ≠ []) (hsram : t.InSram addr blob.length) (entry : UInt32) :
    ((stageOne parts t.bromParams line blob addr entry t).1 = .ok () ↔ ArrivesByFourth line blob) ∧
      (∀ step e, (stageOne parts t.bromParams line blob addr entry t).1 = .error (step, e) →
        step = "probe download failed") ∧
      (ArrivesByFourth line blob → ∃ rng authed, ∃ loaded : SimTarget ν κ,
        loaded = { t with
          sram := patch t.sram (t.sramOffset addr) blob, bsm := .cmd [], rng, bromAuthed := authed
          bromJumped := true } ∧
        slice loaded.sram (t.sramOffset addr) blob.length = blob ∧
        (stageOne parts t.bromParams line blob addr entry t).2 = afterJump parts loaded entry) := by
  obtain ⟨_, hopen, hready, hauth, rng, authed, rfl⟩ := openShell_ready parts hpower
  set shell : SimTarget ν κ := { t with bsm := .cmd [], rng, bromAuthed := authed }
  obtain ⟨hiff, hstate⟩ := @download_eq _ _ parts shell line blob addr hready hauth hne
    ⟨hsram.window, hsram.above, hsram.below⟩
  have hoff : t.sramOffset addr ≤ t.sram.length :=
    Nat.le_trans (Nat.le_add_right _ _) hsram.offset_le
  rcases hdownload : download parts line blob addr shell with ⟨_ | _, loaded⟩
  · -- the download fails, and with it the stage
    rw [hdownload] at hiff
    have hnot : ¬ ArrivesByFourth line blob := fun harrives => nomatch hiff.mpr harrives
    simp only [stageOne, hopen, hdownload]
    refine ⟨iff_of_false nofun hnot, fun step e h => ?_, fun h => absurd h hnot⟩
    exact (congrArg Prod.fst (Except.error.inj h)).symm
  · rw [hdownload] at hiff hstate
    have hloaded : loaded = shell.withSram (t.sramOffset addr) blob := hstate rfl
    have hready' : Ready loaded := by
      rw [hloaded]
      exact ⟨⟨hready.on.rails, hready.on.brom⟩, hready.shell, hready.quiet,
        ⟨hready.idle.noJump, hready.idle.still⟩⟩
    have hrun : stageOne parts t.bromParams line blob addr entry t
        = (.ok (), afterJump parts { loaded with bromJumped := true } entry) := by
      simp only [stageOne, hopen, hdownload, jump_ready parts hready' entry,
        uartRead_jumped parts hready'.idle hready'.quiet entry]
    rw [hrun]
    refine ⟨iff_of_true rfl (hiff.mp rfl), nofun, fun _ => ?_⟩
    refine ⟨rng, authed, { loaded with bromJumped := true }, ?_, ?_, rfl⟩
    · rw [hloaded]
      rfl
    · rw [hloaded]
      exact slice_patch_self hoff

/-! ## A drive on the bench -/

/-- Parts that are never asked: nothing runs and nothing is read from the NAND. -/
def benchParts : Parts Unit Unit where
  mmioRead _ _ := (0, ())
  mmioWrite _ _ _ := ()
  zeroed := ()
  startedAt _ _ := ()
  run core _ := .done core
  sha256 _ := ⟨List.replicate 32 0, zeroDigest_length⟩

/-- A Marvell 88SS1077 with its shell open. -/
def benchTarget : SimTarget Unit Unit where
  map := ⟨0x10000000, 0xD1000000, 0xE0001000, 0xD1002000⟩
  sram := List.replicate 32 0
  nand := ()
  core := { registers := () }
  bsm := .cmd []
  bromParams := { magic := [0x4D, 0x52, 0x56, 0x4C] }
  rng := .new 1

/-- A line that corrupts the first three attempts. -/
def noisyLine : Line where
  body _ attempt sent := if attempt < 3 ∧ sent = [0xAA] then [0xAB] else sent
  length_body _ attempt sent := by
    split
    · next h => rw [h.2]; rfl
    · rfl
  detected _ attempt sent h := by
    split at h
    · next hbad =>
      rw [if_pos hbad, hbad.2]
      decide
    · exact absurd rfl h

theorem benchTarget_ready : Ready benchTarget := ⟨⟨rfl, rfl⟩, rfl, rfl, ⟨rfl, rfl⟩⟩

/-- Three corrupted attempts do no harm. -/
theorem download_survives_three : (download benchParts noisyLine [0xAA] 0x10000000 benchTarget).1 =
    .ok () := by
  refine (download_reliable benchParts benchTarget_ready nofun (by decide) ⟨by decide, by decide,
    by decide⟩).1.mpr fun c hc => ⟨3, by decide, ?_⟩
  have hzero : c = 0 := Nat.lt_one_iff.mp hc
  subst hzero
  decide

/-- The drive of the bench as it is powered up. -/
def coldBench : SimTarget Unit Unit := { benchTarget with bsm := .waitSync }

theorem coldBench_poweredUp : PoweredUp coldBench :=
  ⟨⟨rfl, rfl⟩, rfl, rfl, ⟨rfl, rfl⟩, by decide, by decide⟩

/-- A payload of one byte starts there, over the noise. -/
theorem payload_starts_cold : (stageOne benchParts coldBench.bromParams noisyLine [0xAA] 0x10000000
    0x10000001 coldBench).1 = .ok () := by
  refine (payload_starts benchParts coldBench_poweredUp (by decide) ⟨by decide, by decide, by decide⟩
    0x10000001).1.mpr fun c hc => ⟨3, by decide, ?_⟩
  have hzero : c = 0 := Nat.lt_one_iff.mp hc
  subst hzero
  decide

/-- A poke to the transmit register sends a heartbeat ahead of its acknowledgement: the host takes
the first byte for the reply, and the next reply is no reply either. -/
theorem poke_transmits_ahead_of_reply :
    let sent := download benchParts .clear [0xAA] 0x10000000 benchTarget
    let poked := poke32 benchParts 0xD1002000 1 sent.2
    sent.1 = .ok () ∧ poked.1 = .error (.fault "unexpected BROM reply byte") ∧
      (peek32 benchParts 0x10000000 poked.2).1 = .error (.fault "PEEK CRC mismatch") := by
  decide +kernel

end BromChannel

end DiscCleaner.Resurrect
