import DiscCleaner.Resurrect.Wire

/-!
# The simulated drive and its Boot-ROM shell (dc-resurrect `sim/target.rs`)

The device end of the Boot-ROM UART: a shell that collects frames byte by byte, checks their CRC and
answers, over a memory bus with SRAM, the NAND controller, the UART transmit register and the debug
block. The NAND controller, the instruction interpreter and SHA-256 are parameters; the interpreter
reaches the board only through bus accesses.
-/

namespace DiscCleaner.Resurrect

open ByteLib

/-! ## Profile and parts -/

/-- Vendor knobs for the BROM shell. -/
structure BromParams where
  sync : UInt8 := 0x55
  ack : UInt8 := 0x5A
  magic : Bytes
  authRequired : Bool := false
  key : Bytes := []
  deriving DecidableEq

/-- The memory map of a controller. -/
structure MemoryMap where
  sramBase : UInt32
  nandMmio : UInt32
  dbgMmio : UInt32
  uartMmio : UInt32
  deriving DecidableEq

inductive Width where
  | byte | half | word
  deriving DecidableEq

def Width.bytes : Width → Nat
  | .byte => 1
  | .half => 2
  | .word => 4

/-- A run of the interpreter, as the accesses it makes through `CoreBus`; an access may fail. -/
inductive BusProg (α : Type) where
  | done (a : α)
  | read (addr : UInt32) (w : Width) (next : Option UInt32 → BusProg α)
  | write (addr value : UInt32) (w : Width) (next : Option Unit → BusProg α)

/-- The reference core: its outcome flags, and the registers as far as only the interpreter looks at
them. -/
structure Core (κ : Type) where
  running : Bool := false
  parked : Bool := false
  halted : Bool := false
  faulted : Bool := false
  executed : UInt64 := 0
  registers : κ
  deriving DecidableEq

/-- The parts of the board that are not modelled: the NAND controller behind its register block, the
interpreter, the hash of the challenge. -/
structure Parts (ν κ : Type) where
  mmioRead : ν → UInt32 → UInt32 × ν
  mmioWrite : ν → UInt32 → UInt32 → ν
  /-- Registers of a new core. -/
  zeroed : κ
  /-- Registers with the program counter at an entry point. -/
  startedAt : UInt32 → κ → κ
  /-- Run a core for a number of instructions. -/
  run : Core κ → Nat → BusProg (Core κ)
  sha256 : Bytes → Block 32

namespace Core

variable {ν κ : Type} (parts : Parts ν κ)

/-- `Core::start`; an entry without the Thumb bit is refused. -/
def start (core : Core κ) (entry : UInt32) : Core κ :=
  if entry &&& 1 = 1 then
    { core with
      running := true, parked := false, halted := false, faulted := false
      registers := parts.startedAt entry core.registers }
  else core

def halt (core : Core κ) : Core κ := { core with running := false, halted := true }

end Core

/-! ## The board -/

namespace Cmd

def DOWNLOAD : UInt8 := 0x01
def AUTH : UInt8 := 0x02
def JUMP : UInt8 := 0x03
def PEEK : UInt8 := 0x05
def POKE : UInt8 := 0x06
def ACK : UInt8 := 0x06
def NAK : UInt8 := 0x15

end Cmd

/-- The shell's state. -/
inductive Bsm where
  | waitSync
  | magic (got : Nat)
  | cmd (buf : Bytes)
  | authResp (challenge resp : Bytes)
  | download (addr total got : UInt32) (chunk : Bytes)
  deriving DecidableEq

structure SimTarget (ν κ : Type) where
  map : MemoryMap
  railsAlive : Bool := true
  faultedAtBoot : Bool := false
  sram : Bytes
  nand : ν
  core : Core κ
  bsm : Bsm := .waitSync
  bromEnabled : Bool := true
  bromJumped : Bool := false
  bromAuthed : Bool := false
  bromParams : BromParams
  uartOut : Bytes := []
  pendingJump : Option UInt32 := none
  rng : XorShift

namespace SimTarget

variable {ν κ : Type} (parts : Parts ν κ)

/-! ## The bus -/

/-- What an address selects. The windows are tried in this order. -/
inductive Region where
  | sram (off : Nat)
  | nand (off : UInt32)
  | uart (off : UInt32)
  | dbg (off : UInt32)
  | unmapped
  deriving DecidableEq

def inWindow (addr base size : UInt32) : Bool := base ≤ addr && addr < base + size

def region (t : SimTarget ν κ) (addr : UInt32) : Region :=
  if inWindow addr t.map.sramBase (UInt32.ofNat t.sram.length) then
    .sram (addr - t.map.sramBase).toNat
  else if inWindow addr t.map.nandMmio 0x20 then .nand (addr - t.map.nandMmio)
  else if inWindow addr t.map.uartMmio 0x10 then .uart (addr - t.map.uartMmio)
  else if inWindow addr t.map.dbgMmio 0x10 then .dbg (addr - t.map.dbgMmio)
  else .unmapped

/-- The status word of the debug block. -/
def coreStatus (t : SimTarget ν κ) : UInt32 :=
  (if t.core.running then 1 else 0) ||| (if t.core.parked then 2 else 0) |||
    (if t.core.halted then 4 else 0) ||| (if t.faultedAtBoot then 8 else 0) |||
    (if t.core.faulted then 16 else 0)

/-- `core_read`; nothing is a bus error. -/
def coreRead (t : SimTarget ν κ) (addr : UInt32) (w : Width) : Option UInt32 × SimTarget ν κ :=
  match t.region addr with
  | .sram off =>
    if off + w.bytes > t.sram.length then (none, t)
    else (some (u32Of (slice t.sram off w.bytes)), t)
  | .nand off =>
    let (v, nand) := parts.mmioRead t.nand off
    (some v, { t with nand })
  | .uart _ => (some 0, t)
  | .dbg off =>
    if off = 0x08 then (some t.coreStatus, t)
    else if off = 0x0C then (some t.core.executed.toUInt32, t)
    else (some 0, t)
  | .unmapped => (none, t)

/-- The heartbeat frame for a word in the UART transmit register. -/
def heartbeatFrame (w : UInt32) : Bytes :=
  let body := w.toUInt8 :: le16 (w >>> 8).toUInt16 ++ [(w >>> 24).toUInt8, 0, 0, 0]
  0x52 :: 0x5A :: body ++ le16 (crc16Xmodem body)

def uartTx (t : SimTarget ν κ) (w : UInt32) : SimTarget ν κ :=
  { t with uartOut := t.uartOut ++ heartbeatFrame w }

/-- `core_write`. -/
def coreWrite (t : SimTarget ν κ) (addr value : UInt32) (w : Width) :
    Option Unit × SimTarget ν κ :=
  match t.region addr with
  | .sram off =>
    if off + w.bytes > t.sram.length then (none, t)
    else (some (), { t with sram := patch t.sram off ((le32 value.toNat).take w.bytes) })
  | .nand off => (some (), { t with nand := parts.mmioWrite t.nand off value })
  | .uart off => if off = 0 ∧ w = .word then (some (), t.uartTx value) else (some (), t)
  | .dbg off =>
    if off = 0x00 then
      if value &&& 1 = 1 then (some (), { t with core := t.core.halt }) else (some (), t)
    else if off = 0x04 then (some (), { t with pendingJump := some value })
    else (some (), t)
  | .unmapped => (none, t)

/-- Make the accesses of an interpreter run. -/
def exec {α : Type} : BusProg α → SimTarget ν κ → α × SimTarget ν κ
  | .done a, t => (a, t)
  | .read addr w next, t =>
    let (v, t) := t.coreRead parts addr w
    exec (next v) t
  | .write addr value w next, t =>
    let (v, t) := t.coreWrite parts addr value w
    exec (next v) t

/-- `service`: a jump that is due starts the core, and a core that runs gets its turn. -/
def service (t : SimTarget ν κ) : SimTarget ν κ :=
  let t := match t.pendingJump with
    | some entry => { t with pendingJump := none, core := t.core.start parts entry }
    | none => t
  if t.core.running && !t.core.parked then
    -- the core is taken out while it runs
    let (core, t) := exec parts (parts.run t.core 400000)
      { t with core := { registers := parts.zeroed } }
    { t with core }
  else t

/-! ## The shell -/

def send (t : SimTarget ν κ) (bytes : Bytes) : SimTarget ν κ :=
  { t with uartOut := t.uartOut ++ bytes }

/-- Eight bytes of the generator. -/
def challengeOf : Nat → XorShift → Bytes × XorShift
  | 0, rng => ([], rng)
  | left + 1, rng =>
    let (v, rng) := rng.nextU64
    let b := v.toUInt8 ^^^ (UInt8.ofNat (7 - left) * 0x5A)
    let (bs, rng) := challengeOf left rng
    (b :: bs, rng)

/-- What the shell does with the command of a frame; it is back in its command state unless the
command says otherwise. -/
def runCommand (t : SimTarget ν κ) (frame : Bytes) : SimTarget ν κ :=
  let code := frame.headD 0
  let first := u32Of (slice frame 1 4)
  let second := u32Of (slice frame 5 4)
  if code = Cmd.AUTH then
    let (challenge, rng) := challengeOf 8 t.rng
    { t with rng, bsm := .authResp challenge [] }.send (challenge ++ le16 (crc16Xmodem challenge))
  else if code = Cmd.PEEK then
    let (v, t) := t.coreRead parts first .word
    let val := le32 (v.getD 0xDEADDEAD).toNat
    t.send (val ++ le16 (crc16Xmodem val))
  else if code = Cmd.POKE then
    (t.coreWrite parts first second .word).2.send [Cmd.ACK]
  else if code = Cmd.DOWNLOAD then
    if t.bromParams.authRequired && !t.bromAuthed then t.send [Cmd.NAK]
    else { t with bsm := .download first second 0 [] }.send [Cmd.ACK]
  else if code = Cmd.JUMP then
    { t with bromJumped := true, pendingJump := some first }.send [Cmd.ACK]
  else t.send [Cmd.NAK]

/-- `brom_exec`: a whole frame is run when its CRC is right. -/
def bromExec (t : SimTarget ν κ) (frame : Bytes) : SimTarget ν κ :=
  let t := { t with bsm := .cmd [] }
  if frame.length < 3 then t
  else if crc16Xmodem (frame.take (frame.length - 2)) ≠ u16Of (frame.drop (frame.length - 2)) then
    t.send [Cmd.NAK]
  else t.runCommand parts frame

/-- `store8`: a byte outside the SRAM window is dropped. -/
def store8 (t : SimTarget ν κ) (addr : UInt32) (b : UInt8) : SimTarget ν κ :=
  if inWindow addr t.map.sramBase (UInt32.ofNat t.sram.length) then
    { t with sram := t.sram.set (addr - t.map.sramBase).toNat b }
  else t

/-- Store a chunk, byte by byte. -/
def storeChunk (t : SimTarget ν κ) (base : UInt32) : Bytes → SimTarget ν κ
  | [] => t
  | b :: data => (t.store8 base b).storeChunk (base + 1) data

/-- The length of a command frame, by its first byte. -/
def frameLength (code : UInt8) : Option Nat :=
  if code = Cmd.AUTH then some 3
  else if code = Cmd.PEEK then some 7
  else if code = Cmd.POKE then some 11
  else if code = Cmd.JUMP then some 7
  else if code = Cmd.DOWNLOAD then some 11
  else none

/-- A whole chunk frame: stored and acknowledged when its CRC is right, refused otherwise; with the
last byte the shell is back in its command state. -/
def acceptChunk (t : SimTarget ν κ) (addr total got : UInt32) (n : Nat) (chunk : Bytes) :
    SimTarget ν κ :=
  let data := slice chunk 2 n
  let crc := u16Of (slice chunk (2 + n) 2)
  let (t, got) :=
    if crc16Xmodem data = crc then
      ((t.storeChunk (addr + got) data).send [Cmd.ACK], got + UInt32.ofNat n)
    else (t.send [Cmd.NAK], got)
  { t with bsm := if total ≤ got then .cmd [] else .download addr total got [] }

/-- `uart_rx`: one byte from the host. -/
def uartRx (t : SimTarget ν κ) (byte : UInt8) : SimTarget ν κ :=
  if !t.railsAlive || !t.bromEnabled then t
  else match t.bsm with
  | .waitSync =>
    if byte = t.bromParams.sync then { t with bsm := .magic 0 }.send [t.bromParams.ack] else t
  | .magic got =>
    -- a sync byte that is sent again is answered again
    if got = 0 ∧ byte = t.bromParams.sync then { t with bsm := .magic 0 }.send [t.bromParams.ack]
    else if t.bromParams.magic[got]? = some byte then
      if got + 1 = t.bromParams.magic.length then
        { t with bsm := .cmd [] }.send (le16 (crc16Xmodem t.bromParams.magic))
      else { t with bsm := .magic (got + 1) }
    else { t with bsm := .waitSync }
  | .cmd buf =>
    let buf := buf ++ [byte]
    match frameLength (buf.headD 0) with
    | some need => if buf.length = need then t.bromExec parts buf else { t with bsm := .cmd buf }
    | none => if buf.length > 12 then { t with bsm := .cmd [] } else { t with bsm := .cmd buf }
  | .authResp challenge resp =>
    let resp := resp ++ [byte]
    if resp.length = 8 then
      if (parts.sha256 (t.bromParams.key ++ challenge)).bytes.take 8 = resp then
        { t with bromAuthed := true, bsm := .cmd [] }.send [Cmd.ACK]
      else { t with bsm := .waitSync }.send [Cmd.NAK]
    else { t with bsm := .authResp challenge resp }
  | .download addr total got chunk =>
    let chunk := chunk ++ [byte]
    let n := (u16Of (chunk.take 2)).toNat
    if 2 ≤ chunk.length ∧ chunk.length = 2 + n + 2 then t.acceptChunk addr total got n chunk
    else { t with bsm := .download addr total got chunk }

/-- `uart_read`: the core gets its turn, then the host takes a byte. -/
def uartRead (t : SimTarget ν κ) : Option UInt8 × SimTarget ν κ :=
  let t := t.service parts
  (t.uartOut.head?, { t with uartOut := t.uartOut.tail })

/-! ## Reading the wire -/

/-- Nothing runs on the drive: no jump is due, and the core stands still. -/
structure Idle (t : SimTarget ν κ) : Prop where
  noJump : t.pendingJump = none
  still : (t.core.running && !t.core.parked) = false

theorem service_of_idle {t : SimTarget ν κ} (h : t.Idle) : t.service parts = t := by
  simp only [service, h.noJump, h.still]
  rfl

/-- An idle drive hands out the bytes that wait. -/
theorem uartRead_of_idle {t : SimTarget ν κ} (h : t.Idle) :
    t.uartRead parts = (t.uartOut.head?, { t with uartOut := t.uartOut.tail }) := by
  rw [uartRead, service_of_idle parts h]

/-- A bus access only adds to what waits on the wire. -/
theorem coreRead_uartOut (t : SimTarget ν κ) (addr : UInt32) (w : Width) :
    (t.coreRead parts addr w).2.uartOut = t.uartOut := by
  unfold coreRead
  split
  · split <;> rfl
  · rfl
  · rfl
  · split
    · rfl
    · split <;> rfl
  · rfl

theorem coreWrite_uartOut (t : SimTarget ν κ) (addr value : UInt32) (w : Width) :
    ∃ sent, (t.coreWrite parts addr value w).2.uartOut = t.uartOut ++ sent := by
  unfold coreWrite
  split
  · split
    · exact ⟨[], (List.append_nil _).symm⟩
    · exact ⟨[], (List.append_nil _).symm⟩
  · exact ⟨[], (List.append_nil _).symm⟩
  · split
    · exact ⟨heartbeatFrame value, rfl⟩
    · exact ⟨[], (List.append_nil _).symm⟩
  · split
    · split <;> exact ⟨[], (List.append_nil _).symm⟩
    · split <;> exact ⟨[], (List.append_nil _).symm⟩
  · exact ⟨[], (List.append_nil _).symm⟩

theorem exec_uartOut {α : Type} (prog : BusProg α) (t : SimTarget ν κ) :
    ∃ sent, (exec parts prog t).2.uartOut = t.uartOut ++ sent := by
  induction prog generalizing t with
  | done a => exact ⟨[], (List.append_nil _).symm⟩
  | read addr w next ih =>
    obtain ⟨sent, hsent⟩ := ih (t.coreRead parts addr w).1 (t.coreRead parts addr w).2
    rw [coreRead_uartOut] at hsent
    exact ⟨sent, hsent⟩
  | write addr value w next ih =>
    obtain ⟨first, hfirst⟩ := coreWrite_uartOut parts t addr value w
    obtain ⟨sent, hsent⟩ := ih (t.coreWrite parts addr value w).1 (t.coreWrite parts addr value w).2
    rw [hfirst, List.append_assoc] at hsent
    exact ⟨first ++ sent, hsent⟩

/-- **A turn of the core never takes back or overtakes what already waits on the wire.** -/
theorem service_uartOut (t : SimTarget ν κ) :
    ∃ sent, (t.service parts).uartOut = t.uartOut ++ sent := by
  have hturn : ∀ t : SimTarget ν κ, ∃ sent,
      (if t.core.running && !t.core.parked then
        { (exec parts (parts.run t.core 400000)
            { t with core := { registers := parts.zeroed } }).2 with
          core := (exec parts (parts.run t.core 400000)
            { t with core := { registers := parts.zeroed } }).1 }
      else t).uartOut = t.uartOut ++ sent := by
    intro t
    split
    · exact exec_uartOut parts _ { t with core := { registers := parts.zeroed } }
    · exact ⟨[], (List.append_nil _).symm⟩
  unfold service
  cases hjump : t.pendingJump with
  | none => exact hturn t
  | some entry => exact hturn { t with pendingJump := none, core := t.core.start parts entry }

/-! ## Whole frames -/

/-- `write_all`: a simulated link takes every byte. -/
def writeAll (t : SimTarget ν κ) (bytes : Bytes) : SimTarget ν κ := bytes.foldl (uartRx parts) t

/-- The rails are up and the strap put the drive into its Boot-ROM. -/
structure Listening (t : SimTarget ν κ) : Prop where
  rails : t.railsAlive = true
  brom : t.bromEnabled = true

theorem writeAll_append (t : SimTarget ν κ) (a b : Bytes) :
    t.writeAll parts (a ++ b) = (t.writeAll parts a).writeAll parts b := List.foldl_append

/-- A receiver that only collects bytes until a frame is whole acts on the whole frame. -/
theorem writeAll_collect (collected : Bytes → SimTarget ν κ) {front : Bytes} (last : UInt8)
    (h : ∀ i, (hi : i < front.length) →
      (collected (front.take i)).uartRx parts front[i] = collected (front.take (i + 1))) :
    (collected []).writeAll parts (front ++ [last]) = (collected front).uartRx parts last := by
  have hfront : ∀ n, n ≤ front.length →
      (collected []).writeAll parts (front.take n) = collected (front.take n) := by
    intro n
    induction n with
    | zero => exact fun _ => rfl
    | succ n ih =>
      intro hn
      rw [← List.take_append_getElem hn, writeAll_append, ih (by omega)]
      exact (h n hn).trans (congrArg collected (List.take_append_getElem hn).symm)
  have hall := hfront front.length (Nat.le_refl _)
  rw [List.take_length] at hall
  rw [writeAll_append, hall]
  rfl

/-- The drive with its shell in another state. -/
def withBsm (t : SimTarget ν κ) (bsm : Bsm) : SimTarget ν κ := { t with bsm }

theorem withBsm_self {t : SimTarget ν κ} {bsm : Bsm} (h : t.bsm = bsm) : t.withBsm bsm = t := by
  subst h
  rfl

theorem power_of_listening {t : SimTarget ν κ} (h : t.Listening) :
    (!t.railsAlive || !t.bromEnabled) = false := by
  rw [h.rails, h.brom]
  rfl

/-- A byte in the command state completes a frame or is kept. -/
theorem uartRx_cmd {t : SimTarget ν κ} (hon : t.Listening) {buf : Bytes} {byte : UInt8} {need : Nat}
    (hneed : frameLength ((buf ++ [byte]).headD 0) = some need) :
    (t.withBsm (.cmd buf)).uartRx parts byte =
      if (buf ++ [byte]).length = need then t.bromExec parts (buf ++ [byte])
      else t.withBsm (.cmd (buf ++ [byte])) := by
  have hpower := power_of_listening hon
  simp only [uartRx, withBsm, hpower, hneed]
  rfl

/-- **A whole command frame reaches the shell as one.** -/
theorem writeAll_frame {t : SimTarget ν κ} (hon : t.Listening) (hbsm : t.bsm = .cmd [])
    {frame : Bytes} (hlen : frameLength (frame.headD 0) = some frame.length) :
    t.writeAll parts frame = t.bromExec parts frame := by
  obtain ⟨front, last, rfl⟩ : ∃ front last, frame = front ++ [last] := by
    rcases List.eq_nil_or_concat frame with rfl | hconcat
    · cases hlen
    · obtain ⟨front, last, h⟩ := hconcat
      exact ⟨front, last, h.trans (List.concat_eq_append)⟩
  have hkeep : ∀ i, (hi : i < front.length) →
      (t.withBsm (.cmd (front.take i))).uartRx parts front[i] =
        t.withBsm (.cmd (front.take (i + 1))) := by
    intro i hi
    have htake : front.take i ++ [front[i]] = front.take (i + 1) := List.take_append_getElem hi
    have hhead : (front.take (i + 1)).headD 0 = (front ++ [last]).headD 0 := by
      cases front with
      | nil => cases hi
      | cons b rest => rfl
    rw [uartRx_cmd parts hon (by rw [htake, hhead]; exact hlen), htake, if_neg]
    rw [List.length_take, List.length_append]
    show ¬ min (i + 1) front.length = front.length + 1
    omega
  have hcollect := writeAll_collect parts (fun buf => t.withBsm (.cmd buf)) last hkeep
  rw [withBsm_self hbsm] at hcollect
  rw [hcollect, uartRx_cmd parts hon hlen, if_pos rfl]

/-! ## Stores -/

/-- `n` addresses from `addr` on lie in the SRAM window, and the window in the address space. -/
structure InSram (t : SimTarget ν κ) (addr : UInt32) (n : Nat) : Prop where
  window : t.map.sramBase.toNat + t.sram.length < 2 ^ 32
  above : t.map.sramBase.toNat ≤ addr.toNat
  below : addr.toNat + n ≤ t.map.sramBase.toNat + t.sram.length

/-- Where an address lies in SRAM. -/
def sramOffset (t : SimTarget ν κ) (addr : UInt32) : Nat := addr.toNat - t.map.sramBase.toNat

namespace InSram

variable {t : SimTarget ν κ} {addr : UInt32} {n : Nat}

theorem prefix_of_le {m : Nat} (h : t.InSram addr n) (hle : m ≤ n) : t.InSram addr m :=
  ⟨h.window, h.above, Nat.le_trans (by omega) h.below⟩

/-- The addresses behind the first ones. -/
theorem toNat_add (h : t.InSram addr n) {m : Nat} (hle : m ≤ n) :
    (addr + UInt32.ofNat m).toNat = addr.toNat + m := by
  have hwindow := h.window
  have hbelow := h.below
  rw [UInt32.toNat_add, UInt32.toNat_ofNat']
  omega

theorem suffix (h : t.InSram addr n) {m : Nat} (hle : m ≤ n) :
    t.InSram (addr + UInt32.ofNat m) (n - m) := by
  have habove := h.above
  have hbelow := h.below
  refine ⟨h.window, ?_, ?_⟩ <;> rw [h.toNat_add hle] <;> omega

theorem offset_le (h : t.InSram addr n) : t.sramOffset addr + n ≤ t.sram.length := by
  have habove := h.above
  have hbelow := h.below
  unfold sramOffset
  omega

theorem inWindow (h : t.InSram addr n) (hpos : 0 < n) :
    inWindow addr t.map.sramBase (UInt32.ofNat t.sram.length) = true := by
  have hwindow := h.window
  have habove := h.above
  have hbelow := h.below
  have hend : (t.map.sramBase + UInt32.ofNat t.sram.length).toNat =
      t.map.sramBase.toNat + t.sram.length := by
    rw [UInt32.toNat_add, UInt32.toNat_ofNat']
    omega
  rw [SimTarget.inWindow, Bool.and_eq_true, decide_eq_true_eq, decide_eq_true_eq,
    UInt32.le_iff_toNat_le, UInt32.lt_iff_toNat_lt, hend]
  omega

theorem toNat_sub (h : t.InSram addr n) : (addr - t.map.sramBase).toNat = t.sramOffset addr :=
  UInt32.toNat_sub_of_le _ _ (UInt32.le_iff_toNat_le.mpr h.above)

end InSram

/-- The drive with bytes in its SRAM. -/
def withSram (t : SimTarget ν κ) (off : Nat) (data : Bytes) : SimTarget ν κ :=
  { t with sram := patch t.sram off data }

/-- **A chunk that lies in SRAM is stored whole.** -/
theorem storeChunk_eq {t : SimTarget ν κ} {base : UInt32} {data : Bytes}
    (h : t.InSram base data.length) :
    t.storeChunk base data = t.withSram (t.sramOffset base) data := by
  induction data generalizing t base with
  | nil => rw [storeChunk, withSram, patch_nil]
  | cons b data ih =>
    have hlen : 1 ≤ (b :: data).length := Nat.succ_pos _
    have hoff : t.sramOffset base < t.sram.length := Nat.lt_of_lt_of_le (by simp) h.offset_le
    have hstore : t.store8 base b = t.withSram (t.sramOffset base) [b] := by
      rw [store8, if_pos (h.inWindow hlen), h.toNat_sub, withSram, patch_singleton hoff]
    have hlength : (t.withSram (t.sramOffset base) [b]).sram.length = t.sram.length :=
      patch_length hoff
    have hnext : base.toNat + 1 = (base + 1).toNat := (h.toNat_add hlen).symm
    have hrest : (t.withSram (t.sramOffset base) [b]).InSram (base + 1) data.length := by
      have hsuffix := h.suffix hlen
      exact ⟨hlength ▸ hsuffix.window, hsuffix.above, hlength ▸ hsuffix.below⟩
    have hoffset : (t.withSram (t.sramOffset base) [b]).sramOffset (base + 1) =
        t.sramOffset base + 1 := by
      have habove := h.above
      show (base + 1).toNat - t.map.sramBase.toNat = base.toNat - t.map.sramBase.toNat + 1
      omega
    rw [storeChunk, hstore, ih hrest, hoffset]
    have hjoined : patch (patch t.sram (t.sramOffset base) [b]) (t.sramOffset base + 1) data =
        patch t.sram (t.sramOffset base) (b :: data) := patch_patch (Nat.le_of_lt hoff)
    rw [withSram, withSram, withSram, hjoined]

/-! ## Chunk frames -/

/-- The frame of a chunk as it arrives: the length and the CRC of the chunk that was sent around a
body that may be another. -/
def chunkFrame (n : Nat) (body : Bytes) (crc : UInt16) : Bytes :=
  le16 (UInt16.ofNat n) ++ body ++ le16 crc

/-- The shell's state when `got` of `total` bytes have been accepted. -/
def received (addr total got : UInt32) : Bsm :=
  if total ≤ got then .cmd [] else .download addr total got []

theorem uartRx_download {t : SimTarget ν κ} (hon : t.Listening) {addr total got : UInt32}
    {chunk : Bytes} {byte : UInt8} {n : Nat}
    (hn : (u16Of ((chunk ++ [byte]).take 2)).toNat = n) :
    (t.withBsm (.download addr total got chunk)).uartRx parts byte =
      if 2 ≤ (chunk ++ [byte]).length ∧ (chunk ++ [byte]).length = 2 + n + 2 then
        (t.withBsm (.download addr total got chunk)).acceptChunk addr total got n (chunk ++ [byte])
      else t.withBsm (.download addr total got (chunk ++ [byte])) := by
  have hpower := power_of_listening hon
  subst hn
  simp only [uartRx, withBsm, hpower]
  rfl

/-- **A whole chunk frame reaches the shell as one**: stored and acknowledged, or refused. -/
theorem writeAll_chunkFrame {t : SimTarget ν κ} (hon : t.Listening) {addr total got : UInt32}
    {n : Nat} (hn : n < 65536) {body : Bytes} (hbody : body.length = n) (crc : UInt16)
    (hsram : t.InSram (addr + got) n) :
    (t.withBsm (.download addr total got [])).writeAll parts (chunkFrame n body crc) =
      if crc16Xmodem body = crc then
        ((t.withSram (t.sramOffset (addr + got)) body).send [Cmd.ACK]).withBsm
          (received addr total (got + UInt32.ofNat n))
      else (t.send [Cmd.NAK]).withBsm (received addr total got) := by
  obtain ⟨front, last, hsplit⟩ : ∃ front last, chunkFrame n body crc = front ++ [last] :=
    ⟨le16 (UInt16.ofNat n) ++ body ++ [UInt8.ofNat crc.toNat], UInt8.ofNat (crc.toNat / 256), by
      rw [chunkFrame, List.append_assoc _ [_]]
      rfl⟩
  have hlen : front.length = 2 + n + 1 := by
    have h := congrArg List.length hsplit
    rw [chunkFrame, List.length_append, List.length_append, hbody, length_le16, length_le16,
      List.length_append, List.length_singleton] at h
    omega
  have hnlt : (UInt16.ofNat n).toNat = n := by
    rw [UInt16.toNat_ofNat']
    omega
  -- from the second byte on the announced length is known
  have hfirst : (front ++ [last]).take 2 = le16 (UInt16.ofNat n) := by
    rw [← hsplit, chunkFrame, List.append_assoc, List.take_left' (length_le16 _)]
  have hkeep : ∀ i, (hi : i < front.length) →
      (t.withBsm (.download addr total got (front.take i))).uartRx parts front[i] =
        t.withBsm (.download addr total got (front.take (i + 1))) := by
    intro i hi
    have htake : front.take i ++ [front[i]] = front.take (i + 1) := List.take_append_getElem hi
    rw [uartRx_download parts hon rfl, htake, if_neg]
    rintro ⟨htwo, hwhole⟩
    rw [List.length_take, Nat.min_eq_left (by omega)] at htwo hwhole
    have hhead : (front.take (i + 1)).take 2 = le16 (UInt16.ofNat n) := by
      rw [List.take_take, Nat.min_eq_left htwo, ← hfirst,
        List.take_append_of_le_length (by omega)]
    rw [hhead, u16Of_le16, hnlt] at hwhole
    omega
  have hcollect := writeAll_collect parts (fun chunk => t.withBsm (.download addr total got chunk))
    last hkeep
  have hwhole : (u16Of ((front ++ [last]).take 2)).toNat = n := by
    rw [hfirst, u16Of_le16, hnlt]
  have hdata : slice (chunkFrame n body crc) 2 n = body := by
    rw [slice, chunkFrame, List.append_assoc, List.drop_left' (length_le16 _), ← hbody,
      List.take_left]
  have hcrc : u16Of (slice (chunkFrame n body crc) (2 + n) 2) = crc := by
    have hdrop : (le16 (UInt16.ofNat n) ++ body).length = 2 + n := by
      rw [List.length_append, hbody, length_le16]
    rw [slice, chunkFrame, ← hdrop, List.drop_left, List.take_of_length_le (Nat.le_refl 2),
      u16Of_le16]
  rw [hsplit, hcollect, uartRx_download parts hon hwhole, if_pos (by simp [hlen]), ← hsplit,
    acceptChunk, hdata, hcrc]
  by_cases hmatch : crc16Xmodem body = crc
  · have hstored : (t.withBsm (.download addr total got front)).InSram (addr + got) body.length :=
      hbody ▸ ⟨hsram.window, hsram.above, hsram.below⟩
    rw [if_pos hmatch, if_pos hmatch, storeChunk_eq hstored]
    rfl
  · rw [if_neg hmatch, if_neg hmatch]
    rfl

/-! ## Command frames -/

/-- A frame as the host sends it: a head and its CRC. -/
def commandFrame (head : Bytes) : Bytes := head ++ le16 (crc16Xmodem head)

/-- **A frame that arrives whole is run.** -/
theorem writeAll_commandFrame {t : SimTarget ν κ} (hon : t.Listening) (hbsm : t.bsm = .cmd [])
    {code : UInt8} {args : Bytes} (hlen : frameLength code = some (args.length + 3)) :
    t.writeAll parts (commandFrame (code :: args)) =
      t.runCommand parts (commandFrame (code :: args)) := by
  have hlength : (commandFrame (code :: args)).length = args.length + 3 := by
    rw [commandFrame, List.length_append, length_le16, List.length_cons]
  have hcut : (commandFrame (code :: args)).length - 2 = (code :: args).length := by
    rw [hlength, List.length_cons]
    rfl
  have hframe : frameLength ((commandFrame (code :: args)).headD 0) =
      some (commandFrame (code :: args)).length := by
    rw [hlength]
    exact hlen
  have hshell : ({ t with bsm := .cmd [] } : SimTarget ν κ) = t := withBsm_self hbsm
  have htake : (commandFrame (code :: args)).take (code :: args).length = code :: args := by
    rw [commandFrame, List.take_left]
  have hdrop : (commandFrame (code :: args)).drop (code :: args).length =
      le16 (crc16Xmodem (code :: args)) := by
    rw [commandFrame, List.drop_left]
  rw [writeAll_frame parts hon hbsm hframe, bromExec, hcut, htake, hdrop, u16Of_le16, hshell,
    if_neg (by rw [hlength]; omega), if_neg (not_not.mpr rfl)]

theorem runCommand_peek {t : SimTarget ν κ} {frame : Bytes} {addr : UInt32}
    (hcode : frame.headD 0 = Cmd.PEEK) (haddr : u32Of (slice frame 1 4) = addr) :
    t.runCommand parts frame = (t.coreRead parts addr .word).2.send
      (le32 ((t.coreRead parts addr .word).1.getD 0xDEADDEAD).toNat ++
        le16 (crc16Xmodem (le32 ((t.coreRead parts addr .word).1.getD 0xDEADDEAD).toNat))) := by
  have hauth : Cmd.PEEK ≠ Cmd.AUTH := by decide
  subst haddr
  simp only [runCommand, hcode, if_neg hauth, if_true]

end SimTarget

end DiscCleaner.Resurrect
