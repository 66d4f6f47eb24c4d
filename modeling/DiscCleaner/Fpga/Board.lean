import DiscCleaner.Lib.BitPack
import DiscCleaner.Lib.Prog
import Mathlib.Logic.Function.Basic

/-!
# DiscCleaner — the interceptor board (`dc-fpga/efuse.rs`, `dc-fpga/hal.rs`)

The fuse bank, the register bank that a board answers with, and the simulated board: four lanes
behind a gate, a one-way latch, and the fuses.
-/

namespace DiscCleaner

open WordLib

namespace Fpga

/-! ## The fuse bank -/

def FUSE_TARGET_BASE : Nat := 0
def FUSE_FAULT : Nat := 28
def FUSE_VERIFIED : Nat := 29
def FUSE_COMPLETE : Nat := 30

/-- Bit 31 is reserved. -/
def FUSE_MASK : UInt32 := 0x7FFFFFFF

structure EfuseBank where
  word : UInt32
  deriving DecidableEq

namespace EfuseBank

/-- Burning cannot clear. -/
def burnMask (f : EfuseBank) (mask : UInt32) : EfuseBank := ⟨f.word ||| (mask &&& FUSE_MASK)⟩

def burnTarget (f : EfuseBank) (lane : Nat) : EfuseBank :=
  f.burnMask (flag (FUSE_TARGET_BASE + min lane 27))

def burnFault (f : EfuseBank) : EfuseBank := f.burnMask (flag FUSE_FAULT)

def burnVerified (f : EfuseBank) : EfuseBank := f.burnMask (flag FUSE_VERIFIED)

def burnComplete (f : EfuseBank) : EfuseBank := f.burnMask (flag FUSE_COMPLETE)

/-- COMPLETE is blown and FAULT is not. -/
def Completed (f : EfuseBank) : Prop :=
  f.word &&& flag FUSE_COMPLETE ≠ 0 ∧ f.word &&& flag FUSE_FAULT = 0

def Faulted (f : EfuseBank) : Prop := f.word &&& flag FUSE_FAULT ≠ 0

instance (f : EfuseBank) : Decidable f.Completed := inferInstanceAs (Decidable (_ ∧ _))

instance (f : EfuseBank) : Decidable f.Faulted := inferInstanceAs (Decidable (_ ≠ _))

theorem completed_iff {f : EfuseBank} :
    f.Completed ↔ hasBit f.word FUSE_COMPLETE = true ∧ hasBit f.word FUSE_FAULT = false := by
  rw [Completed, and_flag_ne_zero (by decide), and_flag_eq_zero (by decide)]

theorem faulted_iff {f : EfuseBank} : f.Faulted ↔ hasBit f.word FUSE_FAULT = true := by
  rw [Faulted, and_flag_ne_zero (by decide)]

theorem hasBit_burnMask (f : EfuseBank) (mask : UInt32) (i : Nat) :
    hasBit (f.burnMask mask).word i = (hasBit f.word i || (hasBit mask i && hasBit FUSE_MASK i)) := by
  rw [burnMask, hasBit_or, hasBit_and]

/-- A fuse below the reserved bit. -/
theorem hasBit_burn_flag (f : EfuseBank) {i : Nat} (hi : i < 31) (j : Nat) :
    hasBit (f.burnMask (flag i)).word j = (hasBit f.word j || decide (i = j)) := by
  have hmask : ∀ i < 31, hasBit FUSE_MASK i = true := by decide
  rw [hasBit_burnMask, hasBit_flag (by omega)]
  by_cases hij : i = j
  · subst hij
    simp [hmask i hi]
  · simp [hij]

/-- The fuse of a lane is one of the first 28. -/
theorem hasBit_burnTarget (f : EfuseBank) (lane j : Nat) :
    hasBit (f.burnTarget lane).word j = (hasBit f.word j || decide (min lane 27 = j)) := by
  rw [burnTarget, hasBit_burn_flag f (by unfold FUSE_TARGET_BASE; omega), FUSE_TARGET_BASE, Nat.zero_add]

end EfuseBank

/-! ## Registers -/

def LANE_GATE : Nat := 0x10
def LANE_LATCH : Nat := 0x14
def LANE_PRESENT : Nat := 0x18
def LANE_SELECT : Nat := 0x1C
def LANE_CMD : Nat := 0x20
def LANE_ADDR : Nat := 0x24
def LANE_DATA : Nat := 0x28
def LANE_STAT : Nat := 0x2C
def EFUSE : Nat := 0x80

/-- The register that the self-test writes, and the one that the operator's button writes. -/
def PROBE : Nat := 0x30
def ARM : Nat := 0x38

def CMD_IDENTIFY : UInt32 := 0x01
def CMD_ERASE : UInt32 := 0x02
def CMD_WRITE : UInt32 := 0x03
def CMD_READ : UInt32 := 0x04
def CMD_WEAR : UInt32 := 0x05

def STAT_OK : UInt32 := flag 1
def STAT_TARGET_ERR : UInt32 := flag 2

/-- A register bank: what a read gives, and what a write does, unless it unwinds. -/
structure Mmio (B : Type) where
  read32 : Nat → B → UInt32 × B
  write32 : Nat → UInt32 → B → Option B

def MAX_LANES : Nat := 4

/-! ## The simulated board -/

/-- The words behind a lane. -/
abbrev Media := Fin 256 → UInt32

structure SimBoard where
  regs : Nat → UInt32
  media : Fin 4 → Option Media
  wear : Fin 4 → UInt32
  fuse : EfuseBank
  latchedWriteAttempts : Nat
  latchEngaged : Bool

namespace SimBoard

variable (b : SimBoard)

def new : SimBoard where
  regs _ := 0
  media _ := none
  wear _ := 0
  fuse := ⟨0⟩
  latchedWriteAttempts := 0
  latchEngaged := false

def reg (off : Nat) : UInt32 := b.regs (off / 4)

def setReg (off : Nat) (v : UInt32) : SimBoard := { b with regs := Function.update b.regs (off / 4) v }

/-- Put a target with leftover data behind a lane. -/
def attachTarget (lane : Fin 4) : SimBoard :=
  { b.setReg LANE_PRESENT (b.reg LANE_PRESENT ||| flag lane) with
    media := Function.update b.media lane
      (some fun i => 0xDEADBEEF ^^^ UInt32.ofNat i * 0x01010101) }

def selectedLane : Nat := (b.reg LANE_SELECT &&& 0xF).toNat

/-- ERASE and WRITE on a gated lane; the latch refuses them. -/
def storeOp (lane : Fin 4) (m : Media) (cmd : UInt32) : Option SimBoard :=
  if b.latchEngaged then
    if b.latchedWriteAttempts + 1 < 2 ^ 32 then
      some { b.setReg LANE_STAT STAT_TARGET_ERR with
        latchedWriteAttempts := b.latchedWriteAttempts + 1 }
    else none
  else if h : (b.reg LANE_ADDR).toNat < 256 then
    if cmd = CMD_ERASE then
      some { b.setReg LANE_STAT STAT_OK with
        media := Function.update b.media lane (some (Function.update m ⟨_, h⟩ 0))
        wear := Function.update b.wear lane (UInt32.ofNat (min ((b.wear lane).toNat + 1) (2 ^ 32 - 1))) }
    else
      some { b.setReg LANE_STAT STAT_OK with
        media := Function.update b.media lane (some (Function.update m ⟨_, h⟩ (b.reg LANE_DATA))) }
  else some (b.setReg LANE_STAT STAT_TARGET_ERR)

/-- The other commands leave the media alone. -/
def lookOp (lane : Fin 4) (m : Media) (cmd : UInt32) : SimBoard :=
  if cmd = CMD_IDENTIFY then
    (b.setReg LANE_STAT STAT_OK).setReg LANE_DATA ((0x04474554 : UInt32) ||| UInt32.ofNat lane <<< 28)
  else if cmd = CMD_READ then
    (b.setReg LANE_DATA (if h : (b.reg LANE_ADDR).toNat < 256 then m ⟨_, h⟩ else 0xFFFFFFFF)).setReg
      LANE_STAT STAT_OK
  else if cmd = CMD_WEAR then (b.setReg LANE_DATA (b.wear lane)).setReg LANE_STAT STAT_OK
  else b.setReg LANE_STAT STAT_TARGET_ERR

/-- A command on a lane. There is no media array behind a lane number from 4 on, and the index
unwinds. -/
def executeLaneOp (lane : Nat) (cmd : UInt32) : Option SimBoard :=
  let b := b.setReg LANE_STAT 0
  if h : lane < 4 then
    match b.media ⟨lane, h⟩ with
    | none => some (b.setReg LANE_STAT STAT_TARGET_ERR)
    | some m =>
      if ¬ (b.reg LANE_GATE >>> UInt32.ofNat lane) &&& 1 = 1 ∧ cmd ≠ CMD_IDENTIFY then
        some (b.setReg LANE_STAT STAT_TARGET_ERR)
      else if cmd = CMD_WRITE ∨ cmd = CMD_ERASE then b.storeOp ⟨lane, h⟩ m cmd
      else some (b.lookOp ⟨lane, h⟩ m cmd)
  else none

def read32 (off : Nat) : UInt32 :=
  if off = EFUSE then b.fuse.word else if off / 4 < 64 then b.reg off else 0

def write32 (off : Nat) (v : UInt32) : Option SimBoard :=
  if off = LANE_LATCH then
    some { b.setReg LANE_LATCH 1 with latchEngaged := b.latchEngaged || v != 0 }
  else if off = LANE_CMD then b.executeLaneOp b.selectedLane v
  else if off = EFUSE then some { b with fuse := b.fuse.burnMask v }
  else if off / 4 < 64 then some (b.setReg off v)
  else some b

end SimBoard

def simMmio : Mmio SimBoard where
  read32 off b := (b.read32 off, b)
  write32 off v b := b.write32 off v

end Fpga

end DiscCleaner

/-!
# storage lanes (`dc-fpga/lane.rs`)

The bus is a board and the record of what was done on it: each register transaction of the payload
with the board's answer, and each console line.
-/

namespace DiscCleaner

open WordLib ProgLib

namespace Fpga

/-- What the payload did, in order. -/
inductive Event where
  | state (name : String)
  | fault (why : String)
  | transcript (low : UInt32)
  | probe (answer : UInt32)
  | arm (answer : UInt32)
  | present (bitmap : UInt32)
  | gate (lanes : UInt32)
  | latch
  | fuses (word : UInt32)
  | burn (word : UInt32)
  | identify (lane : Nat) (answer : Option UInt32)
  | erase (lane addr : Nat) (accepted : Bool)
  | write (lane addr : Nat) (data : UInt32) (accepted : Bool)
  | read (lane addr : Nat) (answer : Option UInt32)
  | wear (lane : Nat) (answer : Option UInt32)
  deriving DecidableEq

structure Bus (B : Type) where
  board : B
  log : List Event

variable {B : Type} (dev : Mmio B)

def readReg (off : Nat) : Prog (Bus B) Empty UInt32 := fun s =>
  (.ok (dev.read32 off s.board).1, { s with board := (dev.read32 off s.board).2 })

def writeReg (off : Nat) (v : UInt32) : Prog (Bus B) Empty Unit := fun s =>
  match dev.write32 off v s.board with
  | some b => (.ok (), { s with board := b })
  | none => (.panic, s)

def note (e : Event) : Prog (Bus B) Empty Unit := Prog.update fun s => { s with log := s.log ++ [e] }

structure Target where
  lane : Nat
  identity : UInt32
  deriving DecidableEq

/-! ## The gate -/

def gate (lanes : UInt32) : Prog (Bus B) Empty Unit := do
  writeReg dev LANE_GATE lanes
  note (.gate lanes)

def present : Prog (Bus B) Empty UInt32 := do
  let bitmap ← readReg dev LANE_PRESENT
  note (.present bitmap)
  pure bitmap

def latch : Prog (Bus B) Empty Unit := do
  writeReg dev LANE_LATCH 1
  note .latch

/-- LANE_STAT after a command, and LANE_DATA when it is OK. -/
def answer : Prog (Bus B) Empty (Option UInt32) := do
  let stat ← readReg dev LANE_STAT
  if stat &&& STAT_OK ≠ 0 then do
    let word ← readReg dev LANE_DATA
    pure (some word)
  else pure none

def selectLane (lane : Nat) : Prog (Bus B) Empty Unit :=
  writeReg dev LANE_SELECT (UInt32.ofNat lane &&& 0xF)

/-- `command`, which only IDENTIFY uses. -/
def identify (lane : Nat) : Prog (Bus B) Empty (Option UInt32) := do
  selectLane dev lane
  writeReg dev LANE_ADDR 0
  writeReg dev LANE_DATA 0
  writeReg dev LANE_CMD CMD_IDENTIFY
  let word ← answer dev
  note (.identify lane word)
  pure word

/-- A lane that is present is identified. -/
def enumerateLane (bitmap : UInt32) (lane : Nat) : Prog (Bus B) Empty (Option Target) :=
  if (bitmap >>> UInt32.ofNat lane) &&& 1 = 1 then do
    let word ← identify dev lane
    pure (word.map (Target.mk lane))
  else pure none

def enumerateLanes (bitmap : UInt32) : List Nat → Prog (Bus B) Empty (List (Option Target))
  | [] => pure []
  | lane :: lanes => do
    let slot ← enumerateLane dev bitmap lane
    let rest ← enumerateLanes bitmap lanes
    pure (slot :: rest)

def enumerate : Prog (Bus B) Empty (List (Option Target)) := do
  let bitmap ← present dev
  enumerateLanes dev bitmap (List.range MAX_LANES)

/-! ## The driver -/

/-- ERASE or WRITE: accepted or not. -/
def raw (lane : Nat) (cmd : UInt32) (addr : Nat) (data : UInt32) : Prog (Bus B) Empty Bool := do
  selectLane dev lane
  writeReg dev LANE_ADDR (UInt32.ofNat addr)
  writeReg dev LANE_DATA data
  writeReg dev LANE_CMD cmd
  let stat ← readReg dev LANE_STAT
  pure (stat &&& STAT_OK != 0)

def erase (lane addr : Nat) : Prog (Bus B) Empty Bool := do
  let accepted ← raw dev lane CMD_ERASE addr 0
  note (.erase lane addr accepted)
  pure accepted

def write (lane addr : Nat) (data : UInt32) : Prog (Bus B) Empty Bool := do
  let accepted ← raw dev lane CMD_WRITE addr data
  note (.write lane addr data accepted)
  pure accepted

def read (lane addr : Nat) : Prog (Bus B) Empty (Option UInt32) := do
  selectLane dev lane
  writeReg dev LANE_ADDR (UInt32.ofNat addr)
  writeReg dev LANE_CMD CMD_READ
  let word ← answer dev
  note (.read lane addr word)
  pure word

def wear (lane : Nat) : Prog (Bus B) Empty (Option UInt32) := do
  selectLane dev lane
  writeReg dev LANE_CMD CMD_WEAR
  let word ← answer dev
  note (.wear lane word)
  pure word

/-! ## Fuses over the bus -/

/-- `EfuseBank::read`. -/
def readFuses : Prog (Bus B) Empty EfuseBank := do
  let word ← readReg dev EFUSE
  note (.fuses (word &&& FUSE_MASK))
  pure ⟨word &&& FUSE_MASK⟩

/-- `EfuseBank::burn`. -/
def burnFuses (mask : UInt32) : Prog (Bus B) Empty Unit := do
  writeReg dev EFUSE (mask &&& FUSE_MASK)
  note (.burn (mask &&& FUSE_MASK))

end Fpga

end DiscCleaner
