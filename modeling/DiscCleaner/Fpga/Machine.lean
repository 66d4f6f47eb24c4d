import DiscCleaner.Fpga.Board

/-!
# DiscCleaner — verification and the interceptor machine (`dc-fpga/verify.rs`, `dc-fpga/statemachine.rs`)

Readback with its verdicts and digests, and the machine: one step function for each state, and a
run that steps until a terminal state or until its budget is used up.
-/

namespace DiscCleaner

open WordLib ProgLib

namespace Fpga

/-! ## The transcript digest -/

abbrev Digest := UInt64

namespace Digest

def new : Digest := 0xcbf29ce484222325

def update (d : Digest) (word : UInt32) : Digest := (d ^^^ word.toUInt64) * 0x00000100000001b3

def updateAll (d : Digest) (words : List UInt32) : Digest := words.foldl update d

/-- Bind a stream of words to its lane. -/
def updateLane (d : Digest) (lane : Nat) : Digest :=
  d.updateAll [0x4C414E45, UInt32.ofNat lane, 0x54474554]

end Digest

/-! ## Verdicts -/

inductive WordClass where
  | zero
  | pattern (word : UInt32)
  | residue
  deriving DecidableEq

def WordClass.isOk : WordClass → Bool
  | .zero => true
  | .pattern _ => true
  | .residue => false

def classify (word : UInt32) (pattern : Option UInt32) : WordClass :=
  if word = 0 then .zero else if pattern = some word then .pattern word else .residue

structure LaneVerdict where
  lane : Nat
  wordsRead : Nat
  residueWords : Nat
  digest : Digest
  wear : UInt32

def LaneVerdict.Passed (v : LaneVerdict) : Prop := v.residueWords = 0 ∧ v.wordsRead > 0

instance (v : LaneVerdict) : Decidable v.Passed := inferInstanceAs (Decidable (_ ∧ _))

/-- The counters and the digest of a readback. -/
structure Readback where
  read : Nat
  residue : Nat
  digest : Digest

def Readback.take (r : Readback) (pattern : Option UInt32) : Option UInt32 → Readback
  | some word =>
    { read := r.read + 1, digest := r.digest.update word,
      residue := if (classify word pattern).isOk then r.residue else r.residue + 1 }
  | none => { r with residue := r.residue + 1 }

section

variable {B : Type} (dev : Mmio B)

/-- Read windows back, one after the other. -/
def readWindows (lane : Nat) (pattern : Option UInt32) :
    List Nat → Readback → Prog (Bus B) Empty Readback
  | [], r => pure r
  | addr :: addrs, r => do
    let word ← read dev lane addr
    readWindows lane pattern addrs (r.take pattern word)

def verifyLane (t : Target) (words : Nat) (pattern : Option UInt32) :
    Prog (Bus B) Empty LaneVerdict := do
  let r ← readWindows dev t.lane pattern (List.range words) ⟨0, 0, Digest.new.updateLane t.lane⟩
  let pulses ← wear dev t.lane
  pure ⟨t.lane, r.read, r.residue, r.digest, pulses.getD 0⟩

def verifyAll (words : Nat) (pattern : Option UInt32) :
    List (Option Target) → Prog (Bus B) Empty (List (Option LaneVerdict))
  | [] => pure []
  | none :: targets => do
    let rest ← verifyAll words pattern targets
    pure (none :: rest)
  | some t :: targets => do
    let verdict ← verifyLane dev t words pattern
    let rest ← verifyAll words pattern targets
    pure (some verdict :: rest)

/-! ## The machine -/

/-- "OPCT". -/
def ARM_MAGIC : UInt32 := 0x4F504354

inductive State where
  | selfTest
  | enumerate
  | awaitArm
  | sanitize
  | verify
  | certify
  | seal
  | fault
  | halted
  deriving DecidableEq

namespace State

def asStr : State → String
  | .selfTest => "SELF-TEST"
  | .enumerate => "ENUMERATE"
  | .awaitArm => "AWAIT-ARM"
  | .sanitize => "SANITIZE"
  | .verify => "VERIFY"
  | .certify => "CERTIFY"
  | .seal => "SEAL"
  | .fault => "FAULT"
  | .halted => "HALTED"

/-- The machine stops stepping. -/
def isTerminal : State → Bool
  | fault => true
  | halted => true
  | _ => false

end State

/-- `windows` is a 32-bit count. -/
structure RunConfig where
  windows : UInt32
  pattern : Option UInt32

structure Machine (B : Type) where
  bus : Bus B
  state : State
  targets : List (Option Target)
  transcript : Digest

namespace Machine

/-- A machine that was powered on over a bus. -/
def new (bus : Bus B) : Machine B :=
  { bus, state := .selfTest, targets := List.replicate MAX_LANES none, transcript := 0 }

def onBus {α : Type} (m : Prog (Bus B) Empty α) : Prog (Machine B) Empty α := fun s =>
  ((m s.bus).1, { s with bus := (m s.bus).2 })

def goto (state : State) : Prog (Machine B) Empty Unit := Prog.update fun s => { s with state }

/-- Burn the fault fuse and latch. -/
def fault (why : String) : Prog (Machine B) Empty Unit := do
  onBus (note (.fault why))
  let fuse ← onBus (readFuses dev)
  onBus (burnFuses dev fuse.burnFault.word)
  onBus (latch dev)
  goto .fault

def stepSelftest : Prog (Machine B) Empty Unit := do
  onBus (writeReg dev PROBE 0b0101)
  let probe ← onBus (readReg dev PROBE)
  onBus (note (.probe probe))
  if probe ≠ 0b0101 then fault dev "interceptor register path failed"
  else do
    let fuse ← onBus (readFuses dev)
    if fuse.Completed then fault dev "board already sealed (COMPLETE fuse blown)"
    else if fuse.Faulted then fault dev "board previously faulted"
    else do
      let bitmap ← onBus (present dev)
      if bitmap.toNat > 2 ^ MAX_LANES - 1 then fault dev "lane-present bitmap implausible"
      else goto .enumerate

def stepEnumerate : Prog (Machine B) Empty Unit := do
  let targets ← onBus (enumerate dev)
  Prog.update fun s => { s with targets }
  if targets.any Option.isSome then goto .awaitArm
  else fault dev "no storage targets behind the interceptor"

def stepArm : Prog (Machine B) Empty Unit := do
  let word ← onBus (readReg dev ARM)
  onBus (note (.arm word))
  if word ≠ ARM_MAGIC then pure () else goto .sanitize

/-- Windows of a lane until one is refused. -/
def eachWindow (store : Nat → Prog (Bus B) Empty Bool) : List Nat → Prog (Bus B) Empty Bool
  | [] => pure true
  | addr :: addrs => do
    let accepted ← store addr
    if accepted then eachWindow store addrs else pure false

/-- Erase the lane, then write the declared pattern; the text of the refusal, if there is one. -/
def sanitizeLane (cfg : RunConfig) (lane : Nat) : Prog (Bus B) Empty (Option String) := do
  let erased ← eachWindow (erase dev lane) (List.range cfg.windows.toNat)
  if erased then
    match cfg.pattern with
    | none => pure none
    | some p => do
      let written ← eachWindow (fun addr => write dev lane addr p) (List.range cfg.windows.toNat)
      pure (if written then none else some "pattern write refused")
  else pure (some "erase command refused")

def sanitizeLanes (cfg : RunConfig) (bitmap : UInt32) : List Nat → Prog (Bus B) Empty (Option String)
  | [] => pure none
  | lane :: lanes =>
    if (bitmap >>> UInt32.ofNat lane) &&& 1 = 1 then do
      let refusal ← sanitizeLane dev cfg lane
      match refusal with
      | some why => pure (some why)
      | none => sanitizeLanes cfg bitmap lanes
    else sanitizeLanes cfg bitmap lanes

def stepSanitize (cfg : RunConfig) : Prog (Machine B) Empty Unit := do
  let bitmap ← onBus (present dev)
  onBus (gate dev bitmap)
  let refusal ← onBus (sanitizeLanes dev cfg bitmap (List.range MAX_LANES))
  match refusal with
  | some why => fault dev why
  | none => goto .verify

def stepVerify (cfg : RunConfig) : Prog (Machine B) Empty Unit := do
  let s ← Prog.get
  let verdicts ← onBus (verifyAll dev cfg.windows.toNat cfg.pattern s.targets)
  if verdicts.all Option.isNone then fault dev "no targets to verify"
  else if ∃ v ∈ verdicts.reduceOption, ¬ v.Passed then
    fault dev "readback residue detected — NOT certified"
  else goto .certify

/-- The words of a verdict that the transcript absorbs. -/
def verdictWords (v : LaneVerdict) : List UInt32 :=
  [UInt32.ofNat v.lane, UInt32.ofNat v.wordsRead, UInt32.ofNat v.residueWords, v.wear,
    (v.digest &&& 0xFFFFFFFF).toUInt32, (v.digest >>> 32).toUInt32]

/-- The digest over the verdicts, behind the first byte of the payload's magic. -/
def transcriptOf (verdicts : List LaneVerdict) : Digest :=
  (Digest.new.update 0x44).updateAll (verdicts.flatMap verdictWords)

def stepCertify (cfg : RunConfig) : Prog (Machine B) Empty Unit := do
  let s ← Prog.get
  let verdicts ← onBus (verifyAll dev cfg.windows.toNat cfg.pattern s.targets)
  Prog.update fun s => { s with transcript := transcriptOf verdicts.reduceOption }
  onBus (note (.transcript (transcriptOf verdicts.reduceOption).toUInt32))
  goto .seal

def stepSeal : Prog (Machine B) Empty Unit := do
  let s ← Prog.get
  let fuse ← onBus (readFuses dev)
  onBus (burnFuses dev (s.targets.reduceOption.foldl (fun f t => f.burnTarget t.lane) fuse).word)
  let fuse ← onBus (readFuses dev)
  onBus (burnFuses dev fuse.burnVerified.burnComplete.word)
  onBus (latch dev)
  goto .halted

def step (cfg : RunConfig) : Prog (Machine B) Empty Unit := do
  let s ← Prog.get
  onBus (note (.state s.state.asStr))
  match s.state with
  | .selfTest => stepSelftest dev
  | .enumerate => stepEnumerate dev
  | .awaitArm => stepArm dev
  | .sanitize => stepSanitize dev cfg
  | .verify => stepVerify dev cfg
  | .certify => stepCertify dev cfg
  | .seal => stepSeal dev
  | .fault => pure ()
  | .halted => pure ()

/-- `run`: the budget of steps is what is left of it. -/
def run (cfg : RunConfig) : Nat → Prog (Machine B) Empty State
  | 0 => do
    let s ← Prog.get
    pure s.state
  | budget + 1 => do
    let s ← Prog.get
    if s.state.isTerminal then pure s.state
    else do
      step dev cfg
      run cfg budget

end Machine

end

end Fpga

end DiscCleaner
