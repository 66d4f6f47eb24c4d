import DiscCleaner.Lib.Bytes
import DiscCleaner.Lib.Prog
import DiscCleaner.Lib.BigEndian

/-!
# DiscCleaner — the CXL mailbox engine (`dc-cxl/regs.rs`, `dc-cxl/mailbox.rs`)

The engine writes a payload and a command and polls the status register until its busy bit is
clear. A background command goes on in the background status register. The device is whatever
answers these accesses; it and the clock are a state of their own.
-/

namespace DiscCleaner

open ByteLib ProgLib

namespace Cxl

/-! ## Registers (`regs.rs`) -/

def MBOX_COMMAND : Nat := 0x10
def MBOX_STATUS : Nat := 0x18
def MBOX_BG_STATUS : Nat := 0x20

def OP_IDENTIFY : Nat := 0x4000
def OP_GET_SECURITY_STATE : Nat := 0x4500
def OP_SANITIZE : Nat := 0x4400
def OP_SECURE_ERASE : Nat := 0x4401

def RC_SUCCESS : Nat := 0x00
def RC_BACKGROUND_STARTED : Nat := 0x01
def RC_MAILBOX_BUSY : Nat := 0x03
def RC_INVALID_PAYLOAD_LENGTH : Nat := 0x09
def RC_UNSUPPORTED : Nat := 0x0b
def RC_INTERNAL_ERROR : Nat := 0x0c
def RC_RETRY : Nat := 0x0d
def RC_BUSY : Nat := 0x0e
def RC_MEDIA_DISABLED : Nat := 0x0f
def RC_SANITIZE_IN_PROGRESS : Nat := 0x44
def RC_SECURITY_FAILURE : Nat := 0x50

def returnCodeName (rc : Nat) : String :=
  if rc = RC_SUCCESS then "Success"
  else if rc = RC_BACKGROUND_STARTED then "Background operation started"
  else if rc = 0x02 then "Background operation not started"
  else if rc = RC_MAILBOX_BUSY then "Mailbox busy"
  else if rc = 0x04 then "Command issued while background busy"
  else if rc = 0x05 then "Command data area overflow"
  else if rc = 0x06 then "Command data area underflow"
  else if rc = 0x07 then "Command data area exhausted"
  else if rc = 0x08 then "Invalid epoch"
  else if rc = RC_INVALID_PAYLOAD_LENGTH then "Invalid payload length"
  else if rc = 0x0a then "Invalid command"
  else if rc = RC_UNSUPPORTED then "Unsupported command"
  else if rc = RC_INTERNAL_ERROR then "Internal device error"
  else if rc = RC_RETRY then "Retry suggested"
  else if rc = RC_BUSY then "Device busy"
  else if rc = RC_MEDIA_DISABLED then "Media disabled"
  else if rc = 0x10 then "Firmware transfer needed"
  else if rc = 0x11 then "Firmware transfer out of order"
  else if rc = 0x12 then "Firmware transfer cancelled"
  else if rc = 0x13 then "Firmware transfer aborted"
  else if rc = 0x20 then "Continue"
  else if rc = 0x21 then "Continue with return data"
  else if rc = RC_SANITIZE_IN_PROGRESS then "Sanitize in progress"
  else if rc = 0x45 then "Password not acceptable"
  else if rc = RC_SECURITY_FAILURE then "Security failure"
  else "Unknown return code"

/-- Bit 0 of the status register. -/
def isBusy (status : Nat) : Bool := status % 2 == 1

/-- Bits 31 to 16 of the status register. -/
def returnCode (status : Nat) : Nat := status / 2 ^ 16 % 2 ^ 16

/-- Bits 23 to 16 of the background status register. -/
def percentComplete (bg : Nat) : Nat := bg / 2 ^ 16 % 2 ^ 8

/-- The command register: the opcode, and the payload length from bit 32. -/
def commandWord (opcode len : Nat) : Nat := opcode ||| (len % 2 ^ 32) <<< 32

/-! ## The engine -/

inductive MailboxError where
  | returnCode (rc : Nat) (name : String)
  | timeout (limit opcode : Nat)
  | backgroundFailed (opcode rc : Nat) (name : String)
  | payloadTooLarge (len capacity : Nat)
  | responseTooLarge (len capacity : Nat)
  | backend (message : String)
  | sanitizeInProgress
  deriving DecidableEq

/-- What the engine and the erase do with a device: `MailboxBackend`, the clock (in nanoseconds),
the pause between polls, and `MediaSource`. -/
structure MailboxBackend (σ : Type) where
  readReg : Nat → Prog σ MailboxError Nat
  writeReg : Nat → Nat → Prog σ MailboxError Unit
  readPayload : Nat → Nat → Prog σ MailboxError Bytes
  writePayload : Nat → Bytes → Prog σ MailboxError Unit
  payloadCapacity : σ → Nat
  now : σ → Nat × σ
  sleep : σ → σ
  mediaView : σ → Bytes

namespace MailboxBackend

variable {σ : Type} (backend : MailboxBackend σ)

/-- `Instant::elapsed`. -/
def elapsed (started : Nat) : Prog σ MailboxError Nat := fun s =>
  (.ok ((backend.now s).1 - started), (backend.now s).2)

def instant : Prog σ MailboxError Nat := fun s => (.ok (backend.now s).1, (backend.now s).2)

end MailboxBackend

structure MailboxReply where
  opcode : Nat
  returnCode : Nat
  payload : Bytes

/-- The samples are pairs of elapsed milliseconds and percent complete. -/
structure BackgroundReport where
  opcode : Nat
  returnCode : Nat
  samples : List (Nat × Nat)
  completedIn : Nat

structure Mailbox (σ : Type) where
  backend : MailboxBackend σ
  commandTimeout : Nat
  backgroundTimeout : Nat

namespace Mailbox

variable {σ : Type} (mbox : Mailbox σ)

def new (backend : MailboxBackend σ) : Mailbox σ :=
  { backend, commandTimeout := 10 * 10 ^ 9, backgroundTimeout := 24 * 3600 * 10 ^ 9 }

/-- A loop that has not ended within its turns has not returned. -/
def unreturned {α : Type} : Prog σ MailboxError α := fun s => (.blocked, s)

/-- Write the payload and the command. -/
def issue (opcode : Nat) (payload : Bytes) : Prog σ MailboxError Unit := do
  let s ← Prog.get
  let capacity := mbox.backend.payloadCapacity s
  if payload.length > capacity then Prog.fail (.payloadTooLarge payload.length capacity)
  mbox.backend.writePayload 0 payload
  mbox.backend.writeReg MBOX_COMMAND (commandWord opcode payload.length)

/-- The polling loop of `execute`. -/
def awaitReply (opcode started : Nat) : Nat → Prog σ MailboxError MailboxReply
  | 0 => unreturned
  | turns + 1 => do
    let status ← mbox.backend.readReg MBOX_STATUS
    if isBusy status then
      let elapsed ← mbox.backend.elapsed started
      if elapsed > mbox.commandTimeout then Prog.fail (.timeout mbox.commandTimeout opcode)
      Prog.update mbox.backend.sleep
      awaitReply opcode started turns
    else
      let rc := returnCode status
      if rc = RC_SANITIZE_IN_PROGRESS then Prog.fail .sanitizeInProgress
      else if rc ≠ RC_SUCCESS then Prog.fail (.returnCode rc (returnCodeName rc))
      else
        let s ← Prog.get
        let payload ← mbox.backend.readPayload 0 (mbox.backend.payloadCapacity s)
        pure { opcode, returnCode := rc, payload }

def execute (turns opcode : Nat) (payload : Bytes) : Prog σ MailboxError MailboxReply := do
  mbox.issue opcode payload
  let started ← mbox.backend.instant
  mbox.awaitReply opcode started turns

/-- One reading of the background status register. -/
def sample (started : Nat) : Prog σ MailboxError (Nat × Nat) := do
  let bg ← mbox.backend.readReg MBOX_BG_STATUS
  let elapsed ← mbox.backend.elapsed started
  pure (elapsed / 10 ^ 6 % 2 ^ 64, percentComplete bg)

/-- The ceiling of a background operation, and the pause before the next poll. -/
def pace (opcode started : Nat) : Prog σ MailboxError Unit := do
  let elapsed ← mbox.backend.elapsed started
  if elapsed > mbox.backgroundTimeout then Prog.fail (.timeout mbox.backgroundTimeout opcode)
  Prog.update mbox.backend.sleep

def pollBackground (opcode started : Nat) (samples : List (Nat × Nat)) :
    Nat → Prog σ MailboxError BackgroundReport
  | 0 => unreturned
  | turns + 1 => do
    let reading ← mbox.sample started
    let samples := samples ++ [reading]
    if reading.2 ≥ 100 then
      let status ← mbox.backend.readReg MBOX_STATUS
      let effective := returnCode status
      if effective ≠ RC_SUCCESS then
        Prog.fail (.backgroundFailed opcode effective (returnCodeName effective))
      else
        let completedIn ← mbox.backend.elapsed started
        pure { opcode, returnCode := effective, samples, completedIn }
    else
      mbox.pace opcode started
      pollBackground opcode started samples turns

/-- The polling loop of `executeBackground`. -/
def awaitBackground (opcode started : Nat) (samples : List (Nat × Nat)) :
    Nat → Prog σ MailboxError BackgroundReport
  | 0 => unreturned
  | turns + 1 => do
    let status ← mbox.backend.readReg MBOX_STATUS
    let rc := returnCode status
    if isBusy status then
      let reading ← mbox.sample started
      mbox.pace opcode started
      awaitBackground opcode started (samples ++ [reading]) turns
    else if rc = RC_SUCCESS then
      let completedIn ← mbox.backend.elapsed started
      pure { opcode, returnCode := rc, samples, completedIn }
    else if rc = RC_SANITIZE_IN_PROGRESS then mbox.pollBackground opcode started samples turns
    else Prog.fail (.returnCode rc (returnCodeName rc))

def executeBackground (turns opcode : Nat) (payload : Bytes) :
    Prog σ MailboxError BackgroundReport := do
  mbox.issue opcode payload
  let started ← mbox.backend.instant
  mbox.awaitBackground opcode started [] turns

end Mailbox

end Cxl

end DiscCleaner

/-!
# the CXL erase lifecycle (`dc-cxl/lib.rs`, `dc-cxl/verify.rs`)

Identify, security state, erase, sampled read-back of the media, evidence. SHA-256 is an arbitrary
function.
-/

namespace DiscCleaner

open ByteLib ProgLib

namespace Cxl

inductive CxlError where
  | mailbox (e : MailboxError)
  | verificationFailed (nonzero sampled : Nat)
  | malformedIdentify (len : Nat)
  deriving DecidableEq

inductive EraseCommand where
  | sanitize
  | secureErase
  deriving DecidableEq

namespace EraseCommand

def opcode : EraseCommand → Nat
  | sanitize => OP_SANITIZE
  | secureErase => OP_SECURE_ERASE

def label : EraseCommand → String
  | sanitize => "sanitize"
  | secureErase => "secure-erase"

end EraseCommand

def IDENTIFY_PAYLOAD_LEN : Nat := 64
def IDENTIFY_SERIAL_OFF : Nat := 0
def IDENTIFY_CAPACITY_OFF : Nat := 32

structure IdentifyInfo where
  serialHex : String
  totalCapacityBytes : Nat
  raw : Bytes

structure SecurityState where
  enabled : Bool
  locked : Bool
  frozen : Bool
  encrypted : Bool

/-- `CxlMediaVerification`. -/
structure MediaVerification where
  sampledWindows : Nat
  windowSize : Nat
  nonzeroWindows : List Nat
  mediaSha256 : Option String
  allZero : Bool

structure CxlSanitizeEvidence where
  device : String
  bdf : String
  command : String
  opcode : Nat
  returnCode : Nat
  componentRegsSha256Pre : String
  componentRegsSha256Post : String
  identifySha256 : String
  identifySerialHex : String
  progress : List (Nat × Nat)
  completedInNs : Nat
  media : MediaVerification
  evidenceVersion : Nat

structure SanitizeOutcome where
  evidence : CxlSanitizeEvidence
  identify : IdentifyInfo

section erase

variable (sha256 : Bytes → Bytes)

def hexSha256 (data : Bytes) : String := hexEncode (sha256 data)

def verifyMediaSampled (media : Bytes) (windowSize nWindows : Nat) : MediaVerification :=
  let nWindows := max nWindows 1
  let windowSize := max windowSize 1
  if media = [] then
    { sampledWindows := 0, windowSize, nonzeroWindows := [],
      mediaSha256 := some (hexSha256 sha256 []), allZero := true }
  else
    let usable := media.length / windowSize
    let nonzero :=
      if usable = 0 then if media.any (· ≠ 0) then [0] else []
      else
        ((List.range nWindows).map fun k =>
          if nWindows = 1 then 0 else k * (usable - 1) / (nWindows - 1)).filter fun idx =>
            (slice media (idx * windowSize) windowSize).any (· ≠ 0)
    { sampledWindows := if usable = 0 then 1 else nWindows
      windowSize
      nonzeroWindows := nonzero
      mediaSha256 := if media.length ≤ 2 ^ 20 then some (hexSha256 sha256 media) else none
      allZero := nonzero.isEmpty }

def buildEvidence (device bdf command : String) (opcode : Nat) (report : BackgroundReport)
    (regsPre regsPost identify : Bytes) (media : MediaVerification) : CxlSanitizeEvidence where
  device
  bdf
  command
  opcode
  returnCode := report.returnCode
  componentRegsSha256Pre := hexSha256 sha256 regsPre
  componentRegsSha256Post := hexSha256 sha256 regsPost
  identifySha256 := hexSha256 sha256 identify
  identifySerialHex :=
    if IDENTIFY_SERIAL_OFF + 8 ≤ identify.length then
      hexEncode (slice identify IDENTIFY_SERIAL_OFF 8)
    else ""
  progress := report.samples
  completedInNs := report.completedIn
  media
  evidenceVersion := 1

variable {σ : Type} (mbox : Mailbox σ) (turns : Nat)

/-- `#[from] MailboxError`. -/
def mailboxed {α : Type} (m : Prog σ MailboxError α) : Prog σ CxlError α := fun s =>
  match m s with
  | (.ok a, s) => (.ok a, s)
  | (.err e, s) => (.err (.mailbox e), s)
  | (.panic, s) => (.panic, s)
  | (.blocked, s) => (.blocked, s)

def identify : Prog σ CxlError IdentifyInfo := do
  let reply ← mailboxed (mbox.execute turns OP_IDENTIFY [])
  if reply.payload.length < IDENTIFY_PAYLOAD_LEN then
    Prog.fail (.malformedIdentify IDENTIFY_PAYLOAD_LEN)
  else
    pure
      { serialHex := hexEncode (slice reply.payload IDENTIFY_SERIAL_OFF 16)
        totalCapacityBytes := ofLe (slice reply.payload IDENTIFY_CAPACITY_OFF 8)
        raw := reply.payload.take IDENTIFY_PAYLOAD_LEN }

def securityState : Prog σ CxlError SecurityState := do
  let reply ← mailboxed (mbox.execute turns OP_GET_SECURITY_STATE [])
  let f := (reply.payload.headD 0).toNat
  pure
    { enabled := f &&& 0x1 ≠ 0
      locked := f &&& 0x2 ≠ 0
      frozen := f &&& 0x4 ≠ 0
      encrypted := f &&& 0x8 ≠ 0 }

/-- The erase command of a run, with its report. -/
def runCommand : EraseCommand → Prog σ CxlError BackgroundReport
  | .sanitize => mailboxed (mbox.executeBackground turns OP_SANITIZE [])
  | .secureErase => do
    let reply ← mailboxed (mbox.execute turns OP_SECURE_ERASE [])
    pure { opcode := OP_SECURE_ERASE, returnCode := reply.returnCode, samples := [], completedIn := 0 }

/-- What follows the erase command: its code, the read-back, the evidence. -/
def certify (device bdf : String) (command : EraseCommand) (regsPre regsPost : Bytes)
    (identify : IdentifyInfo) (report : BackgroundReport) : Prog σ CxlError SanitizeOutcome := do
  if report.returnCode ≠ RC_SUCCESS then
    Prog.fail (.mailbox (.returnCode report.returnCode (returnCodeName report.returnCode)))
  else
    let s ← Prog.get
    let media := verifyMediaSampled sha256 (mbox.backend.mediaView s) 4096 64
    if media.allZero then
      pure
        { evidence := buildEvidence sha256 device bdf command.label command.opcode report regsPre
            regsPost identify.raw media
          identify }
    else Prog.fail (.verificationFailed media.nonzeroWindows.length media.sampledWindows)

def runErase (device bdf : String) (command : EraseCommand) (regsPre regsPost : Bytes) :
    Prog σ CxlError SanitizeOutcome := do
  let info ← identify mbox turns
  let _ ← securityState mbox turns
  let report ← runCommand mbox turns command
  certify sha256 mbox device bdf command regsPre regsPost info report

end erase

end Cxl

end DiscCleaner
