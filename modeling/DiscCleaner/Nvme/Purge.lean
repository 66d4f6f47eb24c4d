import DiscCleaner.Lib.Ladder
import DiscCleaner.Core.Plan

/-!
# DiscCleaner — the NVMe purge ladder (`dc-nvme`, `dc-hw/nvme_codec.rs`)

An admin command is a 64-byte block handed to the kernel. The ioctl returns a negative value with
an error number, zero, or the positive NVMe status with which the controller ended the command.
-/

namespace DiscCleaner

open ByteLib DialogueLib LadderLib

namespace Nvme

/-! ## Admin commands -/

inductive NvmeSecureEraseSetting where
  | none
  | userDataErase
  | cryptoErase
  deriving DecidableEq

def NvmeSecureEraseSetting.code : NvmeSecureEraseSetting → Nat
  | .none => 0
  | .userDataErase => 1
  | .cryptoErase => 2

inductive NvmeSanitizeAction where
  | exitFailureMode
  | blockErase
  | overwrite
  | cryptoErase
  deriving DecidableEq

def NvmeSanitizeAction.code : NvmeSanitizeAction → Nat
  | .exitFailureMode => 1
  | .blockErase => 2
  | .overwrite => 3
  | .cryptoErase => 4

structure NvmeSanitizeStatus where
  progressPermille : Nat
  isInProgress : Bool
  isCompleted : Bool
  isFailed : Bool
  rawSstat : Nat
  rawSprog : Nat
  deriving DecidableEq

namespace NvmeCodec

/-- The block of a command: the opcode, the namespace at byte 4 and dword 10 at byte 40. -/
def command (opcode : UInt8) (nsid cdw10 : Nat) : Bytes :=
  [opcode, 0, 0, 0] ++ le32 nsid ++ List.replicate 32 0 ++ le32 cdw10 ++ List.replicate 20 0

def encodeFormatNvm (nsid : Nat) (ses : NvmeSecureEraseSetting) (lbaf : Nat) : Bytes :=
  command 0x80 nsid (ses.code <<< 9 ||| lbaf &&& 0x0F)

def encodeSanitize (action : NvmeSanitizeAction) (noDeallocate : Bool) : Bytes :=
  command 0x84 0 (action.code &&& 0x07 ||| if noDeallocate then 1 <<< 9 else 0)

def encodeGetSanitizeStatusLog : Bytes := command 0x02 0xFFFFFFFF (0x81 ||| 0x007F <<< 16)

/-- The low three bits of the status word say how the last sanitize stands. -/
def decodeSanitizeStatusLog (payload : Bytes) : Except String NvmeSanitizeStatus :=
  if payload.length < 8 then .error "Payload too short for NVMe Sanitize Status Log"
  else
    let sprog := le16At payload 0
    let sstat := le16At payload 2
    let statusCode := sstat &&& 0x07
    .ok
      { progressPermille := (sprog * 1000 + 32768) / 65536
        isInProgress := statusCode == 2
        isCompleted := statusCode == 1
        isFailed := statusCode == 3
        rawSstat := sstat
        rawSprog := sprog }

end NvmeCodec

/-! ## The ioctl (`transport.rs`, `linux_admin.rs`) -/

inductive IoctlTaxonomy where
  | success
  | transportFault (errno : Int) (description : String)
  | controllerRejected (errno : Int) (description : String)
  | timeoutAmbiguous (errno : Int)
  | ourBug (errno : Int) (description : String)
  | unmappedLoud (errno : Int)
  deriving DecidableEq

/-- The text of `{:?}`. -/
def IoctlTaxonomy.debug : IoctlTaxonomy → String
  | .success => "Success"
  | .transportFault errno description => described "TransportFault" errno description
  | .controllerRejected errno description => described "ControllerRejected" errno description
  | .timeoutAmbiguous errno => bare "TimeoutAmbiguous" errno
  | .ourBug errno description => described "OurBug" errno description
  | .unmappedLoud errno => bare "UnmappedLoud" errno
where
  described (name : String) (errno : Int) (description : String) : String :=
    name ++ " \x7b errno: " ++ toString errno ++ ", description: \"" ++ description ++ "\" \x7d"
  bare (name : String) (errno : Int) : String :=
    name ++ " \x7b errno: " ++ toString errno ++ " \x7d"

def EPERM : Int := 1
def EIO : Int := 5
def ENXIO : Int := 6
def EACCES : Int := 13
def EFAULT : Int := 14
def ENODEV : Int := 19
def EINVAL : Int := 22
def ETIMEDOUT : Int := 110

def classify (errno : Int) : IoctlTaxonomy :=
  if errno = 0 then .success
  else if errno = EIO then .controllerRejected errno "Controller rejected admin command or I/O error"
  else if errno = EPERM ∨ errno = EACCES then
    .transportFault errno "Permission denied for raw NVMe passthrough ioctl"
  else if errno = ENODEV ∨ errno = ENXIO then
    .transportFault errno "NVMe device node disappeared from transport"
  else if errno = ETIMEDOUT then .timeoutAmbiguous errno
  else if errno = EFAULT then
    .ourBug errno "EFAULT: Invalid memory layout in passthrough buffer (internal bug)"
  else if errno = EINVAL then
    .ourBug errno "EINVAL: Invalid parameter in admin CDW construction (internal bug)"
  else .unmappedLoud errno

/-- What the ioctl returned, the error number it left and what was written to the buffer. -/
structure IoctlReturn where
  ret : Int
  errno : Int
  data : Bytes
  deriving DecidableEq

abbrev NvmeExchange : Type := Exchange Bytes IoctlReturn

abbrev NvmeController : Type := Responder Bytes IoctlReturn

abbrev NvmeDialogue (α : Type) : Type := Dialogue Bytes IoctlReturn α

def dataLenFor (cmd : Bytes) : Nat :=
  if cmd.getD 0 0 = 0x02 then (ofLe ((cmd.drop 40).take 4) >>> 16 + 1) * 4
  else if cmd.getD 0 0 = 0x06 then 4096
  else 0

/-- The result of an ioctl. Only a negative return is an error; on any other, the status of the
controller is dropped and the buffer, zero where nothing was written, is the payload. -/
def passthroughResult (cmd : Bytes) (r : IoctlReturn) : Except IoctlTaxonomy Bytes :=
  if r.ret < 0 then .error (classify r.errno)
  else .ok ((r.data ++ List.replicate (dataLenFor cmd) 0).take (dataLenFor cmd))

def adminPassthrough (cmd : Bytes) : NvmeDialogue (Except IoctlTaxonomy Bytes) :=
  .ask cmd fun r => .done (passthroughResult cmd r)

/-! ## The ladder (`purge.rs`) -/

structure PurgePermit where
  targetDevice : String

inductive PurgeMechanism where
  | sanitizeCryptoErase
  | sanitizeBlockErase
  | formatNvmCryptoErase
  | logicalOverwrite
  deriving DecidableEq

structure MechanismFallback where
  source : PurgeMechanism
  target : PurgeMechanism
  reason : String
  deriving DecidableEq

structure PurgeExecutionSummary where
  executedMechanism : PurgeMechanism
  fallbacks : List MechanismFallback
  status : NvmeSanitizeStatus
  deriving DecidableEq

namespace NvmePurgeClient

/-- The namespace number after the last `n` of the device's name; 1 where there is none. -/
def deriveTargetNsid (targetDevice : String) : Nat :=
  let lastBack (c : Char) (cs : List Char) : List Char := (cs.reverse.takeWhile (· ≠ c)).reverse
  let name := lastBack '/' targetDevice.toList
  if 'n' ∈ name then
    match VerifyLevel.parseU32 (lastBack 'n' name) with
    | some nsid => if 0 < nsid then nsid else 1
    | none => 1
  else 1

def readSanitizeStatus : NvmeDialogue (Except String NvmeSanitizeStatus) :=
  (adminPassthrough NvmeCodec.encodeGetSanitizeStatusLog).andThen fun
    | .error e => .done (.error ("Failed to read Sanitize Status Log 0x81: " ++ e.debug))
    | .ok payload => .done (NvmeCodec.decodeSanitizeStatusLog payload)

/-- The poll of the status log. -/
def sanitizePoll (maxPolls : Nat) :
    Poll Bytes IoctlReturn String NvmeSanitizeStatus (Except String NvmeSanitizeStatus) where
  read := readSanitizeStatus
  failed := NvmeSanitizeStatus.isFailed
  finished := NvmeSanitizeStatus.isCompleted
  onError := .error
  onFailed := fun status =>
    .error ("SANITIZE_FAILED: controller reported failure (SSTAT=" ++ toString status.rawSstat
      ++ ", SPROG=" ++ toString status.rawSprog ++ ")")
  onFinished := .ok
  onExhausted := fun status =>
    .error ("SANITIZE_INCOMPLETE: still in progress (" ++ toString status.progressPermille
      ++ " permille) after " ++ toString maxPolls
      ++ " polls; refusing to report completion without terminal status")

def waitForSanitizeCompletion (maxPolls : Nat) : NvmeDialogue (Except String NvmeSanitizeStatus) :=
  (sanitizePoll maxPolls).loop maxPolls

/-- A rung of the ladder: a command that passes goes on to `passed`, one that the controller
rejected goes on to the next rung, and any other error is the end. -/
def rung (cmd : Bytes) (mechanism target : PurgeMechanism) (label : String)
    (passed : List MechanismFallback → NvmeDialogue (Except String PurgeExecutionSummary))
    (next : List MechanismFallback → NvmeDialogue (Except String PurgeExecutionSummary))
    (fallbacks : List MechanismFallback) : NvmeDialogue (Except String PurgeExecutionSummary) :=
  (adminPassthrough cmd).andThen fun
    | .ok _ => passed fallbacks
    | .error (.controllerRejected _ description) =>
      next (fallbacks ++ [⟨mechanism, target, description⟩])
    | .error err => .done (.error ("Fatal transport error during " ++ label ++ ": " ++ err.debug))

/-- What follows a sanitize that passed: the poll for its end. -/
def sanitized (maxPolls : Nat) (mechanism : PurgeMechanism) (fallbacks : List MechanismFallback) :
    NvmeDialogue (Except String PurgeExecutionSummary) :=
  (waitForSanitizeCompletion maxPolls).andThen fun
    | .ok status => .done (.ok ⟨mechanism, fallbacks, status⟩)
    | .error e => .done (.error e)

/-- A format blocks, so its return is the end; the status is not one of the log's. -/
def formatted (fallbacks : List MechanismFallback) :
    NvmeDialogue (Except String PurgeExecutionSummary) :=
  .done (.ok
    { executedMechanism := .formatNvmCryptoErase
      fallbacks := fallbacks
      status :=
        { progressPermille := 1000
          isInProgress := false
          isCompleted := true
          isFailed := false
          rawSstat := 0
          rawSprog := 0 } })

/-- No admin command overwrites the media, so the last rung refuses. -/
def logicalOverwriteRung (_fallbacks : List MechanismFallback) :
    NvmeDialogue (Except String PurgeExecutionSummary) :=
  .done (.error
    ("LOGICAL_OVERWRITE_NOT_ADMIN_EXECUTABLE: the purge ladder fell through every controller "
      ++ "mechanism; a logical overwrite must be executed by the I/O engine with its own journal "
      ++ "and verification. Refusing to fabricate completion."))

def formatRung (permit : PurgePermit) :
    List MechanismFallback → NvmeDialogue (Except String PurgeExecutionSummary) :=
  rung (NvmeCodec.encodeFormatNvm (deriveTargetNsid permit.targetDevice) .cryptoErase 0)
    .formatNvmCryptoErase .logicalOverwrite "Format NVM" formatted logicalOverwriteRung

def blockEraseRung (maxPolls : Nat) (permit : PurgePermit) :
    List MechanismFallback → NvmeDialogue (Except String PurgeExecutionSummary) :=
  rung (NvmeCodec.encodeSanitize .blockErase false) .sanitizeBlockErase .formatNvmCryptoErase
    "Sanitize Block" (sanitized maxPolls .sanitizeBlockErase) (formatRung permit)

def cryptoEraseRung (maxPolls : Nat) (permit : PurgePermit) :
    List MechanismFallback → NvmeDialogue (Except String PurgeExecutionSummary) :=
  rung (NvmeCodec.encodeSanitize .cryptoErase false) .sanitizeCryptoErase .sanitizeBlockErase
    "Sanitize Crypto" (sanitized maxPolls .sanitizeCryptoErase) (blockEraseRung maxPolls permit)

def executePurgeLadder (maxPolls : Nat) (permit : PurgePermit) (primaryMechanism : PurgeMechanism) :
    NvmeDialogue (Except String PurgeExecutionSummary) :=
  match primaryMechanism with
  | .sanitizeCryptoErase => cryptoEraseRung maxPolls permit []
  | .sanitizeBlockErase => blockEraseRung maxPolls permit []
  | .formatNvmCryptoErase => formatRung permit []
  | .logicalOverwrite => logicalOverwriteRung []

end NvmePurgeClient

end Nvme

end DiscCleaner
