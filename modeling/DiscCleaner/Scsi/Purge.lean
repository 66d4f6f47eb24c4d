import DiscCleaner.Lib.Bytes

/-!
# DiscCleaner — the SCSI purge ladder (`dc-scsi/purge.rs`, `dc-hw/scsi_codec.rs`)

A transport answers a request in view of the exchanges so far, so a device with any state is
one. SANITIZE is issued without waiting and REQUEST SENSE is polled for its end; only a
rejection by the controller walks the ladder down.
-/

namespace DiscCleaner

open ByteLib

structure ScsiSenseData where
  senseKey : UInt8
  asc : UInt8
  ascq : UInt8
  progressPermille : Option Nat
  deriving DecidableEq

inductive ScsiSanitizeServiceAction where
  | overwrite
  | blockErase
  | cryptoErase
  | exitFailureMode
  deriving DecidableEq

def ScsiSanitizeServiceAction.code : ScsiSanitizeServiceAction → UInt8
  | .overwrite => 0x01
  | .blockErase => 0x02
  | .cryptoErase => 0x03
  | .exitFailureMode => 0x1F

/-- `0x{:02X}`. -/
def hexUpper (b : UInt8) : String :=
  let digit (n : Nat) : Char := ("0123456789ABCDEF".toList).getD n '0'
  String.ofList ['0', 'x', digit (b.toNat / 16), digit (b.toNat % 16)]

namespace ScsiCodec

def encodeSanitize (serviceAction : ScsiSanitizeServiceAction) (immed : Bool) : Bytes :=
  let action := serviceAction.code &&& 0x1F
  [0x48, if immed then action ||| 0x80 else action] ++ List.replicate 14 0

def encodeFormatUnit (immed : Bool) : Bytes :=
  [0x04, if immed then 0x80 else 0x00, 0, 0, 0, 0]

def encodeRequestSense (allocLen : UInt8) : Bytes := [0x03, 0, 0, 0, allocLen, 0]

def encodeReadDefectData (grownOnly : Bool) (allocLen : Nat) : Bytes :=
  [0x37, if grownOnly then 0x08 else 0x10, 0, 0, 0, 0, 0, UInt8.ofNat (allocLen >>> 8),
   UInt8.ofNat allocLen, 0]

def decodeDefectListCount (header : Bytes) : Except String Nat :=
  if header.length < 4 then .error "READ DEFECT DATA header must be 4 bytes"
  else .ok (((header.getD 2 0).toNat * 256 + (header.getD 3 0).toNat) / 8)

/-- Fixed format for response codes 70h and 71h; anything else is read as descriptor format. -/
def decodeSenseData (raw : Bytes) : Except String ScsiSenseData :=
  if raw.length < 8 then .error "Sense data too short"
  else
    let responseCode := raw.getD 0 0 &&& 0x7F
    if responseCode = 0x70 ∨ responseCode = 0x71 then
      let progressPermille :=
        if 18 ≤ raw.length ∧ raw.getD 15 0 &&& 0x80 ≠ 0 then
          let progressRaw := (raw.getD 16 0).toNat * 256 + (raw.getD 17 0).toNat
          some ((progressRaw * 1000 + 32768) / 65536)
        else none
      .ok ⟨raw.getD 2 0 &&& 0x0F, raw.getD 12 0, raw.getD 13 0, progressPermille⟩
    else .ok ⟨raw.getD 1 0 &&& 0x0F, raw.getD 2 0, raw.getD 3 0, none⟩

end ScsiCodec

/-! ## Transports -/

inductive ScsiXfer where
  | none
  | fromDev (len : Nat)
  | toDev (payload : Bytes)
  deriving DecidableEq

structure ScsiReply where
  status : UInt8
  sense : Bytes
  dataIn : Bytes
  deriving DecidableEq

def ScsiReply.isGood (reply : ScsiReply) : Bool := reply.status == 0x00

structure ScsiRequest where
  cdb : Bytes
  xfer : ScsiXfer
  timeoutMs : Nat
  deriving DecidableEq

/-- A request and what came of it: a reply, or a transport fault. -/
structure ScsiExchange where
  request : ScsiRequest
  reply : Except String ScsiReply

abbrev ScsiTransport : Type := List ScsiExchange → ScsiRequest → Except String ScsiReply

/-- A step of the purge client: its result and the exchanges it leaves. -/
abbrev ScsiStep (ε α : Type) : Type := List ScsiExchange → Except ε α × List ScsiExchange

def sanitizeIssueTimeoutMs : Nat := 60000
def formatUnitTimeoutMs : Nat := 24 * 60 * 60 * 1000
def probeTimeoutMs : Nat := 30000
def requestSenseAlloc : UInt8 := 32
def ascLuNotReady : UInt8 := 0x04
def ascSanitizeFailed : UInt8 := 0x31
def ascPowerOnReset : UInt8 := 0x29

inductive ScsiPurgeMechanism where
  | sanitizeCryptoErase
  | sanitizeBlockErase
  | formatUnit
  deriving DecidableEq

inductive ScsiCompletionEvidence where
  | sensePollTerminal
  | blockingFormatReturn
  deriving DecidableEq

structure ScsiMechanismFallback where
  source : String
  target : String
  reason : String
  deriving DecidableEq

structure ScsiPurgeExecutionSummary where
  executedMechanism : ScsiPurgeMechanism
  fallbacks : List ScsiMechanismFallback
  completionEvidence : ScsiCompletionEvidence
  progressPermille : Nat
  grownDefectsPre : Option Nat
  terminalSense : ScsiSenseData
  deriving DecidableEq

structure ScsiPurgePermit where
  targetDevice : String

inductive SanitizeStepOutcome where
  | rejected (reason : String)
  | fatal (reason : String)
  deriving DecidableEq

namespace ScsiPurgeClient

def issue (transport : ScsiTransport) (request : ScsiRequest) : ScsiStep String ScsiReply :=
  fun h => (transport h request, h ++ [⟨request, transport h request⟩])

def readDefectRequest : ScsiRequest :=
  ⟨ScsiCodec.encodeReadDefectData true 4, .fromDev 4, probeTimeoutMs⟩

def senseRequest : ScsiRequest :=
  ⟨ScsiCodec.encodeRequestSense requestSenseAlloc, .fromDev requestSenseAlloc.toNat, probeTimeoutMs⟩

/-- SANITIZE is always issued with IMMED. -/
def sanitizeRequest (action : ScsiSanitizeServiceAction) : ScsiRequest :=
  ⟨ScsiCodec.encodeSanitize action true, .none, sanitizeIssueTimeoutMs⟩

def formatUnitRequest : ScsiRequest :=
  ⟨ScsiCodec.encodeFormatUnit false, .none, formatUnitTimeoutMs⟩

def readGrownDefects (transport : ScsiTransport) : ScsiStep String Nat := fun h =>
  match issue transport readDefectRequest h with
  | (.error e, h) => (.error e, h)
  | (.ok reply, h) =>
    if reply.isGood then (ScsiCodec.decodeDefectListCount reply.dataIn, h)
    else (.error ("READ DEFECT DATA failed: SCSI status " ++ hexUpper reply.status), h)

/-- The sense data of an idle unit. -/
def noSense : ScsiSenseData := ⟨0x00, 0x00, 0x00, none⟩

/-- One REQUEST SENSE, decoded from the sense buffer; an empty one is taken for an idle unit. -/
def requestSense (transport : ScsiTransport) : ScsiStep String ScsiSenseData := fun h =>
  match issue transport senseRequest h with
  | (.error e, h) => (.error e, h)
  | (.ok reply, h) =>
    if reply.sense.isEmpty then (.ok noSense, h) else (ScsiCodec.decodeSenseData reply.sense, h)

def senseText (key asc ascq : UInt8) (separator : String) : String :=
  hexUpper key ++ separator ++ hexUpper asc ++ separator ++ hexUpper ascq

def illegalRequestReason (reply : ScsiReply) : Option String :=
  let reason (key asc ascq : UInt8) : Option String :=
    if key = 0x05 then
      some ("controller rejected: ILLEGAL REQUEST (sense " ++ senseText key asc ascq " " ++ ")")
    else none
  let byte (i : Nat) : UInt8 := reply.sense.getD i 0
  if 4 ≤ reply.sense.length ∧ byte 0 &&& 0x7F = 0x72 then reason (byte 1 &&& 0x0F) (byte 2) (byte 3)
  else if 14 ≤ reply.sense.length then reason (byte 2 &&& 0x0F) (byte 12) (byte 13)
  else none

/-- The poll loop, with `remaining` of the `maxPolls` polls left. -/
def pollSense (transport : ScsiTransport) (maxPolls : Nat) :
    Nat → ScsiStep SanitizeStepOutcome (Nat × ScsiSenseData)
  | remaining, h =>
    match requestSense transport h with
    | (.error e, h) => (.error (.fatal e), h)
    | (.ok sense, h) =>
      if sense.senseKey = 0x06 ∧ sense.asc = ascPowerOnReset then (.ok (1000, sense), h)
      else if sense.senseKey = 0x00 then (.ok (1000, sense), h)
      else if sense.senseKey = 0x02 ∧ sense.asc = ascSanitizeFailed then
        (.error (.fatal
          ("SANITIZE_FAILED: sense " ++ senseText sense.senseKey sense.asc sense.ascq "/")), h)
      else if sense.senseKey = 0x02 ∧ sense.asc = ascLuNotReady then
        match remaining with
        | 0 =>
          (.error (.fatal
            ("SANITIZE_INCOMPLETE: still in progress ("
              ++ toString (sense.progressPermille.getD 0) ++ " permille) after "
              ++ toString maxPolls
              ++ " sense polls; refusing to report completion without terminal state")), h)
        | remaining + 1 => pollSense transport maxPolls remaining h
      else
        (.error (.fatal
          ("UNCLASSIFIED_SENSE during sanitize poll: "
            ++ senseText sense.senseKey sense.asc sense.ascq "/")), h)

def runSanitize (transport : ScsiTransport) (maxPolls : Nat) (action : ScsiSanitizeServiceAction) :
    ScsiStep SanitizeStepOutcome (Nat × ScsiSenseData) := fun h =>
  match issue transport (sanitizeRequest action) h with
  | (.error e, h) => (.error (.fatal e), h)
  | (.ok reply, h) =>
    if reply.isGood then pollSense transport maxPolls maxPolls h
    else
      match illegalRequestReason reply with
      | some reason => (.error (.rejected reason), h)
      | none =>
        (.error (.fatal
          ("SANITIZE (service action " ++ hexUpper action.code ++ ") failed at issue: SCSI status "
            ++ hexUpper reply.status)), h)

/-! ## The ladder -/

/-- A rung that sanitizes: its end is the result, a rejection goes on to the next rung. -/
def sanitizeRung (transport : ScsiTransport) (maxPolls : Nat) (grownDefectsPre : Option Nat)
    (mechanism : ScsiPurgeMechanism) (action : ScsiSanitizeServiceAction) (source target : String)
    (next : List ScsiMechanismFallback → ScsiStep String ScsiPurgeExecutionSummary)
    (fallbacks : List ScsiMechanismFallback) : ScsiStep String ScsiPurgeExecutionSummary := fun h =>
  match runSanitize transport maxPolls action h with
  | (.ok (progress, terminal), h) =>
    (.ok
      { executedMechanism := mechanism
        fallbacks := fallbacks
        completionEvidence := .sensePollTerminal
        progressPermille := progress
        grownDefectsPre := grownDefectsPre
        terminalSense := terminal }, h)
  | (.error (.rejected reason), h) => next (fallbacks ++ [⟨source, target, reason⟩]) h
  | (.error (.fatal reason), h) => (.error reason, h)

/-- The blocking last rung; its return is the evidence. -/
def formatUnitRung (transport : ScsiTransport) (permit : ScsiPurgePermit)
    (grownDefectsPre : Option Nat) (fallbacks : List ScsiMechanismFallback) :
    ScsiStep String ScsiPurgeExecutionSummary := fun h =>
  match issue transport formatUnitRequest h with
  | (.error e, h) =>
    (.error ("FORMAT UNIT transport fault on " ++ permit.targetDevice ++ ": " ++ e
      ++ " — media state ambiguous, refusing to certify"), h)
  | (.ok reply, h) =>
    if reply.isGood then
      let (sense, h) := requestSense transport h
      (.ok
        { executedMechanism := .formatUnit
          fallbacks := fallbacks
          completionEvidence := .blockingFormatReturn
          progressPermille := 1000
          grownDefectsPre := grownDefectsPre
          terminalSense := sense.toOption.getD noSense }, h)
    else
      let sense :=
        match ScsiCodec.decodeSenseData reply.sense with
        | .ok s => "sense " ++ senseText s.senseKey s.asc s.ascq "/"
        | .error _ => "undecodable sense"
      (.error ("SCSI_LADDER_EXHAUSTED: FORMAT UNIT failed (" ++ sense ++ ") on "
        ++ permit.targetDevice ++ "; the controller rejected every firmware purge — use "
        ++ "`dc execute` for a tool-verified logical overwrite"), h)

def blockEraseRung (transport : ScsiTransport) (maxPolls : Nat) (permit : ScsiPurgePermit)
    (grownDefectsPre : Option Nat) :
    List ScsiMechanismFallback → ScsiStep String ScsiPurgeExecutionSummary :=
  sanitizeRung transport maxPolls grownDefectsPre .sanitizeBlockErase .blockErase
    "SanitizeBlockErase" "FormatUnit" (formatUnitRung transport permit grownDefectsPre)

def cryptoEraseRung (transport : ScsiTransport) (maxPolls : Nat) (permit : ScsiPurgePermit)
    (grownDefectsPre : Option Nat) :
    List ScsiMechanismFallback → ScsiStep String ScsiPurgeExecutionSummary :=
  sanitizeRung transport maxPolls grownDefectsPre .sanitizeCryptoErase .cryptoErase
    "SanitizeCryptoErase" "SanitizeBlockErase"
    (blockEraseRung transport maxPolls permit grownDefectsPre)

def executePurgeLadder (transport : ScsiTransport) (maxPolls : Nat) (permit : ScsiPurgePermit)
    (requested : Option ScsiPurgeMechanism) : ScsiStep String ScsiPurgeExecutionSummary := fun h =>
  let (defects, h) := readGrownDefects transport h
  match requested.getD .sanitizeCryptoErase with
  | .sanitizeCryptoErase => cryptoEraseRung transport maxPolls permit defects.toOption [] h
  | .sanitizeBlockErase => blockEraseRung transport maxPolls permit defects.toOption [] h
  | .formatUnit => formatUnitRung transport permit defects.toOption [] h

end ScsiPurgeClient

end DiscCleaner
