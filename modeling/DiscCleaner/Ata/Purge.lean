import DiscCleaner.Lib.Ladder
import DiscCleaner.Ata.Geometry

/-!
# DiscCleaner — the ATA purge ladder (`dc-ata/purge.rs`, `dc-ata/security.rs`)

SANITIZE DEVICE blocks until the drive is done, and the Sanitize Status log is read for the
evidence. Below it stands SECURITY ERASE UNIT, for which a random password is set first; where
the erase fails, the password is taken off again or handed to the operator.
-/

namespace DiscCleaner

open ByteLib DialogueLib LadderLib

structure AtaPurgePermit where
  targetDevice : String

inductive AtaPurgeMechanism where
  | sanitizeCryptoScramble
  | sanitizeBlockErase
  | securityEraseEnhanced
  | securityEraseNormal
  deriving DecidableEq

inductive AtaCompletionEvidence where
  | sanitizeStatusLog
  | blockingEraseReturn
  deriving DecidableEq

structure AtaMechanismFallback where
  source : String
  target : String
  reason : String
  deriving DecidableEq

structure AtaPurgeExecutionSummary where
  executedMechanism : AtaPurgeMechanism
  fallbacks : List AtaMechanismFallback
  completionEvidence : AtaCompletionEvidence
  sanitizeStatus : Option AtaSanitizeStatus
  progressPermille : Nat
  lifelineId : String
  lifelineVoided : Bool
  geometry : GeometryTransaction
  postSecurity : AtaSecurityStatus
  deriving DecidableEq

inductive AtaPurgeError where
  | fatal (message : String)
  | eraseFailedLockedDisclosed (detail rescuePassword : String)
  deriving DecidableEq

structure AtaLifeline where
  id : String
  passwordHash : String
  plaintextPassword : Option String
  voided : Bool
  deriving DecidableEq

/-- The id holds the first eight digits of a hash of the password's text. -/
def AtaLifeline.new (hashHex : Bytes → String) (password : String) : AtaLifeline :=
  let passwordHash := hashHex (utf8 password)
  { id := "life-" ++ String.ofList (passwordHash.toList.take 8)
    passwordHash := passwordHash
    plaintextPassword := some password
    voided := false }

def AtaLifeline.void (lifeline : AtaLifeline) : AtaLifeline :=
  { lifeline with plaintextPassword := none, voided := true }

/-- How a sanitize step that did not complete ended. -/
inductive AtaStepOutcome where
  | rejected (reason : String)
  | fatal (reason : String)
  deriving DecidableEq

def identifySecurityDisarmed : AtaSecurityStatus :=
  ⟨false, false, false, false, false, none, none⟩

namespace AtaPurgeClient

def sanitizeRequest (feature : AtaSanitizeFeature) : SatRequest :=
  ⟨AtaCodec.encodeSatSanitizeDevice feature, .none, sanitizeTimeoutMs⟩

def statusLogRequest : SatRequest :=
  ⟨AtaCodec.encodeSatSmartReadLog sanitizeStatusLog, .fromDev 512, readTimeoutMs⟩

def setPasswordRequest (password : Block 32) : SatRequest :=
  let (cdb, payload) := AtaCodec.encodeSatSecuritySetPassword false password
  ⟨cdb, .toDev payload, securityEraseTimeoutMs⟩

def erasePrepareRequest : SatRequest :=
  ⟨AtaCodec.encodeSatSecurityErasePrepare, .none, securityEraseTimeoutMs⟩

def eraseUnitRequest (enhanced : Bool) (password : Block 32) : SatRequest :=
  let (cdb, payload) := AtaCodec.encodeSatSecurityEraseUnitAuth false enhanced password
  ⟨cdb, .toDev payload, securityEraseTimeoutMs⟩

def disablePasswordRequest (password : Block 32) : SatRequest :=
  let (cdb, payload) := AtaCodec.encodeSatSecurityDisablePassword false password
  ⟨cdb, .toDev payload, securityEraseTimeoutMs⟩

/-! ## SANITIZE DEVICE -/

/-- The sense of an ILLEGAL REQUEST, read as the SCSI ladder reads it. -/
def senseIllegalRequest (reply : SatReply) : Option String :=
  ScsiPurgeClient.illegalRequestReason ⟨reply.status, reply.sense, reply.dataIn⟩

/-- One read of the Sanitize Status log. The page is decoded whatever the status. -/
def readSanitizeStatus : SatDialogue (Except String AtaSanitizeStatus) :=
  .ask statusLogRequest fun
    | .error e => .done (.error e)
    | .ok reply => .done (AtaSanitizeStatus.decodeLog reply.dataIn)

/-- The poll of the status log. -/
def sanitizePoll (maxPolls : Nat) :
    Poll SatRequest SatAnswer String AtaSanitizeStatus
      (Except AtaStepOutcome (AtaSanitizeStatus × Nat)) where
  read := readSanitizeStatus
  failed := AtaSanitizeStatus.isFailed
  finished := AtaSanitizeStatus.isCompleted
  onError := fun e => .error (.fatal e)
  onFailed := fun status =>
    .error (.fatal ("SANITIZE_FAILED: Sanitize Status log reports failure (SSTAT="
      ++ hexUpper16 status.rawSstat ++ ", SPROG=" ++ hexUpper16 status.rawSprog ++ ")"))
  onFinished := fun status => .ok (status, status.progressPermille)
  onExhausted := fun status =>
    .error (.fatal ("SANITIZE_INCOMPLETE: still in progress (" ++ toString status.progressPermille
      ++ " permille) after " ++ toString maxPolls
      ++ " polls; refusing to report completion without terminal status"))

def runSanitize (maxPolls : Nat) (feature : AtaSanitizeFeature) :
    SatDialogue (Except AtaStepOutcome (AtaSanitizeStatus × Nat)) :=
  .ask (sanitizeRequest feature) fun
    | .error e => .done (.error (.fatal e))
    | .ok reply =>
      if reply.isGood then (sanitizePoll maxPolls).loop maxPolls
      else
        match senseIllegalRequest reply with
        | some sense => .done (.error (.rejected sense))
        | none =>
          .done (.error (.fatal
            ("SANITIZE DEVICE (FEATURES " ++ hexUpper (UInt8.ofNat feature.code)
              ++ ") failed with SCSI status " ++ hexUpper reply.status
              ++ "; media state ambiguous — refusing to certify")))

/-! ## SECURITY ERASE UNIT -/

/-- SECURITY DISABLE PASSWORD with the run's own password. -/
def noHarmRepair (password : Block 32) : SatDialogue (Except String Unit) :=
  .ask (disablePasswordRequest password) fun
    | .error e => .done (.error ("transport fault during no-harm repair: " ++ e))
    | .ok reply =>
      if reply.isGood then .done (.ok ())
      else
        .done (.error ("SECURITY DISABLE PASSWORD failed: SCSI status " ++ hexUpper reply.status))

/-- IDENTIFY once more; without an answer the drive counts as disarmed. -/
def postSecurity : SatDialogue AtaSecurityStatus :=
  identify.andThen fun
    | .error _ => .done identifySecurityDisarmed
    | .ok post => .done post.security

/-- After a SECURITY ERASE UNIT that the drive refused. -/
def afterRefusedErase (permit : AtaPurgePermit) (enhanced : Bool) (password : Block 32)
    (eraseReply : SatReply) : SatDialogue (Except AtaPurgeError AtaPurgeExecutionSummary) :=
  (noHarmRepair password).andThen fun repair =>
    postSecurity.andThen fun post =>
      let detail := "SECURITY ERASE UNIT (enhanced=" ++ (if enhanced then "true" else "false")
        ++ ") failed: SCSI status " ++ hexUpper eraseReply.status ++ " on " ++ permit.targetDevice
      if repair.isOk && !post.locked then
        .done (.error (.fatal
          (detail ++ " — no-harm repair cleared the lock (drive unlocked, purge NOT completed); "
            ++ "re-run or switch to `dc execute`")))
      else .done (.error (.eraseFailedLockedDisclosed detail (hexEncode password.bytes)))

/-- The blocking erase, once the password is set and the erase prepared. -/
def eraseUnit (permit : AtaPurgePermit) (enhanced : Bool) (lifeline : AtaLifeline)
    (password : Block 32) (fallbacks : List AtaMechanismFallback) (geometry : GeometryTransaction) :
    SatDialogue (Except AtaPurgeError AtaPurgeExecutionSummary) :=
  .ask (eraseUnitRequest enhanced password) fun
    | .error e => .done (.error (.fatal e))
    | .ok eraseReply =>
      if eraseReply.isGood then
        postSecurity.andThen fun post =>
          .done (.ok
            { executedMechanism :=
                if enhanced then .securityEraseEnhanced else .securityEraseNormal
              fallbacks := fallbacks
              completionEvidence := .blockingEraseReturn
              sanitizeStatus := none
              progressPermille := 1000
              lifelineId := lifeline.id
              lifelineVoided := lifeline.void.voided
              geometry := geometry
              postSecurity := post })
      else afterRefusedErase permit enhanced password eraseReply

/-- The password is 32 random bytes; without them nothing is asked of the drive. -/
def executeSecurityErase (hashHex : Bytes → String) (random : Except String (Block 32))
    (permit : AtaPurgePermit) (enhanced : Bool) (fallbacks : List AtaMechanismFallback)
    (geometry : GeometryTransaction) : SatDialogue (Except AtaPurgeError AtaPurgeExecutionSummary) :=
  match random with
  | .error e => .done (.error (.fatal ("CSPRNG unavailable: " ++ e)))
  | .ok password =>
    .ask (setPasswordRequest password) fun
      | .error e => .done (.error (.fatal e))
      | .ok reply =>
        if reply.isGood then
          .ask erasePrepareRequest fun
            | .error e => .done (.error (.fatal e))
            | .ok reply =>
              if reply.isGood then
                eraseUnit permit enhanced (AtaLifeline.new hashHex (hexEncode password.bytes))
                  password fallbacks geometry
              else
                (noHarmRepair password).andThen fun _ =>
                  .done (.error (.fatal
                    ("SECURITY ERASE PREPARE failed: SCSI status " ++ hexUpper reply.status
                      ++ " (drive disarmed)")))
        else
          .done (.error (.fatal
            ("SECURITY SET PASSWORD failed: SCSI status " ++ hexUpper reply.status
              ++ " — aborting before any destructive step")))

/-! ## The ladder -/

/-- The summary of a sanitize; no password was set on this path. -/
def finalizeSummary (mechanism : AtaPurgeMechanism) (fallbacks : List AtaMechanismFallback)
    (evidence : AtaCompletionEvidence) (sanitizeStatus : Option AtaSanitizeStatus) (progress : Nat)
    (geometry : GeometryTransaction) : AtaPurgeExecutionSummary :=
  { executedMechanism := mechanism
    fallbacks := fallbacks
    completionEvidence := evidence
    sanitizeStatus := sanitizeStatus
    progressPermille := progress
    lifelineId := ""
    lifelineVoided := false
    geometry := geometry
    postSecurity := identifySecurityDisarmed }

/-- A rung that sanitizes: its end is the result, a rejection goes on to the next rung. -/
def sanitizeRung (maxPolls : Nat) (geometry : GeometryTransaction) (mechanism : AtaPurgeMechanism)
    (feature : AtaSanitizeFeature) (source target : String)
    (next : List AtaMechanismFallback → SatDialogue (Except AtaPurgeError AtaPurgeExecutionSummary))
    (fallbacks : List AtaMechanismFallback) :
    SatDialogue (Except AtaPurgeError AtaPurgeExecutionSummary) :=
  (runSanitize maxPolls feature).andThen fun
    | .ok (status, progress) =>
      .done (.ok (finalizeSummary mechanism fallbacks .sanitizeStatusLog (some status) progress
        geometry))
    | .error (.rejected reason) => next (fallbacks ++ [⟨source, target, reason⟩])
    | .error (.fatal reason) => .done (.error (.fatal reason))

/-- The last rungs; an enhanced erase that IDENTIFY does not offer falls back to the normal one. -/
def securityEraseRung (hashHex : Bytes → String) (random : Except String (Block 32))
    (permit : AtaPurgePermit) (security : AtaSecurityStatus) (geometry : GeometryTransaction)
    (enhanced : Bool) (fallbacks : List AtaMechanismFallback) :
    SatDialogue (Except AtaPurgeError AtaPurgeExecutionSummary) :=
  if !security.supported then
    .done (.error (.fatal ("NO_PURGE_MECHANISM: ATA SECURITY feature set not supported "
      ++ "(IDENTIFY word 128) — ladder exhausted")))
  else if enhanced && !security.enhancedEraseSupported then
    executeSecurityErase hashHex random permit false
      (fallbacks ++ [⟨"SecurityEraseEnhanced", "SecurityEraseNormal",
        "IDENTIFY word 128 bit 5: enhanced erase not supported"⟩]) geometry
  else executeSecurityErase hashHex random permit enhanced fallbacks geometry

def autoPrimary (identify : AtaIdentifyData) : Option AtaPurgeMechanism :=
  if identify.sanitize.cryptoScrambleSupported then some .sanitizeCryptoScramble
  else if identify.sanitize.blockEraseSupported then some .sanitizeBlockErase
  else if identify.security.enhancedEraseSupported then some .securityEraseEnhanced
  else if identify.security.supported then some .securityEraseNormal
  else none

def blockEraseRung (hashHex : Bytes → String) (random : Except String (Block 32))
    (maxPolls : Nat) (permit : AtaPurgePermit) (security : AtaSecurityStatus)
    (geometry : GeometryTransaction) :
    List AtaMechanismFallback → SatDialogue (Except AtaPurgeError AtaPurgeExecutionSummary) :=
  sanitizeRung maxPolls geometry .sanitizeBlockErase .blockErase "SanitizeBlockErase"
    "SecurityEraseEnhanced" (securityEraseRung hashHex random permit security geometry true)

def cryptoScrambleRung (hashHex : Bytes → String) (random : Except String (Block 32))
    (maxPolls : Nat) (permit : AtaPurgePermit) (security : AtaSecurityStatus)
    (geometry : GeometryTransaction) :
    List AtaMechanismFallback → SatDialogue (Except AtaPurgeError AtaPurgeExecutionSummary) :=
  sanitizeRung maxPolls geometry .sanitizeCryptoScramble .cryptoScramble "SanitizeCryptoScramble"
    "SanitizeBlockErase" (blockEraseRung hashHex random maxPolls permit security geometry)

/-- The ladder from a mechanism on. -/
def ladderFrom (hashHex : Bytes → String) (random : Except String (Block 32)) (maxPolls : Nat)
    (permit : AtaPurgePermit) (security : AtaSecurityStatus) (geometry : GeometryTransaction) :
    AtaPurgeMechanism → SatDialogue (Except AtaPurgeError AtaPurgeExecutionSummary)
  | .sanitizeCryptoScramble =>
    cryptoScrambleRung hashHex random maxPolls permit security geometry []
  | .sanitizeBlockErase => blockEraseRung hashHex random maxPolls permit security geometry []
  | .securityEraseEnhanced => securityEraseRung hashHex random permit security geometry true []
  | .securityEraseNormal => securityEraseRung hashHex random permit security geometry false []

def executePurgeLadder (hashHex : Bytes → String) (random : Except String (Block 32))
    (maxPolls : Nat) (permit : AtaPurgePermit) (requested : Option AtaPurgeMechanism) :
    SatDialogue (Except AtaPurgeError AtaPurgeExecutionSummary) :=
  identify.andThen fun
    | .error e => .done (.error (.fatal e))
    | .ok identify =>
      if identify.security.frozen then
        .done (.error (.fatal
          ("FROZEN: " ++ permit.targetDevice ++ " reports SECURITY FREEZE LOCK active (set by most "
            ++ "BIOS/UEFI at power-on). Power-cycle the host WITHOUT letting firmware re-freeze "
            ++ "(hot-plug the drive, or use a controller that does not assert freeze), "
            ++ "then retry the purge.")))
      else if identify.security.locked then
        .done (.error (.fatal
          ("PRE_LOCKED: " ++ permit.targetDevice ++ " is locked with a pre-existing password "
            ++ "unknown to this run; the no-fabrication rule forbids certifying a purge behind a "
            ++ "lock.")))
      else
        (restoreGeometry hashHex identify).andThen fun geometry =>
          match requested.or (autoPrimary identify) with
          | none =>
            .done (.error (.fatal
              ("NO_PURGE_MECHANISM: " ++ permit.targetDevice ++ " attests neither SANITIZE DEVICE "
                ++ "(word 169) nor the ATA SECURITY feature set (word 128); refusing to certify a "
                ++ "purge the firmware cannot perform")))
          | some mechanism =>
            ladderFrom hashHex random maxPolls permit identify.security geometry mechanism

end AtaPurgeClient

end DiscCleaner
