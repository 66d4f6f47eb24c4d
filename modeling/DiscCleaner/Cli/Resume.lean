import DiscCleaner.Cli.Execute

/-!
# DiscCleaner — resuming an interrupted run (`cmd_resume`)

The reader's records say where the run stopped: the last pass begun, the windows it
committed, and whether anything was flushed. The device is guarded and locked again, the
passes left are written, and the medium is read back from window 0.
-/

namespace DiscCleaner

open ByteLib ProgLib

/-- What a `resume` meets besides a `CommandEnv`: the live device and the Guardian, and the
file the journal lives in. -/
structure ResumeEnv (σ : Type) extends CommandEnv σ where
  probeDevice : Option DcError
  guardian : Option DcError
  armAndLock : Option DcError
  openForResume : Option DcError
  discardedTailBytes : Nat
  journalPath : String
  chainHead : List JournalRecord → String
  tool : ToolBuild
  verificationSchemeDoc : String

namespace Resume

open Command

/-! ## Where the run stopped -/

structure ResumePoint where
  lastPassIdx : UInt8
  committedWindows : Nat
  verifyReached : Bool
  deriving DecidableEq

def ResumePoint.start : ResumePoint := ⟨0, 0, false⟩

/-- What one record says about the resume point. -/
def ResumePoint.step (pt : ResumePoint) : JournalRecord → ResumePoint
  | .beginPass pass _ _ => { pt with lastPassIdx := pass, committedWindows := 0 }
  | .rangeCommit pass _ numWindows =>
    if pass = pt.lastPassIdx then
      { pt with committedWindows := pt.committedWindows + numWindows }
    else pt
  | .flushed _ => { pt with verifyReached := true }
  | _ => pt

def resumePoint (records : List JournalRecord) : ResumePoint :=
  records.foldl ResumePoint.step ResumePoint.start

/-- The reader's `sealed` and `uuid` come from record 0. -/
def sealedBy : List JournalRecord → Bool
  | .header h :: _ => h.sealed
  | _ => false

def uuidOf : List JournalRecord → String
  | .header h :: _ => h.uuid
  | _ => ""

variable {σ : Type} (pf : Platform) (env : ResumeEnv σ)

/-- A journal that ends in neither a failure nor an interruption was cut off: one more
interruption, known only by now. -/
def crashInterruption (records : List JournalRecord) : Command σ (List InterruptionRecord) :=
  match records.getLast? with
  | some (.failed _ _ _ _ _) | some (.interrupted _ _ _ _ _) | none => pure []
  | some _ => do
    let at_ ← nowIso env.toCommandEnv
    let resumed ← nowIso env.toCommandEnv
    pure [⟨at_, resumed⟩]

/-! ## Taking the run up again -/

def refuseCompleted (records : List JournalRecord) : Command σ Unit :=
  match records.getLast? with
  | none => Prog.fail (.journalCorrupt 0 "Journal is empty")
  | some (.completed _ _) =>
    Prog.fail (.journalCorrupt records.length "JOURNAL_ALREADY_COMPLETE")
  | some _ => pure ()

def headerOf (records : List JournalRecord) : Command σ Header :=
  match findHeader records with
  | some h => pure h
  | none => Prog.fail (.journalCorrupt 0 "Missing Header record in journal")

/-- The operator's key; a sealed journal asks for a key file, and for its own key. -/
def resumeKey (records : List JournalRecord) : Command σ SigningKey :=
  match env.keyFile with
  | some loaded => Prog.ofExcept loaded
  | none =>
    if sealedBy records then
      Prog.fail (.usage "This journal is SEALED with digital signatures. You must provide '--key <OPERATOR_KEY>' to resume.")
    else pure env.generatedKey

def checkSealKey (records : List JournalRecord) (keypair : SigningKey) : Command σ Unit :=
  match records with
  | .header h :: _ =>
    match h.operatorPubkey with
    | some expected =>
      if h.sealed ∧ hexEncode (pf.ed25519Public keypair).bytes ≠ expected then
        Prog.fail (.certSigning ("Key mismatch for sealed journal! Expected key: " ++ expected
          ++ ", Provided: " ++ hexEncode (pf.ed25519Public keypair).bytes))
      else pure ()
    | none => pure ()
  | _ => pure ()

def phaseText (pt : ResumePoint) : String :=
  if pt.verifyReached then "verify" else "pass_" ++ toString pt.lastPassIdx.toNat

def logicalPasses (plan : SanitizationPlan) : List Pass :=
  match plan.mechanism with
  | .logicalOverwrite passes => passes
  | .hardwarePurge _ _ => []

/-! ## The passes left -/

def writeMedia (h : Header) (passIdx : Nat) (pass : Pass)
    (source : PatternSource) (startWindow : Nat) : Command σ PassOutcome := do
  match ← Prog.attempt (overwrite env.toCommandEnv (UInt8.ofNat passIdx) pass.pattern source
      (Execute.span h.plan h.identity)
      (Execute.supportsWriteZeroes env.canWriteZeroes h.plan) startWindow) with
  | .ok outcome => pure outcome
  | .error (.interrupted through) =>
    journalInterrupted env.toCommandEnv "Graceful drain on termination signal during resume"
      (some ((through.map Prod.fst).getD (UInt8.ofNat passIdx))) (through.map Prod.snd)
    Prog.fail (.interrupted through)
  | .error e =>
    journalFailed env.toCommandEnv "resume-write" e
    Prog.fail e

/-- A pass that continues was already begun in the journal. -/
def beginPassRecord (h : Header) (passIdx : Nat) (source : PatternSource)
    (startWindow : Nat) : Command σ Unit :=
  if startWindow = 0 then
    append env.toCommandEnv
      (.beginPass (UInt8.ofNat passIdx) source.descriptor h.plan.windowBytes)
  else pure ()

/-- One turn of the pass loop. `offset` counts from the first pass of the plan, and the loop
adds the resume point to it. -/
def resumePass (h : Header) (pt : ResumePoint) (pass : Pass) (offset : Nat) :
    Command σ ExecutionPassReport := do
  let passIdx := pt.lastPassIdx.toNat + offset
  let startWindow := if passIdx = pt.lastPassIdx.toNat then pt.committedWindows else 0
  fsm (FsmState.beginPass (UInt8.ofNat passIdx))
  let source ← patternSource pf pass.pattern
  beginPassRecord env h passIdx source startWindow
  let outcome ← writeMedia env h passIdx pass source startWindow
  commitPass env.toCommandEnv passIdx startWindow outcome
  pure
    { index := UInt8.ofNat passIdx
      pattern := source.descriptor.name
      fastPathUsed := outcome.fastPathUsed
      windowsWritten := outcome.windowsWritten
      throughputKibS := env.throughputKibS outcome }

def resumePasses (h : Header) (pt : ResumePoint) :
    List (Pass × Nat) → Command σ (List ExecutionPassReport)
  | [] => pure []
  | (pass, offset) :: rest => do
    let report ← resumePass pf env h pt pass offset
    let reports ← resumePasses h pt rest
    pure (report :: reports)

/-- The passes are enumerated first and skipped after, and nothing is left once any pass was
flushed. -/
def passesLeft (pt : ResumePoint) (passes : List Pass) : List (Pass × Nat) :=
  if pt.verifyReached then [] else passes.zipIdx.drop pt.lastPassIdx.toNat

/-! ## Verification and certification -/

def verifySource (passes : List Pass) : Command σ PatternSource :=
  match passes.getLast? with
  | none => Prog.unwind
  | some lastPass => patternSource pf lastPass.pattern

/-- The medium is read back whatever the level, and the report is not looked at. -/
def verifyMedia (h : Header) (passes : List Pass) : Command σ VerificationReport := do
  let source ← verifySource pf passes
  let verifier ← readBack env.toCommandEnv
    "Graceful drain on termination signal during resume verification" "resume-verify-read"
    (StreamVerifier.new h.plan.verification h.plan.windowBytes h.identity.logicalBlockSize
      false true)
    source (Execute.span h.plan h.identity) h.plan.verification.effectiveStride
  pure (verifier.finalize pf.digests)

def certificate (keypair : SigningKey) (h : Header) (started finished : String)
    (durationMs : Nat) (past : List FailureRecord × List InterruptionRecord)
    (reports : List ExecutionPassReport) (report : VerificationReport) (sealed : Bool)
    (uuid : String) (journal : List JournalRecord) : SanitizationCertificate :=
  let publicKey := pf.ed25519Public keypair
  SanitizationCertificate.new env.tool env.verificationSchemeDoc h.plan h.planHash h.identity
    ⟨started, finished, durationMs, past.2, past.1, reports⟩ report
    (journalSummary env.journalPath (env.chainHead journal) sealed uuid journal)
    (hexEncode publicKey.bytes) (hexEncode (pf.blake3 publicKey.bytes).bytes)

def certifyRun (records : List JournalRecord) (keypair : SigningKey) (h : Header)
    (past : List FailureRecord × List InterruptionRecord)
    (reports : List ExecutionPassReport) (report : VerificationReport) : Command σ Unit := do
  fsm FsmState.certify
  let finished ← nowIso env.toCommandEnv
  let durationMs ← elapsed env.toCommandEnv
  append env.toCommandEnv (.completed finished durationMs)
  let started ← nowIso env.toCommandEnv
  let certDurationMs ← elapsed env.toCommandEnv
  let s ← Prog.get
  issue env.toCommandEnv pf keypair
    (certificate pf env keypair h started finished certDurationMs past reports report
      (sealedBy records) (uuidOf records) s.journal)
  Prog.failIf env.writeCertificate

/-- Everything before the pass loop: refusals, the Guardian, the key, and the two records
that open the epoch. -/
def armResume (records : List JournalRecord) :
    Command σ (Header × (List FailureRecord × List InterruptionRecord) × SigningKey) := do
  refuseCompleted records
  let h ← headerOf records
  let (failures, interruptions) ← history env.toCommandEnv records
  let crash ← crashInterruption env records
  Prog.failIf env.probeDevice
  Prog.failIf env.guardian
  Prog.failIf env.armAndLock
  armPlan env.toCommandEnv h.plan
  let keypair ← resumeKey env records
  checkSealKey pf records keypair
  Prog.failIf env.openForResume
  let armedAt ← nowIso env.toCommandEnv
  append env.toCommandEnv (.armed [] [Execute.kernelNumber h.identity] armedAt)
  let pt := resumePoint records
  let resumedAt ← nowIso env.toCommandEnv
  append env.toCommandEnv
    (.resumed (phaseText pt) pt.lastPassIdx pt.committedWindows env.discardedTailBytes
      resumedAt)
  Prog.failIf env.openEngine
  pure (h, (failures, interruptions ++ crash), keypair)

/-- `cmd_resume`, on the records the reader has returned. -/
def cmdResume (records : List JournalRecord) : Command σ Unit := do
  let (h, past, keypair) ← armResume pf env records
  let pt := resumePoint records
  let passes := logicalPasses h.plan
  let reports ← resumePasses pf env h pt (passesLeft pt passes)
  fsm FsmState.beginVerify
  let report ← verifyMedia pf env h passes
  append env.toCommandEnv (.verify
    (verifyRecord report none (Execute.supportsWriteZeroes env.canWriteZeroes h.plan)))
  certifyRun pf env records keypair h past reports report

end Resume

end DiscCleaner
