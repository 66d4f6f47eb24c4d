import DiscCleaner.Cli.Session

/-!
# DiscCleaner — the device pipeline of `execute` (`execute.rs`)

One device, from arming to the certificate: the journal is created, every pass of the plan is
written, committed and flushed, the medium is read back, and a run without mismatches is
completed and certified.
-/

namespace DiscCleaner

open ByteLib ProgLib

/-- The time-lock chain of a woven run: whether it can be entered, the source it yields for a
pass, and the source of the read-back. -/
structure VdfLock where
  enter : Option DcError
  advance : Nat → Except DcError PatternSource
  verifySource : PatternSource

/-- What an `execute` run is given and what it meets besides a `CommandEnv`. The acoustic
guard is its three possible refusals; `evidence` is what the optional blocks come to. -/
structure ExecuteEnv (σ : Type) extends CommandEnv σ where
  engineName : String
  tool : ToolBuild
  allowFlags : List String
  checkpointMib : Nat
  checkpointMs : Nat
  sha256 : Bool
  createJournal : Option DcError
  journalPath : String
  chainHead : List JournalRecord → String
  vdf : Option VdfLock
  pufPre : Option DcError
  pufMid : Option DcError
  pufPost : Option DcError
  thermalAborted : Option (Int × Int)
  evidence : Except DcError Evidence
  verificationSchemeDoc : String

structure DeviceJob where
  plan : SanitizationPlan
  planHash : String
  identity : DeviceIdentity

namespace Execute

open Command

variable {σ : Type} (pf : Platform) (env : ExecuteEnv σ) (job : DeviceJob)

/-! ## Before the first pass -/

def logicalPasses (plan : SanitizationPlan) : Command σ (List Pass) :=
  match plan.mechanism with
  | .logicalOverwrite passes => pure passes
  | .hardwarePurge _ selected =>
    Prog.fail (.usage ("plan targets a hardware purge (" ++ selected
      ++ ") — use `dc purge` for this device"))

def journalUuid (timestamp : String) : String :=
  "dcj-" ++ String.ofList (timestamp.toList.filter fun c =>
    c ≠ ':' ∧ c ≠ '-' ∧ c ≠ 'T' ∧ c ≠ 'Z')

def header (keypair : SigningKey) (timestamp : String) : Header where
  uuid := journalUuid timestamp
  sealed := env.keyFile.isSome
  operatorPubkey :=
    if env.keyFile.isSome then some (hexEncode (pf.ed25519Public keypair).bytes) else none
  plan := job.plan
  planHash := job.planHash
  identity := job.identity
  tool := env.tool
  engine := env.engineName
  tuning := ⟨64, 128, job.plan.windowBytes, env.checkpointMib, env.checkpointMs⟩
  argvHash := "cli-exec"
  startedUtc := timestamp

def kernelNumber (identity : DeviceIdentity) : String :=
  toString identity.kernel.major ++ ":" ++ toString identity.kernel.minor

def span (plan : SanitizationPlan) (identity : DeviceIdentity) : LbaSpan :=
  LbaSpan.new identity.stable.sizeBytes identity.logicalBlockSize plan.windowBytes

def supportsWriteZeroes (canWriteZeroes : Bool) (plan : SanitizationPlan) : Bool :=
  canWriteZeroes && plan.fastPath = .preferWriteZeroes

/-! ## One pass -/

/-- A woven pass advances the chain when there is one; any other pattern is created. -/
def passSource (passIdx : Nat) (pattern : Pattern) : Command σ PatternSource :=
  match env.vdf, pattern with
  | some lock, .vdfWoven _ _ => Prog.ofExcept (lock.advance passIdx)
  | _, _ => patternSource pf pattern

def thermalRefusal (temp limit : Int) : GuardianRefusal where
  code := "THERMAL_CRITICAL"
  detail := "drive temperature " ++ toString temp ++ " C reached the critical limit "
    ++ toString limit ++ " C — the overwrite was drained to protect the media"
  hint := "let the drive cool and re-run (the journal records the last completed window)"

/-- The engine call of a pass with its error paths: a thermal abort, a drain, a failure. -/
def writeMedia (passIdx : Nat) (pass : Pass) (source : PatternSource) : Command σ PassOutcome := do
  match ← Prog.attempt (overwrite env.toCommandEnv (UInt8.ofNat passIdx) pass.pattern source
      (span job.plan job.identity) (supportsWriteZeroes env.canWriteZeroes job.plan) 0) with
  | .ok outcome => pure outcome
  | .error (.interrupted through) =>
    match env.thermalAborted with
    | some (temp, limit) =>
      appendQuietly env.toCommandEnv (.failed "THERMAL_CRITICAL" none (some "write") none
        ("drive temperature " ++ toString temp ++ " C reached the critical limit "
          ++ toString limit ++ " C — the engine drained to protect the media"))
      Prog.fail (.guardian (thermalRefusal temp limit))
    | none =>
      journalInterrupted env.toCommandEnv "Graceful drain on termination signal"
        (some ((through.map Prod.fst).getD (UInt8.ofNat passIdx))) (through.map Prod.snd)
      Prog.fail (.interrupted through)
  | .error e =>
    journalFailed env.toCommandEnv "write" e
    Prog.fail e

/-- The acoustic guard looks again after the first pass. -/
def guardMid (passIdx : Nat) : Command σ Unit :=
  if passIdx = 0 then Prog.failIf env.pufMid else pure ()

def passReport (passIdx : Nat) (source : PatternSource) (outcome : PassOutcome) :
    ExecutionPassReport where
  index := UInt8.ofNat passIdx
  pattern := source.descriptor.name
  fastPathUsed := outcome.fastPathUsed
  windowsWritten := outcome.windowsWritten
  throughputKibS := env.throughputKibS outcome

/-- One turn of the pass loop: its report and the bytes it wrote. -/
def executePass (passIdx : Nat) (pass : Pass) : Command σ (ExecutionPassReport × Nat) := do
  fsm (FsmState.beginPass (UInt8.ofNat passIdx))
  let source ← passSource pf env passIdx pass.pattern
  append env.toCommandEnv
    (.beginPass (UInt8.ofNat passIdx) source.descriptor job.plan.windowBytes)
  let outcome ← writeMedia env job passIdx pass source
  guardMid env passIdx
  commitPass env.toCommandEnv passIdx 0 outcome
  pure (passReport env passIdx source outcome, outcome.bytesWritten)

def executePasses : List (Pass × Nat) → Command σ (List ExecutionPassReport × Nat)
  | [] => pure ([], 0)
  | (pass, passIdx) :: rest => do
    let (report, bytes) ← executePass pf env job passIdx pass
    let (reports, more) ← executePasses rest
    pure (report :: reports, bytes + more)

/-! ## Verification and certification -/

def verifySource (passes : List Pass) : Command σ PatternSource :=
  match passes.getLast? with
  | none => Prog.unwind
  | some lastPass =>
    match env.vdf, lastPass.pattern with
    | some lock, .vdfWoven _ _ => pure lock.verifySource
    | _, _ => patternSource pf lastPass.pattern

/-- The verification phase: nothing is read under `VerifyLevel::None`. -/
def verifyMedia (passes : List Pass) : Command σ VerificationReport :=
  let level := job.plan.verification
  if level = .none then
    pure ((StreamVerifier.new .none job.plan.windowBytes job.identity.logicalBlockSize
      env.sha256 false).finalize pf.digests)
  else do
    let source ← verifySource pf env passes
    let verifier ← readBack env.toCommandEnv
      "Graceful drain on termination signal during verification" "verify-read"
      (StreamVerifier.new level job.plan.windowBytes job.identity.logicalBlockSize
        env.sha256 true)
      source (span job.plan job.identity) level.effectiveStride
    pure (verifier.finalize pf.digests)

/-- A report with mismatches fails the run. -/
def refuseMismatches (report : VerificationReport) : Command σ Unit :=
  if 0 < report.mismatchCount then do
    append env.toCommandEnv (.failed "VERIFICATION_FAILED" none (some "verify")
      report.firstMismatchLbas.head?
      ("Found " ++ toString report.mismatchCount ++ " mismatching windows"))
    Prog.fail (.verificationFailed report.mismatchCount report.firstMismatchLbas)
  else pure ()

/-- The certificate of a completed run, still unsigned. -/
def certificate (keypair : SigningKey) (timestamp finished : String) (durationMs : Nat)
    (reports : List ExecutionPassReport) (report : VerificationReport)
    (journal : List JournalRecord) (evidence : Evidence) : SanitizationCertificate :=
  let publicKey := pf.ed25519Public keypair
  { SanitizationCertificate.new env.tool env.verificationSchemeDoc job.plan job.planHash
      job.identity ⟨timestamp, finished, durationMs, [], [], reports⟩ report
      (journalSummary env.journalPath (env.chainHead journal) env.keyFile.isSome
        (journalUuid timestamp) journal)
      (hexEncode publicKey.bytes) (hexEncode (pf.blake3 publicKey.bytes).bytes) with
    evidence := evidence }

/-- The last phase: complete the journal, then assemble, sign and write the certificate. -/
def certifyRun (keypair : SigningKey) (timestamp : String) (reports : List ExecutionPassReport)
    (report : VerificationReport) : Command σ Unit := do
  fsm FsmState.certify
  let finished ← nowIso env.toCommandEnv
  let durationMs ← elapsed env.toCommandEnv
  append env.toCommandEnv (.completed finished durationMs)
  Prog.failIf env.pufPost
  let certDurationMs ← elapsed env.toCommandEnv
  let evidence ← Prog.ofExcept env.evidence
  let s ← Prog.get
  issue env.toCommandEnv pf keypair
    (certificate pf env job keypair timestamp finished certDurationMs reports report s.journal
      evidence)
  Prog.failIf env.writeCertificate

/-- Everything before the pass loop: the passes, the key and the start time. -/
def armRun : Command σ (List Pass × SigningKey × String) := do
  let passes ← logicalPasses job.plan
  armPlan env.toCommandEnv job.plan
  let timestamp ← nowIso env.toCommandEnv
  let keypair ← loadKey env.toCommandEnv
  Prog.failIf env.createJournal
  append env.toCommandEnv (.header (header pf env job keypair timestamp))
  let armedAt ← nowIso env.toCommandEnv
  append env.toCommandEnv (.armed env.allowFlags [kernelNumber job.identity] armedAt)
  Prog.failIf (env.vdf.bind VdfLock.enter)
  Prog.failIf env.pufPre
  Prog.failIf env.openEngine
  pure (passes, keypair, timestamp)

/-- `execute_device_inner`; it returns the bytes written. -/
def executeDeviceInner : Command σ Nat := do
  let (passes, keypair, timestamp) ← armRun pf env job
  let (reports, totalBytes) ← executePasses pf env job passes.zipIdx
  fsm FsmState.beginVerify
  let report ← verifyMedia pf env job passes
  append env.toCommandEnv (.verify
    (verifyRecord report report.streamHashSha256
      (supportsWriteZeroes env.canWriteZeroes job.plan)))
  refuseMismatches env report
  certifyRun pf env job keypair timestamp reports report
  pure totalBytes

end Execute

end DiscCleaner
