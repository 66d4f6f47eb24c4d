import DiscCleaner.Cli.ResumePlan

/-!
# DiscCleaner — hardware purges (`dc-cli/purge.rs`)

Every transport creates a journal, runs its ladder and hands the outcome to one certificate
assembly. The assembly takes a fresh orchestrator from the plan straight to verification,
which the lifecycle allows only after a flush, so it refuses before it writes anything.
-/

namespace DiscCleaner

open ByteLib ProgLib

/-! ## Evidence -/

structure PurgeFallbackRecord where
  source : String
  target : String
  reason : String
  deriving DecidableEq

structure PurgeCertificateEvidence where
  executedMechanism : String
  fallbacks : List PurgeFallbackRecord
  completionEvidence : String
  sanitizeProgressPermille : Nat
  readbackExpectation : String
  controllerDevice : String
  deriving DecidableEq

structure FabricSessionEvidence where
  transport : String
  traddr : String
  trsvcid : String
  nqn : String
  ctrlName : String
  ctrlCharDev : String
  disconnectedCleanly : Bool
  sessionMs : Nat
  fcHostPortName : Option String
  deriving DecidableEq

def FabricSessionEvidence.defenseWarnings (e : FabricSessionEvidence) : List String :=
  if e.disconnectedCleanly then []
  else
    ["DEFENSE_WARNING: fabric session did not end with a confirmed DISCONNECT — "
      ++ "the remote subsystem may still hold the controller session open."]

/-- Evidence another component hands over: the text it is written as, and the warnings it
gives rise to. -/
structure EvidenceBlock where
  json : Bytes
  warnings : List String

/-- The outcome every transport's runner returns. -/
structure PurgeRunOutcome where
  executedMechanism : String
  fallbacks : List PurgeFallbackRecord
  completionEvidence : String
  progressPermille : Nat
  readbackExpectation : String
  controllerDevice : String
  durationMs : Nat

namespace SanitizationCertificate

def withDefenseWarnings (warnings : List String) (cert : SanitizationCertificate) :
    SanitizationCertificate :=
  { cert with
    evidence.defenseWarnings := if warnings = [] then none else some warnings }

/-- Derived warnings are added to those there are. -/
def deriveWarnings (derived : List String) (cert : SanitizationCertificate) :
    SanitizationCertificate :=
  if derived = [] then cert
  else
    { cert with
      evidence.defenseWarnings := some (cert.evidence.defenseWarnings.getD [] ++ derived) }

def withPurge (json : Bytes) (cert : SanitizationCertificate) : SanitizationCertificate :=
  { cert with evidence.purge := some json }

def withHealth (pre post : Option Bytes) (cert : SanitizationCertificate) :
    SanitizationCertificate :=
  { cert with evidence.healthPre := pre, evidence.healthPost := post }

def withFirmwareAttestation (block : EvidenceBlock) (cert : SanitizationCertificate) :
    SanitizationCertificate :=
  { cert with evidence.firmwareAttestation := some block.json }.deriveWarnings block.warnings

def withTpmAttestation (block : EvidenceBlock) (cert : SanitizationCertificate) :
    SanitizationCertificate :=
  { cert with evidence.tpmAttestation := some block.json }.deriveWarnings block.warnings

def withVaultReport (block : EvidenceBlock) (cert : SanitizationCertificate) :
    SanitizationCertificate :=
  { cert with evidence.vaultReport := some block.json }.deriveWarnings block.warnings

def withFabricSession (block : EvidenceBlock) (cert : SanitizationCertificate) :
    SanitizationCertificate :=
  { cert with evidence.fabricSession := some block.json }.deriveWarnings block.warnings

/-- A builder that applies only when its evidence is there. -/
def withIf {α : Type} (build : α → SanitizationCertificate → SanitizationCertificate)
    (evidence : Option α) (cert : SanitizationCertificate) : SanitizationCertificate :=
  match evidence with
  | some a => build a cert
  | none => cert

end SanitizationCertificate

/-! ## The environment of a purge -/

/-- `FABRIC_OUTCOME`: controller name and device, whether it disconnected cleanly, and for how
long the session ran. -/
structure FabricOutcome where
  ctrlName : String
  ctrlCharDev : String
  disconnectedCleanly : Bool
  sessionMs : Nat

/-- `FABRIC_TARGET_SNAPSHOT`. -/
structure FabricTarget where
  transport : String
  traddr : String
  trsvcid : String
  nqn : String

/-- The two thread-locals. -/
structure FabricLocals where
  outcome : Option FabricOutcome
  target : Option FabricTarget

/-- The controller families with a purge transport; a fabric purge runs as NVMe. -/
inductive PurgeTransport where
  | nvme
  | ata
  | scsi
  deriving DecidableEq

def PurgeTransport.engineName : PurgeTransport → String
  | .nvme => "nvme-admin"
  | .ata => "sat-sgio"
  | .scsi => "scsi-sgio"

/-- A refusal after the journal was created: the failure it journals and the error it is. -/
structure PurgeRefusal where
  code : String
  op : String
  atLba : Option Nat
  detail : String
  error : DcError

/-- What a runner hands to the assembly when its ladder succeeded. -/
structure PurgeEvidence where
  outcome : PurgeRunOutcome
  mechanismLabel : String
  defenseWarnings : List String
  health : Option (Bytes × Bytes)
  verifyLevelNote : String
  firmware : Option EvidenceBlock

/-- What a purge is given and what it meets besides a `CommandEnv`. -/
structure PurgeEnv (σ : Type) extends CommandEnv σ where
  tool : ToolBuild
  verificationSchemeDoc : String
  journalPath : String
  chainHead : List JournalRecord → String
  createJournal : Option DcError
  ladder : Except PurgeRefusal PurgeEvidence
  tpmQuote : Option EvidenceBlock
  vaultReport : Option EvidenceBlock
  purgeJson : PurgeCertificateEvidence → Bytes
  fabricJson : FabricSessionEvidence → Bytes
  writeArchive : Option DcError

/-- The device, the ladder compiled for it, and the mechanism asked for. -/
structure PurgeJob where
  transport : PurgeTransport
  identity : DeviceIdentity
  ladder : StrategyLadder
  mechanismLabel : String

namespace Purge

open Command

def defaultWindowBytes : Nat := 2 * 1024 * 1024

variable {σ : Type} (pf : Platform) (env : PurgeEnv σ) (job : PurgeJob)

/-! ## The journal -/

/-- The plan of the journal's Header. -/
def journalPlan : SanitizationPlan where
  planSchema := "dc-plan/1"
  target := job.identity.stable
  mechanism := .hardwarePurge job.ladder job.mechanismLabel
  verification := .none
  windowBytes := defaultWindowBytes
  fastPath := .forbidWriteZeroes
  strategyLadder := some job.ladder
  legacyNote := none

/-- A new orchestrator in the place of the one there is. -/
def newFsm : Command σ Unit := Prog.update fun s => { s with fsm := .probed }

def compilePlan (plan : SanitizationPlan) : Command σ String := do
  fsm (FsmState.compilePlan env.computePlanHash plan)
  Prog.ofExcept (env.computePlanHash plan)

def header (keypair : SigningKey) (planHash timestamp : String) : Header where
  uuid := Execute.journalUuid timestamp
  sealed := env.keyFile.isSome
  operatorPubkey :=
    if env.keyFile.isSome then some (hexEncode (pf.ed25519Public keypair).bytes) else none
  plan := journalPlan job
  planHash := planHash
  identity := job.identity
  tool := env.tool
  engine := job.transport.engineName
  tuning := ⟨0, 0, (journalPlan job).windowBytes, 0, 0⟩
  argvHash := "cli-purge"
  startedUtc := timestamp

def createPurgeJournal (keypair : SigningKey) (timestamp : String) : Command σ Unit := do
  newFsm
  let planHash ← compilePlan env (journalPlan job)
  Prog.failIf env.createJournal
  append env.toCommandEnv (.header (header pf env job keypair planHash timestamp))
  let armedAt ← nowIso env.toCommandEnv
  append env.toCommandEnv (.armed [] [Execute.kernelNumber job.identity] armedAt)

/-! ## The certificate -/

/-- The plan the assembly compiles: without the ladder. -/
def assembledPlan (mechanismLabel : String) : SanitizationPlan where
  planSchema := "dc-plan/1"
  target := job.identity.stable
  mechanism := .hardwarePurge ⟨[]⟩ mechanismLabel
  verification := .none
  windowBytes := defaultWindowBytes
  fastPath := .forbidWriteZeroes
  strategyLadder := none
  legacyNote := none

/-- The fabric record of the thread-locals; an unset target is blank. -/
def fabricEvidence (locals : FabricLocals) : Option FabricSessionEvidence :=
  locals.outcome.map fun outcome =>
    let target := locals.target.getD ⟨"", "", "", ""⟩
    { transport := target.transport
      traddr := target.traddr
      trsvcid := target.trsvcid
      nqn := target.nqn
      ctrlName := outcome.ctrlName
      ctrlCharDev := outcome.ctrlCharDev
      disconnectedCleanly := outcome.disconnectedCleanly
      sessionMs := outcome.sessionMs
      fcHostPortName := none }

def purgeEvidence (outcome : PurgeRunOutcome) : PurgeCertificateEvidence where
  executedMechanism := outcome.executedMechanism
  fallbacks := outcome.fallbacks
  completionEvidence := outcome.completionEvidence
  sanitizeProgressPermille := outcome.progressPermille
  readbackExpectation := outcome.readbackExpectation
  controllerDevice := outcome.controllerDevice

/-- The report of a verifier nothing was shown to. -/
def verifierReport : VerificationReport :=
  (StreamVerifier.new .none defaultWindowBytes job.identity.logicalBlockSize false false).finalize
    pf.digests

/-- The certificate with all its evidence, still unsigned. -/
def certificate (run : PurgeEvidence) (locals : FabricLocals) (keypair : SigningKey)
    (timestamp finished planHash : String) (journal : List JournalRecord) :
    SanitizationCertificate :=
  let publicKey := pf.ed25519Public keypair
  let cert := SanitizationCertificate.new env.tool env.verificationSchemeDoc
    (assembledPlan job run.mechanismLabel) planHash job.identity
    ⟨timestamp, finished, run.outcome.durationMs, [], [], []⟩ (verifierReport pf job)
    (journalSummary env.journalPath (env.chainHead journal) env.keyFile.isSome
      (Execute.journalUuid timestamp) journal)
    (hexEncode publicKey.bytes) (hexEncode (pf.blake3 publicKey.bytes).bytes)
  let cert := cert.withPurge (env.purgeJson (purgeEvidence run.outcome))
  let cert := cert.withDefenseWarnings run.defenseWarnings
  let cert := cert.withIf (fun h => SanitizationCertificate.withHealth (some h.1) (some h.2))
    run.health
  let cert := cert.withIf SanitizationCertificate.withFirmwareAttestation run.firmware
  let cert := cert.withIf SanitizationCertificate.withTpmAttestation env.tpmQuote
  let cert := cert.withIf SanitizationCertificate.withVaultReport env.vaultReport
  cert.withIf SanitizationCertificate.withFabricSession
    ((fabricEvidence locals).map fun e => ⟨env.fabricJson e, e.defenseWarnings⟩)

/-- `assemble_purge_certificate`. -/
def assemblePurgeCertificate (run : PurgeEvidence) (locals : FabricLocals) (keypair : SigningKey)
    (timestamp : String) : Command σ Unit := do
  newFsm
  let planHash ← compilePlan env (assembledPlan job run.mechanismLabel)
  fsm FsmState.approvePlan
  fsm FsmState.arm
  fsm FsmState.beginVerify
  fsm FsmState.certify
  let report := verifierReport pf job
  append env.toCommandEnv (.verify
    { verifyRecord report report.streamHashSha256 false with level := run.verifyLevelNote })
  let finished ← nowIso env.toCommandEnv
  append env.toCommandEnv (.completed finished run.outcome.durationMs)
  let s ← Prog.get
  issue env.toCommandEnv pf keypair
    (certificate pf env job run locals keypair timestamp finished planHash s.journal)
  Prog.failIf env.writeCertificate
  Prog.failIf env.writeArchive

/-! ## The runners -/

/-- A purge from its journal on: a refusal is journalled and returned, a ladder that succeeded
is certified. -/
def runPurge (locals : FabricLocals) : Command σ Unit := do
  let timestamp ← nowIso env.toCommandEnv
  let keypair ← loadKey env.toCommandEnv
  createPurgeJournal pf env job keypair timestamp
  match env.ladder with
  | .error refusal =>
    appendQuietly env.toCommandEnv
      (.failed refusal.code none (some refusal.op) refusal.atLba refusal.detail)
    Prog.fail refusal.error
  | .ok run => assemblePurgeCertificate pf env job run locals keypair timestamp

/-- A fabric purge: the target is known before the run, the outcome of the session only when the
run has returned. -/
def runFabricPurge (target : FabricTarget) (outcome : FabricOutcome) (locals : FabricLocals)
    (s : Session σ) : (Outcome DcError Unit × Session σ) × FabricLocals :=
  let locals := { locals with target := some target }
  let run := runPurge pf env { job with transport := .nvme } locals s
  (run, { locals with outcome := some outcome })

/-! ## What a purge leaves -/

/-- The records and the certificates of a session. -/
def kept (s : Session σ) : List JournalRecord × List Issued := (s.journal, s.issued)

theorem fsm_run_ok {method : FsmState → Except DcError FsmState} {s : Session σ} {st : FsmState}
    (h : method s.fsm = .ok st) : fsm method s = (.ok (), { s with fsm := st }) := by
  unfold fsm
  rw [h]

theorem fsm_run_err {method : FsmState → Except DcError FsmState} {s : Session σ} {e : DcError}
    (h : method s.fsm = .error e) : fsm method s = (.err e, s) := by
  unfold fsm
  rw [h]

theorem compilePlan_run_ok {plan : SanitizationPlan} {s : Session σ} {hash : String}
    (hprobed : s.fsm = .probed) (hhash : env.computePlanHash plan = .ok hash) :
    compilePlan env plan s = (.ok hash, { s with fsm := .planCompiled plan hash }) := by
  have hcompile : FsmState.compilePlan env.computePlanHash plan s.fsm
      = .ok (.planCompiled plan hash) := by
    rw [hprobed, FsmState.compilePlan, hhash]
    rfl
  rw [compilePlan, Prog.bind_run_ok (fsm_run_ok hcompile), hhash]
  rfl

theorem compilePlan_run_err {plan : SanitizationPlan} {s : Session σ} {e : DcError}
    (hprobed : s.fsm = .probed) (hhash : env.computePlanHash plan = .error e) :
    compilePlan env plan s = (.err e, s) := by
  have hcompile : FsmState.compilePlan env.computePlanHash plan s.fsm = .error e := by
    rw [hprobed, FsmState.compilePlan, hhash]
    rfl
  exact Prog.bind_run_err (fsm_run_err hcompile)

/-- **A fresh orchestrator never gets past `begin_verify`**: it is armed, and only a flush leads
to a verification. Whatever would follow is not reached. -/
theorem refuses_to_verify (plan : SanitizationPlan) (rest : String → Command σ Unit)
    (s : Session σ) :
    ∃ e st,
      (do
        newFsm
        let planHash ← compilePlan env plan
        fsm FsmState.approvePlan
        fsm FsmState.arm
        fsm FsmState.beginVerify
        rest planHash : Command σ Unit) s = (.err e, { s with fsm := st })
      ∧ ∀ hash, env.computePlanHash plan = .ok hash →
          e = .usage "Cannot begin verification: media not flushed" := by
  have hnew : newFsm s = (.ok (), { s with fsm := .probed }) := rfl
  cases hhash : env.computePlanHash plan with
  | error e =>
    refine ⟨e, .probed, ?_, nofun⟩
    rw [Prog.bind_run_ok hnew]
    exact Prog.bind_run_err (compilePlan_run_err env rfl hhash)
  | ok hash =>
    refine ⟨_, .armed, ?_, fun _ _ => rfl⟩
    have hcompiled := @compilePlan_run_ok σ env plan { s with fsm := .probed } hash rfl hhash
    have happroved := @fsm_run_ok σ FsmState.approvePlan
      { s with fsm := .planCompiled plan hash } (.planApproved plan hash) rfl
    have harmed := @fsm_run_ok σ FsmState.arm { s with fsm := .planApproved plan hash } .armed rfl
    have hverify := @fsm_run_err σ FsmState.beginVerify { s with fsm := .armed } _ rfl
    rw [Prog.bind_run_ok hnew, Prog.bind_run_ok hcompiled, Prog.bind_run_ok happroved,
      Prog.bind_run_ok harmed]
    exact Prog.bind_run_err hverify

/-- **The assembly always refuses**, before a record is appended or a certificate signed. -/
theorem assemblePurgeCertificate_refuses (run : PurgeEvidence) (locals : FabricLocals)
    (keypair : SigningKey) (timestamp : String) (s : Session σ) :
    ∃ e st, assemblePurgeCertificate pf env job run locals keypair timestamp s
        = (.err e, { s with fsm := st })
      ∧ ∀ hash, env.computePlanHash (assembledPlan job run.mechanismLabel) = .ok hash →
          e = .usage "Cannot begin verification: media not flushed" :=
  refuses_to_verify env (assembledPlan job run.mechanismLabel) _ s

/-- The plan the assembly compiles is never the journal's: it has no strategy ladder. -/
theorem assembledPlan_ne (mechanismLabel : String) :
    assembledPlan job mechanismLabel ≠ journalPlan job := by
  intro heq
  have hladder : none = some job.ladder := congrArg SanitizationPlan.strategyLadder heq
  cases hladder

/-! ## Certification -/

/-- What the owner of a purged device is owed: the assembly returns, Completed is in the journal,
and a certificate was signed with the Header's plan and hash, the ladder that was executed, and
the fabric session if there was one. -/
def CertifiesPurge (run : PurgeEvidence) (h : Header) (overFabric : Bool) (s s' : Session σ)
    (out : Outcome DcError Unit) : Prop :=
  out = .ok ()
    ∧ (∃ finished, .completed finished run.outcome.durationMs ∈ s'.journal.drop s.journal.length)
    ∧ ∃ issued ∈ s'.issued.drop s.issued.length,
        issued.cert.plan = h.plan ∧ issued.cert.planHash = h.planHash
          ∧ issued.cert.plan.strategyLadder = some job.ladder
          ∧ (overFabric = true → issued.cert.evidence.fabricSession ≠ none)

/-- **No purge is ever certified**: whatever the transport, the key, the journal and the outcome
of the ladder, the assembly leaves journal and certificates as they are and returns an error. -/
theorem certifiesPurge_never (run : PurgeEvidence) (locals : FabricLocals) (keypair : SigningKey)
    (timestamp : String) (h : Header) (overFabric : Bool) (s : Session σ) :
    kept (assemblePurgeCertificate pf env job run locals keypair timestamp s).2 = kept s
      ∧ ¬ CertifiesPurge job run h overFabric s
        (assemblePurgeCertificate pf env job run locals keypair timestamp s).2
        (assemblePurgeCertificate pf env job run locals keypair timestamp s).1 := by
  obtain ⟨e, st, hrun, -⟩ :=
    assemblePurgeCertificate_refuses pf env job run locals keypair timestamp s
  rw [hrun]
  refine ⟨rfl, fun hcert => ?_⟩
  have hok : Outcome.err e = .ok () := hcert.1
  cases hok

/-! ## Whole purges -/

/-- A fabric purge assembles with the session record of the purge before it: its own is set when
the run is over. -/
theorem runFabricPurge_locals (target : FabricTarget) (outcome : FabricOutcome)
    (locals : FabricLocals) (s : Session σ) :
    (runFabricPurge pf env job target outcome locals s).1
        = runPurge pf env { job with transport := .nvme } { locals with target := some target } s
      ∧ (fabricEvidence { locals with target := some target }).isSome = locals.outcome.isSome
      ∧ (runFabricPurge pf env job target outcome locals s).2.outcome = some outcome := by
  refine ⟨rfl, ?_, rfl⟩
  rw [fabricEvidence, Option.isSome_map]

/-! ### One purge -/

def samplePurge : PurgeEnv Unit where
  toCommandEnv := sampleEnv (sampleEngine (.ok ()) true)
  tool := sampleTool
  verificationSchemeDoc := "doc"
  journalPath := "unit.dcj"
  chainHead _ := ""
  createJournal := none
  ladder := .ok ⟨⟨"SCSI Sanitize Crypto Erase", [], "scsi-sense-poll-terminal", 1000,
    "VendorRandom", "/dev/sdb", 1⟩, "SCSI Sanitize Crypto Erase", [], none,
    "Controller-attested (scsi-sense-poll-terminal)", none⟩
  tpmQuote := none
  vaultReport := none
  purgeJson _ := []
  fabricJson _ := []
  writeArchive := none

def samplePurgeJob : PurgeJob := ⟨.scsi, sampleIdentity, ⟨[]⟩, "auto"⟩

/-- A SAS purge whose ladder succeeded and whose every append and write would: the journal ends
at its Armed record and nothing is signed. -/
theorem successful_purge_refused :
    (runPurge samplePlatform samplePurge samplePurgeJob ⟨none, none⟩ (Session.start [] ())).1
        = .err (.usage "Cannot begin verification: media not flushed")
      ∧ (runPurge samplePlatform samplePurge samplePurgeJob ⟨none, none⟩
          (Session.start [] ())).2.issued = []
      ∧ (runPurge samplePlatform samplePurge samplePurgeJob ⟨none, none⟩
          (Session.start [] ())).2.journal
        = [.header (header samplePlatform samplePurge samplePurgeJob (Block.ofNat 32 7) "p" "t"),
          .armed [] [Execute.kernelNumber sampleIdentity] "t"] := by
  have hrun : runPurge samplePlatform samplePurge samplePurgeJob ⟨none, none⟩ (Session.start [] ())
      = (.err (.usage "Cannot begin verification: media not flushed"),
        { Session.start [] () with
          journal :=
            [.header (header samplePlatform samplePurge samplePurgeJob (Block.ofNat 32 7) "p" "t"),
              .armed [] [Execute.kernelNumber sampleIdentity] "t"]
          fsm := .armed
          readings := 2 }) := by
    simp [runPurge, nowIso, loadKey, samplePurge, sampleEnv, Prog.bind_run, Prog.andThen,
      createPurgeJournal, newFsm, Prog.update, compilePlan, fsm, FsmState.compilePlan, Except.map,
      Prog.ofExcept, Prog.ret, Prog.failIf, append, assemblePurgeCertificate, FsmState.approvePlan,
      FsmState.arm, FsmState.beginVerify, Session.start, samplePurgeJob]
  rw [hrun]
  simp [Session.start]

end Purge

end DiscCleaner
