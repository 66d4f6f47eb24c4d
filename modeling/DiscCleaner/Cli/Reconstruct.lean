import DiscCleaner.Cli.Resume

/-!
# DiscCleaner — certificates from a journal (`cmd_cert_reconstruct`, `project.rs`)

Two projections of a completed journal into a certificate. The first takes the first Header,
Completed and Verify records it finds; the second folds over the records, so later ones win,
and rejects verification levels outside its vocabulary.
-/

namespace DiscCleaner

open ByteLib ProgLib

/-! ## `cmd_cert_reconstruct` -/

/-- What reconstruction meets besides a `CommandEnv`: what the reader says of the file. -/
structure ReconstructEnv (σ : Type) extends CommandEnv σ where
  summary : JournalChainSummary
  tool : ToolBuild
  verificationSchemeDoc : String

/-- Unknown tags degrade to the full level. -/
def parseJournalVerifyLevel (level : String) : VerifyLevel :=
  (VerifyLevel.fromShortTag level).getD .full

/-- A report as the journal kept it; entropy is not journalled. -/
def reportOf (level : VerifyLevel) (v : VerifyRecord) : VerificationReport where
  level := level
  windowsChecked := v.windowsChecked
  mismatchCount := v.mismatchCount
  firstMismatchLbas := v.firstMismatchLbas
  streamHashBlake3 := v.streamHashBlake3
  streamHashSha256 := v.streamHashSha256
  entropy := none

namespace Reconstruct

open Command

variable {σ : Type} (pf : Platform) (env : ReconstructEnv σ)

def findCompleted (records : List JournalRecord) : Option (String × Nat) :=
  records.findSome? fun
    | .completed at_ durationMonoMs => some (at_, durationMonoMs)
    | _ => none

def findVerify (records : List JournalRecord) : Option VerifyRecord :=
  records.findSome? fun
    | .verify v => some v
    | _ => none

def requireCompleted (records : List JournalRecord) : Command σ Unit :=
  match records.getLast? with
  | none => Prog.fail (.journalCorrupt 0 "Journal is empty")
  | some (.completed _ _) => pure ()
  | some _ => Prog.fail (.journalCorrupt env.summary.recordCount "JOURNAL_NOT_COMPLETE")

def requireHeader (records : List JournalRecord) : Command σ Header :=
  match findHeader records with
  | some h => pure h
  | none => Prog.fail (.journalCorrupt 0 "Missing Header in journal")

def requireVerify (records : List JournalRecord) : Command σ VerificationReport :=
  match findVerify records with
  | some v => pure (reportOf (parseJournalVerifyLevel v.level) v)
  | none =>
    Prog.fail (.journalCorrupt env.summary.recordCount
      "Missing Verify record in completed journal")

/-- When the run finished, by its Completed record or else by the clock. -/
def finishedAt (records : List JournalRecord) : Command σ (String × Nat) :=
  match findCompleted records with
  | some finished => pure finished
  | none => do
    let now ← nowIso env.toCommandEnv
    pure (now, 0)

def cmdCertReconstruct (records : List JournalRecord) : Command σ Unit := do
  requireCompleted env records
  let h ← requireHeader records
  let finished ← finishedAt env records
  let report ← requireVerify env records
  let past ← history env.toCommandEnv records
  let keypair ← loadKey env.toCommandEnv
  let publicKey := pf.ed25519Public keypair
  issue env.toCommandEnv pf keypair
    (SanitizationCertificate.new env.tool env.verificationSchemeDoc h.plan h.planHash h.identity
      ⟨h.startedUtc, finished.1, finished.2, past.2, past.1, []⟩ report env.summary
      (hexEncode publicKey.bytes) (hexEncode (pf.blake3 publicKey.bytes).bytes))
  Prog.failIf env.writeCertificate

end Reconstruct

/-! ## `CertificateProjector::project` -/

namespace CertificateProjector

/-- What the fold over the records has collected. -/
structure Projection where
  header : Option Header
  completed : Option (String × Nat)
  verify : Option VerificationReport
  failures : List FailureRecord
  interruptions : List InterruptionRecord
  passes : List ExecutionPassReport
  lastInterruptedAt : Option String
  deriving DecidableEq

def Projection.start : Projection := ⟨none, none, none, [], [], [], none⟩

def headerStartUtc (records : List JournalRecord) : Option String :=
  (Command.findHeader records).map Header.startedUtc

/-- The vocabulary of the projector. -/
def parseLevel (level : String) : Except DcError VerifyLevel :=
  if level = "Full" then .ok .full
  else if level = "None" then .ok .none
  else
    .error (.certInvalid ("Unknown verification level in journal Verify record: '" ++ level
      ++ "'"))

/-- The last pass is credited with what the Verify record says of the run. -/
def creditLast (v : VerifyRecord) : List ExecutionPassReport → List ExecutionPassReport
  | [] => []
  | [p] => [{ p with fastPathUsed := v.fastPathUsed, windowsWritten := v.windowsChecked }]
  | p :: q :: ps => p :: creditLast v (q :: ps)

/-- One record of the fold; `startedUtc` stamps the failures. -/
def step (startedUtc : String) (pr : Projection) : JournalRecord → Except DcError Projection
  | .header h => .ok { pr with header := some h }
  | .failed code errno op atLba _ =>
    .ok { pr with failures := pr.failures ++ [⟨startedUtc, code, errno, op, atLba⟩] }
  | .interrupted at_ _ _ _ _ => .ok { pr with lastInterruptedAt := some at_ }
  | .resumed _ _ _ _ at_ =>
    match pr.lastInterruptedAt with
    | some interruptedAt =>
      .ok
        { pr with
          interruptions := pr.interruptions ++ [⟨interruptedAt, at_⟩]
          lastInterruptedAt := none }
    | none => .ok pr
  | .endPass pass =>
    .ok { pr with
      passes := pr.passes ++ [⟨pass, "Pass " ++ toString pass.toNat, false, 0, 0⟩] }
  | .verify v =>
    (parseLevel v.level).map fun level =>
      { pr with verify := some (reportOf level v), passes := creditLast v pr.passes }
  | .completed at_ durationMonoMs => .ok { pr with completed := some (at_, durationMonoMs) }
  | _ => .ok pr

def collect (records : List JournalRecord) : Except DcError Projection :=
  records.foldlM (step ((headerStartUtc records).getD "")) Projection.start

/-- The certificate of a projection, still unsigned. -/
def assemble (pf : Platform) (tool : ToolBuild) (verificationSchemeDoc : String)
    (summary : JournalChainSummary) (keypair : SigningKey) (pr : Projection) :
    Except DcError SanitizationCertificate :=
  match pr.header, pr.completed, pr.verify with
  | none, _, _ => .error (.certInvalid "Missing Header in journal")
  | some _, none, _ =>
    .error (.certInvalid "Journal does not end in a Completed terminal record")
  | some _, some _, none => .error (.certInvalid "Journal is missing a Verify record")
  | some h, some finished, some report =>
    let publicKey := pf.ed25519Public keypair
    .ok (SanitizationCertificate.new tool verificationSchemeDoc h.plan h.planHash h.identity
      ⟨h.startedUtc, finished.1, finished.2, pr.interruptions, pr.failures, pr.passes⟩ report
      summary (hexEncode publicKey.bytes) (hexEncode (pf.blake3 publicKey.bytes).bytes))

/-- `project`, on what the reader has returned. -/
def project (pf : Platform) (tool : ToolBuild) (verificationSchemeDoc : String)
    (records : List JournalRecord) (summary : JournalChainSummary) (keypair : SigningKey) :
    Except DcError SanitizationCertificate := do
  let pr ← collect records
  let cert ← assemble pf tool verificationSchemeDoc summary keypair pr
  cert.sign pf.toCertPrimitives keypair

end CertificateProjector

end DiscCleaner
