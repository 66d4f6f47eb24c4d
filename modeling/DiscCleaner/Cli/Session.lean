import DiscCleaner.Cert.Certificate
import DiscCleaner.Core.Fsm
import DiscCleaner.Io.Engine

/-!
# DiscCleaner — what the commands work on

`execute` and `resume` drive the same parts: the journal of a run, the lifecycle state
machine, an engine on the device, and the operator's key. A session is their state; the steps
both commands are made of are programs on it. The journal is taken as its list of records,
which is how the reader returns what the writer has appended.
-/

namespace DiscCleaner

open ByteLib ProgLib

/-! ## The environment of a command -/

/-- The primitives of a build: cryptography and codecs, the keystream, and what a read-back
is summarised with. -/
structure Platform extends CertPrimitives where
  keystream : Keystream
  sha256 : Bytes → Digest
  entropy : List Bytes → Option EntropyDiag

def Platform.digests (pf : Platform) : StreamDigests := ⟨pf.blake3, pf.sha256, pf.entropy⟩

/-- An append that fails may still have written its record. -/
inductive AppendResult where
  | ok
  | failed (e : DcError) (kept : Bool)

/-- What the world does during one command: the engine and the kernel's view of the device,
journal writes, clock readings, the plan digest, key files, and the certificate's file. -/
structure CommandEnv (σ : Type) where
  engine : Engine σ
  openEngine : Option DcError
  canWriteZeroes : Bool
  append : Nat → AppendResult
  clock : Nat → String
  elapsedMs : Nat → Nat
  computePlanHash : SanitizationPlan → Except DcError String
  throughputKibS : PassOutcome → Nat
  signalsReceived : Nat
  keyFile : Option (Except DcError SigningKey)
  generatedKey : SigningKey
  sibling : Except DcError (Option (Bytes → PostQuantumSignature))
  writeCertificate : Option DcError

/-- An engine call as the device sees it. -/
inductive EngineCall where
  | writePass (label : UInt8) (pattern : Pattern) (startWindow : Nat)
  | zeroPass (label : UInt8) (startWindow : Nat)
  | readVerify (pattern : Pattern) (stride : Nat)
  | flush
  deriving DecidableEq

/-- A signed certificate, with the journal at the time it was signed. -/
structure Issued where
  cert : SanitizationCertificate
  journal : List JournalRecord

/-- `calls` are the engine calls made, and `reads` is what the read-backs that returned have
shown; `readings` counts the readings of the clock. -/
structure Session (σ : Type) where
  journal : List JournalRecord
  fsm : FsmState
  device : σ
  calls : List EngineCall
  reads : List StreamVerifier.WindowRead
  issued : List Issued
  readings : Nat

/-- A session on a journal, before the command has done anything. -/
def Session.start {σ : Type} (journal : List JournalRecord) (device : σ) : Session σ where
  journal := journal
  fsm := .probed
  device := device
  calls := []
  reads := []
  issued := []
  readings := 0

abbrev Command (σ α : Type) : Type := Prog (Session σ) DcError α

namespace Command

variable {σ : Type} (env : CommandEnv σ)

/-! ## Clock, state machine, journal -/

def nowIso : Command σ String := fun s =>
  (.ok (env.clock s.readings), { s with readings := s.readings + 1 })

def elapsed : Command σ Nat := fun s =>
  (.ok (env.elapsedMs s.readings), { s with readings := s.readings + 1 })

/-- A method of the orchestrator; a refusal leaves it as it is. -/
def fsm (method : FsmState → Except DcError FsmState) : Command σ Unit := fun s =>
  match method s.fsm with
  | .ok st => (.ok (), { s with fsm := st })
  | .error e => (.err e, s)

def append (r : JournalRecord) : Command σ Unit := fun s =>
  match env.append s.journal.length with
  | .ok => (.ok (), { s with journal := s.journal ++ [r] })
  | .failed e kept => (.err e, if kept then { s with journal := s.journal ++ [r] } else s)

/-- An append whose failure nobody looks at. -/
def appendQuietly (r : JournalRecord) : Command σ Unit := Prog.ignore (append env r)

def armPlan (plan : SanitizationPlan) : Command σ Unit := do
  fsm (FsmState.compilePlan env.computePlanHash plan)
  fsm FsmState.approvePlan
  fsm FsmState.arm

/-! ## The operator's key -/

/-- The key of the key file, or a generated one. -/
def loadKey : Command σ SigningKey :=
  match env.keyFile with
  | some loaded => Prog.ofExcept loaded
  | none => pure env.generatedKey

/-! ## The engine -/

def engineCall {α : Type} (call : EngineCall) (run : σ → CallResult α × σ) : Command σ α :=
  fun s =>
    let (result, device) := run s.device
    (result, { s with device := device, calls := s.calls ++ [call] })

/-- A pass goes to the zero fast path or to the buffered writer. -/
def overwrite (label : UInt8) (pattern : Pattern) (source : PatternSource) (span : LbaSpan)
    (supportsWriteZeroes : Bool) (startWindow : Nat) : Command σ PassOutcome :=
  if pattern = .zero ∧ supportsWriteZeroes then
    engineCall (.zeroPass label startWindow) (env.engine.zeroPass label span startWindow)
  else
    engineCall (.writePass label source.descriptor.pattern startWindow)
      (env.engine.writePass label source span startWindow)

/-- A read-back into a sink; what the sink has seen is lost when the call fails. -/
def readInto (verifier : StreamVerifier) (source : PatternSource) (span : LbaSpan)
    (stride : Nat) : Command σ StreamVerifier := fun s =>
  let (result, reads, device) := env.engine.readVerify source span stride s.device
  let s :=
    { s with
      device := device
      calls := s.calls ++ [.readVerify source.descriptor.pattern stride] }
  match result with
  | .ok () => (.ok (verifier.onWindows reads), { s with reads := s.reads ++ reads })
  | .err e => (.err e, s)
  | .panic => (.panic, s)
  | .blocked => (.blocked, s)

def engineFlush : Command σ Unit := engineCall .flush env.engine.flush

/-- A pattern source, or the panic of an unmaterialized weave. -/
def patternSource (pf : Platform) (pattern : Pattern) : Command σ PatternSource :=
  match createPatternSource pf.keystream pattern with
  | some source => pure source
  | none => Prog.unwind

/-! ## Journalling failures -/

/-- The `errno` and address an engine error carries. -/
def failureSite : DcError → Option Int × Option Nat
  | .io _ errno atLba => (some errno, atLba)
  | .stdIo errno _ => (errno, none)
  | _ => (none, none)

def journalFailed (op : String) (e : DcError) : Command σ Unit :=
  appendQuietly env (.failed "EIO" (failureSite e).1 (some op) (failureSite e).2 e.display)

def journalInterrupted (hint : String) (pass : Option UInt8) (window : Option Nat) :
    Command σ Unit := do
  let at_ ← nowIso env
  appendQuietly env (.interrupted at_ hint pass window (some env.signalsReceived))

/-- The read-back of a verification phase with its two error paths. -/
def readBack (hint op : String) (verifier : StreamVerifier) (source : PatternSource)
    (span : LbaSpan) (stride : Nat) : Command σ StreamVerifier := do
  match ← Prog.attempt (readInto env verifier source span stride) with
  | .ok verifier => pure verifier
  | .error (.interrupted through) =>
    journalInterrupted env hint (through.map Prod.fst) (through.map Prod.snd)
    Prog.fail (.interrupted through)
  | .error e =>
    journalFailed env op e
    Prog.fail e

/-! ## Committing a pass -/

/-- Commit and flush a written pass; `execute` and `resume` do this alike, `resume` from the
window it started at. -/
def commitPass (passIdx startWindow : Nat) (outcome : PassOutcome) : Command σ Unit := do
  append env (.rangeCommit (UInt8.ofNat passIdx) startWindow outcome.windowsWritten)
  append env (.endPass (UInt8.ofNat passIdx))
  fsm (FsmState.beginFlush (UInt8.ofNat passIdx))
  engineFlush env
  append env (.flushed (UInt8.ofNat passIdx))

/-! ## Reading a journal's records -/

def findHeader (records : List JournalRecord) : Option Header :=
  records.findSome? fun
    | .header h => some h
    | _ => none

/-- Failures and interruptions in the order of their records, each stamped by a reading of the
clock; the readings are counted from `n`. -/
def historyAt (clock : Nat → String) (n : Nat) :
    List JournalRecord → (List FailureRecord × List InterruptionRecord) × Nat
  | [] => (([], []), n)
  | .failed code errno op atLba _ :: rest =>
    let ((failures, interruptions), m) := historyAt clock (n + 1) rest
    ((⟨clock n, code, errno, op, atLba⟩ :: failures, interruptions), m)
  | .interrupted at_ _ _ _ _ :: rest =>
    let ((failures, interruptions), m) := historyAt clock (n + 1) rest
    ((failures, ⟨at_, clock n⟩ :: interruptions), m)
  | _ :: rest => historyAt clock n rest

def history (records : List JournalRecord) :
    Command σ (List FailureRecord × List InterruptionRecord) := fun s =>
  let (past, readings) := historyAt env.clock s.readings records
  (.ok past, { s with readings := readings })

/-! ## Certificates -/

/-- The journal record of a report. -/
def verifyRecord (report : VerificationReport) (sha256 : Option String) (fastPathUsed : Bool) :
    VerifyRecord where
  level := report.level.shortTag
  windowsChecked := report.windowsChecked
  mismatchCount := report.mismatchCount
  firstMismatchLbas := report.firstMismatchLbas
  streamHashBlake3 := report.streamHashBlake3
  streamHashSha256 := sha256
  fastPathUsed := fastPathUsed

/-- What the writer says of its journal. `path` and `chainHead` are the file's. -/
def journalSummary (path chainHead : String) (sealed : Bool) (uuid : String)
    (journal : List JournalRecord) : JournalChainSummary where
  path := path
  chainHead := chainHead
  recordCount := journal.length
  discardedTailBytes := 0
  uuid := uuid
  sealed := sealed

/-- Sign a certificate; from here on it exists. -/
def issue (pf : Platform) (keypair : SigningKey) (cert : SanitizationCertificate) :
    Command σ Unit := fun s =>
  match cert.signCertificate pf.toCertPrimitives keypair
      (env.keyFile.map fun _ => env.sibling) with
  | .ok signed => (.ok (), { s with issued := s.issued ++ [⟨signed, s.journal⟩] })
  | .error e => (.err e, s)

end Command

end DiscCleaner
