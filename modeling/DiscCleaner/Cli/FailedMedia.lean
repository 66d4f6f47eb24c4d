import DiscCleaner.Cli.ResumePlan

/-!
# DiscCleaner — certificates and failed media

What a certificate is worth: the report it carries is the one of the journal's last
verification, and that verification found no mismatch. `execute` refuses a report with
mismatches; `resume` appends it, completes the journal and signs, so the property holds of the
runs whose resumes read back a clean medium.
-/

namespace DiscCleaner

open ByteLib ProgLib Command

variable {σ : Type}

/-- Every Completed record follows a verification without mismatches, and every certificate
carries the report of the last verification of the journal it was made of, without mismatches. -/
structure NoFailedMedia (st : RunState) : Prop where
  completed : ∀ pre at_ duration, pre ++ [.completed at_ duration] <+: st.journal →
    ∃ v, lastVerification pre = some v ∧ v.mismatchCount = 0
  certified : ∀ i ∈ st.issued, i.cert.verification.mismatchCount = 0
    ∧ ∃ v, lastVerification i.journal = some v ∧ Embeds i.cert.verification v

/-- Only a verification without mismatches completes a run. -/
def cleanPolicy : Policy where
  header _ := true
  verified v := v.mismatchCount = 0

/-- What a step asks of its inputs: the medium an epoch of `resume` reads back holds the expected
pattern in every window shown, and the level of a reconstructed journal is kept. -/
def MeetsGate (pf : Platform) (st : RunState) : Action σ → Prop
  | .resume env device =>
    Clean (Resume.cmdResume pf env st.journal (Session.start st.journal device)).2
  | .reconstruct _ _ => LevelKept st.journal
  | _ => True

theorem RunSound.noFailedMedia {st : RunState} (h : RunSound cleanPolicy st) :
    NoFailedMedia st where
  completed pre at_ duration hpre := by
    obtain ⟨v, hlast, hclean⟩ := verified_before_completed (phaseOf_of_extension hpre h.1)
    exact ⟨v, hlast, of_decide_eq_true hclean⟩
  certified i hi := by
    obtain ⟨v, hv, hembeds⟩ := h.2 i hi
    obtain ⟨hlast, -, hclean⟩ := verification_of_completed hv
    have hzero : v.mismatchCount = 0 := of_decide_eq_true hclean
    have hcount : v.mismatchCount = i.cert.verification.mismatchCount :=
      congrArg VerifyRecord.mismatchCount hembeds
    exact ⟨by omega, v, hlast, hembeds⟩

/-- **No certificate for failed media**, in every run whose epochs read back clean. -/
theorem noFailedMedia_of_clean_epochs {pf : Platform} {st : RunState}
    (h : Reachable pf (MeetsGate (σ := σ) pf) st) : NoFailedMedia st := by
  apply RunSound.noFailedMedia
  apply h.runSound (fun _ => rfl) (fun v hv => decide_eq_true hv)
  intro st a hmeets
  cases a with
  | resume env device => exact Or.inl hmeets
  | _ => exact hmeets

/-- An `execute` that reads back a clean medium and is completed. -/
theorem noFailedMedia_of_clean_epochs_sample :
    let done := (Action.execute (sampleExecute (sampleEngine (.ok ()) true)) sampleJob ()).perform
      samplePlatform .start
    NoFailedMedia ⟨done.1, [] ++ done.2⟩ :=
  noFailedMedia_of_clean_epochs (.step (.execute _ sampleJob ()) .start trivial (.finish rfl))

/-! ## A resume that certifies a failed medium -/

def sampleAction : Action Unit :=
  .execute (sampleExecute (sampleEngine .blocked true)) sampleJob ()

/-- The sample run killed once armed. -/
def killedRun : RunState := ⟨(sampleAction.perform samplePlatform .start).1.take 2, []⟩

theorem killedRun_journal : killedRun.journal = sampleJournal.take 2 := by
  simp only [killedRun, sampleAction, Action.perform, RunState.start, sampleJournal]

def sampleResumption (valid : Bool) : Action Unit :=
  .resume (sampleResume (sampleEngine (.ok ()) valid)) ()

/-- The killed run resumed on a medium whose one window reads back as given. -/
def resumedRun (valid : Bool) : RunState :=
  ⟨((sampleResumption valid).perform samplePlatform killedRun).1,
    killedRun.issued ++ ((sampleResumption valid).perform samplePlatform killedRun).2⟩

theorem resumedRun_reachable {meets : RunState → Action Unit → Prop}
    (hexecute : meets .start sampleAction) (valid : Bool)
    (hresume : meets killedRun (sampleResumption valid)) :
    Reachable samplePlatform meets (resumedRun valid) := by
  have henabled : sampleAction.enabled .start := rfl
  have hresumes : (sampleResumption valid).enabled killedRun := trivial
  have hkilled : Reachable samplePlatform meets killedRun :=
    .step sampleAction .start hexecute (.crash henabled 2)
  exact .step (sampleResumption valid) hkilled hresume (.finish hresumes)

/-- The resumed run is completed, and its certificate counts the window that did not match. -/
theorem resumedRun_outcome (valid : Bool) :
    (resumedRun valid).issued.map (fun i => i.cert.verification.mismatchCount)
        = [if valid then 0 else 1]
      ∧ (resumedRun valid).journal.getLast? = some (.completed "t" 1) := by
  have hkilled : killedRun.issued = [] := rfl
  simp [resumedRun, hkilled, sampleResumption, Action.perform, killedRun_journal, sampleJournal_eq,
    Resume.cmdResume,
    Resume.armResume, Prog.bind_run, Prog.andThen, Resume.refuseCompleted, Resume.headerOf,
    findHeader, history, historyAt, Resume.crashInterruption, nowIso, elapsed, sampleResume,
    sampleEnv, sampleEngine, Prog.failIf, Prog.ret, armPlan, fsm, FsmState.compilePlan,
    FsmState.approvePlan, FsmState.arm, Session.start, Except.map, Resume.resumeKey,
    Resume.sealedBy, Execute.header, sampleExecute, Resume.checkSealKey, append,
    Resume.resumePoint, Resume.ResumePoint.start, Resume.ResumePoint.step, Resume.passesLeft,
    Resume.logicalPasses, sampleJob, Resume.resumePasses, Resume.resumePass, FsmState.beginPass,
    patternSource, createPatternSource, Resume.beginPassRecord, Resume.writeMedia, Prog.attempt,
    overwrite, engineCall, Execute.supportsWriteZeroes, commitPass, FsmState.beginFlush,
    engineFlush, FsmState.beginVerify, Resume.verifyMedia, Resume.verifySource, readBack,
    readInto, StreamVerifier.new, StreamVerifier.onWindow, StreamVerifier.finalize,
    Resume.certifyRun, FsmState.certify, Prog.get, issue, Resume.certificate,
    SanitizationCertificate.new, SanitizationCertificate.signCertificate,
    SanitizationCertificate.sign, SanitizationCertificate.withOperator,
    SanitizationCertificate.canonicalUnsignedBytes, samplePlatform, Except.mapError]

/-- **A failed medium is certified**: the run is one of the machine's, and its certificate
counts a mismatch. -/
theorem dirty_resume_certified :
    Reachable (σ := Unit) samplePlatform (fun _ _ => True) (resumedRun false)
      ∧ ¬ NoFailedMedia (resumedRun false) := by
  refine ⟨resumedRun_reachable trivial false trivial, fun h => ?_⟩
  obtain ⟨hissued, -⟩ := resumedRun_outcome false
  obtain ⟨i, hi, hcount⟩ := List.map_eq_singleton_iff.mp hissued
  have hclean := (h.certified i (by simp [hi])).1
  rw [hclean] at hcount
  exact absurd hcount (by decide)

end DiscCleaner

/-!
# the two projections of a completed journal

`cmd_cert_reconstruct` and `CertificateProjector::project` both turn a completed journal into a
certificate. They read the level of its verification with different vocabularies: the journal
writes the tags of `short_tag`, and the projector only knows `Full` and `None`.
-/

namespace DiscCleaner

open ByteLib ProgLib Command

variable {σ : Type}

/-- Any verification may complete a run, and any header open it. -/
def anyPolicy : Policy where
  header _ := true
  verified _ := true

/-- The commands that write a journal. -/
def Action.writesJournal : Action σ → Prop
  | .execute _ _ _ | .resume _ _ => True
  | _ => False

/-- Both projections succeed on a journal and agree on the plan, the report and the finish time,
and the report's level is the plan's. -/
def ProjectionsAgree (pf : Platform) (env : ReconstructEnv σ) (device : σ)
    (keypair : SigningKey) (records : List JournalRecord) : Prop :=
  ∃ projected reconstructed : SanitizationCertificate,
    CertificateProjector.project pf env.tool env.verificationSchemeDoc records env.summary
        keypair = .ok projected
    ∧ (Reconstruct.cmdCertReconstruct pf env records (Session.start records device)).1 = .ok ()
    ∧ (Reconstruct.cmdCertReconstruct pf env records (Session.start records device)).2.issued
        = [⟨reconstructed, records⟩]
    ∧ projected.plan = reconstructed.plan
    ∧ projected.verification = reconstructed.verification
    ∧ projected.execution.finishedUtc = reconstructed.execution.finishedUtc
    ∧ projected.verification.level = projected.plan.verification

theorem not_projectionsAgree {p : Policy} {pf : Platform} {records : List JournalRecord}
    (h : phaseOf p records ≠ .broken) (env : ReconstructEnv σ) (device : σ)
    (keypair : SigningKey) : ¬ ProjectionsAgree pf env device keypair records := by
  rintro ⟨projected, -, hprojected, -⟩
  obtain ⟨e, he⟩ := CertificateProjector.project_refuses pf env.tool
    env.verificationSchemeDoc env.summary keypair h
  rw [he] at hprojected
  cases hprojected

theorem journal_not_broken {pf : Platform} {st : RunState}
    (h : Reachable pf (fun _ (a : Action σ) => a.writesJournal) st) :
    phaseOf anyPolicy st.journal ≠ .broken := by
  refine (h.runSound (p := anyPolicy) (fun _ => rfl) (fun _ _ => rfl) ?_).1
  intro st a hwrites
  cases a with
  | execute env job device => trivial
  | resume env device => exact Or.inr fun _ => rfl
  | reconstruct env device => exact hwrites.elim
  | project tool verificationSchemeDoc summary keypair => trivial

/-- **The projections never agree**: no journal of a run of `execute` and `resume`, completed
or not, is one the projector accepts. -/
theorem projections_never_agree {pf : Platform} {st : RunState}
    (h : Reachable pf (fun _ (a : Action σ) => a.writesJournal) st)
    (env : ReconstructEnv σ) (device : σ) (keypair : SigningKey) :
    ¬ ProjectionsAgree pf env device keypair st.journal :=
  not_projectionsAgree (journal_not_broken h) env device keypair

def sampleReconstruct : ReconstructEnv Unit where
  toCommandEnv := sampleEnv (sampleEngine (.ok ()) true)
  summary := ⟨"unit.dcj", "", 10, 0, "dcj-", false⟩
  tool := sampleTool
  verificationSchemeDoc := "doc"

/-- The sample run, resumed on a clean medium. -/
theorem projections_never_agree_sample :
    ¬ ProjectionsAgree samplePlatform sampleReconstruct () (Block.ofNat 32 7)
      (resumedRun true).journal :=
  projections_never_agree (resumedRun_reachable trivial true trivial) sampleReconstruct ()
    (Block.ofNat 32 7)

/-- A completed run on a clean medium, verified at the full level, that the projector refuses. -/
theorem completed_journal_not_projected :
    (resumedRun true).journal.getLast? = some (.completed "t" 1)
      ∧ ¬ ProjectionsAgree samplePlatform sampleReconstruct () (Block.ofNat 32 7)
        (resumedRun true).journal := by
  have hreachable : Reachable samplePlatform
      (fun _ (a : Action Unit) => a.writesJournal) (resumedRun true) :=
    resumedRun_reachable trivial true trivial
  exact ⟨(resumedRun_outcome true).2,
    not_projectionsAgree (journal_not_broken hreachable) _ _ _⟩

end DiscCleaner
