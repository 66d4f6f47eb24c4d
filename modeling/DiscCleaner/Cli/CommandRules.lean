import DiscCleaner.Cli.SessionRules

/-!
# DiscCleaner — what the commands do to a journal

Each command on a journal that is not broken: `execute` and `cert reconstruct` leave a sound
session, and `resume` does when the medium it read back was clean.
-/

namespace DiscCleaner

open ByteLib ProgLib Command

variable {σ : Type} {p : Policy} {phase : Phase} {F : FsmState → Prop}

/-! ## The state machine's states -/

/-- Arming takes a fresh orchestrator to `armed`. -/
theorem armPlan_rule (env : CommandEnv σ) {plan : SanitizationPlan}
    (hphase : phase ≠ .broken) :
    Prog.Triple (At p phase (· = .probed)) (armPlan env plan)
      (fun _ => At p phase (· = .armed)) (Sound p) := by
  apply Prog.Triple.bind (fsm_rule (G := fun st => ∃ p h, st = .planCompiled p h) hphase ?_)
  · intro _
    apply Prog.Triple.bind (fsm_rule (G := fun st => ∃ p h, st = .planApproved p h) hphase ?_)
    · intro _
      apply fsm_rule hphase
      rintro st st' ⟨p, hash, rfl⟩ h
      exact (Except.ok.inj h).symm
    · rintro st st' ⟨p, hash, rfl⟩ h
      exact ⟨p, hash, (Except.ok.inj h).symm⟩
  · rintro st st' rfl h
    cases hhash : env.computePlanHash plan with
    | ok hash =>
      simp only [FsmState.compilePlan, hhash, Except.map] at h
      exact ⟨plan, hash, (Except.ok.inj h).symm⟩
    | error e => simp [FsmState.compilePlan, hhash, Except.map] at h

/-- **Verification is gated on a flush.** From armed or flushing, only the latter goes on. -/
theorem beginVerify_rule :
    Prog.Triple (σ := Session σ)
      (fun s => At p .flushed FsmState.isFlushing s
        ∨ ∃ phase, phase ≠ .broken ∧ At p phase (· = .armed) s)
      (fsm FsmState.beginVerify) (fun _ => At p .flushed (· = .verifying)) (Sound p) := by
  intro s hs
  cases hs with
  | inl hs =>
    have hrule : Prog.Triple (σ := Session σ) (At p .flushed FsmState.isFlushing)
        (fsm FsmState.beginVerify) (fun _ => At p .flushed (· = .verifying)) (Sound p) :=
      fsm_rule (by simp) fun st st' _ h => (FsmState.beginVerify_ok h).2
    exact hrule s hs
  | inr hs =>
    obtain ⟨phase, hphase, hs⟩ := hs
    have hrefused : fsm FsmState.beginVerify s
        = (.err (.usage "Cannot begin verification: media not flushed"), s) := by
      unfold fsm
      rw [hs.2.1]
      rfl
    rw [hrefused]
    exact ⟨fun a s' h => by simp at h, fun _ => hs.sound hphase⟩

theorem certify_rule {v : VerifyRecord} :
    Prog.Triple (σ := Session σ) (At p (.verified v) (· = .verifying)) (fsm FsmState.certify)
      (fun _ => At p (.verified v) (· = .certified)) (Sound p) := by
  apply fsm_rule (by simp)
  rintro st st' rfl h
  exact (Except.ok.inj h).symm

/-! ## `execute` -/

namespace Execute

variable (pf : Platform) (env : ExecuteEnv σ) (job : DeviceJob)

/-- The run opens its journal with its header and its arming. -/
theorem armRun_rule
    (hheader : ∀ keypair timestamp, p.header (header pf env job keypair timestamp) = true) :
    Prog.Triple (At p .fresh (· = .probed)) (armRun pf env job)
      (fun armed => At p (.writing (header pf env job armed.2.1 armed.2.2) 0) (· = .armed))
      (Sound p) := by
  have hne : Phase.fresh ≠ .broken := by simp
  apply Prog.Triple.bind (Q := fun _ => At p .fresh (· = .probed))
  · unfold logicalPasses
    split
    · exact Quiet.keeps_at (Prog.Keeps.ret _) hne
    · exact Quiet.keeps_at (Prog.Keeps.fail _) hne
  intro passes
  apply Prog.Triple.bind (armPlan_rule env.toCommandEnv hne)
  intro _
  apply Prog.Triple.bind ((Quiet.nowIso env.toCommandEnv).keeps_at hne)
  intro timestamp
  apply Prog.Triple.bind ((Quiet.loadKey env.toCommandEnv).keeps_at hne)
  intro keypair
  apply Prog.Triple.bind (Quiet.keeps_at (Prog.Keeps.failIf _) hne)
  intro _
  have hne' : Phase.writing (header pf env job keypair timestamp) 0 ≠ .broken := by simp
  apply Prog.Triple.bind (append_header env.toCommandEnv (hheader keypair timestamp))
  intro _
  apply Prog.Triple.bind ((Quiet.nowIso env.toCommandEnv).keeps_at hne')
  intro armedAt
  apply Prog.Triple.bind (append_neutral env.toCommandEnv rfl rfl)
  intro _
  apply Prog.Triple.bind (Quiet.keeps_at (Prog.Keeps.failIf _) hne')
  intro _
  apply Prog.Triple.bind (Quiet.keeps_at (Prog.Keeps.failIf _) hne')
  intro _
  apply Prog.Triple.bind (Quiet.keeps_at (Prog.Keeps.failIf _) hne')
  intro _
  exact Prog.Triple.ret _ fun _ hs => hs

theorem passSource_quiet (passIdx : Nat) (pattern : Pattern) :
    Quiet (passSource pf env passIdx pattern) := by
  unfold passSource
  split
  · exact Prog.Keeps.ofExcept _
  · exact Quiet.patternSource pf _

theorem writeMedia_rule {passIdx : Nat} {pass : Pass} {source : PatternSource}
    (hphase : phase.ongoing = true) :
    Prog.Triple (At p phase F) (writeMedia env job passIdx pass source)
      (fun _ => At p phase F) (Sound p) := by
  apply attempt_rule hphase (Quiet.overwrite env.toCommandEnv _ _ _ _ _ _)
  · intro outcome
    exact Quiet.keeps_at (Prog.Keeps.ret outcome) (ne_broken_of_ongoing hphase)
  · intro e
    cases e with
    | interrupted through =>
      -- a drain is the Guardian's thermal abort or a signal
      dsimp only
      split
      · exact report_and_fail hphase (appendQuietly_neutral _ rfl hphase)
      · exact report_and_fail hphase (journalInterrupted_rule _ hphase)
    | _ => exact report_and_fail hphase (journalFailed_rule _ hphase)

/-- One turn of the pass loop; only the first pass may begin on a journal without a flush. -/
theorem executePass_rule {passIdx : Nat} {pass : Pass}
    (hphase : (∃ h, phase = .writing h 0) ∧ passIdx = 0 ∨ phase = .flushed) :
    Prog.Triple (At p phase F) (executePass pf env job passIdx pass)
      (fun _ => At p .flushed FsmState.isFlushing) (Sound p) := by
  have hongoing : phase.ongoing = true := by rcases hphase with ⟨⟨h, rfl⟩, -⟩ | rfl <;> rfl
  have hne := ne_broken_of_ongoing hongoing
  apply Prog.Triple.bind (fsm_rule (G := fun _ => True) hne fun _ _ _ _ => trivial)
  intro _
  apply Prog.Triple.bind (Quiet.keeps_at (passSource_quiet pf env _ _) hne)
  intro source
  apply Prog.Triple.bind (append_rule env.toCommandEnv (N := phase) ?_ hne hne)
  · intro _
    apply Prog.Triple.bind (writeMedia_rule env job hongoing)
    intro outcome
    apply Prog.Triple.bind (Q := fun _ => At p phase fun _ => True)
    · unfold guardMid
      split
      · exact Quiet.keeps_at (Prog.Keeps.failIf _) hne
      · exact Quiet.keeps_at (Prog.Keeps.ret _) hne
    intro _
    apply Prog.Triple.bind (commitPass_rule env.toCommandEnv hphase)
    intro _
    exact Quiet.keeps_at (Prog.Keeps.ret _) (by simp)
  · rcases hphase with ⟨⟨h, rfl⟩, rfl⟩ | rfl <;> rfl

theorem executePasses_flushed (rest : List (Pass × Nat)) :
    Prog.Triple (At p .flushed FsmState.isFlushing) (executePasses pf env job rest)
      (fun _ => At p .flushed FsmState.isFlushing) (Sound p) := by
  induction rest with
  | nil => exact Quiet.keeps_at (Prog.Keeps.ret _) (by simp)
  | cons head rest ih =>
    apply Prog.Triple.bind (executePass_rule pf env job (Or.inr rfl))
    intro _
    apply Prog.Triple.bind ih
    intro _
    exact Quiet.keeps_at (Prog.Keeps.ret _) (by simp)

/-- The pass loop ends flushed, or was empty and has done nothing. -/
theorem executePasses_rule (h : Header) (passes : List Pass) :
    Prog.Triple (At p (.writing h 0) (· = .armed)) (executePasses pf env job passes.zipIdx)
      (fun _ s => At p .flushed FsmState.isFlushing s
        ∨ ∃ phase, phase ≠ .broken ∧ At p phase (· = .armed) s) (Sound p) := by
  cases passes with
  | nil =>
    apply Prog.Triple.ret
    intro s hs
    exact Or.inr ⟨.writing h 0, by simp, hs⟩
  | cons pass passes =>
    rw [List.zipIdx_cons]
    apply Prog.Triple.bind (executePass_rule pf env job (Or.inl ⟨⟨h, rfl⟩, rfl⟩))
    intro _
    apply Prog.Triple.bind (executePasses_flushed pf env job _)
    intro _
    exact Prog.Triple.ret _ fun _ => Or.inl

theorem verifyMedia_rule {passes : List Pass} :
    Prog.Triple (At p .flushed F) (verifyMedia pf env job passes)
      (fun _ => At p .flushed F) (Sound p) := by
  unfold verifyMedia
  dsimp only
  split
  · exact Quiet.keeps_at (Prog.Keeps.ret _) (by simp)
  · apply Prog.Triple.bind (Q := fun _ => At p .flushed F)
    · unfold verifySource
      split
      · exact Quiet.keeps_at Prog.Keeps.unwind (by simp)
      · split
        · exact Quiet.keeps_at (Prog.Keeps.ret _) (by simp)
        · exact Quiet.keeps_at (Quiet.patternSource pf _) (by simp)
    intro source
    apply Prog.Triple.bind (readBack_rule env.toCommandEnv rfl)
    intro verifier
    exact Quiet.keeps_at (Prog.Keeps.ret _) (by simp)

/-- **The gate of `execute`**: only a report without mismatches passes. -/
theorem refuseMismatches_rule {v : VerifyRecord} {report : VerificationReport} :
    Prog.Triple (At p (.verified v) F) (refuseMismatches env report)
      (fun _ s => report.mismatchCount = 0 ∧ At p (.verified v) F s) (Sound p) := by
  unfold refuseMismatches
  split
  · exact report_and_fail rfl (append_neutral env.toCommandEnv rfl rfl)
  · next hzero => exact Prog.Triple.ret () fun s hs => ⟨by omega, hs⟩

theorem certifyRun_rule {keypair : SigningKey} {timestamp : String}
    {reports : List ExecutionPassReport} {report : VerificationReport} {v : VerifyRecord}
    (hv : p.verified v = true) (hembeds : Embeds report v) :
    Prog.Triple (At p (.verified v) (· = .verifying))
      (certifyRun pf env job keypair timestamp reports report) (fun _ => Sound p)
      (Sound p) := by
  have hne : Phase.verified v ≠ .broken := by simp
  have hne' : Phase.completed v ≠ .broken := by simp
  apply Prog.Triple.bind certify_rule
  intro _
  apply Prog.Triple.bind ((Quiet.nowIso env.toCommandEnv).keeps_at hne)
  intro finished
  apply Prog.Triple.bind ((Quiet.elapsed env.toCommandEnv).keeps_at hne)
  intro durationMs
  apply Prog.Triple.bind (append_completed env.toCommandEnv hv)
  intro _
  apply Prog.Triple.bind (Quiet.keeps_at (Prog.Keeps.failIf _) hne')
  intro _
  apply Prog.Triple.bind ((Quiet.elapsed env.toCommandEnv).keeps_at hne')
  intro certDurationMs
  apply Prog.Triple.bind (Quiet.keeps_at (Prog.Keeps.ofExcept _) hne')
  intro evidence
  apply Prog.Triple.bind (Quiet.keeps_at Prog.Keeps.get hne')
  intro s
  apply Prog.Triple.bind (issue_rule env.toCommandEnv hembeds)
  intro _
  exact Quiet.keeps_sound (Prog.Keeps.failIf _)

/-- **`execute` leaves a sound session**, however it ends. -/
theorem executeDeviceInner_rule
    (hheader : ∀ keypair timestamp, p.header (header pf env job keypair timestamp) = true)
    (hverified : ∀ v, v.mismatchCount = 0 → p.verified v = true) :
    Prog.Triple (At p .fresh (· = .probed)) (executeDeviceInner pf env job)
      (fun _ => Sound p) (Sound p) := by
  apply Prog.Triple.bind (armRun_rule pf env job hheader)
  intro armed
  apply Prog.Triple.bind (executePasses_rule pf env job _ armed.1)
  intro written
  apply Prog.Triple.bind beginVerify_rule
  intro _
  apply Prog.Triple.bind (verifyMedia_rule pf env job)
  intro report
  apply Prog.Triple.bind (append_verify env.toCommandEnv)
  intro _
  apply Prog.Triple.bind (refuseMismatches_rule env)
  intro _
  apply Prog.Triple.of_fact
  intro hzero
  apply Prog.Triple.bind (certifyRun_rule pf env job (hverified _ hzero)
    (embeds_verifyRecord rfl _))
  intro _
  exact Quiet.keeps_sound (Prog.Keeps.ret _)

end Execute

/-! ## `resume` -/

namespace Resume

variable (pf : Platform) (env : ResumeEnv σ)

theorem crashInterruption_quiet (records : List JournalRecord) :
    Quiet (crashInterruption env records) := by
  unfold crashInterruption
  split
  · exact Prog.Keeps.ret _
  · exact Prog.Keeps.ret _
  · exact Prog.Keeps.ret _
  · apply Prog.Keeps.bind (Quiet.nowIso env.toCommandEnv)
    intro _
    apply Prog.Keeps.bind (Quiet.nowIso env.toCommandEnv)
    intro _
    exact Prog.Keeps.ret _

theorem headerOf_quiet (records : List JournalRecord) :
    Quiet (headerOf records : Command σ Header) := by
  unfold headerOf
  split
  · exact Prog.Keeps.ret _
  · exact Prog.Keeps.fail _

theorem resumeKey_quiet (records : List JournalRecord) : Quiet (resumeKey env records) := by
  unfold resumeKey
  split
  · exact Prog.Keeps.ofExcept _
  · split
    · exact Prog.Keeps.fail _
    · exact Prog.Keeps.ret _

theorem checkSealKey_quiet (records : List JournalRecord) (keypair : SigningKey) :
    Quiet (checkSealKey pf records keypair : Command σ Unit) := by
  unfold checkSealKey
  split
  · split
    · split
      · exact Prog.Keeps.fail _
      · exact Prog.Keeps.ret _
    · exact Prog.Keeps.ret _
  · exact Prog.Keeps.ret _

/-- A completed journal is refused before anything happens. -/
theorem refuseCompleted_rule {records : List JournalRecord} (h : phaseOf p records ≠ .broken) :
    Prog.Triple (At p (phaseOf p records) F) (refuseCompleted records : Command σ Unit)
      (fun _ s => (phaseOf p records).ongoing = true ∧ At p (phaseOf p records) F s)
      (Sound p) := by
  unfold refuseCompleted
  split
  · exact Prog.Triple.fail fun _ hs => hs.sound h
  · exact Prog.Triple.fail fun _ hs => hs.sound h
  · next r hnot hlast =>
    apply Prog.Triple.ret
    intro s hs
    refine ⟨?_, hs⟩
    have hfacts := phaseFacts p records
    cases hphase : phaseOf p records with
    | broken => exact absurd hphase h
    | fresh =>
      rw [hphase] at hfacts
      rw [show records = [] from hfacts] at hlast
      simp at hlast
    | completed v =>
      -- its last record is the Completed record that was just ruled out
      rw [hphase] at hfacts
      obtain ⟨-, -, -, at_, duration, hcompleted⟩ := hfacts
      rw [hlast, Option.some.injEq] at hcompleted
      exact absurd hcompleted (hnot at_ duration)
    | _ => rfl

theorem armResume_rule {records : List JournalRecord} (h : phaseOf p records ≠ .broken) :
    Prog.Triple (At p (phaseOf p records) (· = .probed)) (armResume pf env records)
      (fun _ s => (phaseOf p records).ongoing = true ∧ At p (phaseOf p records) (· = .armed) s)
      (Sound p) := by
  apply Prog.Triple.bind (refuseCompleted_rule h)
  intro _
  apply Prog.Triple.of_fact
  intro hongoing
  apply Prog.Triple.bind ((headerOf_quiet records).keeps_at h)
  intro h'
  apply Prog.Triple.bind ((Quiet.history env.toCommandEnv records).keeps_at h)
  intro past
  apply Prog.Triple.bind ((crashInterruption_quiet env records).keeps_at h)
  intro crash
  apply Prog.Triple.bind (Quiet.keeps_at (Prog.Keeps.failIf _) h)
  intro _
  apply Prog.Triple.bind (Quiet.keeps_at (Prog.Keeps.failIf _) h)
  intro _
  apply Prog.Triple.bind (Quiet.keeps_at (Prog.Keeps.failIf _) h)
  intro _
  apply Prog.Triple.bind (armPlan_rule env.toCommandEnv h)
  intro _
  apply Prog.Triple.bind ((resumeKey_quiet env records).keeps_at h)
  intro keypair
  apply Prog.Triple.bind ((checkSealKey_quiet pf records keypair).keeps_at h)
  intro _
  apply Prog.Triple.bind (Quiet.keeps_at (Prog.Keeps.failIf _) h)
  intro _
  apply Prog.Triple.bind ((Quiet.nowIso env.toCommandEnv).keeps_at h)
  intro armedAt
  apply Prog.Triple.bind (append_neutral env.toCommandEnv rfl hongoing)
  intro _
  apply Prog.Triple.bind ((Quiet.nowIso env.toCommandEnv).keeps_at h)
  intro resumedAt
  apply Prog.Triple.bind (append_neutral env.toCommandEnv rfl hongoing)
  intro _
  apply Prog.Triple.bind (Quiet.keeps_at (Prog.Keeps.failIf _) h)
  intro _
  exact Prog.Triple.ret _ fun _ hs => ⟨hongoing, hs⟩

theorem writeMedia_rule {h : Header} {passIdx : Nat} {pass : Pass} {source : PatternSource}
    {startWindow : Nat} (hphase : phase.ongoing = true) :
    Prog.Triple (At p phase F) (writeMedia env h passIdx pass source startWindow)
      (fun _ => At p phase F) (Sound p) := by
  apply attempt_rule hphase (Quiet.overwrite env.toCommandEnv _ _ _ _ _ _)
  · intro outcome
    exact Quiet.keeps_at (Prog.Keeps.ret outcome) (ne_broken_of_ongoing hphase)
  · intro e
    cases e with
    | interrupted through => exact report_and_fail hphase (journalInterrupted_rule _ hphase)
    | _ => exact report_and_fail hphase (journalFailed_rule _ hphase)

theorem beginPassRecord_rule {h : Header} {passIdx startWindow : Nat} {source : PatternSource}
    (hphase : (∃ h, phase = .writing h startWindow) ∧ passIdx = 0 ∨ phase = .flushed) :
    Prog.Triple (At p phase F) (beginPassRecord env h passIdx source startWindow)
      (fun _ => At p phase F) (Sound p) := by
  have hne : phase ≠ .broken := by rcases hphase with ⟨⟨h, rfl⟩, -⟩ | rfl <;> simp
  unfold beginPassRecord
  split
  · next hzero =>
    apply append_rule env.toCommandEnv ?_ hne hne
    rcases hphase with ⟨⟨h, rfl⟩, rfl⟩ | rfl
    · exact if_pos ⟨rfl, hzero⟩
    · rfl
  · exact Quiet.keeps_at (Prog.Keeps.ret _) hne

theorem resumePass_rule {h : Header} {pt : ResumePoint} {pass : Pass} {offset : Nat}
    (hphase : (∃ h, phase = .writing h pt.committedWindows) ∧ pt.lastPassIdx.toNat + offset = 0
      ∨ phase = .flushed) :
    Prog.Triple (At p phase F) (resumePass pf env h pt pass offset)
      (fun _ => At p .flushed FsmState.isFlushing) (Sound p) := by
  have hongoing : phase.ongoing = true := by rcases hphase with ⟨⟨h, rfl⟩, -⟩ | rfl <;> rfl
  have hne := ne_broken_of_ongoing hongoing
  -- the pass that continues the journal starts where its commits end
  have hstart : (∃ h, phase = .writing h (if pt.lastPassIdx.toNat + offset
        = pt.lastPassIdx.toNat then pt.committedWindows else 0))
      ∧ pt.lastPassIdx.toNat + offset = 0 ∨ phase = .flushed := by
    rcases hphase with ⟨hphase, hzero⟩ | hphase
    · rw [if_pos (by omega)]
      exact Or.inl ⟨hphase, hzero⟩
    · exact Or.inr hphase
  apply Prog.Triple.bind (fsm_rule (G := fun _ => True) hne fun _ _ _ _ => trivial)
  intro _
  apply Prog.Triple.bind (Quiet.keeps_at (Quiet.patternSource pf _) hne)
  intro source
  apply Prog.Triple.bind (beginPassRecord_rule env hstart)
  intro _
  apply Prog.Triple.bind (writeMedia_rule env hongoing)
  intro outcome
  apply Prog.Triple.bind (commitPass_rule env.toCommandEnv hstart)
  intro _
  exact Quiet.keeps_at (Prog.Keeps.ret _) (by simp)

theorem resumePasses_flushed {h : Header} {pt : ResumePoint} (rest : List (Pass × Nat)) :
    Prog.Triple (At p .flushed FsmState.isFlushing) (resumePasses pf env h pt rest)
      (fun _ => At p .flushed FsmState.isFlushing) (Sound p) := by
  induction rest with
  | nil => exact Quiet.keeps_at (Prog.Keeps.ret _) (by simp)
  | cons head rest ih =>
    apply Prog.Triple.bind (resumePass_rule pf env (Or.inr rfl))
    intro _
    apply Prog.Triple.bind ih
    intro _
    exact Quiet.keeps_at (Prog.Keeps.ret _) (by simp)

/-- **The passes left are all or none**: a journal without a flush resumes at its first pass,
and a journal with one has nothing left to write. -/
theorem passesLeft_eq {records : List JournalRecord} (h : (phaseOf p records).ongoing = true)
    (passes : List Pass) :
    passesLeft (resumePoint records) passes = [] ∨
      (∃ h, phaseOf p records = .writing h (resumePoint records).committedWindows)
        ∧ (resumePoint records).lastPassIdx = 0
        ∧ passesLeft (resumePoint records) passes = passes.zipIdx := by
  have hfacts := phaseFacts p records
  cases hphase : phaseOf p records with
  | writing h committed =>
    rw [hphase] at hfacts
    have hpoint : resumePoint records = ⟨0, committed, false⟩ := WritingFacts.resumes hfacts
    rw [hpoint]
    exact Or.inr ⟨⟨h, rfl⟩, rfl, rfl⟩
  | flushed =>
    rw [hphase] at hfacts
    exact Or.inl (if_pos hfacts.2.1)
  | verified v =>
    rw [hphase] at hfacts
    exact Or.inl (if_pos hfacts.2.2.1)
  | fresh => simp [hphase, Phase.ongoing] at h
  | completed v => simp [hphase, Phase.ongoing] at h
  | broken => simp [hphase, Phase.ongoing] at h

theorem resumePasses_rule {records : List JournalRecord} {h : Header} {passes : List Pass}
    (hongoing : (phaseOf p records).ongoing = true) :
    Prog.Triple (At p (phaseOf p records) (· = .armed))
      (resumePasses pf env h (resumePoint records) (passesLeft (resumePoint records) passes))
      (fun _ s => At p .flushed FsmState.isFlushing s
        ∨ ∃ phase, phase ≠ .broken ∧ At p phase (· = .armed) s) (Sound p) := by
  have hnil : Prog.Triple (At p (phaseOf p records) (· = .armed))
      (resumePasses pf env h (resumePoint records) [])
      (fun _ s => At p .flushed FsmState.isFlushing s
        ∨ ∃ phase, phase ≠ .broken ∧ At p phase (· = .armed) s) (Sound p) :=
    Prog.Triple.ret _ fun s hs => Or.inr ⟨_, ne_broken_of_ongoing hongoing, hs⟩
  rcases passesLeft_eq hongoing passes with hnone | ⟨hwriting, hlast, hall⟩
  · rw [hnone]
    exact hnil
  · rw [hall]
    cases passes with
    | nil => exact hnil
    | cons pass passes =>
      rw [List.zipIdx_cons]
      apply Prog.Triple.bind
        (resumePass_rule pf env (Or.inl ⟨hwriting, by rw [hlast]; rfl⟩))
      intro _
      apply Prog.Triple.bind (resumePasses_flushed pf env _)
      intro _
      exact Prog.Triple.ret _ fun _ => Or.inl

/-- What the verification phase of `resume` hands on: a report whose mismatches are the ones it
was shown, and no SHA-256. -/
def ReportShown (report : VerificationReport) (s : Session σ) : Prop :=
  report.streamHashSha256 = none ∧ (Clean s → report.mismatchCount = 0)

theorem verifyMedia_rule {h : Header} {passes : List Pass} :
    Prog.Triple (At p .flushed F) (verifyMedia pf env h passes)
      (fun report s => At p .flushed F s ∧ ReportShown report s) (Sound p) := by
  apply Prog.Triple.bind (Q := fun _ => At p .flushed F)
  · unfold verifySource
    split
    · exact Quiet.keeps_at Prog.Keeps.unwind (by simp)
    · exact Quiet.keeps_at (Quiet.patternSource pf _) (by simp)
  intro source
  apply Prog.Triple.bind (readBack_shown env.toCommandEnv rfl)
  intro verifier
  apply Prog.Triple.ret
  rintro s ⟨hs, reads, rfl, hshown⟩
  refine ⟨hs, ?_, fun hclean => ?_⟩
  · show ((_ : StreamVerifier).onWindows reads).sha256Hasher.map _ = none
    rw [StreamVerifier.onWindows_sha256Hasher rfl]
    rfl
  · exact (StreamVerifier.mismatchCount_eq_zero_iff rfl reads).mpr (hshown hclean)

theorem certifyRun_rule {records : List JournalRecord} {keypair : SigningKey} {h : Header}
    {past : List FailureRecord × List InterruptionRecord}
    {reports : List ExecutionPassReport} {report : VerificationReport} {v : VerifyRecord}
    (hv : p.verified v = true) (hembeds : Embeds report v) :
    Prog.Triple (At p (.verified v) (· = .verifying))
      (certifyRun pf env records keypair h past reports report) (fun _ => Sound p)
      (Sound p) := by
  have hne : Phase.verified v ≠ .broken := by simp
  have hne' : Phase.completed v ≠ .broken := by simp
  apply Prog.Triple.bind certify_rule
  intro _
  apply Prog.Triple.bind ((Quiet.nowIso env.toCommandEnv).keeps_at hne)
  intro finished
  apply Prog.Triple.bind ((Quiet.elapsed env.toCommandEnv).keeps_at hne)
  intro durationMs
  apply Prog.Triple.bind (append_completed env.toCommandEnv hv)
  intro _
  apply Prog.Triple.bind ((Quiet.nowIso env.toCommandEnv).keeps_at hne')
  intro started
  apply Prog.Triple.bind ((Quiet.elapsed env.toCommandEnv).keeps_at hne')
  intro certDurationMs
  apply Prog.Triple.bind (Quiet.keeps_at Prog.Keeps.get hne')
  intro s
  apply Prog.Triple.bind (issue_rule env.toCommandEnv hembeds)
  intro _
  exact Quiet.keeps_sound (Prog.Keeps.failIf _)

theorem certifyRun_readsKept (records : List JournalRecord) (keypair : SigningKey) (h : Header)
    (past : List FailureRecord × List InterruptionRecord)
    (reports : List ExecutionPassReport) (report : VerificationReport) :
    ReadsKept (certifyRun pf env records keypair h past reports report) := by
  apply Prog.Keeps.bind (ReadsKept.fsm _)
  intro _
  apply Prog.Keeps.bind fun _ => rfl
  intro finished
  apply Prog.Keeps.bind fun _ => rfl
  intro durationMs
  apply Prog.Keeps.bind (ReadsKept.append env.toCommandEnv _)
  intro _
  apply Prog.Keeps.bind fun _ => rfl
  intro started
  apply Prog.Keeps.bind fun _ => rfl
  intro certDurationMs
  apply Prog.Keeps.bind Prog.Keeps.get
  intro s
  apply Prog.Keeps.bind (ReadsKept.issue env.toCommandEnv pf _ _)
  intro _
  exact Prog.Keeps.failIf _

/-- **`resume` leaves a sound session when the medium read back clean**, or when a policy
lets any verification complete. Nothing after the read-back looks at the report, so a mismatch
reaches the Completed record and the certificate. -/
theorem cmdResume_rule {records : List JournalRecord} (h : phaseOf p records ≠ .broken)
    (hverified : ∀ v, v.mismatchCount = 0 → p.verified v = true) :
    Prog.Triple (At p (phaseOf p records) (· = .probed)) (cmdResume pf env records)
      (fun _ s => (Clean s ∨ ∀ v, p.verified v = true) → Sound p s)
      fun s => (Clean s ∨ ∀ v, p.verified v = true) → Sound p s := by
  have weaken : ∀ s : Session σ, Sound p s →
      ((Clean s ∨ ∀ v, p.verified v = true) → Sound p s) := fun _ hs _ => hs
  apply Prog.Triple.bind ((armResume_rule pf env h).consequence (fun _ hs => hs)
    (fun _ _ hs => hs) weaken)
  rintro ⟨h', past, keypair⟩
  apply Prog.Triple.of_fact
  intro hongoing
  apply Prog.Triple.bind ((resumePasses_rule pf env hongoing).consequence (fun _ hs => hs)
    (fun _ _ hs => hs) weaken)
  intro reports
  apply Prog.Triple.bind (beginVerify_rule.consequence (fun _ hs => hs)
    (fun _ _ hs => hs) weaken)
  intro _
  apply Prog.Triple.bind ((verifyMedia_rule pf env).consequence (fun _ hs => hs)
    (fun _ _ hs => hs) weaken)
  intro report
  by_cases hpass : p.verified (verifyRecord report none
      (Execute.supportsWriteZeroes env.canWriteZeroes h'.plan)) = true
  · rintro s ⟨hs, hsha, -⟩
    have htail : Prog.Triple (At p .flushed (· = .verifying))
        (append env.toCommandEnv (.verify (verifyRecord report none
            (Execute.supportsWriteZeroes env.canWriteZeroes h'.plan)))
          >>= fun _ => certifyRun pf env records keypair h' past reports report)
        (fun _ => Sound p) (Sound p) := by
      apply Prog.Triple.bind (append_verify env.toCommandEnv)
      intro _
      exact certifyRun_rule pf env hpass (embeds_verifyRecord hsha _)
    exact htail.consequence (fun _ hs => hs) (fun _ s => weaken s) weaken s hs
  · -- the mismatches were shown, and no later step forgets them
    have hkept : ReadsKept (append env.toCommandEnv (.verify (verifyRecord report none
          (Execute.supportsWriteZeroes env.canWriteZeroes h'.plan)))
        >>= fun _ => certifyRun pf env records keypair h' past reports report) :=
      Prog.Keeps.bind (ReadsKept.append env.toCommandEnv _) fun _ =>
        certifyRun_readsKept pf env records keypair h' past reports report
    have hnever : ¬ ∀ v, p.verified v = true := fun hall => hpass (hall _)
    refine (hkept.triple fun reads => ¬ ∀ r ∈ reads, r.isValid = true).consequence
      (fun s hs hclean => hpass (hverified _ (hs.2.2 hclean)))
      (fun _ s hdirty hor => ?_) fun s hdirty hor => ?_
    · exact absurd hor (not_or.mpr ⟨hdirty, hnever⟩)
    · exact absurd hor (not_or.mpr ⟨hdirty, hnever⟩)

end Resume

end DiscCleaner
