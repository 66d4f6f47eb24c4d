import DiscCleaner.Cli.CommandRules

/-!
# DiscCleaner — the epochs of a journal

A journal lives through any number of commands: the `execute` that creates it, crashes,
resumes, and the two ways of making a certificate out of its records. This file states what
every certificate and every Completed record of such a life must come with, and when it does.
-/

namespace DiscCleaner

open ByteLib ProgLib Command

variable {σ : Type} {p : Policy}

/-! ## Certificates from a completed journal -/

/-- A sound journal that ends in a Completed record is completed. -/
theorem completed_of_last {records : List JournalRecord} {at_ : String} {duration : Nat}
    (h : phaseOf p records ≠ .broken)
    (hlast : records.getLast? = some (.completed at_ duration)) :
    ∃ v, phaseOf p records = .completed v := by
  obtain ⟨pre, rfl⟩ := List.getLast?_eq_some_iff.mp hlast
  rw [phaseOf_concat] at h ⊢
  cases hphase : phaseOf p pre with
  | verified v =>
    rw [hphase] at h
    refine ⟨v, if_pos ?_⟩
    by_contra hdirty
    exact h (if_neg hdirty)
  | _ => exact absurd (by rw [hphase]; rfl) h

/-- The tag of the journal's verification parses back to the level it was written for. -/
def LevelKept (records : List JournalRecord) : Prop :=
  ∀ v, lastVerification records = some v →
    (parseJournalVerifyLevel v.level).shortTag = v.level

namespace Reconstruct

variable (pf : Platform) (env : ReconstructEnv σ)

theorem requireHeader_quiet (records : List JournalRecord) :
    Quiet (requireHeader records : Command σ Header) := by
  unfold requireHeader
  split
  · exact Prog.Keeps.ret _
  · exact Prog.Keeps.fail _

theorem finishedAt_quiet (records : List JournalRecord) : Quiet (finishedAt env records) := by
  unfold finishedAt
  split
  · exact Prog.Keeps.ret _
  · exact Prog.Keeps.bind (Quiet.nowIso env.toCommandEnv) fun _ => Prog.Keeps.ret _

/-- **`cert reconstruct` re-issues what the journal completed with**, when the level of its
verification survives the tag. -/
theorem cmdCertReconstruct_rule {records : List JournalRecord} {F : FsmState → Prop}
    (h : phaseOf p records ≠ .broken) (hlevel : LevelKept records) :
    Prog.Triple (At p (phaseOf p records) F) (cmdCertReconstruct pf env records)
      (fun _ => Sound p) (Sound p) := by
  apply Prog.Triple.bind (Q := fun _ s => (∃ v, phaseOf p records = .completed v)
    ∧ At p (phaseOf p records) F s)
  · unfold requireCompleted
    split
    · exact Prog.Triple.fail fun _ hs => hs.sound h
    · next at_ duration hlast =>
      exact Prog.Triple.ret _ fun _ hs => ⟨completed_of_last h hlast, hs⟩
    · exact Prog.Triple.fail fun _ hs => hs.sound h
  intro _
  apply Prog.Triple.of_fact
  rintro ⟨v, hv⟩
  obtain ⟨hlast, hfind, -⟩ := verification_of_completed hv
  rw [hv] at h ⊢
  apply Prog.Triple.bind ((requireHeader_quiet records).keeps_at h)
  intro header
  apply Prog.Triple.bind ((finishedAt_quiet env records).keeps_at h)
  intro finished
  -- the report is the one of the journal's only verification
  apply Prog.Triple.bind (Q := fun report s => Embeds report v ∧ At p (.completed v) F s)
  · unfold requireVerify
    rw [hfind]
    apply Prog.Triple.ret
    intro s hs
    refine ⟨?_, hs⟩
    show v = verifyRecord (reportOf (parseJournalVerifyLevel v.level) v) _ _
    unfold verifyRecord reportOf
    rw [hlevel v hlast]
  intro report
  apply Prog.Triple.of_fact
  intro hembeds
  apply Prog.Triple.bind ((Quiet.history env.toCommandEnv records).keeps_at h)
  intro past
  apply Prog.Triple.bind ((Quiet.loadKey env.toCommandEnv).keeps_at h)
  intro keypair
  apply Prog.Triple.bind (issue_rule env.toCommandEnv hembeds)
  intro _
  exact Quiet.keeps_sound (Prog.Keeps.failIf _)

end Reconstruct

namespace CertificateProjector

/-- The projector speaks another vocabulary: no tag of a journal is in it. -/
theorem parseLevel_lowerTag {tag : String} (h : lowerTag tag = true) :
    ∃ e, parseLevel tag = .error e := by
  have hfull : tag ≠ "Full" := by
    rintro rfl
    exact absurd h (by decide)
  have hnone : tag ≠ "None" := by
    rintro rfl
    exact absurd h (by decide)
  exact ⟨_, by rw [parseLevel, if_neg hfull, if_neg hnone]⟩

/-- One record of the fold: a verification enters only through a parsed level. -/
theorem step_verify {startedUtc : String} {pr pr' : Projection} {r : JournalRecord}
    (h : step startedUtc pr r = .ok pr') (hr : ∀ v, asVerify r = some v → lowerTag v.level) :
    pr'.verify = pr.verify := by
  cases r with
  | verify v =>
    obtain ⟨e, he⟩ := parseLevel_lowerTag (hr v rfl)
    simp [step, he, Except.map] at h
  | resumed phase fromPass fromWindow discarded at_ =>
    simp only [step] at h
    split at h
    · rw [← Except.ok.inj h]
    · rw [← Except.ok.inj h]
  | _ => rw [← Except.ok.inj h]

theorem foldlM_verify {startedUtc : String} (records : List JournalRecord)
    {pr pr' : Projection} (h : records.foldlM (step startedUtc) pr = .ok pr')
    (hr : ∀ v ∈ verifications records, lowerTag v.level) : pr'.verify = pr.verify := by
  induction records generalizing pr with
  | nil => rw [Except.ok.inj h]
  | cons r records ih =>
    rw [List.foldlM_cons] at h
    cases hstep : step startedUtc pr r with
    | error e => simp [hstep, bind, Except.bind] at h
    | ok pr₁ =>
      rw [hstep] at h
      have htail := ih h fun v hv => hr v (by
        simp only [verifications, List.mem_filterMap] at hv ⊢
        obtain ⟨a, ha, hav⟩ := hv
        exact ⟨a, List.mem_cons_of_mem _ ha, hav⟩)
      rw [htail]
      exact step_verify hstep fun v hv => hr v (by
        simp only [verifications, List.mem_filterMap]
        exact ⟨r, List.mem_cons_self, hv⟩)

/-- **`project` makes no certificate of these journals**: it refuses the tag of their
verification, and without a verification it has no report. -/
theorem project_refuses (pf : Platform) (tool : ToolBuild) (verificationSchemeDoc : String)
    {records : List JournalRecord} (summary : JournalChainSummary) (keypair : SigningKey)
    (h : phaseOf p records ≠ .broken) :
    ∃ e, project pf tool verificationSchemeDoc records summary keypair = .error e := by
  have htags : ∀ v ∈ verifications records, lowerTag v.level = true := by
    have hfacts := phaseFacts p records
    cases hphase : phaseOf p records with
    | broken => exact absurd hphase h
    | fresh =>
      rw [hphase] at hfacts
      rw [show records = [] from hfacts]
      simp [verifications]
    | writing h committed =>
      rw [hphase] at hfacts
      simp [WritingFacts.unverified hfacts]
    | flushed => rw [hphase] at hfacts; simp [hfacts.1]
    | verified v => rw [hphase] at hfacts; simp [hfacts.1, hfacts.2.1]
    | completed v => rw [hphase] at hfacts; simp [hfacts.1, hfacts.2.1]
  unfold project
  cases hcollect : collect records with
  | error e => exact ⟨e, rfl⟩
  | ok pr =>
    have hnone : pr.verify = none := foldlM_verify records hcollect htags
    have hassemble : ∃ e, assemble pf tool verificationSchemeDoc summary keypair pr
        = .error e := by
      unfold assemble
      rw [hnone]
      cases pr.header <;> cases pr.completed <;> exact ⟨_, rfl⟩
    obtain ⟨e, he⟩ := hassemble
    exact ⟨e, by simp [bind, Except.bind, he]⟩

end CertificateProjector

/-! ## Runs -/

/-- A journal, and the certificates made of it so far. -/
structure RunState where
  journal : List JournalRecord
  issued : List Issued

def RunState.start : RunState := ⟨[], []⟩

/-- A command with what it meets: its environment, and the medium as it finds it. -/
inductive Action (σ : Type) where
  | execute (env : ExecuteEnv σ) (job : DeviceJob) (device : σ)
  | resume (env : ResumeEnv σ) (device : σ)
  | reconstruct (env : ReconstructEnv σ) (device : σ)
  | project (tool : ToolBuild) (verificationSchemeDoc : String) (summary : JournalChainSummary)
      (keypair : SigningKey)

namespace Action

/-- `execute` creates the journal it writes. -/
def enabled : Action σ → RunState → Prop
  | execute _ _ _, st => st.journal = []
  | _, _ => True

/-- The journal and the certificates a command leaves. -/
def perform (pf : Platform) (st : RunState) : Action σ → List JournalRecord × List Issued
  | execute env job device =>
    let s := (Execute.executeDeviceInner pf env job (Session.start st.journal device)).2
    (s.journal, s.issued)
  | resume env device =>
    let s := (Resume.cmdResume pf env st.journal (Session.start st.journal device)).2
    (s.journal, s.issued)
  | reconstruct env device =>
    let s := (Reconstruct.cmdCertReconstruct pf env st.journal
      (Session.start st.journal device)).2
    (s.journal, s.issued)
  | project tool verificationSchemeDoc summary keypair =>
    match CertificateProjector.project pf tool verificationSchemeDoc st.journal summary
        keypair with
    | .ok cert => (st.journal, [⟨cert, st.journal⟩])
    | .error _ => (st.journal, [])

end Action

/-- A command runs to its end, or the machine dies and the first `n` records are left. -/
inductive Step (pf : Platform) (a : Action σ) (st : RunState) : RunState → Prop where
  | finish (h : a.enabled st) :
    Step pf a st ⟨(a.perform pf st).1, st.issued ++ (a.perform pf st).2⟩
  | crash (h : a.enabled st) (n : Nat) : Step pf a st ⟨(a.perform pf st).1.take n, st.issued⟩

/-- The states of runs whose steps all meet a condition. -/
inductive Reachable (pf : Platform) (meets : RunState → Action σ → Prop) : RunState → Prop where
  | start : Reachable pf meets .start
  | step {st st' : RunState} (a : Action σ) (h : Reachable pf meets st) (hmeets : meets st a)
      (hstep : Step pf a st st') : Reachable pf meets st'

/-- The journal keeps to its phases, and every certificate was made of a completed one. -/
def RunSound (p : Policy) (st : RunState) : Prop :=
  phaseOf p st.journal ≠ .broken ∧ ∀ i ∈ st.issued, IssuedSound p i

/-- What a policy asks of a step: that `resume` reads back a clean medium, unless the policy
lets any verification complete, and that a reconstructed journal has kept its level. -/
def Admitted (p : Policy) (pf : Platform) (st : RunState) : Action σ → Prop
  | .resume env device =>
    Clean (Resume.cmdResume pf env st.journal (Session.start st.journal device)).2
      ∨ ∀ v, p.verified v = true
  | .reconstruct _ _ => LevelKept st.journal
  | _ => True

/-- A fresh session stands where its journal does. -/
theorem at_start (journal : List JournalRecord) (device : σ) :
    At p (phaseOf p journal) (· = .probed) (Session.start journal device) := ⟨rfl, rfl, rfl⟩

/-- An admitted command leaves a sound journal and sound certificates. -/
theorem perform_sound (pf : Platform) {st : RunState} {a : Action σ}
    (hheader : ∀ h, p.header h = true)
    (hverified : ∀ v, v.mismatchCount = 0 → p.verified v = true)
    (h : phaseOf p st.journal ≠ .broken) (henabled : a.enabled st)
    (hadmitted : Admitted p pf st a) :
    phaseOf p (a.perform pf st).1 ≠ .broken
      ∧ ∀ i ∈ (a.perform pf st).2, IssuedSound p i := by
  cases a with
  | execute env job device =>
    have hjournal : st.journal = [] := henabled
    have hstart : At p .fresh (· = .probed) (Session.start st.journal device) := by
      rw [hjournal]
      exact at_start [] device
    exact (Execute.executeDeviceInner_rule pf env job (fun _ _ => hheader _)
      hverified).always hstart
  | resume env device =>
    exact (Resume.cmdResume_rule pf env h hverified).always (at_start st.journal device)
      hadmitted
  | reconstruct env device =>
    exact (Reconstruct.cmdCertReconstruct_rule pf env h hadmitted).always
      (at_start st.journal device)
  | project tool verificationSchemeDoc summary keypair =>
    obtain ⟨e, he⟩ := CertificateProjector.project_refuses pf tool verificationSchemeDoc summary
      keypair h
    simp only [Action.perform, he]
    exact ⟨h, by simp⟩

/-- **Step lemma**: an admitted step keeps a run sound. -/
theorem RunSound.step {pf : Platform} {st st' : RunState} {a : Action σ}
    (hheader : ∀ h, p.header h = true)
    (hverified : ∀ v, v.mismatchCount = 0 → p.verified v = true) (h : RunSound p st)
    (hadmitted : Admitted p pf st a) (hstep : Step pf a st st') : RunSound p st' := by
  cases hstep with
  | finish henabled =>
    obtain ⟨hphase, hissued⟩ := perform_sound pf hheader hverified h.1 henabled hadmitted
    refine ⟨hphase, fun i hi => ?_⟩
    cases List.mem_append.mp hi with
    | inl hold => exact h.2 i hold
    | inr hnew => exact hissued i hnew
  | crash henabled n =>
    obtain ⟨hphase, -⟩ := perform_sound pf hheader hverified h.1 henabled hadmitted
    exact ⟨phaseOf_of_extension (List.take_prefix n _) hphase, h.2⟩

/-- **Run lemma**: a run of admitted steps is sound. -/
theorem Reachable.runSound {pf : Platform} {meets : RunState → Action σ → Prop} {st : RunState}
    (h : Reachable pf meets st) (hheader : ∀ h, p.header h = true)
    (hverified : ∀ v, v.mismatchCount = 0 → p.verified v = true)
    (hmeets : ∀ st a, meets st a → Admitted p pf st a) : RunSound p st := by
  induction h with
  | start => exact ⟨by simp [RunState.start, phaseOf, Phase.monitor], by simp [RunState.start]⟩
  | step a _ hmeet hstep ih => exact ih.step hheader hverified (hmeets _ _ hmeet) hstep

end DiscCleaner
