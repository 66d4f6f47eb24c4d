import DiscCleaner.Cli.Reconstruct
import DiscCleaner.Lib.Transition

/-!
# DiscCleaner — the phases of a journal

The journal of a run as a monitor sees it: created, no pass flushed yet, some pass flushed, read
back, completed. A journal breaks the protocol when it does not open with a header, leaves a
gap between the windows it commits, verifies before a flush, verifies twice or under a level it
has no tag for, completes without a verification, or goes on after its completion.
-/

namespace DiscCleaner

open ByteLib ProgLib MonitorLib

/-- The level tags of a journal are lower-case words. -/
def lowerTag (tag : String) : Bool := tag.toList.head?.any Char.isLower

theorem lowerTag_shortTag (level : VerifyLevel) : lowerTag level.shortTag = true := by
  cases level with
  | full => rfl
  | none => rfl
  | sampled stride => simp [lowerTag, VerifyLevel.shortTag]

/-- What a monitor asks of the records themselves: of the header that opens the journal, and
of the verification it completes with. -/
structure Policy where
  header : Header → Bool
  verified : VerifyRecord → Bool

inductive Phase where
  | fresh
  | writing (h : Header) (committed : Nat)
  | flushed
  | verified (v : VerifyRecord)
  | completed (v : VerifyRecord)
  | broken
  deriving DecidableEq

namespace Phase

variable (p : Policy)

/-- While no pass is flushed, only pass 0 is begun and committed, window after window. -/
def next : Phase → JournalRecord → Phase
  | broken, _ | completed _, _ => broken
  | fresh, .header h => if p.header h then writing h 0 else broken
  | fresh, _ => broken
  | writing h committed, .beginPass pass _ _ =>
    if pass = 0 ∧ committed = 0 then writing h committed else broken
  | writing h committed, .rangeCommit pass firstWindow numWindows =>
    if pass = 0 ∧ firstWindow = committed then writing h (committed + numWindows) else broken
  | writing _ _, .flushed _ => flushed
  | flushed, .verify v => if lowerTag v.level then verified v else broken
  | writing _ _, .verify _ | verified _, .verify _ => broken
  | verified v, .completed _ _ => if p.verified v then completed v else broken
  | writing _ _, .completed _ _ | flushed, .completed _ _ => broken
  | phase, _ => phase

/-- The monitor of a run's journal. -/
def monitor : Monitor JournalRecord Phase where
  start := fresh
  next := next p
  bad phase := phase = broken
  bad_next phase r h := by
    rw [h]
    rfl

end Phase

variable {p : Policy}

def phaseOf (p : Policy) (journal : List JournalRecord) : Phase := (Phase.monitor p).run journal

@[simp] theorem phaseOf_concat (journal : List JournalRecord) (r : JournalRecord) :
    phaseOf p (journal ++ [r]) = (phaseOf p journal).next p r :=
  (Phase.monitor p).run_concat journal r

theorem phaseOf_of_extension {pre journal : List JournalRecord} (h : pre <+: journal)
    (hjournal : phaseOf p journal ≠ .broken) : phaseOf p pre ≠ .broken :=
  (Phase.monitor p).not_bad_of_extension h hjournal

/-! ## What a phase says about the records -/

def asVerify : JournalRecord → Option VerifyRecord
  | .verify v => some v
  | _ => none

/-- The verifications a journal records, in order. -/
def verifications (journal : List JournalRecord) : List VerifyRecord :=
  journal.filterMap asVerify

def lastVerification (journal : List JournalRecord) : Option VerifyRecord :=
  (verifications journal).getLast?

@[simp] theorem verifications_concat (journal : List JournalRecord) (r : JournalRecord) :
    verifications (journal ++ [r]) = verifications journal ++ (asVerify r).toList := by
  rw [verifications, List.filterMap_append]
  cases h : asVerify r <;> simp [verifications, h]

/-- Some RangeCommit record of pass `pass` covers the window. -/
def WindowCommitted (journal : List JournalRecord) (pass window : Nat) : Prop :=
  ∃ label firstWindow numWindows, .rangeCommit label firstWindow numWindows ∈ journal
    ∧ label.toNat = pass ∧ firstWindow ≤ window ∧ window < firstWindow + numWindows

theorem resumePoint_concat (journal : List JournalRecord) (r : JournalRecord) :
    Resume.resumePoint (journal ++ [r]) = (Resume.resumePoint journal).step r := by
  simp [Resume.resumePoint]

/-- A journal without a flush: its header, what it has committed, and what `resume` reads off
it. -/
structure WritingFacts (p : Policy) (journal : List JournalRecord) (h : Header)
    (committed : Nat) : Prop where
  unverified : verifications journal = []
  head : journal.head? = some (.header h)
  accepted : p.header h = true
  resumes : Resume.resumePoint journal = ⟨0, committed, false⟩
  windows : ∀ pass window, WindowCommitted journal pass window ↔ pass = 0 ∧ window < committed
  unflushed : ∀ label, .flushed label ∉ journal
  uncompleted : ∀ at_ duration, .completed at_ duration ∉ journal

/-- The records behind a phase. -/
def PhaseFacts (p : Policy) (journal : List JournalRecord) : Phase → Prop
  | .fresh => journal = []
  | .writing h committed => WritingFacts p journal h committed
  | .flushed => verifications journal = []
      ∧ (Resume.resumePoint journal).verifyReached = true
      ∧ ∃ label, .flushed label ∈ journal
  | .verified v => verifications journal = [v] ∧ lowerTag v.level = true
      ∧ (Resume.resumePoint journal).verifyReached = true
      ∧ ∃ label, .flushed label ∈ journal
  | .completed v => verifications journal = [v] ∧ lowerTag v.level = true ∧ p.verified v = true
      ∧ ∃ at_ duration, journal.getLast? = some (.completed at_ duration)
  | .broken => True

/-- A record other than a flush leaves the resume point's flag as it is. -/
theorem step_verifyReached {pt : Resume.ResumePoint} {r : JournalRecord}
    (h : pt.verifyReached = true) : (pt.step r).verifyReached = true := by
  cases r with
  | rangeCommit pass first n =>
    show (if pass = pt.lastPassIdx then _ else pt).verifyReached = true
    split <;> exact h
  | _ => first | exact h | rfl

/-- Records of a writing journal that change none of its facts. -/
theorem WritingFacts.concat {journal : List JournalRecord} {h : Header} {committed : Nat}
    {r : JournalRecord} (facts : WritingFacts p journal h committed)
    (hverify : asVerify r = none)
    (hstep : Resume.ResumePoint.step ⟨0, committed, false⟩ r = ⟨0, committed, false⟩)
    (hcommit : ∀ label firstWindow numWindows, r ≠ .rangeCommit label firstWindow numWindows)
    (hflushed : ∀ label, r ≠ .flushed label)
    (hcompleted : ∀ at_ duration, r ≠ .completed at_ duration) :
    WritingFacts p (journal ++ [r]) h committed where
  unverified := by simp [facts.unverified, hverify]
  head := by simp [List.head?_append, facts.head]
  accepted := facts.accepted
  resumes := by rw [resumePoint_concat, facts.resumes, hstep]
  windows pass window := by
    rw [← facts.windows pass window]
    unfold WindowCommitted
    constructor
    · rintro ⟨label, firstWindow, numWindows, hmem, hrest⟩
      refine ⟨label, firstWindow, numWindows, ?_, hrest⟩
      cases List.mem_append.mp hmem with
      | inl hold => exact hold
      | inr hnew => exact absurd (List.mem_singleton.mp hnew).symm (hcommit _ _ _)
    · rintro ⟨label, firstWindow, numWindows, hmem, hrest⟩
      exact ⟨label, firstWindow, numWindows, List.mem_append_left _ hmem, hrest⟩
  unflushed label hmem := by
    cases List.mem_append.mp hmem with
    | inl hold => exact facts.unflushed label hold
    | inr hnew => exact hflushed label (List.mem_singleton.mp hnew).symm
  uncompleted at_ duration hmem := by
    cases List.mem_append.mp hmem with
    | inl hold => exact facts.uncompleted at_ duration hold
    | inr hnew => exact hcompleted at_ duration (List.mem_singleton.mp hnew).symm

/-- The next range of windows of pass 0. -/
theorem WritingFacts.rangeCommit {journal : List JournalRecord} {h : Header}
    {committed : Nat} (facts : WritingFacts p journal h committed) (numWindows : Nat) :
    WritingFacts p (journal ++ [.rangeCommit 0 committed numWindows]) h
      (committed + numWindows) where
  unverified := by simp [facts.unverified, asVerify]
  head := by simp [List.head?_append, facts.head]
  accepted := facts.accepted
  resumes := by
    rw [resumePoint_concat, facts.resumes]
    rfl
  windows pass window := by
    have hold := facts.windows pass window
    constructor
    · rintro ⟨label, firstWindow, n, hmem, hlabel, hrange⟩
      cases List.mem_append.mp hmem with
      | inl hmem =>
        have := hold.mp ⟨label, firstWindow, n, hmem, hlabel, hrange⟩
        omega
      | inr hmem =>
        simp only [List.mem_singleton, JournalRecord.rangeCommit.injEq] at hmem
        obtain ⟨rfl, rfl, rfl⟩ := hmem
        exact ⟨hlabel.symm, hrange.2⟩
    · rintro ⟨rfl, hwindow⟩
      by_cases hlt : window < committed
      · obtain ⟨label, firstWindow, n, hmem, hrest⟩ := hold.mpr ⟨rfl, hlt⟩
        exact ⟨label, firstWindow, n, List.mem_append_left _ hmem, hrest⟩
      · exact ⟨0, committed, numWindows, List.mem_append_right _ (List.mem_singleton.mpr rfl),
          rfl, by omega, hwindow⟩
  unflushed label hmem := by
    cases List.mem_append.mp hmem with
    | inl hold => exact facts.unflushed label hold
    | inr hnew => simp at hnew
  uncompleted at_ duration hmem := by
    cases List.mem_append.mp hmem with
    | inl hold => exact facts.uncompleted at_ duration hold
    | inr hnew => simp at hnew

theorem phaseFacts (p : Policy) (journal : List JournalRecord) :
    PhaseFacts p journal (phaseOf p journal) := by
  apply (Phase.monitor p).run_induction (P := PhaseFacts p)
  · rfl
  · intro log phase r ih
    show PhaseFacts p (log ++ [r]) (phase.next p r)
    cases phase with
    | broken => trivial
    | completed v => trivial
    | fresh =>
      have hempty : log = [] := ih
      subst hempty
      cases r with
      | header h =>
        show PhaseFacts p _ (if p.header h then .writing h 0 else .broken)
        split
        · next haccepted =>
          exact
            { unverified := rfl
              head := rfl
              accepted := haccepted
              resumes := rfl
              windows := by simp [WindowCommitted]
              unflushed := by simp
              uncompleted := by simp }
        · trivial
      | _ => trivial
    | writing h committed =>
      have facts : WritingFacts p log h committed := ih
      cases r with
      | beginPass pass pattern windowBytes =>
        show PhaseFacts p _ (if pass = 0 ∧ committed = 0 then .writing h committed else .broken)
        split
        · next hzero =>
          obtain ⟨rfl, rfl⟩ := hzero
          exact facts.concat rfl rfl (by simp) (by simp) (by simp)
        · trivial
      | rangeCommit pass first n =>
        show PhaseFacts p _ (if pass = 0 ∧ first = committed then .writing h (committed + n)
          else .broken)
        split
        · next hnext =>
          obtain ⟨rfl, rfl⟩ := hnext
          exact facts.rangeCommit n
        · trivial
      | flushed pass =>
        refine ⟨by simp [facts.unverified, asVerify], ?_, pass, by simp⟩
        rw [resumePoint_concat]
        rfl
      | verify v => trivial
      | completed at_ d => trivial
      | _ => exact facts.concat rfl rfl (by simp) (by simp) (by simp)
    | flushed =>
      obtain ⟨hver, hreached, hflushed⟩ := ih
      have hreached' : (Resume.resumePoint (log ++ [r])).verifyReached = true := by
        rw [resumePoint_concat]
        exact step_verifyReached hreached
      have hflushed' : ∃ label, .flushed label ∈ log ++ [r] :=
        hflushed.imp fun _ => List.mem_append_left _
      cases r with
      | verify v =>
        show PhaseFacts p _ (if lowerTag v.level then .verified v else .broken)
        split
        · next htag => exact ⟨by simp [hver, asVerify], htag, hreached', hflushed'⟩
        · trivial
      | completed at_ d => trivial
      | _ => exact ⟨by simp [hver, asVerify], hreached', hflushed'⟩
    | verified v =>
      obtain ⟨hver, htag, hreached, hflushed⟩ := ih
      have hreached' : (Resume.resumePoint (log ++ [r])).verifyReached = true := by
        rw [resumePoint_concat]
        exact step_verifyReached hreached
      have hflushed' : ∃ label, .flushed label ∈ log ++ [r] :=
        hflushed.imp fun _ => List.mem_append_left _
      cases r with
      | verify v' => trivial
      | completed at_ d =>
        show PhaseFacts p _ (if p.verified v then .completed v else .broken)
        split
        · next hclean => exact ⟨by simp [hver, asVerify], htag, hclean, at_, d, by simp⟩
        · trivial
      | _ => exact ⟨by simp [hver, asVerify], htag, hreached', hflushed'⟩

/-- A Completed record in a sound journal follows a verification that may complete, the only
one. -/
theorem verified_before_completed {pre : List JournalRecord} {at_ : String} {duration : Nat}
    (h : phaseOf p (pre ++ [.completed at_ duration]) ≠ .broken) :
    ∃ v, lastVerification pre = some v ∧ p.verified v = true := by
  rw [phaseOf_concat] at h
  have hfacts := phaseFacts p pre
  cases hphase : phaseOf p pre with
  | verified v =>
    rw [hphase] at h hfacts
    refine ⟨v, by simp [lastVerification, hfacts.1], ?_⟩
    by_contra hdirty
    exact h (if_neg hdirty)
  | _ => exact absurd (by rw [hphase]; rfl) h

/-- A completed journal's verification is its first and its last. -/
theorem verification_of_completed {journal : List JournalRecord} {v : VerifyRecord}
    (h : phaseOf p journal = .completed v) :
    lastVerification journal = some v ∧ Reconstruct.findVerify journal = some v
      ∧ p.verified v = true := by
  have hfacts := phaseFacts p journal
  rw [h] at hfacts
  refine ⟨by simp [lastVerification, hfacts.1], ?_, hfacts.2.2.1⟩
  have hfind : Reconstruct.findVerify journal = (verifications journal).head? := by
    rw [verifications, List.head?_filterMap]
    rfl
  rw [hfind, hfacts.1]
  rfl

/-! ## Steps of a session -/

/-- Records that move no phase forward. -/
def JournalRecord.neutral : JournalRecord → Bool
  | .armed _ _ _ | .endPass _ | .interrupted _ _ _ _ _ | .resumed _ _ _ _ _
  | .failed _ _ _ _ _ => true
  | _ => false

/-- A journal that has been created and may still be written to. -/
def Phase.ongoing : Phase → Bool
  | .writing _ _ | .flushed | .verified _ => true
  | _ => false

theorem Phase.next_neutral {phase : Phase} {r : JournalRecord} (hr : r.neutral = true)
    (hphase : phase.ongoing = true) : phase.next p r = phase := by
  cases phase with
  | writing => cases r <;> first | rfl | simp [JournalRecord.neutral] at hr
  | flushed => cases r <;> first | rfl | simp [JournalRecord.neutral] at hr
  | verified v => cases r <;> first | rfl | simp [JournalRecord.neutral] at hr
  | _ => simp [Phase.ongoing] at hphase

end DiscCleaner
