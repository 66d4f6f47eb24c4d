import DiscCleaner.Cxl.Mailbox

/-!
# DiscCleaner — a CXL sanitize and its end

What a device shows of one sanitize: busy polls, an answer, and, once an operation runs in the
background, its progress up to 100 percent with a return code in the status register. Against
every device that shows such a course the engine is compared with how the sanitize ended.

## Main results

* `Mailbox.sanitize_ok_iff` — the courses on which the engine returns a report
* `followedToEnd_iff` — the courses on which that, and the evidence, tell the truth
-/

namespace DiscCleaner

open ByteLib ProgLib Prog

namespace Cxl

/-! ## Courses -/

/-- One turn of a polling loop: the registers as it reads them and the clock as it reads it, for
the sample and for the ceiling. -/
structure Poll where
  status : Nat
  bg : Nat
  sampledAt : Nat
  checkedAt : Nat

/-- An operation in the background. The first readings may still be those of an earlier one. -/
structure BackgroundRun where
  stale : List Poll
  progress : List Poll
  last : Poll
  rising : (progress.map fun p => percentComplete p.bg).Pairwise (· ≤ ·)
  running : ∀ p ∈ progress, percentComplete p.bg < 100
  finished : percentComplete last.bg = 100

namespace BackgroundRun

def polls (run : BackgroundRun) : List Poll := run.stale ++ run.progress ++ [run.last]

/-- The return code of the operation, which the status register holds at 100 percent. -/
def code (run : BackgroundRun) : Nat := returnCode run.last.status

end BackgroundRun

/-- What a device shows of a sanitize. With "started" the operation in the background is this
sanitize; with "sanitize in progress", an error, it is an earlier one. -/
structure Course where
  busy : List Poll
  answer : Nat
  background : Option BackgroundRun
  isBusy : ∀ p ∈ busy, isBusy p.status = true
  answered : Cxl.isBusy answer = false
  runs : returnCode answer = RC_BACKGROUND_STARTED ∨ returnCode answer = RC_SANITIZE_IN_PROGRESS →
    background.isSome

namespace Course

/-- The sanitize completed in the foreground, or ran to 100 percent, with Success. -/
def Completed (c : Course) : Prop :=
  returnCode c.answer = RC_SUCCESS
    ∨ returnCode c.answer = RC_BACKGROUND_STARTED ∧ ∃ run ∈ c.background, run.code = RC_SUCCESS

end Course

/-! ## Devices that show a course -/

section shows

variable {σ : Type} (backend : MailboxBackend σ) (started : Nat)

/-- The background status register and the clock, read for a poll. -/
def ShowsSample (p : Poll) (s s' : σ) : Prop :=
  ∃ s₁, backend.readReg MBOX_BG_STATUS s = (.ok p.bg, s₁)
    ∧ backend.elapsed started s₁ = (.ok p.sampledAt, s')

/-- The busy polls, from one state to another. -/
def ShowsBusy : List Poll → σ → σ → Prop
  | [], s, s' => s' = s
  | p :: polls, s, s' => ∃ s₁ s₂ s₃,
    backend.readReg MBOX_STATUS s = (.ok p.status, s₁) ∧ ShowsSample backend started p s₁ s₂
      ∧ backend.elapsed started s₂ = (.ok p.checkedAt, s₃) ∧ ShowsBusy polls (backend.sleep s₃) s'

/-- The polls of an operation in the background. After each of them the status register could be
read. -/
def ShowsBackground : List Poll → σ → Prop
  | [], _ => True
  | p :: polls, s => ∃ s₁ s₂ s₃,
    ShowsSample backend started p s s₁ ∧ backend.readReg MBOX_STATUS s₁ = (.ok p.status, s₂)
      ∧ backend.elapsed started s₁ = (.ok p.checkedAt, s₃)
      ∧ ShowsBackground polls (backend.sleep s₃)

end shows

variable {σ : Type}

/-- The device takes the sanitize in the state and shows the course. -/
def Shows (mbox : Mailbox σ) (s : σ) (c : Course) : Prop :=
  ∃ s₁ started s₂ s₃ s₄,
    mbox.issue OP_SANITIZE [] s = (.ok (), s₁)
      ∧ mbox.backend.instant s₁ = (.ok started, s₂)
      ∧ ShowsBusy mbox.backend started c.busy s₂ s₃
      ∧ mbox.backend.readReg MBOX_STATUS s₃ = (.ok c.answer, s₄)
      ∧ ∀ run ∈ c.background, ShowsBackground mbox.backend started run.polls s₄

/-! ## What the engine makes of a course -/

/-- The poll came before the ceiling of the background operation. -/
def InTime (limit : Nat) (p : Poll) : Prop := p.checkedAt ≤ limit

/-- The polls come to one at 100 percent whose status register says Success, each before it in
time and below 100 percent. -/
def ReadsSuccess (limit : Nat) (polls : List Poll) : Prop :=
  ∃ before p after, polls = before ++ p :: after ∧ percentComplete p.bg ≥ 100
    ∧ returnCode p.status = RC_SUCCESS
    ∧ ∀ q ∈ before, percentComplete q.bg < 100 ∧ InTime limit q

theorem readsSuccess_of_done {limit : Nat} {p : Poll} {polls : List Poll}
    (hp : percentComplete p.bg ≥ 100) :
    ReadsSuccess limit (p :: polls) ↔ returnCode p.status = RC_SUCCESS := by
  constructor
  · rintro ⟨before, q, after, hsplit, -, hq, hbefore⟩
    cases before with
    | nil =>
      rw [List.nil_append, List.cons.injEq] at hsplit
      rw [hsplit.1]
      exact hq
    | cons q' before =>
      rw [List.cons_append, List.cons.injEq] at hsplit
      have hlt := (hbefore q' List.mem_cons_self).1
      rw [← hsplit.1] at hlt
      omega
  · intro hcode
    exact ⟨[], p, polls, rfl, hp, hcode, by simp⟩

theorem readsSuccess_of_running {limit : Nat} {p : Poll} {polls : List Poll}
    (hp : percentComplete p.bg < 100) :
    ReadsSuccess limit (p :: polls) ↔ InTime limit p ∧ ReadsSuccess limit polls := by
  constructor
  · rintro ⟨before, q, after, hsplit, hq, hcode, hbefore⟩
    cases before with
    | nil =>
      rw [List.nil_append, List.cons.injEq] at hsplit
      rw [← hsplit.1] at hq
      omega
    | cons q' before =>
      rw [List.cons_append, List.cons.injEq] at hsplit
      refine ⟨?_, before, q, after, hsplit.2, hq, hcode,
        fun q hq => hbefore q (List.mem_cons_of_mem q' hq)⟩
      rw [hsplit.1]
      exact (hbefore q' List.mem_cons_self).2
  · rintro ⟨hin, before, q, after, rfl, hq, hcode, hbefore⟩
    refine ⟨p :: before, q, after, rfl, hq, hcode, fun q' hq' => ?_⟩
    rcases List.mem_cons.mp hq' with rfl | hq'
    · exact ⟨hp, hin⟩
    · exact hbefore q' hq'

namespace Mailbox

variable (mbox : Mailbox σ) (started : Nat)

theorem sample_run {p : Poll} {s s' : σ} (h : ShowsSample mbox.backend started p s s') :
    mbox.sample started s
      = (.ok (p.sampledAt / 10 ^ 6 % 2 ^ 64, percentComplete p.bg), s') := by
  obtain ⟨s₁, hread, hclock⟩ := h
  rw [sample, Prog.bind_run_ok hread, Prog.bind_run_ok hclock]
  rfl

theorem pace_inTime {opcode at' : Nat} {s s' : σ}
    (hclock : mbox.backend.elapsed started s = (.ok at', s')) (h : at' ≤ mbox.backgroundTimeout) :
    mbox.pace opcode started s = (.ok (), mbox.backend.sleep s') := by
  rw [pace, Prog.bind_run_ok hclock]
  simp only [gt_iff_lt, Nat.not_lt.mpr h, if_false]
  rfl

theorem pace_late {opcode at' : Nat} {s s' : σ}
    (hclock : mbox.backend.elapsed started s = (.ok at', s')) (h : ¬ at' ≤ mbox.backgroundTimeout) :
    mbox.pace opcode started s = (.err (.timeout mbox.backgroundTimeout opcode), s') := by
  rw [pace, Prog.bind_run_ok hclock]
  simp only [gt_iff_lt, Nat.not_le.mp h, if_true]
  rfl

section background

variable {opcode : Nat} {p : Poll} {s s₁ s₂ s₃ : σ} {samples : List (Nat × Nat)}

/-- A reading at 100 percent ends the loop with what the status register says. -/
theorem pollBackground_done (hsample : ShowsSample mbox.backend started p s s₁)
    (hstatus : mbox.backend.readReg MBOX_STATUS s₁ = (.ok p.status, s₂))
    (hdone : percentComplete p.bg ≥ 100) :
    (returnCode p.status = RC_SUCCESS ∧
        ∃ report, Returns (mbox.pollBackground opcode started samples) s (.ok report))
      ∨ returnCode p.status ≠ RC_SUCCESS ∧
        ∃ e, Returns (mbox.pollBackground opcode started samples) s (.err e) := by
  by_cases hcode : returnCode p.status = RC_SUCCESS
  · refine Or.inl ⟨hcode,
      { opcode
        returnCode := returnCode p.status
        samples := samples ++ [(p.sampledAt / 10 ^ 6 % 2 ^ 64, percentComplete p.bg)]
        completedIn := (mbox.backend.now s₂).1 - started }, Returns.of_end rfl fun turns => ?_⟩
    rw [pollBackground, Prog.bind_run_ok (mbox.sample_run started hsample)]
    simp only [hdone, if_true]
    rw [Prog.bind_run_ok hstatus]
    simp only [hcode, ne_eq, not_true_eq_false, if_false]
    rfl
  · refine Or.inr ⟨hcode,
      .backgroundFailed opcode (returnCode p.status) (returnCodeName (returnCode p.status)),
      Returns.of_end rfl fun turns => ?_⟩
    rw [pollBackground, Prog.bind_run_ok (mbox.sample_run started hsample)]
    simp only [hdone, if_true]
    rw [Prog.bind_run_ok hstatus]
    simp only [ne_eq, hcode, not_false_eq_true, if_true]
    rfl

theorem pollBackground_late (hsample : ShowsSample mbox.backend started p s s₁)
    (hclock : mbox.backend.elapsed started s₁ = (.ok p.checkedAt, s₃))
    (hrunning : percentComplete p.bg < 100) (hlate : ¬ InTime mbox.backgroundTimeout p) :
    ∃ e, Returns (mbox.pollBackground opcode started samples) s (.err e) := by
  refine ⟨.timeout mbox.backgroundTimeout opcode, Returns.of_end rfl fun turns => ?_⟩
  rw [pollBackground, Prog.bind_run_ok (mbox.sample_run started hsample)]
  simp only [ge_iff_le, Nat.not_le.mpr hrunning, if_false]
  rw [Prog.bind_run_err (mbox.pace_late started hclock hlate)]

theorem pollBackground_inTime (hsample : ShowsSample mbox.backend started p s s₁)
    (hclock : mbox.backend.elapsed started s₁ = (.ok p.checkedAt, s₃))
    (hrunning : percentComplete p.bg < 100) (hin : InTime mbox.backgroundTimeout p) (turns : Nat) :
    mbox.pollBackground opcode started samples (turns + 1) s
      = mbox.pollBackground opcode started
          (samples ++ [(p.sampledAt / 10 ^ 6 % 2 ^ 64, percentComplete p.bg)]) turns
          (mbox.backend.sleep s₃) := by
  rw [pollBackground, Prog.bind_run_ok (mbox.sample_run started hsample)]
  simp only [ge_iff_le, Nat.not_le.mpr hrunning, if_false]
  rw [Prog.bind_run_ok (mbox.pace_inTime started hclock hin)]

end background

/-- **Background polls.** The loop returns, with a report exactly when it reads Success. -/
theorem pollBackground_returns {opcode : Nat} {polls : List Poll} {last : Poll} {s : σ}
    (hlast : percentComplete last.bg ≥ 100)
    (h : ShowsBackground mbox.backend started (polls ++ [last]) s) (samples : List (Nat × Nat)) :
    (ReadsSuccess mbox.backgroundTimeout (polls ++ [last]) ∧
        ∃ report, Returns (mbox.pollBackground opcode started samples) s (.ok report))
      ∨ ¬ ReadsSuccess mbox.backgroundTimeout (polls ++ [last]) ∧
        ∃ e, Returns (mbox.pollBackground opcode started samples) s (.err e) := by
  induction polls generalizing s samples with
  | nil =>
    obtain ⟨s₁, s₂, s₃, hsample, hstatus, hclock, -⟩ := h
    rw [List.nil_append, readsSuccess_of_done hlast]
    exact mbox.pollBackground_done started hsample hstatus hlast
  | cons p polls ih =>
    obtain ⟨s₁, s₂, s₃, hsample, hstatus, hclock, hrest⟩ := h
    rw [List.cons_append]
    by_cases hdone : percentComplete p.bg ≥ 100
    · rw [readsSuccess_of_done hdone]
      exact mbox.pollBackground_done started hsample hstatus hdone
    · have hrunning : percentComplete p.bg < 100 := Nat.not_le.mp hdone
      rw [readsSuccess_of_running hrunning]
      by_cases hin : InTime mbox.backgroundTimeout p
      · have hturn : ∀ turns, mbox.pollBackground opcode started samples (turns + 1) s = _ :=
          mbox.pollBackground_inTime started hsample hclock hrunning hin
        rcases ih hrest (samples ++ [(p.sampledAt / 10 ^ 6 % 2 ^ 64, percentComplete p.bg)]) with
          ⟨hreads, report, hret⟩ | ⟨hreads, e, hret⟩
        · exact Or.inl ⟨⟨hin, hreads⟩, report,
            hret.of_turn rfl fun turns => congrArg Prod.fst (hturn turns)⟩
        · exact Or.inr ⟨fun h => hreads h.2, e,
            hret.of_turn rfl fun turns => congrArg Prod.fst (hturn turns)⟩
      · exact Or.inr ⟨fun h => hin h.1, mbox.pollBackground_late started hsample hclock hrunning hin⟩

/-- **Busy polls.** Past the ceiling the loop gives up; otherwise it comes to the answer. -/
theorem awaitBackground_busy {opcode : Nat} {busy : List Poll} {s s' : σ}
    (hbusy : ∀ p ∈ busy, isBusy p.status = true)
    (h : ShowsBusy mbox.backend started busy s s') (samples : List (Nat × Nat)) :
    (∀ p ∈ busy, InTime mbox.backgroundTimeout p)
        ∧ (∃ samples', ∀ outcome,
          Returns (mbox.awaitBackground opcode started samples') s' outcome →
            Returns (mbox.awaitBackground opcode started samples) s outcome)
      ∨ ¬ (∀ p ∈ busy, InTime mbox.backgroundTimeout p)
        ∧ ∃ e, Returns (mbox.awaitBackground opcode started samples) s (.err e) := by
  induction busy generalizing s samples with
  | nil =>
    obtain rfl : s' = s := h
    exact Or.inl ⟨by simp, samples, fun _ => id⟩
  | cons p busy ih =>
    obtain ⟨s₁, s₂, s₃, hstatus, hsample, hclock, hrest⟩ := h
    have hp : isBusy p.status = true := hbusy p List.mem_cons_self
    by_cases hin : InTime mbox.backgroundTimeout p
    · have hturn : ∀ turns, mbox.awaitBackground opcode started samples (turns + 1) s
          = mbox.awaitBackground opcode started
              (samples ++ [(p.sampledAt / 10 ^ 6 % 2 ^ 64, percentComplete p.bg)]) turns
              (mbox.backend.sleep s₃) := by
        intro turns
        rw [awaitBackground, Prog.bind_run_ok hstatus]
        simp only [hp, if_true]
        rw [Prog.bind_run_ok (mbox.sample_run started hsample),
          Prog.bind_run_ok (mbox.pace_inTime started hclock hin)]
      rcases ih (fun q hq => hbusy q (List.mem_cons_of_mem p hq)) hrest
        (samples ++ [(p.sampledAt / 10 ^ 6 % 2 ^ 64, percentComplete p.bg)]) with
        ⟨hall, samples', hcomes⟩ | ⟨hlate, e, hret⟩
      · refine Or.inl ⟨fun q hq => ?_, samples', fun outcome hret => ?_⟩
        · rcases List.mem_cons.mp hq with rfl | hq
          · exact hin
          · exact hall q hq
        · exact (hcomes outcome hret).of_turn rfl fun turns => congrArg Prod.fst (hturn turns)
      · exact Or.inr ⟨fun hall => hlate fun q hq => hall q (List.mem_cons_of_mem p hq), e,
          hret.of_turn rfl fun turns => congrArg Prod.fst (hturn turns)⟩
    · refine Or.inr ⟨fun hall => hin (hall p List.mem_cons_self),
        .timeout mbox.backgroundTimeout opcode, Returns.of_end rfl fun turns => ?_⟩
      rw [awaitBackground, Prog.bind_run_ok hstatus]
      simp only [hp, if_true]
      rw [Prog.bind_run_ok (mbox.sample_run started hsample),
        Prog.bind_run_err (mbox.pace_late started hclock hin)]

end Mailbox

/-! ## The whole sanitize -/

namespace Course

/-- The engine comes to the answer, and reads Success in it or, for a sanitize in progress, in the
operation that is running. -/
def Reported (limit : Nat) (c : Course) : Prop :=
  (∀ p ∈ c.busy, InTime limit p) ∧
    (returnCode c.answer = RC_SUCCESS
      ∨ returnCode c.answer = RC_SANITIZE_IN_PROGRESS
        ∧ ∃ run ∈ c.background, ReadsSuccess limit run.polls)

end Course

namespace Mailbox

variable (mbox : Mailbox σ)

/-- The background command as a loop. -/
def sanitize (turns : Nat) : Prog σ MailboxError BackgroundReport :=
  mbox.executeBackground turns OP_SANITIZE []

variable {s : σ} {c : Course}

/-- The answer decides how the loop goes on. -/
theorem awaitBackground_answer {opcode started : Nat} {s' : σ} (samples : List (Nat × Nat))
    (hanswer : mbox.backend.readReg MBOX_STATUS s = (.ok c.answer, s'))
    (hbackground : ∀ run ∈ c.background, ShowsBackground mbox.backend started run.polls s') :
    ((returnCode c.answer = RC_SUCCESS ∨ returnCode c.answer = RC_SANITIZE_IN_PROGRESS
          ∧ ∃ run ∈ c.background, ReadsSuccess mbox.backgroundTimeout run.polls)
        ∧ ∃ report, Returns (mbox.awaitBackground opcode started samples) s (.ok report))
      ∨ ¬ (returnCode c.answer = RC_SUCCESS ∨ returnCode c.answer = RC_SANITIZE_IN_PROGRESS
          ∧ ∃ run ∈ c.background, ReadsSuccess mbox.backgroundTimeout run.polls)
        ∧ ∃ e, Returns (mbox.awaitBackground opcode started samples) s (.err e) := by
  have hidle : isBusy c.answer = false := c.answered
  by_cases hsuccess : returnCode c.answer = RC_SUCCESS
  · refine Or.inl ⟨Or.inl hsuccess,
      { opcode
        returnCode := returnCode c.answer
        samples
        completedIn := (mbox.backend.now s').1 - started }, Returns.of_end rfl fun turns => ?_⟩
    rw [awaitBackground, Prog.bind_run_ok hanswer]
    simp only [hidle, Bool.false_eq_true, if_false, hsuccess, if_true]
    rfl
  · by_cases hprogress : returnCode c.answer = RC_SANITIZE_IN_PROGRESS
    · obtain ⟨run, hrun⟩ := Option.isSome_iff_exists.mp (c.runs (Or.inr hprogress))
      have hturn : ∀ turns, mbox.awaitBackground opcode started samples (turns + 1) s
          = mbox.pollBackground opcode started samples turns s' := by
        intro turns
        rw [awaitBackground, Prog.bind_run_ok hanswer]
        simp only [hidle, Bool.false_eq_true, if_false]
        rw [if_neg hsuccess, if_pos hprogress]
      have hlast : percentComplete run.last.bg ≥ 100 := run.finished.ge
      rcases mbox.pollBackground_returns started hlast (hbackground run hrun) samples with
        ⟨hreads, report, hret⟩ | ⟨hreads, e, hret⟩
      · exact Or.inl ⟨Or.inr ⟨hprogress, run, hrun, hreads⟩, report,
          hret.of_turn rfl fun turns => congrArg Prod.fst (hturn turns)⟩
      · refine Or.inr ⟨?_, e, hret.of_turn rfl fun turns => congrArg Prod.fst (hturn turns)⟩
        rintro (h | ⟨-, run', hrun', hreads'⟩)
        · exact hsuccess h
        · rw [hrun, Option.mem_some] at hrun'
          exact hreads (hrun' ▸ hreads')
    · refine Or.inr ⟨?_, .returnCode (returnCode c.answer) (returnCodeName (returnCode c.answer)),
        Returns.of_end rfl fun turns => ?_⟩
      · rintro (h | ⟨h, -⟩)
        · exact hsuccess h
        · exact hprogress h
      · rw [awaitBackground, Prog.bind_run_ok hanswer]
        simp only [hidle, Bool.false_eq_true, if_false, hsuccess, hprogress]
        rfl

/-- **The background command returns**, with a report exactly when it reads Success in time. -/
theorem sanitize_returns (h : Shows mbox s c) :
    (c.Reported mbox.backgroundTimeout ∧ ∃ report, Returns mbox.sanitize s (.ok report))
      ∨ ¬ c.Reported mbox.backgroundTimeout ∧ ∃ e, Returns mbox.sanitize s (.err e) := by
  obtain ⟨s₁, started, s₂, s₃, s₄, hissue, hstarted, hbusy, hanswer, hbackground⟩ := h
  have hloop : ∀ turns, mbox.sanitize turns s = mbox.awaitBackground OP_SANITIZE started [] turns s₂ := by
    intro turns
    rw [sanitize, executeBackground, Prog.bind_run_ok hissue, Prog.bind_run_ok hstarted]
  have hreturns : ∀ {outcome}, Returns (mbox.awaitBackground OP_SANITIZE started []) s₂ outcome →
      Returns mbox.sanitize s outcome := by
    rintro outcome ⟨enough, hret⟩
    refine ⟨enough, fun turns => ?_⟩
    rw [hloop turns]
    exact hret turns
  rcases @awaitBackground_busy σ mbox started OP_SANITIZE _ _ _ c.isBusy hbusy [] with
    ⟨hin, samples, hcomes⟩ | ⟨hlate, e, hret⟩
  · rcases mbox.awaitBackground_answer samples hanswer hbackground with
      ⟨hreads, report, hret⟩ | ⟨hreads, e, hret⟩
    · exact Or.inl ⟨⟨hin, hreads⟩, report, hreturns (hcomes _ hret)⟩
    · exact Or.inr ⟨fun h => hreads h.2, e, hreturns (hcomes _ hret)⟩
  · exact Or.inr ⟨fun h => hlate h.1, e, hreturns hret⟩

theorem sanitize_ok_iff (h : Shows mbox s c) :
    (∃ report, Returns mbox.sanitize s (.ok report)) ↔ c.Reported mbox.backgroundTimeout := by
  rcases mbox.sanitize_returns h with ⟨hreported, hok⟩ | ⟨hreported, e, herr⟩
  · exact iff_of_true hok hreported
  · refine iff_of_false ?_ hreported
    rintro ⟨report, hok⟩
    exact absurd (hok.unique herr) nofun

end Mailbox

/-! ## The evidence -/

/-- Evidence needs a report of the background command. -/
theorem sanitize_of_runErase {sha256 : Bytes → Bytes} {mbox : Mailbox σ} {turns : Nat}
    {device bdf : String} {regsPre regsPost : Bytes} {s₀ s₁ s s' : σ} {info : IdentifyInfo}
    {state : SecurityState} {out : SanitizeOutcome}
    (hinfo : identify mbox turns s₀ = (.ok info, s₁))
    (hstate : securityState mbox turns s₁ = (.ok state, s))
    (h : runErase sha256 mbox turns device bdf .sanitize regsPre regsPost s₀ = (.ok out, s')) :
    ∃ report, (mbox.sanitize turns s).1 = .ok report := by
  rw [runErase, Prog.bind_run_ok hinfo, Prog.bind_run_ok hstate] at h
  obtain ⟨report, s₂, hrun⟩ := Prog.Finishes.of_bind ⟨out, s', h⟩
  refine ⟨report, ?_⟩
  have hcommand : mailboxed (mbox.sanitize turns) s = (.ok report, s₂) := hrun
  unfold mailboxed at hcommand
  cases hresult : mbox.sanitize turns s with
  | mk outcome s₃ =>
    rw [hresult] at hcommand
    cases outcome with
    | ok r =>
      rw [Prod.mk.injEq, Outcome.ok.injEq] at hcommand
      rw [hcommand.1]
    | err e => exact absurd (Prod.mk.inj hcommand).1 nofun
    | panic => exact absurd (Prod.mk.inj hcommand).1 nofun
    | blocked => exact absurd (Prod.mk.inj hcommand).1 nofun

/-- The sanitize is followed to its end: the engine returns, with a report exactly when the
sanitize completed, and an erase whose sanitize starts in the state has evidence only then. -/
structure FollowedToEnd (sha256 : Bytes → Bytes) (mbox : Mailbox σ) (s : σ) (c : Course) : Prop where
  returns : (∃ report, Returns mbox.sanitize s (.ok report)) ∨ ∃ e, Returns mbox.sanitize s (.err e)
  ok_iff : (∃ report, Returns mbox.sanitize s (.ok report)) ↔ c.Completed
  evidence : ∀ turns device bdf regsPre regsPost s₀ s₁ info state out s',
    identify mbox turns s₀ = (.ok info, s₁) → securityState mbox turns s₁ = (.ok state, s) →
      runErase sha256 mbox turns device bdf .sanitize regsPre regsPost s₀ = (.ok out, s') →
        c.Completed

/-- The courses the engine can follow: no successful foreground completion comes after a poll past
the ceiling, a sanitize that runs in the background fails, and while an earlier one is in progress
no Success is read in time. -/
structure Course.Followable (limit : Nat) (c : Course) : Prop where
  foreground : returnCode c.answer = RC_SUCCESS → ∀ p ∈ c.busy, InTime limit p
  started : returnCode c.answer = RC_BACKGROUND_STARTED →
    ∀ run ∈ c.background, run.code ≠ RC_SUCCESS
  inProgress : returnCode c.answer = RC_SANITIZE_IN_PROGRESS → (∀ p ∈ c.busy, InTime limit p) →
    ∀ run ∈ c.background, ¬ ReadsSuccess limit run.polls

theorem Course.reported_iff_completed {limit : Nat} {c : Course} :
    (c.Reported limit ↔ c.Completed) ↔ c.Followable limit := by
  constructor
  · intro h
    refine ⟨fun hsuccess => ?_, fun hstarted run hrun hcode => ?_, fun hprogress hin run hrun hreads => ?_⟩
    · exact (h.mpr (Or.inl hsuccess)).1
    · have hreported : c.Reported limit := h.mpr (Or.inr ⟨hstarted, run, hrun, hcode⟩)
      rcases hreported.2 with hsuccess | ⟨hprogress, -⟩
      · exact absurd (hstarted.symm.trans hsuccess) (by decide)
      · exact absurd (hstarted.symm.trans hprogress) (by decide)
    · have hcompleted : c.Completed := h.mp ⟨hin, Or.inr ⟨hprogress, run, hrun, hreads⟩⟩
      rcases hcompleted with hsuccess | ⟨hstarted, -⟩
      · exact absurd (hprogress.symm.trans hsuccess) (by decide)
      · exact absurd (hprogress.symm.trans hstarted) (by decide)
  · intro h
    constructor
    · rintro ⟨hin, hsuccess | ⟨hprogress, run, hrun, hreads⟩⟩
      · exact Or.inl hsuccess
      · exact absurd hreads (h.inProgress hprogress hin run hrun)
    · rintro (hsuccess | ⟨hstarted, run, hrun, hcode⟩)
      · exact ⟨h.foreground hsuccess, Or.inl hsuccess⟩
      · exact absurd hcode (h.started hstarted run hrun)

/-- **A sanitize is followed to its end exactly on the followable courses.** -/
theorem followedToEnd_iff (sha256 : Bytes → Bytes) (mbox : Mailbox σ) (s : σ) (c : Course)
    (h : Shows mbox s c) :
    FollowedToEnd sha256 mbox s c ↔ c.Followable mbox.backgroundTimeout := by
  rw [← Course.reported_iff_completed, ← mbox.sanitize_ok_iff h]
  constructor
  · intro hfollowed
    exact hfollowed.ok_iff
  · intro hok
    refine ⟨?_, hok, ?_⟩
    · rcases mbox.sanitize_returns h with ⟨-, hret⟩ | ⟨-, hret⟩
      · exact Or.inl hret
      · exact Or.inr hret
    · intro turns device bdf regsPre regsPost s₀ s₁ info state out s' hinfo hstate herase
      obtain ⟨report, hrun⟩ := sanitize_of_runErase hinfo hstate herase
      refine hok.mp ⟨report, ?_⟩
      rcases mbox.sanitize_returns h with ⟨-, report', hret⟩ | ⟨-, e, hret⟩
      · rw [hret.of_run hrun nofun]
        exact hret
      · exact absurd (hret.of_run hrun nofun) nofun

/-! ## A device that goes on in the background -/

/-- A device that starts the sanitize in the background and is done at the third reading of its
progress. The state counts the readings. -/
def backgroundDevice : MailboxBackend Nat where
  readReg := fun reg n =>
    if reg = MBOX_BG_STATUS then (.ok (min 100 (50 * n) * 2 ^ 16), n + 1)
    else (.ok ((if n < 3 then RC_BACKGROUND_STARTED else RC_SUCCESS) * 2 ^ 16), n)
  writeReg := fun _ _ => pure ()
  readPayload := fun _ len => pure (List.replicate len 0)
  writePayload := fun _ _ => pure ()
  payloadCapacity := fun _ => 256
  now := fun n => (0, n)
  sleep := id
  mediaView := fun _ => []

/-- Its status register reads "started" until it is done. -/
def backgroundCourse : Course where
  busy := []
  answer := RC_BACKGROUND_STARTED * 2 ^ 16
  background := some
    { stale := []
      progress :=
        [⟨RC_BACKGROUND_STARTED * 2 ^ 16, 0, 0, 0⟩,
          ⟨RC_BACKGROUND_STARTED * 2 ^ 16, 50 * 2 ^ 16, 0, 0⟩]
      last := ⟨RC_SUCCESS * 2 ^ 16, 100 * 2 ^ 16, 0, 0⟩
      rising := by decide
      running := by decide
      finished := by decide }
  isBusy := by decide
  answered := by decide
  runs := by decide

theorem backgroundDevice_shows : Shows (Mailbox.new backgroundDevice) 0 backgroundCourse := by
  refine ⟨0, 0, 0, 0, 0, rfl, rfl, rfl, rfl, ?_⟩
  rintro run ⟨⟩
  exact ⟨1, 1, 1, ⟨1, rfl, rfl⟩, rfl, rfl, 2, 2, 2, ⟨2, rfl, rfl⟩, rfl, rfl, 3, 3, 3, ⟨3, rfl, rfl⟩,
    rfl, rfl, trivial⟩

theorem backgroundCourse_followed :
    FollowedToEnd id (Mailbox.new backgroundDevice) 0 backgroundCourse
      ↔ backgroundCourse.Followable (Mailbox.new backgroundDevice).backgroundTimeout :=
  followedToEnd_iff id (Mailbox.new backgroundDevice) 0 backgroundCourse backgroundDevice_shows

/-- The sanitize runs to 100 percent with Success and the engine has long failed with the answer
"started". -/
theorem backgroundCourse_not_followed :
    Shows (Mailbox.new backgroundDevice) 0 backgroundCourse
      ∧ ¬ FollowedToEnd id (Mailbox.new backgroundDevice) 0 backgroundCourse := by
  refine ⟨backgroundDevice_shows, fun h => ?_⟩
  have hreported := ((Mailbox.new backgroundDevice).sanitize_ok_iff backgroundDevice_shows).mp
    (h.ok_iff.mpr (Or.inr ⟨rfl, _, rfl, rfl⟩))
  rcases hreported.2 with hsuccess | ⟨hprogress, -⟩
  · exact absurd hsuccess (by decide)
  · exact absurd hprogress (by decide)

end Cxl

end DiscCleaner
