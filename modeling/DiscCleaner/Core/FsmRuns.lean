import DiscCleaner.Core.Fsm
import DiscCleaner.Lib.Transition

/-!
# DiscCleaner — runs of the lifecycle state machine (`FsmOrchestrator`)

The orchestrator as its callers drive it: any sequence of method calls, each answered with a
value or an error. `Fsm.lean` has the transitions; here a call also says what it returns, the
three calls that cannot be refused (`fail`, `interrupt`, `abort`) are added, and the write permit
is a reply.

* **`FsmState.Spells`** — for each state, the successful calls that lead to it.
* **`spells_run`** — the invariant of every run.
* **`run_certified_iff`** — `Certified` is reached by complete runs and by no others.
-/

namespace DiscCleaner

open TransitionLib

/-- One method of the orchestrator with its arguments. -/
inductive FsmCall where
  | compilePlan (plan : SanitizationPlan)
  | approvePlan
  | arm
  | beginPass (pass : UInt8)
  | beginFlush (pass : UInt8)
  | beginVerify
  | certify
  | fail (code detail : String)
  | interrupt
  | abort
  deriving DecidableEq

/-- What a successful method returns. -/
inductive FsmReply where
  | unit
  | planHash (hash : String)
  | writePermit
  deriving DecidableEq

/-- A method call with its answer. -/
structure FsmEvent where
  call : FsmCall
  result : Except DcError FsmReply
  deriving DecidableEq

/-- The orchestrator, with the calls made on it so far. -/
structure FsmOrchestrator where
  state : FsmState
  events : List FsmEvent

namespace FsmOrchestrator

def new : FsmOrchestrator := ⟨.probed, []⟩

variable (computePlanHash : SanitizationPlan → Except DcError String)

/-- A method that assigns its new state and returns, or returns its error first. -/
def assign (st : FsmState) (reply : FsmState → FsmReply) (next : Except DcError FsmState) :
    Except DcError FsmReply × FsmState :=
  match next with
  | .ok st' => (.ok (reply st'), st')
  | .error e => (.error e, st)

/-- The value `compile_plan` returns is the hash it stores. -/
def storedHash : FsmState → FsmReply
  | .planCompiled _ planHash => .planHash planHash
  | _ => .unit

/-- The answer to a call, and the state it leaves. -/
def answer (st : FsmState) : FsmCall → Except DcError FsmReply × FsmState
  | .compilePlan plan => assign st storedHash (st.compilePlan computePlanHash plan)
  | .approvePlan => assign st (fun _ => .unit) st.approvePlan
  | .arm => assign st (fun _ => .unit) st.arm
  | .beginPass pass => assign st (fun _ => .writePermit) (st.beginPass pass)
  | .beginFlush pass => assign st (fun _ => .writePermit) (st.beginFlush pass)
  | .beginVerify => assign st (fun _ => .unit) st.beginVerify
  | .certify => assign st (fun _ => .unit) st.certify
  | .fail code detail => (.ok .unit, .failed code detail)
  | .interrupt => (.ok .unit, .interrupted true)
  | .abort => (.ok .unit, .aborted)

/-- One more call. -/
def step (o : FsmOrchestrator) (call : FsmCall) : FsmOrchestrator :=
  let (result, state) := answer computePlanHash o.state call
  ⟨state, o.events ++ [⟨call, result⟩]⟩

end FsmOrchestrator

/-- The call of an event that was not refused. -/
def FsmEvent.success : FsmEvent → Option FsmCall
  | ⟨call, .ok _⟩ => some call
  | ⟨_, .error _⟩ => none

/-- The successful calls, in order. -/
def FsmOrchestrator.successes (events : List FsmEvent) : List FsmCall :=
  events.filterMap FsmEvent.success

/-! ## The calls that lead to each state -/

/-- The calls before the first pass. -/
def armingCalls (plan : SanitizationPlan) : List FsmCall := [.compilePlan plan, .approvePlan, .arm]

/-- Passes, each with its flush. -/
def passCalls (passes : List (UInt8 × UInt8)) : List FsmCall :=
  passes.flatMap fun p => [.beginPass p.1, .beginFlush p.2]

/-- compile, approve, arm, one or more passes each with its flush, begin_verify, certify. -/
def CompleteRun (calls : List FsmCall) : Prop :=
  ∃ plan passes, passes ≠ [] ∧
    calls = armingCalls plan ++ passCalls passes ++ [.beginVerify, .certify]

/-- The calls that stop a run wherever it is. -/
def FsmCall.Stops : FsmCall → Prop
  | .fail _ _ | .interrupt | .abort => True
  | _ => False

/-- The successful calls that lead to a state. -/
def FsmState.Spells (calls : List FsmCall) : FsmState → Prop
  | probed => calls = []
  | planCompiled plan _ => calls = [.compilePlan plan]
  | planApproved plan _ => calls = [.compilePlan plan, .approvePlan]
  | armed => ∃ plan, calls = armingCalls plan
  | executing pass _ => ∃ plan passes, calls = armingCalls plan ++ passCalls passes ++ [.beginPass pass]
  | flushing _ => ∃ plan passes, passes ≠ [] ∧ calls = armingCalls plan ++ passCalls passes
  | verifying => ∃ plan passes, passes ≠ [] ∧
      calls = armingCalls plan ++ passCalls passes ++ [.beginVerify]
  | certified => CompleteRun calls
  | aborted | failed _ _ | interrupted _ => ∃ call ∈ calls, call.Stops

/-! ## What each transition needs -/

namespace FsmState

variable {computePlanHash : SanitizationPlan → Except DcError String} {st st' : FsmState}

theorem compilePlan_inv {plan : SanitizationPlan}
    (h : st.compilePlan computePlanHash plan = .ok st') :
    st = probed ∧ ∃ planHash, st' = planCompiled plan planHash := by
  cases st with
  | probed =>
    rw [compilePlan] at h
    cases hhash : computePlanHash plan with
    | error e => rw [hhash] at h; cases h
    | ok planHash =>
      rw [hhash] at h
      exact ⟨rfl, planHash, (Except.ok.inj h).symm⟩
  | _ => simp [compilePlan] at h

theorem approvePlan_inv (h : st.approvePlan = .ok st') :
    ∃ plan planHash, st = planCompiled plan planHash ∧ st' = planApproved plan planHash := by
  cases st with
  | planCompiled plan planHash => exact ⟨plan, planHash, rfl, (Except.ok.inj h).symm⟩
  | _ => simp [approvePlan] at h

theorem arm_inv (h : st.arm = .ok st') :
    (∃ plan planHash, st = planApproved plan planHash) ∧ st' = armed := by
  cases st with
  | planApproved plan planHash => exact ⟨⟨plan, planHash, rfl⟩, (Except.ok.inj h).symm⟩
  | _ => simp [arm] at h

theorem beginPass_inv {pass : UInt8} (h : st.beginPass pass = .ok st') :
    (st = armed ∨ ∃ last, st = flushing last) ∧ st' = executing pass 0 := by
  cases st with
  | armed => exact ⟨Or.inl rfl, (Except.ok.inj h).symm⟩
  | flushing last => exact ⟨Or.inr ⟨last, rfl⟩, (Except.ok.inj h).symm⟩
  | _ => simp [beginPass] at h

theorem beginFlush_inv {pass : UInt8} (h : st.beginFlush pass = .ok st') :
    (∃ running window, st = executing running window) ∧ st' = flushing pass := by
  cases st with
  | executing running window => exact ⟨⟨running, window, rfl⟩, (Except.ok.inj h).symm⟩
  | _ => simp [beginFlush] at h

theorem certify_inv (h : st.certify = .ok st') : st = verifying ∧ st' = certified := by
  cases st with
  | verifying => exact ⟨rfl, (Except.ok.inj h).symm⟩
  | _ => simp [certify] at h

end FsmState

/-! ## The invariant -/

@[simp] theorem passCalls_concat (passes : List (UInt8 × UInt8)) (p : UInt8 × UInt8) :
    passCalls (passes ++ [p]) = passCalls passes ++ [.beginPass p.1, .beginFlush p.2] := by
  simp [passCalls]

@[simp] theorem successes_concat (events : List FsmEvent) (e : FsmEvent) :
    FsmOrchestrator.successes (events ++ [e]) =
      FsmOrchestrator.successes events ++ e.success.toList := by
  simp [FsmOrchestrator.successes, List.filterMap_append, List.filterMap_cons]
  cases e.success <;> rfl

namespace FsmOrchestrator

variable {computePlanHash : SanitizationPlan → Except DcError String} {st : FsmState}

theorem assign_error {reply : FsmState → FsmReply} {next : Except DcError FsmState} {e : DcError}
    (h : (assign st reply next).1 = .error e) : (assign st reply next).2 = st := by
  cases next with
  | ok st' => cases h
  | error e' => rfl

theorem assign_ok {reply : FsmState → FsmReply} {next : Except DcError FsmState} {r : FsmReply}
    (h : (assign st reply next).1 = .ok r) :
    ∃ st', next = .ok st' ∧ r = reply st' ∧ (assign st reply next).2 = st' := by
  cases next with
  | ok st' => exact ⟨st', rfl, (Except.ok.inj h).symm, rfl⟩
  | error e => cases h

/-- **A refusal leaves the state as it was**, whatever was asked. -/
theorem answer_error {call : FsmCall} {e : DcError}
    (h : (answer computePlanHash st call).1 = .error e) :
    (answer computePlanHash st call).2 = st := by
  cases call with
  | fail code detail => cases h
  | interrupt => cases h
  | abort => cases h
  | _ => exact assign_error h

/-- **Step lemma**: a successful call extends what its state spells. -/
theorem spells_answer {calls : List FsmCall} {call : FsmCall} {r : FsmReply}
    (hst : st.Spells calls) (h : (answer computePlanHash st call).1 = .ok r) :
    (answer computePlanHash st call).2.Spells (calls ++ [call]) := by
  cases call with
  | compilePlan plan =>
    obtain ⟨st', hnext, -, hstate⟩ := assign_ok h
    obtain ⟨rfl, planHash, rfl⟩ := FsmState.compilePlan_inv hnext
    rw [answer, hstate, show calls = [] from hst]
    rfl
  | approvePlan =>
    obtain ⟨st', hnext, -, hstate⟩ := assign_ok h
    obtain ⟨plan, planHash, rfl, rfl⟩ := FsmState.approvePlan_inv hnext
    rw [answer, hstate, show calls = [.compilePlan plan] from hst]
    rfl
  | arm =>
    obtain ⟨st', hnext, -, hstate⟩ := assign_ok h
    obtain ⟨⟨plan, planHash, rfl⟩, rfl⟩ := FsmState.arm_inv hnext
    rw [answer, hstate, show calls = [.compilePlan plan, .approvePlan] from hst]
    exact ⟨plan, rfl⟩
  | beginPass pass =>
    obtain ⟨st', hnext, -, hstate⟩ := assign_ok h
    obtain ⟨hfrom, rfl⟩ := FsmState.beginPass_inv hnext
    rw [answer, hstate]
    -- the first pass follows `arm`, a later one the flush of the pass before it
    rcases hfrom with rfl | ⟨last, rfl⟩
    · obtain ⟨plan, rfl⟩ := hst
      exact ⟨plan, [], by simp [passCalls]⟩
    · obtain ⟨plan, passes, -, rfl⟩ := hst
      exact ⟨plan, passes, rfl⟩
  | beginFlush pass =>
    obtain ⟨st', hnext, -, hstate⟩ := assign_ok h
    obtain ⟨⟨running, window, rfl⟩, rfl⟩ := FsmState.beginFlush_inv hnext
    obtain ⟨plan, passes, rfl⟩ := hst
    rw [answer, hstate]
    exact ⟨plan, passes ++ [(running, pass)], by simp, by simp⟩
  | beginVerify =>
    obtain ⟨st', hnext, -, hstate⟩ := assign_ok h
    obtain ⟨⟨last, rfl⟩, rfl⟩ := FsmState.beginVerify_ok hnext
    obtain ⟨plan, passes, hpasses, rfl⟩ := hst
    rw [answer, hstate]
    exact ⟨plan, passes, hpasses, rfl⟩
  | certify =>
    obtain ⟨st', hnext, -, hstate⟩ := assign_ok h
    obtain ⟨rfl, rfl⟩ := FsmState.certify_inv hnext
    obtain ⟨plan, passes, hpasses, rfl⟩ := hst
    rw [answer, hstate]
    exact ⟨plan, passes, hpasses, by simp⟩
  | fail code detail => exact ⟨.fail code detail, by simp, trivial⟩
  | interrupt => exact ⟨.interrupt, by simp, trivial⟩
  | abort => exact ⟨.abort, by simp, trivial⟩

/-- One call keeps the invariant, refused or not. -/
theorem spells_step {o : FsmOrchestrator} (ho : o.state.Spells (successes o.events))
    (call : FsmCall) :
    (o.step computePlanHash call).state.Spells
      (successes (o.step computePlanHash call).events) := by
  rw [step, successes_concat]
  cases hresult : (answer computePlanHash o.state call).1 with
  | ok r =>
    simp only [FsmEvent.success, Option.toList_some]
    exact spells_answer ho hresult
  | error e =>
    simp only [FsmEvent.success, Option.toList_none, List.append_nil, answer_error hresult]
    exact ho

variable (computePlanHash) in
/-- **Run lemma**: the successful calls of a run spell the state it is in. -/
theorem spells_run (calls : List FsmCall) :
    (run (step computePlanHash) new calls).state.Spells
      (successes (run (step computePlanHash) new calls).events) :=
  have hnew : new.state.Spells (successes new.events) := rfl
  run_invariant (I := fun o : FsmOrchestrator => o.state.Spells (successes o.events))
    (fun _ call ho => spells_step ho call) hnew calls

end FsmOrchestrator

/-! ## Complete runs and permits -/

theorem CompleteRun.not_stops {calls : List FsmCall} (h : CompleteRun calls) {call : FsmCall}
    (hmem : call ∈ calls) : ¬ call.Stops := by
  obtain ⟨plan, passes, -, rfl⟩ := h
  simp only [armingCalls, passCalls, List.mem_append, List.mem_flatMap, List.mem_cons,
    List.not_mem_nil, or_false] at hmem
  rcases hmem with ((rfl | rfl | rfl) | ⟨p, -, rfl | rfl⟩) | rfl | rfl <;> exact id

/-- A state other than `Certified` is not reached by a complete run: either its run was
stopped, or the last call was not `certify`. -/
theorem FsmState.Spells.certified_of_complete {st : FsmState} {calls : List FsmCall}
    (h : st.Spells calls) (hcomplete : CompleteRun calls) : st = .certified := by
  have hlast : calls.getLast? = some .certify := by
    obtain ⟨plan, passes, -, rfl⟩ := hcomplete
    simp
  cases st with
  | certified => rfl
  | probed =>
    rw [show calls = [] from h] at hlast
    cases hlast
  | planCompiled plan planHash =>
    rw [show calls = [.compilePlan plan] from h] at hlast
    cases hlast
  | planApproved plan planHash =>
    rw [show calls = [.compilePlan plan, .approvePlan] from h] at hlast
    cases hlast
  | armed =>
    obtain ⟨plan, rfl⟩ := h
    cases hlast
  | executing pass window =>
    obtain ⟨plan, passes, rfl⟩ := h
    simp at hlast
  | flushing pass =>
    obtain ⟨plan, passes, hpasses, rfl⟩ := h
    obtain ⟨before, p, rfl⟩ := (List.eq_nil_or_concat passes).resolve_left hpasses
    simp at hlast
  | verifying =>
    obtain ⟨plan, passes, -, rfl⟩ := h
    simp at hlast
  | aborted | failed | interrupted =>
    obtain ⟨call, hmem, hstops⟩ := h
    exact absurd hstops (hcomplete.not_stops hmem)

/-- The calls of a state that can hand out a permit: armed, and not yet verifying. -/
theorem FsmState.Spells.armed_not_verifying {st : FsmState} {calls : List FsmCall}
    (h : st.Spells calls)
    (hst : st = .armed ∨ (∃ pass, st = .flushing pass) ∨ ∃ pass window, st = .executing pass window) :
    .arm ∈ calls ∧ .beginVerify ∉ calls := by
  rcases hst with rfl | ⟨pass, rfl⟩ | ⟨pass, window, rfl⟩
  · obtain ⟨plan, rfl⟩ := h
    simp [armingCalls]
  · obtain ⟨plan, passes, -, rfl⟩ := h
    simp [armingCalls, passCalls]
  · obtain ⟨plan, passes, rfl⟩ := h
    simp [armingCalls, passCalls]

namespace FsmOrchestrator

variable {computePlanHash : SanitizationPlan → Except DcError String}

/-- Which call hands out a permit, and from which states. -/
theorem writePermit_inv {st : FsmState} {call : FsmCall}
    (h : (answer computePlanHash st call).1 = .ok .writePermit) :
    ((∃ pass, call = .beginPass pass) ∨ ∃ pass, call = .beginFlush pass) ∧
      (st = .armed ∨ (∃ pass, st = .flushing pass) ∨ ∃ pass window, st = .executing pass window) := by
  cases call with
  | compilePlan plan =>
    obtain ⟨st', hnext, hreply, -⟩ := assign_ok h
    obtain ⟨-, planHash, rfl⟩ := FsmState.compilePlan_inv hnext
    cases hreply
  | beginPass pass =>
    obtain ⟨st', hnext, -, -⟩ := assign_ok h
    obtain ⟨hfrom, -⟩ := FsmState.beginPass_inv hnext
    exact ⟨Or.inl ⟨pass, rfl⟩, hfrom.imp_right Or.inl⟩
  | beginFlush pass =>
    obtain ⟨st', hnext, -, -⟩ := assign_ok h
    exact ⟨Or.inr ⟨pass, rfl⟩, Or.inr (Or.inr (FsmState.beginFlush_inv hnext).1)⟩
  | approvePlan | arm | beginVerify | certify =>
    obtain ⟨st', -, hreply, -⟩ := assign_ok h
    cases hreply
  | fail code detail => cases h
  | interrupt => cases h
  | abort => cases h

/-- A permit is the answer to a `begin_pass` or `begin_flush` made after a successful `arm` and
before any successful `begin_verify`. -/
def PermitsWithin (events : List FsmEvent) : Prop :=
  ∀ before e after, events = before ++ e :: after → e.result = .ok .writePermit →
    ((∃ pass, e.call = .beginPass pass) ∨ ∃ pass, e.call = .beginFlush pass) ∧
      .arm ∈ successes before ∧ .beginVerify ∉ successes before

/-- **Permits, over a whole run.** -/
theorem permitsWithin_run (calls : List FsmCall) :
    PermitsWithin (run (step computePlanHash) new calls).events := by
  induction calls using List.reverseRecOn with
  | nil =>
    intro before e after hsplit
    cases before <;> cases hsplit
  | append_singleton calls call ih =>
    rw [run_concat]
    intro before e after hsplit hpermit
    have hspells := spells_run computePlanHash calls
    generalize run (step computePlanHash) new calls = o at ih hspells hsplit
    rcases List.eq_nil_or_concat after with rfl | ⟨rest, last, rfl⟩
    · -- the permit of the last call: its state spells the calls before it
      obtain ⟨rfl, he⟩ := List.append_inj' hsplit rfl
      obtain rfl := (List.cons.inj he).1
      obtain ⟨hcall, hfrom⟩ := writePermit_inv hpermit
      exact ⟨hcall, hspells.armed_not_verifying hfrom⟩
    · have hinit : o.events ++ [⟨call, (answer computePlanHash o.state call).1⟩] =
          (before ++ e :: rest) ++ [last] := by simpa [step] using hsplit
      obtain ⟨hevents, -⟩ := List.append_inj' hinit rfl
      exact ih before e rest hevents hpermit

/-- **The lifecycle admits only complete runs.** Whatever is called, in any order: the state is
`Certified` exactly when the successful calls form a complete run, a refused call changes
nothing, and permits are handed out only between `arm` and `begin_verify`. -/
theorem run_certified_iff (computePlanHash : SanitizationPlan → Except DcError String)
    (calls : List FsmCall) :
    ((run (step computePlanHash) new calls).state = .certified ↔
        CompleteRun (successes (run (step computePlanHash) new calls).events)) ∧
      (∀ before call after e, calls = before ++ call :: after →
        (answer computePlanHash (run (step computePlanHash) new before).state call).1 = .error e →
          (run (step computePlanHash) new (before ++ [call])).state =
            (run (step computePlanHash) new before).state) ∧
      PermitsWithin (run (step computePlanHash) new calls).events := by
  have hspells := spells_run computePlanHash calls
  refine ⟨⟨?_, hspells.certified_of_complete⟩, ?_, permitsWithin_run calls⟩
  · intro hstate
    rw [hstate] at hspells
    exact hspells
  · intro before call after e _ herror
    rw [run_concat]
    exact answer_error herror

end FsmOrchestrator

end DiscCleaner
