import DiscCleaner.Core.Plan

/-!
# DiscCleaner — the lifecycle state machine (`fsm.rs`)

Each method either moves the orchestrator on or refuses and leaves it as it is. The write
permits it mints carry no data and are left out: a successful call is the permit.
-/

namespace DiscCleaner

inductive FsmState where
  | probed
  | planCompiled (plan : SanitizationPlan) (planHash : String)
  | planApproved (plan : SanitizationPlan) (planHash : String)
  | armed
  | executing (pass : UInt8) (nextWindow : Nat)
  | flushing (pass : UInt8)
  | verifying
  | certified
  | aborted
  | failed (code detail : String)
  | interrupted (resumable : Bool)
  deriving DecidableEq

namespace FsmState

/-- The plan is hashed first; `computePlanHash` is the plan's canonical digest. -/
def compilePlan (computePlanHash : SanitizationPlan → Except DcError String)
    (plan : SanitizationPlan) : FsmState → Except DcError FsmState
  | probed => (computePlanHash plan).map (planCompiled plan)
  | _ => .error (.usage "Cannot compile plan: invalid state")

def approvePlan : FsmState → Except DcError FsmState
  | planCompiled plan planHash => .ok (planApproved plan planHash)
  | _ => .error (.usage "Cannot approve plan: plan not compiled")

def arm : FsmState → Except DcError FsmState
  | planApproved _ _ => .ok armed
  | _ => .error (.usage "Cannot arm: plan not approved")

def beginPass (pass : UInt8) : FsmState → Except DcError FsmState
  | armed | flushing _ => .ok (executing pass 0)
  | _ => .error (.usage "Cannot begin pass: invalid state")

def beginFlush (pass : UInt8) : FsmState → Except DcError FsmState
  | executing _ _ => .ok (flushing pass)
  | _ => .error (.usage "Cannot begin flush: not executing")

def beginVerify : FsmState → Except DcError FsmState
  | flushing _ => .ok verifying
  | _ => .error (.usage "Cannot begin verification: media not flushed")

def certify : FsmState → Except DcError FsmState
  | verifying => .ok certified
  | _ => .error (.usage "Cannot certify: not verified")

theorem beginVerify_ok {st st' : FsmState} (h : st.beginVerify = .ok st') :
    (∃ pass, st = flushing pass) ∧ st' = verifying := by
  cases st with
  | flushing pass => exact ⟨⟨pass, rfl⟩, (Except.ok.inj h).symm⟩
  | _ => simp [beginVerify] at h

theorem beginFlush_ok {st st' : FsmState} {pass : UInt8} (h : st.beginFlush pass = .ok st') :
    st' = flushing pass := by
  cases st with
  | executing p w => exact (Except.ok.inj h).symm
  | _ => simp [beginFlush] at h

end FsmState

end DiscCleaner
