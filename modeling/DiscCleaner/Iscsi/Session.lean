import DiscCleaner.Iscsi.Exchange
import DiscCleaner.Iscsi.Login

/-!
# DiscCleaner — iSCSI sessions (`dc-iscsi/session.rs`)

A session carries the task tag, CmdSN and the expected StatSN from one exchange to the next. A
caller may go on with it after an exchange that failed.
-/

namespace DiscCleaner

open ByteLib ProgLib

namespace Iscsi

structure IscsiSession where
  timeouts : IscsiTimeouts
  isid : Block 6
  itt : Nat
  cmdsn : Nat
  expStatsn : Nat
  sessionType : String
  targetName : Option String
  acceptedParams : List TextParam

/-- A session and its connection. -/
structure Live where
  session : IscsiSession
  conn : Conn

def onConn {α : Type} (m : Prog Conn IscsiError α) : Prog Live IscsiError α := fun l =>
  ((m l.conn).1, { l with conn := (m l.conn).2 })

namespace IscsiSession

def ofNegotiator (neg : LoginNegotiator) (sessionType : String) (targetName : Option String) :
    IscsiSession :=
  { timeouts := neg.timeouts, isid := neg.isid, itt := neg.itt, cmdsn := neg.cmdsn,
    expStatsn := neg.expStatsn, sessionType, targetName, acceptedParams := neg.accepted }

def negotiator (s : IscsiSession) : LoginNegotiator :=
  { LoginNegotiator.new s.timeouts s.isid with
    itt := s.itt, cmdsn := s.cmdsn, expStatsn := s.expStatsn }

/-- A new task tag. -/
def retag (s : IscsiSession) : IscsiSession := { s with itt := wrappingSucc s.itt }

def advance (s : IscsiSession) : IscsiSession := { s with cmdsn := wrappingSucc s.cmdsn }

def command (s : IscsiSession) (params : ScsiIoParams) : Pdu :=
  scsiCommand s.itt s.cmdsn s.expStatsn params

end IscsiSession

namespace Live

def update (f : IscsiSession → IscsiSession) : Prog Live IscsiError Unit :=
  Prog.update fun l => { l with session := f l.session }

variable (target : Target) (turns : Nat)

def execute (params : ScsiIoParams) : Prog Live IscsiError ScsiIoOutcome := do
  update IscsiSession.retag
  let l ← Prog.get
  let outcome ← onConn (executeScsiCommand target l.session.itt l.session.cmdsn
    l.session.expStatsn params turns)
  update IscsiSession.advance
  pure outcome

def text (request : List TextParam) : Prog Live IscsiError (List TextParam) := do
  let l ← Prog.get
  let (neg, out) ← onConn (l.session.negotiator.textExchange target turns request)
  update fun s => { s with itt := neg.itt, cmdsn := neg.cmdsn, expStatsn := neg.expStatsn }
  pure out

def logout : Prog Live IscsiError Unit := do
  update IscsiSession.retag
  let l ← Prog.get
  onConn (Conn.write (Pdu.logoutRequest l.session.itt l.session.cmdsn l.session.expStatsn))
  update IscsiSession.advance
  let rsp ← onConn (Conn.next target l.session.timeouts.loginMs)
  if rsp.bhs.opcode ≠ OP_LOGOUT_RSP then
    Prog.fail (.protocol ("expected Logout Response, got " ++ hexOpcode rsp.bhs.opcode))

end Live

/-! ## Runs of a session -/

inductive SessionOp where
  | text (request : List TextParam)
  | execute (params : ScsiIoParams)
  | logout

/-- How an exchange ends: it returns, with or without an error, or it does not. -/
def SessionOp.perform (target : Target) (turns : Nat) (l : Live) : SessionOp → Outcome IscsiError Unit × Live
  | .text request => discard (Live.text target turns request l)
  | .execute params => discard (Live.execute target turns params l)
  | .logout => Live.logout target l
where
  discard {α : Type} : Outcome IscsiError α × Live → Outcome IscsiError Unit × Live
    | (.ok _, l) => (.ok (), l)
    | (.err e, l) => (.err e, l)
    | (.panic, l) => (.panic, l)
    | (.blocked, l) => (.blocked, l)

/-- The exchanges one after the other, as long as they return. -/
def runOps (target : Target) (turns : Nat) : List SessionOp → Live → Live
  | [], l => l
  | op :: ops, l =>
    match op.perform target turns l with
    | (.ok (), l) => runOps target turns ops l
    | (.err _, l) => runOps target turns ops l
    | (_, l) => l

/-- A login and the exchanges of the session, up to the connection they leave. -/
def runSession (target : Target) (turns : Nat) (timeouts : IscsiTimeouts) (isid : Block 6)
    (sessionType initiatorName : String) (targetName : Option String) (ops : List SessionOp) : Conn :=
  match (LoginNegotiator.new timeouts isid).login target turns sessionType initiatorName targetName
      ⟨[], 0⟩ with
  | (.ok neg, c) =>
    (runOps target turns ops ⟨IscsiSession.ofNegotiator neg sessionType targetName, c⟩).conn
  | (_, c) => c

end Iscsi

end DiscCleaner
