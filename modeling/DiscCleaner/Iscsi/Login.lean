import DiscCleaner.Iscsi.Bhs
import DiscCleaner.Lib.LineText

/-!
# DiscCleaner — iSCSI login and text negotiation (`dc-iscsi/login.rs`)

Key=value pairs in the data segment of a PDU, two login stages, and the text exchange.
-/

namespace DiscCleaner

open ByteLib ProgLib

namespace Iscsi

/-! ## Text parameters -/

structure TextParam where
  key : String
  value : String
  deriving DecidableEq

namespace TextParam

/-- `key=value`, without the NUL that ends it. -/
def chunk (p : TextParam) : Bytes := utf8 p.key ++ utf8 "=" ++ utf8 p.value

def encode (params : List TextParam) : Bytes := params.flatMap fun p => p.chunk ++ [0]

def parse (chunk : Bytes) : Option TextParam :=
  (splitOnce '=' (fromUtf8Lossy chunk)).map fun kv => ⟨kv.1, kv.2⟩

def parseAll (data : Bytes) : List TextParam :=
  ((data.splitOnP (· == 0)).filter fun chunk => !chunk.isEmpty).filterMap parse

/-- A pair that the text of a parameter list can carry. -/
structure Valid (p : TextParam) : Prop where
  key_eq : '=' ∉ p.key.toList
  key_nul : 0 ∉ utf8 p.key
  value_nul : 0 ∉ utf8 p.value

theorem parse_chunk {p : TextParam} (h : p.Valid) : parse p.chunk = some p := by
  have hsep : utf8 "=" = utf8 (String.singleton '=') := by decide +kernel
  unfold parse chunk
  rw [hsep, ← utf8_append, ← utf8_append, fromUtf8Lossy_utf8, splitOnce_append h.key_eq]
  rfl

theorem nul_notMem_chunk {p : TextParam} (h : p.Valid) : 0 ∉ p.chunk := by
  have hsep : (0 : UInt8) ∉ utf8 "=" := by decide
  unfold chunk
  rw [List.mem_append, List.mem_append]
  rintro ((hmem | hmem) | hmem)
  · exact h.key_nul hmem
  · exact hsep hmem
  · exact h.value_nul hmem

theorem chunk_ne_nil (p : TextParam) : p.chunk ≠ [] := by
  have hsep : utf8 "=" ≠ [] := by decide
  intro h
  rw [chunk, List.append_eq_nil_iff, List.append_eq_nil_iff] at h
  exact hsep h.1.2

/-- **What is encoded is parsed back.** -/
theorem parseAll_encode {params : List TextParam} (h : ∀ p ∈ params, p.Valid) :
    parseAll (encode params) = params := by
  induction params with
  | nil => rfl
  | cons p params ih =>
    have hp := h p List.mem_cons_self
    have hne : (!p.chunk.isEmpty) = true := by simp [p.chunk_ne_nil]
    have hencode : encode (p :: params) = p.chunk ++ 0 :: encode params := by simp [encode]
    have hchunk : ∀ b ∈ p.chunk, (b == 0) = false := by
      intro b hb
      rw [beq_eq_false_iff_ne]
      rintro rfl
      exact nul_notMem_chunk hp hb
    have hrest := ih fun q hq => h q (List.mem_cons_of_mem p hq)
    unfold parseAll at hrest ⊢
    rw [hencode, List.splitOnP_append_cons_of_forall_mem hchunk 0 rfl,
      List.filter_cons_of_pos (p := fun chunk : Bytes => !chunk.isEmpty) hne,
      List.filterMap_cons_some (parse_chunk hp), hrest]

end TextParam

/-! ## The login ladder -/

def NSG_SECURITY : UInt8 := (0 : UInt8) <<< 3
def NSG_OPERATIONAL : UInt8 := (1 : UInt8) <<< 3
def NSG_FULL_FEATURE : UInt8 := (3 : UInt8) <<< 3
def TRANSIT : UInt8 := 0x04

def securityOffers : List TextParam := [⟨"AuthMethod", "None"⟩]

def operationalOffers (sessionType initiatorName : String) (targetName : Option String) :
    List TextParam :=
  [⟨"SessionType", sessionType⟩, ⟨"InitiatorName", initiatorName⟩, ⟨"HeaderDigest", "None"⟩,
    ⟨"DataDigest", "None"⟩, ⟨"MaxConnections", "1"⟩, ⟨"InitialR2T", "Yes"⟩,
    ⟨"ImmediateData", "No"⟩, ⟨"MaxRecvDataSegmentLength", "131072"⟩,
    ⟨"MaxBurstLength", "1048576"⟩, ⟨"DefaultTime2Wait", "2"⟩, ⟨"DefaultTime2Retain", "0"⟩,
    ⟨"ErrorRecoveryLevel", "0"⟩]
    ++ (targetName.map fun name => ⟨"TargetName", name⟩).toList

structure LoginNegotiator where
  timeouts : IscsiTimeouts
  isid : Block 6
  itt : Nat
  cmdsn : Nat
  expStatsn : Nat
  accepted : List TextParam

namespace LoginNegotiator

def new (timeouts : IscsiTimeouts) (isid : Block 6) : LoginNegotiator :=
  { timeouts, isid, itt := 1, cmdsn := 0, expStatsn := 1, accepted := [] }

/-- The next command takes the next number. -/
def advance (neg : LoginNegotiator) : LoginNegotiator := { neg with cmdsn := wrappingSucc neg.cmdsn }

/-- A response moves the expected StatSN on. -/
def noteStatus {σ ε : Type} (neg : LoginNegotiator) (rsp : Pdu) : Prog σ ε LoginNegotiator := do
  let next ← checkedSucc rsp.bhs.statsn
  pure { neg with expStatsn := max neg.expStatsn next }

/-- The reading loop of a login stage. -/
def stageLoop (target : Target) (neg : LoginNegotiator) : Nat → Prog Conn IscsiError LoginNegotiator
  | 0 => fun c => (.blocked, c)
  | turns + 1 => do
    let rsp ← Conn.next target neg.timeouts.loginMs
    if rsp.bhs.opcode ≠ OP_LOGIN_RSP then
      Prog.fail (.protocol ("expected Login Response, got opcode " ++ hexOpcode rsp.bhs.opcode))
    else if rsp.bhs.loginStatus.1 ≠ 0 then
      Prog.fail (.loginRefused rsp.bhs.loginStatus.1 rsp.bhs.loginStatus.2 (fromUtf8Lossy rsp.data))
    else do
      let neg ← neg.noteStatus rsp
      let neg := { neg with accepted := neg.accepted ++ TextParam.parseAll rsp.data }
      if rsp.bhs.isFinal then pure neg else stageLoop target neg turns

def stageRequest (neg : LoginNegotiator) (flags : UInt8) (offers : List TextParam) : Pdu :=
  Pdu.loginRequest flags 0 0 neg.isid 0 neg.itt neg.cmdsn neg.expStatsn (TextParam.encode offers)

def loginStage (target : Target) (turns : Nat) (neg : LoginNegotiator) (flags : UInt8)
    (offers : List TextParam) : Prog Conn IscsiError LoginNegotiator := do
  Conn.write (neg.stageRequest flags offers)
  stageLoop target neg.advance turns

def login (target : Target) (turns : Nat) (neg : LoginNegotiator)
    (sessionType initiatorName : String) (targetName : Option String) :
    Prog Conn IscsiError LoginNegotiator := do
  let neg ← loginStage target turns neg (NSG_SECURITY ||| NSG_OPERATIONAL ||| TRANSIT ||| 0x01)
    securityOffers
  loginStage target turns neg (NSG_OPERATIONAL ||| NSG_FULL_FEATURE ||| TRANSIT ||| 0x01)
    (operationalOffers sessionType initiatorName targetName)

/-! ## The text exchange -/

/-- The next text request: the initial one, or one that answers a transfer tag. -/
def textRequest (neg : LoginNegotiator) (ttt : Nat) (data : Bytes) : Pdu :=
  Pdu.textRequest neg.itt ttt neg.cmdsn neg.expStatsn data

def textLoop (target : Target) (neg : LoginNegotiator) (toSend : Bytes)
    (collected : List TextParam) : Nat → Prog Conn IscsiError (LoginNegotiator × List TextParam)
  | 0 => fun c => (.blocked, c)
  | turns + 1 => do
    Conn.write (neg.textRequest TTT_NONE toSend)
    let neg := neg.advance
    let rsp ← Conn.next target neg.timeouts.loginMs
    if rsp.bhs.opcode ≠ OP_TEXT_RSP then
      Prog.fail (.protocol ("expected Text Response, got opcode " ++ hexOpcode rsp.bhs.opcode))
    else do
      let neg ← neg.noteStatus rsp
      let collected := collected ++ TextParam.parseAll rsp.data
      if rsp.bhs.isFinal then pure (neg, collected)
      else do
        Conn.write (neg.textRequest rsp.bhs.ttt [])
        textLoop target neg.advance [] collected turns

def textExchange (target : Target) (turns : Nat) (neg : LoginNegotiator)
    (request : List TextParam) : Prog Conn IscsiError (LoginNegotiator × List TextParam) :=
  textLoop target neg (TextParam.encode request) [] turns

end LoginNegotiator

end Iscsi

end DiscCleaner
