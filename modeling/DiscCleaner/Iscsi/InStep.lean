import DiscCleaner.Iscsi.Session
import Mathlib.Data.List.Nodup

/-!
# DiscCleaner — text exchanges in step, and command numbers

A target answers each text request with one text response. The text exchange is in step with it
when it returns the parameters and has read one response for each request; over a session no two
commands may carry the same CmdSN.

## Main results

* `inStep_iff` — the replies with which the text exchange is in step
* `runSession_numbered` — the numbers of all commands, when each exchange is answered in step
-/

namespace DiscCleaner

open ByteLib ProgLib

namespace Iscsi

/-! ## Text replies -/

/-- A parameter list in the text responses of a conforming target: only the last is final, and the
others hold a transfer tag. A pair may straddle two of them. -/
structure TextReply where
  params : List TextParam
  front : List Pdu
  last : Pdu
  valid : ∀ p ∈ params, p.Valid
  opcode : ∀ f ∈ front ++ [last], f.bhs.opcode = OP_TEXT_RSP
  content : payload (front ++ [last]) = TextParam.encode params
  pending : ∀ f ∈ front, f.bhs.isFinal = false ∧ f.bhs.ttt ≠ TTT_NONE
  final : last.bhs.isFinal = true

def TextReply.pdus (r : TextReply) : List Pdu := r.front ++ [r.last]

/-- The initial text request of an exchange. -/
def initialRequest (neg : LoginNegotiator) (request : List TextParam) : Pdu :=
  neg.textRequest TTT_NONE (TextParam.encode request)

/-- The target answers the initial request and each request that continues with the tag it gave,
with the next response. -/
structure ServesText (target : Target) (c : Conn) (neg : LoginNegotiator)
    (request : List TextParam) (r : TextReply) : Prop where
  inStep : c.read = (target c.sent).length
  answers : ∀ conts : List Pdu, conts.length < r.pdus.length →
    (∀ p ∈ conts, p.bhs.opcode = OP_TEXT_REQ) →
    conts.map (fun p => p.bhs.ttt) = (r.pdus.take conts.length).map (fun p => p.bhs.ttt) →
      target (c.sent ++ initialRequest neg request :: conts)
        = target c.sent ++ r.pdus.take (conts.length + 1)

/-- The exchange returns the parameters and has read one response for each request it sent. -/
def InStep (target : Target) (c : Conn) (neg : LoginNegotiator) (request : List TextParam)
    (r : TextReply) : Prop :=
  ∃ neg' c', (∃ enough, ∀ turns ≥ enough,
      neg.textExchange target turns request c = (.ok (neg', r.params), c'))
    ∧ c'.sent.length + c.read = c.sent.length + c'.read

/-- The parameters come in one response, whose StatSN has a successor in 32 bits. -/
structure TextReply.Single (r : TextReply) : Prop where
  front : r.front = []
  statsn : r.last.bhs.statsn ≠ 0xFFFFFFFF

theorem Bhs.statsn_lt (b : Bhs) : b.statsn < 2 ^ 32 := by
  have hlt := beNat_lt (slice b 24 4)
  have hle : (slice b 24 4).length ≤ 4 := by simp [slice]
  exact lt_of_lt_of_le hlt (Nat.pow_le_pow_right (by decide) hle)

section text

variable {target : Target} {neg neg' : LoginNegotiator} {c c' : Conn}

namespace LoginNegotiator

theorem noteStatus_run {σ ε : Type} {rsp : Pdu} (h : rsp.bhs.statsn ≠ 0xFFFFFFFF) (s : σ) :
    (neg.noteStatus rsp : Prog σ ε LoginNegotiator) s
      = (.ok { neg with expStatsn := max neg.expStatsn (rsp.bhs.statsn + 1) }, s) := by
  have hlt := rsp.bhs.statsn_lt
  rw [noteStatus, checkedSucc, if_pos (by omega)]
  rfl

/-- The last StatSN has no successor, and the addition unwinds. -/
theorem noteStatus_unwinds {σ ε : Type} {rsp : Pdu} (h : rsp.bhs.statsn = 0xFFFFFFFF) (s : σ) :
    (neg.noteStatus rsp : Prog σ ε LoginNegotiator) s = (.panic, s) := by
  rw [noteStatus, checkedSucc, h, if_neg (by decide)]
  rfl

theorem noteStatus_ok {σ ε : Type} {rsp : Pdu} {s s' : σ}
    (h : (neg.noteStatus rsp : Prog σ ε LoginNegotiator) s = (.ok neg', s')) :
    s' = s ∧ neg'.cmdsn = neg.cmdsn := by
  by_cases hmax : rsp.bhs.statsn = 0xFFFFFFFF
  · rw [noteStatus_unwinds hmax] at h
    cases h
  · rw [noteStatus_run hmax] at h
    cases h
    exact ⟨rfl, rfl⟩

/-- **One turn of a text exchange** that goes on or returns: it sent a request and read a text
response; a response that is not final is answered with another request. -/
theorem textLoop_turn {toSend : Bytes} {collected out : List TextParam} {turns : Nat}
    (h : textLoop target neg toSend collected (turns + 1) c = (.ok (neg', out), c')) :
    ∃ rsp, (target (c.sent ++ [neg.textRequest TTT_NONE toSend]))[c.read]? = some rsp ∧
      (rsp.bhs.isFinal = true
          ∧ c' = ⟨c.sent ++ [neg.textRequest TTT_NONE toSend], c.read + 1⟩
        ∨ rsp.bhs.isFinal = false ∧ ∃ neg₁ cont, textLoop target neg₁ []
            (collected ++ TextParam.parseAll rsp.data) turns
            ⟨c.sent ++ [neg.textRequest TTT_NONE toSend] ++ [cont], c.read + 1⟩
          = (.ok (neg', out), c')) := by
  rw [textLoop, Prog.bind_run_ok (Conn.write_run _ _)] at h
  obtain ⟨rsp, c₁, hread, h⟩ := Prog.bind_eq_ok.mp h
  obtain ⟨hget, rfl⟩ := Conn.next_eq_ok.mp hread
  refine ⟨rsp, hget, ?_⟩
  by_cases hopcode : rsp.bhs.opcode = OP_TEXT_RSP
  · rw [if_neg (not_not.mpr hopcode)] at h
    obtain ⟨neg₁, c₁, hnote, h⟩ := Prog.bind_eq_ok.mp h
    obtain ⟨rfl, -⟩ := noteStatus_ok hnote
    cases hfinal : rsp.bhs.isFinal with
    | true =>
      simp only [hfinal, if_true] at h
      cases h
      exact Or.inl ⟨rfl, rfl⟩
    | false =>
      simp only [hfinal, Bool.false_eq_true, if_false] at h
      rw [Prog.bind_run_ok (Conn.write_run _ _)] at h
      exact Or.inr ⟨rfl, _, _, h⟩
  · rw [if_pos hopcode] at h
    cases h

/-- No text exchange reads more than it sends. -/
theorem textLoop_sent {toSend : Bytes} {collected out : List TextParam} {turns : Nat}
    (h : textLoop target neg toSend collected turns c = (.ok (neg', out), c')) :
    c'.read + c.sent.length ≤ c'.sent.length + c.read := by
  induction turns generalizing neg toSend collected c with
  | zero => cases h
  | succ turns ih =>
    obtain ⟨rsp, -, ⟨-, rfl⟩ | ⟨-, neg₁, cont, hrest⟩⟩ := textLoop_turn h
    · simp only [List.length_append, List.length_cons, List.length_nil]
      omega
    · have hle := ih hrest
      simp only [List.length_append, List.length_cons, List.length_nil] at hle
      omega

/-- A final text response ends the exchange. -/
theorem textLoop_final {toSend : Bytes} {collected : List TextParam} {rsp : Pdu}
    (hget : (target (c.sent ++ [neg.textRequest TTT_NONE toSend]))[c.read]? = some rsp)
    (hopcode : rsp.bhs.opcode = OP_TEXT_RSP) (hfinal : rsp.bhs.isFinal = true)
    (hstatsn : rsp.bhs.statsn ≠ 0xFFFFFFFF) (turns : Nat) :
    textLoop target neg toSend collected (turns + 1) c
      = (.ok ({ neg.advance with expStatsn := max neg.expStatsn (rsp.bhs.statsn + 1) },
            collected ++ TextParam.parseAll rsp.data),
          ⟨c.sent ++ [neg.textRequest TTT_NONE toSend], c.read + 1⟩) := by
  have hnext : Conn.next target neg.timeouts.loginMs
      ⟨c.sent ++ [neg.textRequest TTT_NONE toSend], c.read⟩ = (.ok rsp, _) :=
    Conn.next_eq_ok.mpr ⟨hget, rfl⟩
  rw [textLoop, Prog.bind_run_ok (Conn.write_run _ _)]
  show (Conn.next target neg.timeouts.loginMs >>= _) _ = _
  rw [Prog.bind_run_ok hnext, if_neg (not_not.mpr hopcode),
    Prog.bind_run_ok (noteStatus_run hstatsn _)]
  simp only [hfinal, if_true]
  rfl

/-- With the last StatSN the exchange unwinds. -/
theorem textLoop_unwinds {toSend : Bytes} {collected : List TextParam} {rsp : Pdu}
    (hget : (target (c.sent ++ [neg.textRequest TTT_NONE toSend]))[c.read]? = some rsp)
    (hopcode : rsp.bhs.opcode = OP_TEXT_RSP) (hstatsn : rsp.bhs.statsn = 0xFFFFFFFF) (turns : Nat) :
    (textLoop target neg toSend collected (turns + 1) c).1 = .panic := by
  have hnext : Conn.next target neg.timeouts.loginMs
      ⟨c.sent ++ [neg.textRequest TTT_NONE toSend], c.read⟩ = (.ok rsp, _) :=
    Conn.next_eq_ok.mpr ⟨hget, rfl⟩
  rw [textLoop, Prog.bind_run_ok (Conn.write_run _ _)]
  show ((Conn.next target neg.timeouts.loginMs >>= _) _).1 = _
  rw [Prog.bind_run_ok hnext, if_neg (not_not.mpr hopcode), Prog.bind_run, Prog.andThen,
    noteStatus_unwinds hstatsn]

end LoginNegotiator

variable {request : List TextParam} {r : TextReply}

theorem ServesText.first (h : ServesText target c neg request r) :
    ∃ rsp rest, r.pdus = rsp :: rest
      ∧ (target (c.sent ++ [initialRequest neg request]))[c.read]? = some rsp := by
  have hne : r.pdus ≠ [] := by simp [TextReply.pdus]
  obtain ⟨rsp, rest, hpdus⟩ := List.exists_cons_of_ne_nil hne
  refine ⟨rsp, rest, hpdus, ?_⟩
  have hanswer := h.answers [] (by simp [TextReply.pdus]) (by simp) rfl
  rw [hanswer, h.inStep, hpdus]
  simp

/-- **The text exchange is in step exactly when one response carries the whole list.** -/
theorem inStep_iff (target : Target) (c : Conn) (neg : LoginNegotiator) (request : List TextParam)
    (r : TextReply) (h : ServesText target c neg request r) :
    InStep target c neg request r ↔ r.Single := by
  obtain ⟨rsp, rest, hpdus, hget⟩ := h.first
  have hopcode : rsp.bhs.opcode = OP_TEXT_RSP := r.opcode rsp (by
    show rsp ∈ r.pdus
    rw [hpdus]
    exact List.mem_cons_self)
  constructor
  · rintro ⟨neg', c', ⟨enough, hrun⟩, hstep⟩
    have hturn : neg.textLoop target (TextParam.encode request) [] (enough + 1) c
        = (.ok (neg', r.params), c') := hrun (enough + 1) (by omega)
    cases hfront : r.front with
    | nil =>
      rw [TextReply.pdus, hfront, List.nil_append, List.cons.injEq] at hpdus
      refine ⟨hfront, fun hmax => ?_⟩
      rw [hpdus.1] at hmax
      have hpanic : (neg.textLoop target (TextParam.encode request) [] (enough + 1) c).1 = .panic :=
        LoginNegotiator.textLoop_unwinds hget hopcode hmax enough
      rw [hturn] at hpanic
      cases hpanic
    | cons f front =>
      -- the first response is not final: it is answered, and then a further request goes out
      rw [TextReply.pdus, hfront, List.cons_append, List.cons.injEq] at hpdus
      have hpending : rsp.bhs.isFinal = false :=
        hpdus.1 ▸ (r.pending f (hfront ▸ List.mem_cons_self)).1
      obtain ⟨rsp', hget', ⟨hfinal, -⟩ | ⟨-, neg₁, cont, hrest⟩⟩ := LoginNegotiator.textLoop_turn hturn
      · have heq : rsp = rsp' := Option.some.inj (hget.symm.trans hget')
        rw [← heq, hpending] at hfinal
        cases hfinal
      · have hle := LoginNegotiator.textLoop_sent hrest
        simp only [List.length_append, List.length_cons, List.length_nil] at hle
        omega
  · rintro ⟨hfront, hstatsn⟩
    rw [TextReply.pdus, hfront, List.nil_append, List.cons.injEq] at hpdus
    have hdata : rsp.data = TextParam.encode r.params := by
      rw [← r.content, hfront, List.nil_append, hpdus.1]
      simp [payload]
    have hone : ∀ turns ≥ 1, neg.textExchange target turns request c
        = (.ok ({ neg.advance with expStatsn := max neg.expStatsn (rsp.bhs.statsn + 1) }, r.params),
          ⟨c.sent ++ [initialRequest neg request], c.read + 1⟩) := by
      intro turns hturns
      obtain ⟨n, rfl⟩ : ∃ n, turns = n + 1 := ⟨turns - 1, by omega⟩
      have hrun : neg.textLoop target (TextParam.encode request) [] (n + 1) c = _ :=
        LoginNegotiator.textLoop_final hget hopcode (hpdus.1 ▸ r.final) (hpdus.1 ▸ hstatsn) n
      rw [hdata, List.nil_append, TextParam.parseAll_encode r.valid] at hrun
      exact hrun
    refine ⟨_, _, ⟨1, hone⟩, ?_⟩
    simp only [List.length_append, List.length_cons, List.length_nil]
    omega

end text

/-! ## Command numbers -/

/-- The PDUs sent so far carry the numbers from 0 on, wrapping at 32 bits. -/
def Numbered (sent : List Pdu) : Prop :=
  sent.map (fun p => p.bhs.cmdsn) = (List.range sent.length).map (· % 2 ^ 32)

namespace Numbered

theorem nil : Numbered [] := rfl

theorem append {sent : List Pdu} {p : Pdu} (h : Numbered sent)
    (hp : p.bhs.cmdsn = sent.length % 2 ^ 32) : Numbered (sent ++ [p]) := by
  rw [Numbered, List.map_append, h, List.length_append, List.length_singleton, List.range_succ,
    List.map_append, List.map_singleton, List.map_singleton, hp]

/-- Up to 2^32 commands the numbers are distinct. -/
theorem nodup {sent : List Pdu} (h : Numbered sent) (hlen : sent.length ≤ 2 ^ 32) :
    (sent.map fun p => p.bhs.cmdsn).Nodup := by
  rw [h]
  refine List.nodup_range.map_on fun i hi j hj heq => ?_
  rw [List.mem_range] at hi hj
  rwa [Nat.mod_eq_of_lt (by omega), Nat.mod_eq_of_lt (by omega)] at heq

end Numbered

theorem wrappingSucc_mod {n m : Nat} (h : n = m % 2 ^ 32) : wrappingSucc n = (m + 1) % 2 ^ 32 := by
  rw [wrappingSucc, h]
  omega

/-! ### The number in each request -/

theorem Bhs.cmdsn_patches {b : Bhs} {before after : List (Nat × Bytes)} {n : Nat}
    (hbefore : ∀ f ∈ before, f.1 + f.2.length ≤ b.length) (hlen : 28 ≤ b.length)
    (hafter : ∀ f ∈ after, f.1 + f.2.length ≤ b.length)
    (hapart : ∀ f ∈ after, f.1 + f.2.length ≤ 24 ∨ 24 + 4 ≤ f.1) :
    Bhs.cmdsn (patches b (before ++ (24, be 4 n) :: after)) = n % 2 ^ 32 := by
  rw [Bhs.cmdsn, Bhs.word, slice_patches_mid (be_length 4 n) hbefore hlen hafter hapart, beNat_be_mod]
  rfl

theorem padCdb_length (cdb : Block 16) (len : Nat) : (padCdb cdb len).length = 16 := by
  rw [padCdb, List.length_append, List.length_take, cdb.size, List.length_replicate]
  omega

/-- The number is a field of its own: nothing put in after it touches bytes 24 to 27. -/
theorem Pdu.cmdsn_withFields {p : Pdu} {fields before after : List (Nat × Bytes)} {n : Nat}
    (hfields : fields = before ++ (24, be 4 n) :: after) (hlen : p.bhs.length = 48)
    (hfit : ∀ f ∈ before ++ after, f.1 + f.2.length ≤ 48)
    (hapart : ∀ f ∈ after, f.1 + f.2.length ≤ 24 ∨ 28 ≤ f.1) :
    (p.withFields fields).bhs.cmdsn = n % 2 ^ 32 := by
  rw [Pdu.withFields, hfields]
  refine Bhs.cmdsn_patches (fun f hf => ?_) (by omega) (fun f hf => ?_) hapart
  · rw [hlen]
    exact hfit f (List.mem_append_left after hf)
  · rw [hlen]
    exact hfit f (List.mem_append_right before hf)

theorem scsiCommand_cmdsn (itt cmdsn expStatsn : Nat) (params : ScsiIoParams) :
    (scsiCommand itt cmdsn expStatsn params).bhs.cmdsn = cmdsn % 2 ^ 32 := by
  refine @Pdu.cmdsn_withFields _ _
    [(8, params.lun.bytes), (16, be 4 itt), (20, be 4 params.expectedReadLen)]
    [(28, be 4 expStatsn), (4, [0]), (32, padCdb params.cdb params.cdbLen)] cmdsn rfl rfl ?_ ?_
  · simp [params.lun.size, padCdb_length]
  · simp

theorem loginRequest_cmdsn (flags versionMin versionMax : UInt8) (isid : Block 6)
    (tsih itt cmdsn expStatsn : Nat) (data : Bytes) :
    (Pdu.loginRequest flags versionMin versionMax isid tsih itt cmdsn expStatsn data).bhs.cmdsn
      = cmdsn % 2 ^ 32 := by
  refine @Pdu.cmdsn_withFields _ _
    [(1, [flags]), (2, [versionMax]), (3, [versionMin]), (8, isid.bytes), (14, be 2 tsih),
      (16, be 4 itt)] [(28, be 4 expStatsn)] cmdsn rfl rfl ?_ ?_
  · simp [isid.size]
  · simp

theorem textRequest_cmdsn (itt ttt cmdsn expStatsn : Nat) (data : Bytes) :
    (Pdu.textRequest itt ttt cmdsn expStatsn data).bhs.cmdsn = cmdsn % 2 ^ 32 := by
  refine @Pdu.cmdsn_withFields _ _ [(16, be 4 itt), (20, be 4 ttt)] [(28, be 4 expStatsn)] cmdsn
    rfl rfl ?_ ?_
  · simp
  · simp

theorem logoutRequest_cmdsn (itt cmdsn expStatsn : Nat) :
    (Pdu.logoutRequest itt cmdsn expStatsn).bhs.cmdsn = cmdsn % 2 ^ 32 := by
  refine @Pdu.cmdsn_withFields _ _ [(16, be 4 itt)] [(28, be 4 expStatsn)] cmdsn rfl rfl ?_ ?_
  · simp
  · simp

/-! ### Reading leaves what was sent -/

theorem keeps_next (target : Target) (deadline : Nat) :
    Prog.Keeps Conn.sent (Conn.next target deadline) := by
  intro c
  rw [Conn.next]
  cases (target c.sent)[c.read]? <;> rfl

theorem keeps_collect (target : Target) (itt deadline : Nat) (dataIn : Bytes) (placed turns : Nat) :
    Prog.Keeps Conn.sent (collect target itt deadline dataIn placed turns) := by
  induction turns generalizing dataIn placed with
  | zero => exact fun _ => rfl
  | succ turns ih =>
    rw [collect]
    refine (keeps_next target deadline).bind fun rsp => ?_
    refine .ite (.ite (.fail _) (.ite (.fail _) (.ite (.fail _) (ih _ _)))) (.ite ?_ (.fail _))
    exact .ret _

theorem LoginNegotiator.keeps_stageLoop (target : Target) (neg : LoginNegotiator) (turns : Nat) :
    Prog.Keeps Conn.sent (stageLoop target neg turns) := by
  induction turns generalizing neg with
  | zero => exact fun _ => rfl
  | succ turns ih =>
    rw [stageLoop]
    refine (keeps_next target _).bind fun rsp => .ite (.fail _) (.ite (.fail _) ?_)
    refine Prog.Keeps.bind ?_ fun neg => .ite (.ret _) (ih _)
    exact Prog.Keeps.bind (.ite (.ret _) .unwind) fun _ => .ret _

/-! ### One exchange -/

/-- Every command sent so far has its number, and the session holds the next one. -/
structure Live.Numbered (l : Live) : Prop where
  sent : Iscsi.Numbered l.conn.sent
  next : l.session.cmdsn = l.conn.sent.length % 2 ^ 32

/-- Framed Data-In PDUs with a SCSI Response behind them end the exchange with an outcome. -/
theorem collect_returns {target : Target} {itt deadline placed turns : Nat} {dataIn : Bytes}
    {pdus : List Pdu} {p : Pdu} {c : Conn} (hpdus : ∀ p ∈ pdus, p.bhs.opcode = OP_DATA_IN)
    (hp : p.bhs.opcode = OP_SCSI_RSP) (hframed : Framed placed pdus)
    (hpending : c.pending target = pdus ++ [p]) :
    (collect target itt deadline dataIn placed turns c).1 = .blocked
      ∨ ∃ out, (collect target itt deadline dataIn placed turns c).1 = .ok out := by
  induction turns generalizing pdus placed dataIn c with
  | zero => exact Or.inl rfl
  | succ turns ih =>
    cases pdus with
    | nil =>
      rw [collect_response hp hpending]
      exact Or.inr ⟨_, rfl⟩
    | cons q pdus =>
      obtain ⟨hmax, hbound, hrest⟩ := hframed
      rw [collect_dataIn (hpdus q List.mem_cons_self) hpending hmax hbound]
      exact ih (fun p hp => hpdus p (List.mem_cons_of_mem q hp)) hrest (Conn.pending_next hpending)

/-- However a text exchange ends, each request it sent took the next number. -/
theorem LoginNegotiator.textLoop_numbered {target : Target} {turns : Nat} {neg : LoginNegotiator}
    {toSend : Bytes} {collected : List TextParam} {c : Conn} (hsent : Numbered c.sent)
    (hnext : neg.cmdsn = c.sent.length % 2 ^ 32) :
    Numbered (textLoop target neg toSend collected turns c).2.sent := by
  induction turns generalizing neg toSend collected c with
  | zero => exact hsent
  | succ turns ih =>
    have hsent₁ : Numbered (c.sent ++ [neg.textRequest TTT_NONE toSend]) :=
      hsent.append (by rw [textRequest, textRequest_cmdsn, hnext, Nat.mod_mod])
    have hnext₁ : neg.advance.cmdsn = (c.sent ++ [neg.textRequest TTT_NONE toSend]).length % 2 ^ 32 := by
      rw [List.length_append, List.length_singleton]
      exact wrappingSucc_mod hnext
    rw [textLoop, Prog.bind_run_ok (Conn.write_run _ _)]
    refine Prog.Leaves.bind (I := fun c : Conn => Numbered c.sent) ?_ fun rsp c₁ hread _ => ?_
    · have hkeeps := keeps_next target neg.timeouts.loginMs
        { c with sent := c.sent ++ [neg.textRequest TTT_NONE toSend] }
      rw [Prog.Leaves]
      exact hkeeps ▸ hsent₁
    obtain ⟨-, rfl⟩ := Conn.next_eq_ok.mp hread
    by_cases hopcode : rsp.bhs.opcode = OP_TEXT_RSP
    · rw [if_neg (not_not.mpr hopcode)]
      refine Prog.Leaves.bind (I := fun c : Conn => Numbered c.sent) ?_ fun neg₁ c₁ hnote _ => ?_
      · by_cases hmax : rsp.bhs.statsn = 0xFFFFFFFF
        · rw [Prog.Leaves, noteStatus_unwinds hmax]
          exact hsent₁
        · rw [Prog.Leaves, noteStatus_run hmax]
          exact hsent₁
      obtain ⟨rfl, hcmdsn⟩ := noteStatus_ok hnote
      cases hfinal : rsp.bhs.isFinal with
      | true => exact hsent₁
      | false =>
        have hnext₂ : neg₁.cmdsn = (c.sent ++ [neg.textRequest TTT_NONE toSend]).length % 2 ^ 32 :=
          hcmdsn.trans hnext₁
        simp only [Bool.false_eq_true, if_false]
        rw [Prog.Leaves, Prog.bind_run_ok (Conn.write_run _ _)]
        refine ih (hsent₁.append ?_) ?_
        · rw [textRequest, textRequest_cmdsn, hnext₂, Nat.mod_mod]
        · rw [List.length_append, List.length_singleton]
          exact wrappingSucc_mod hnext₂
    · rw [if_pos hopcode]
      exact hsent₁

section ops

variable {target : Target} {turns : Nat} {l : Live}

/-- The exchange is answered so that it returns what was reported: a text request in one final
response, a SCSI command in framed Data-In PDUs and a SCSI Response. -/
def SessionOp.AnsweredInStep (target : Target) (l : Live) : SessionOp → Prop
  | .text request => ∃ rsp, l.conn.Answers target (initialRequest l.session.negotiator request) [rsp]
      ∧ rsp.bhs.opcode = OP_TEXT_RSP ∧ rsp.bhs.isFinal = true ∧ rsp.bhs.statsn ≠ 0xFFFFFFFF
  | .execute params => ∃ r : Reply,
      l.conn.Answers target (l.session.retag.command params) r.pdus
        ∧ (∀ p ∈ r.dataIns, p.bhs.maxCmdSN = p.bhs.dataOffset) ∧ r.data.length ≤ DATA_IN_BOUND
        ∧ r.response.isSome
  | .logout => True

theorem perform_text (request : List TextParam) :
    (SessionOp.text request).perform target turns l
      = match l.session.negotiator.textExchange target turns request l.conn with
        | (.ok (neg, _), c) => (.ok (), ⟨{ l.session with
            itt := neg.itt, cmdsn := neg.cmdsn, expStatsn := neg.expStatsn }, c⟩)
        | (.err e, c) => (.err e, ⟨l.session, c⟩)
        | (.panic, c) => (.panic, ⟨l.session, c⟩)
        | (.blocked, c) => (.blocked, ⟨l.session, c⟩) := by
  cases hrun : l.session.negotiator.textExchange target turns request l.conn with
  | mk outcome c =>
    cases outcome <;>
      simp only [SessionOp.perform, Live.text, Prog.bind_run, Prog.andThen, Prog.get, onConn, hrun] <;>
      rfl

theorem perform_execute (params : ScsiIoParams) :
    (SessionOp.execute params).perform target turns l
      = match executeScsiCommand target l.session.retag.itt l.session.cmdsn l.session.expStatsn params
          turns l.conn with
        | (.ok _, c) => (.ok (), ⟨l.session.retag.advance, c⟩)
        | (.err e, c) => (.err e, ⟨l.session.retag, c⟩)
        | (.panic, c) => (.panic, ⟨l.session.retag, c⟩)
        | (.blocked, c) => (.blocked, ⟨l.session.retag, c⟩) := by
  cases hrun : executeScsiCommand target l.session.retag.itt l.session.cmdsn l.session.expStatsn params
    turns l.conn with
  | mk outcome c =>
    have hrun' : executeScsiCommand target l.session.retag.itt l.session.retag.cmdsn
        l.session.retag.expStatsn params turns l.conn = (outcome, c) := hrun
    cases outcome <;>
      simp only [SessionOp.perform, Live.execute, Live.update, Prog.bind_run, Prog.andThen, Prog.update,
        Prog.get, onConn, hrun'] <;>
      rfl

/-- A logout sends its request and moves the number on before it reads. -/
theorem perform_logout :
    (SessionOp.logout.perform target turns l).2
      = ⟨l.session.retag.advance, (Conn.next target l.session.timeouts.loginMs
          ⟨l.conn.sent ++ [Pdu.logoutRequest l.session.retag.itt l.session.cmdsn l.session.expStatsn],
            l.conn.read⟩).2⟩ := by
  cases hrun : Conn.next target l.session.timeouts.loginMs
    ⟨l.conn.sent ++ [Pdu.logoutRequest l.session.retag.itt l.session.cmdsn l.session.expStatsn],
      l.conn.read⟩ with
  | mk outcome c =>
    have hnext : Conn.next target l.session.retag.timeouts.loginMs
        ⟨l.conn.sent ++ [Pdu.logoutRequest l.session.retag.itt l.session.retag.cmdsn
          l.session.retag.expStatsn], l.conn.read⟩ = (outcome, c) := hrun
    simp only [SessionOp.perform, Live.logout, Live.update, Prog.bind_run, Prog.andThen, Prog.update,
      Prog.get, onConn, Conn.write_run, IscsiSession.advance, hnext]
    cases outcome with
    | ok rsp =>
      by_cases hopcode : rsp.bhs.opcode = OP_LOGOUT_RSP
      · simp only [hopcode, ne_eq, not_true_eq_false, if_false]
        rfl
      · simp only [hopcode, ne_eq, not_false_eq_true, if_true]
        rfl
    | err e => rfl
    | panic => rfl
    | blocked => rfl

/-- However a SCSI exchange ends, it sent its command and nothing else. -/
theorem execute_sent (itt cmdsn expStatsn : Nat) (params : ScsiIoParams) (c : Conn) :
    (executeScsiCommand target itt cmdsn expStatsn params turns c).2.sent
      = c.sent ++ [scsiCommand itt cmdsn expStatsn params] := by
  rw [execute_eq_collect, keeps_collect]

/-- However an exchange ends, its commands carry the numbers that follow. -/
theorem perform_sent (hl : l.Numbered) (op : SessionOp) :
    Numbered (op.perform target turns l).2.conn.sent := by
  cases op with
  | text request =>
    have hsent : Numbered (l.session.negotiator.textExchange target turns request l.conn).2.sent :=
      LoginNegotiator.textLoop_numbered hl.sent hl.next
    rw [perform_text]
    cases hrun : l.session.negotiator.textExchange target turns request l.conn with
    | mk outcome c =>
      rw [hrun] at hsent
      cases outcome <;> exact hsent
  | execute params =>
    have hsent := @execute_sent target turns l.session.retag.itt l.session.cmdsn l.session.expStatsn
      params l.conn
    rw [perform_execute]
    cases hrun : executeScsiCommand target l.session.retag.itt l.session.cmdsn l.session.expStatsn
      params turns l.conn with
    | mk outcome c =>
      rw [hrun] at hsent
      have hnumbered : Numbered c.sent := by
        rw [hsent]
        exact hl.sent.append (by rw [scsiCommand_cmdsn, hl.next, Nat.mod_mod])
      cases outcome <;> exact hnumbered
  | logout =>
    rw [perform_logout]
    dsimp only
    rw [keeps_next]
    exact hl.sent.append (by rw [logoutRequest_cmdsn, hl.next, Nat.mod_mod])

/-- After an exchange that is answered in step the session holds the next number. -/
theorem perform_next (hl : l.Numbered) {op : SessionOp} (hop : op.AnsweredInStep target l)
    (hreturns : (op.perform target turns l).1 ≠ .blocked) :
    (op.perform target turns l).2.Numbered := by
  refine ⟨perform_sent hl op, ?_⟩
  cases op with
  | text request =>
    obtain ⟨rsp, hanswers, hopcode, hfinal, hstatsn⟩ := hop
    rw [perform_text] at hreturns ⊢
    cases turns with
    | zero => exact absurd rfl hreturns
    | succ turns =>
      have hget : (target (l.conn.sent ++ [initialRequest l.session.negotiator request]))[l.conn.read]?
          = some rsp := by
        rw [hanswers.replies, hanswers.inStep]
        simp
      have hrun : l.session.negotiator.textExchange target (turns + 1) request l.conn = _ :=
        LoginNegotiator.textLoop_final hget hopcode hfinal hstatsn turns
      rw [hrun]
      dsimp only
      rw [List.length_append, List.length_singleton]
      exact wrappingSucc_mod hl.next
  | execute params =>
    obtain ⟨r, hanswers, hoffsets, hbound, hresponse⟩ := hop
    obtain ⟨p, hp⟩ := Option.isSome_iff_exists.mp hresponse
    have hsent := @execute_sent target turns l.session.retag.itt l.session.cmdsn l.session.expStatsn
      params l.conn
    have hends : (executeScsiCommand target l.session.retag.itt l.session.cmdsn
          l.session.expStatsn params turns l.conn).1 = .blocked
        ∨ ∃ out, (executeScsiCommand target l.session.retag.itt l.session.cmdsn
          l.session.expStatsn params turns l.conn).1 = .ok out := by
      have hpending := hanswers.pending
      rw [Reply.pdus, hp, Option.toList_some] at hpending
      exact collect_returns r.isData (r.isResponse p hp).1 (r.framed_iff.mpr ⟨hoffsets, hbound⟩)
        hpending
    rw [perform_execute] at hreturns ⊢
    cases hrun : executeScsiCommand target l.session.retag.itt l.session.cmdsn l.session.expStatsn
      params turns l.conn with
    | mk outcome c =>
      rw [hrun] at hsent hends hreturns
      rcases hends with rfl | ⟨out, rfl⟩
      · exact absurd rfl hreturns
      · dsimp only at hsent ⊢
        rw [hsent, List.length_append, List.length_singleton]
        exact wrappingSucc_mod hl.next
  | logout =>
    rw [perform_logout]
    dsimp only
    rw [keeps_next, List.length_append, List.length_singleton]
    exact wrappingSucc_mod hl.next

end ops

/-! ### A whole session -/

/-- Each exchange that another one follows is answered in step. -/
def AllInStep (target : Target) (turns : Nat) : List SessionOp → Live → Prop
  | [], _ => True
  | op :: ops, l => (ops ≠ [] → op.AnsweredInStep target l)
    ∧ AllInStep target turns ops (op.perform target turns l).2

/-- **Run lemma**: the exchanges that follow one another in step carry the numbers that follow. -/
theorem runOps_numbered {target : Target} {turns : Nat} {ops : List SessionOp} {l : Live}
    (hl : l.Numbered) (hops : AllInStep target turns ops l) :
    Numbered (runOps target turns ops l).conn.sent := by
  induction ops generalizing l with
  | nil => exact hl.sent
  | cons op ops ih =>
    obtain ⟨hop, hrest⟩ := hops
    have hsent : Numbered (op.perform target turns l).2.conn.sent := perform_sent hl op
    have hlast : ops = [] → ∀ l', (op.perform target turns l).2 = l' →
        Numbered (runOps target turns ops l').conn.sent := by
      rintro rfl l' rfl
      exact hsent
    have hgo : (op.perform target turns l).1 ≠ .blocked → ∀ l', (op.perform target turns l).2 = l' →
        Numbered (runOps target turns ops l').conn.sent := by
      rintro hreturns l' rfl
      by_cases hops : ops = []
      · exact hlast hops _ rfl
      · exact ih (perform_next hl (hop hops) hreturns) hrest
    rw [runOps]
    cases hrun : op.perform target turns l with
    | mk outcome l' =>
      rw [hrun] at hgo hsent
      cases outcome with
      | ok u => exact hgo nofun l' rfl
      | err e => exact hgo nofun l' rfl
      | panic => exact hsent
      | blocked => exact hsent

namespace LoginNegotiator

variable {target : Target} {turns : Nat} {neg neg' : LoginNegotiator} {c c' : Conn}

theorem stageLoop_cmdsn (h : stageLoop target neg turns c = (.ok neg', c')) :
    neg'.cmdsn = neg.cmdsn := by
  induction turns generalizing neg c with
  | zero => cases h
  | succ turns ih =>
    rw [stageLoop] at h
    obtain ⟨rsp, c₁, -, h⟩ := Prog.bind_eq_ok.mp h
    by_cases hopcode : rsp.bhs.opcode = OP_LOGIN_RSP
    · rw [if_neg (not_not.mpr hopcode)] at h
      by_cases hclass : rsp.bhs.loginStatus.1 = 0
      · rw [if_neg (not_not.mpr hclass)] at h
        obtain ⟨neg₁, c₁, hnote, h⟩ := Prog.bind_eq_ok.mp h
        obtain ⟨-, hcmdsn⟩ := noteStatus_ok hnote
        by_cases hfinal : rsp.bhs.isFinal = true
        · rw [if_pos hfinal] at h
          cases h
          exact hcmdsn
        · rw [if_neg hfinal] at h
          exact (ih h).trans hcmdsn
      · rw [if_pos hclass] at h
        cases h
    · rw [if_pos hopcode] at h
      cases h

theorem loginStage_sent {flags : UInt8} {offers : List TextParam} :
    (loginStage target turns neg flags offers c).2.sent
      = c.sent ++ [neg.stageRequest flags offers] := by
  rw [loginStage, Prog.bind_run_ok (Conn.write_run _ _), keeps_stageLoop]

/-- A login stage sends one command; the negotiator it leaves holds the next number. -/
theorem loginStage_numbered {flags : UInt8} {offers : List TextParam} (hsent : Numbered c.sent)
    (hnext : neg.cmdsn = c.sent.length % 2 ^ 32) :
    Numbered (loginStage target turns neg flags offers c).2.sent
      ∧ ∀ neg' c', loginStage target turns neg flags offers c = (.ok neg', c') →
        neg'.cmdsn = c'.sent.length % 2 ^ 32 := by
  constructor
  · rw [loginStage_sent]
    exact hsent.append (by rw [stageRequest, loginRequest_cmdsn, hnext, Nat.mod_mod])
  · intro neg' c' hrun
    have hafter := @loginStage_sent target turns neg c flags offers
    rw [hrun] at hafter
    rw [loginStage, Prog.bind_run_ok (Conn.write_run _ _)] at hrun
    rw [stageLoop_cmdsn hrun, hafter, List.length_append, List.length_singleton]
    exact wrappingSucc_mod hnext

theorem login_numbered {timeouts : IscsiTimeouts} {isid : Block 6}
    {sessionType initiatorName : String} {targetName : Option String} :
    Numbered ((new timeouts isid).login target turns sessionType initiatorName targetName
        ⟨[], 0⟩).2.sent
      ∧ ∀ neg' c', (new timeouts isid).login target turns sessionType initiatorName targetName
          ⟨[], 0⟩ = (.ok neg', c') → neg'.cmdsn = c'.sent.length % 2 ^ 32 := by
  obtain ⟨hsent, hnext⟩ := @loginStage_numbered target turns (new timeouts isid) ⟨[], 0⟩
    (NSG_SECURITY ||| NSG_OPERATIONAL ||| TRANSIT ||| 0x01) securityOffers Numbered.nil rfl
  unfold login
  cases hrun : loginStage target turns (new timeouts isid)
    (NSG_SECURITY ||| NSG_OPERATIONAL ||| TRANSIT ||| 0x01) securityOffers ⟨[], 0⟩ with
  | mk outcome c =>
    rw [hrun] at hsent
    cases outcome with
    | ok neg =>
      rw [Prog.bind_run_ok hrun]
      exact loginStage_numbered hsent (hnext neg c hrun)
    | err e =>
      rw [Prog.bind_run_err hrun]
      exact ⟨hsent, fun _ _ h => by cases h⟩
    | panic =>
      rw [Prog.bind_run, Prog.andThen, hrun]
      exact ⟨hsent, fun _ _ h => by cases h⟩
    | blocked =>
      rw [Prog.bind_run, Prog.andThen, hrun]
      exact ⟨hsent, fun _ _ h => by cases h⟩

end LoginNegotiator

/-- Every exchange of the session that another one follows is answered in step. -/
def SessionInStep (target : Target) (turns : Nat) (timeouts : IscsiTimeouts) (isid : Block 6)
    (sessionType initiatorName : String) (targetName : Option String) (ops : List SessionOp) : Prop :=
  ∀ neg c, (LoginNegotiator.new timeouts isid).login target turns sessionType initiatorName
      targetName ⟨[], 0⟩ = (.ok neg, c) →
    AllInStep target turns ops ⟨IscsiSession.ofNegotiator neg sessionType targetName, c⟩

section session

variable {target : Target} {turns : Nat} {timeouts : IscsiTimeouts} {isid : Block 6}
  {sessionType initiatorName : String} {targetName : Option String} {ops : List SessionOp}

theorem runSession_numbered
    (h : SessionInStep target turns timeouts isid sessionType initiatorName targetName ops) :
    Numbered (runSession target turns timeouts isid sessionType initiatorName targetName ops).sent := by
  obtain ⟨hsent, hnext⟩ := @LoginNegotiator.login_numbered target turns timeouts isid sessionType
    initiatorName targetName
  rw [runSession]
  cases hrun : (LoginNegotiator.new timeouts isid).login target turns sessionType initiatorName
    targetName ⟨[], 0⟩ with
  | mk outcome c =>
    rw [hrun] at hsent
    cases outcome with
    | ok neg => exact runOps_numbered ⟨hsent, hnext neg c hrun⟩ (h neg c hrun)
    | err e => exact hsent
    | panic => exact hsent
    | blocked => exact hsent

end session

/-- No two commands that are numbered carry the same number. -/
def DistinctCmdSN (sent : List Pdu) : Prop :=
  ((sent.filter fun p => !p.bhs.isImmediate).map fun p => p.bhs.cmdsn).Nodup

theorem Numbered.distinct {sent : List Pdu} (h : Numbered sent) (hlen : sent.length ≤ 2 ^ 32) :
    DistinctCmdSN sent :=
  (h.nodup hlen).sublist (List.filter_sublist.map _)

/-! ## In step -/

/-- **A text exchange is in step exactly with a reply in one response**, and in a session whose
exchanges are answered in step the commands carry distinct numbers, up to the 2^32 there are. -/
theorem text_inStep_and_distinct (target : Target) :
    (∀ c neg request r, ServesText target c neg request r →
      (InStep target c neg request r ↔ r.Single))
    ∧ ∀ turns timeouts isid sessionType initiatorName targetName ops,
        SessionInStep target turns timeouts isid sessionType initiatorName targetName ops →
        (runSession target turns timeouts isid sessionType initiatorName targetName
          ops).sent.length ≤ 2 ^ 32 →
        DistinctCmdSN (runSession target turns timeouts isid sessionType initiatorName targetName
          ops).sent :=
  ⟨inStep_iff target, fun _ _ _ _ _ _ _ h hlen => (runSession_numbered h).distinct hlen⟩

/-! ### Replies in one and in two responses -/

def sampleParam : TextParam := ⟨"TargetName", "iqn.disk"⟩

theorem sampleParam_valid : sampleParam.Valid := ⟨by decide, by decide, by decide⟩

/-- The response to a text request: final, or with a tag for the rest. -/
def textResponse (final : Bool) (ttt statsn : Nat) (data : Bytes) : Pdu :=
  (Pdu.new OP_TEXT_RSP final data).withFields [(20, be 4 ttt), (24, be 4 statsn)]

def oneResponse : TextReply where
  params := [sampleParam]
  front := []
  last := textResponse true TTT_NONE 2 (TextParam.encode [sampleParam])
  valid := by simpa using sampleParam_valid
  opcode := by decide
  content := by decide
  pending := by decide
  final := by decide

/-- The pair straddles the two responses. -/
def twoResponses : TextReply where
  params := [sampleParam]
  front := [textResponse false 7 2 ((TextParam.encode [sampleParam]).take 14)]
  last := textResponse true TTT_NONE 3 ((TextParam.encode [sampleParam]).drop 14)
  valid := by simpa using sampleParam_valid
  opcode := by decide
  content := by decide
  pending := by decide
  final := by decide

/-- A target that answers each PDU with the next response of the reply. -/
def answering (r : TextReply) : Target := fun sent => r.pdus.take sent.length

theorem answering_serves (r : TextReply) (neg : LoginNegotiator) (request : List TextParam) :
    ServesText (answering r) ⟨[], 0⟩ neg request r := by
  refine ⟨rfl, fun conts _ _ _ => ?_⟩
  rw [answering, List.nil_append, List.length_cons, answering, List.length_nil, List.take_zero,
    List.nil_append]

def sampleNegotiator : LoginNegotiator := LoginNegotiator.new ⟨5000, 30000⟩ (Block.ofNat 6 0)

theorem oneResponse_inStep_and_distinct :
    InStep (answering oneResponse) ⟨[], 0⟩ sampleNegotiator [] oneResponse
      ∧ DistinctCmdSN (runSession (answering oneResponse) 1 ⟨5000, 30000⟩ (Block.ofNat 6 0)
          "Discovery" "iqn.host" none []).sent := by
  obtain ⟨htext, hsession⟩ := text_inStep_and_distinct (answering oneResponse)
  refine ⟨(htext _ _ _ _ (answering_serves oneResponse _ _)).mpr ⟨rfl, by decide⟩, ?_⟩
  refine hsession _ _ _ _ _ _ _ (fun _ _ _ => trivial) ?_
  decide

/-- The continuation is sent with the tag and again without one, and the pair is lost. -/
theorem twoResponses_not_inStep :
    ServesText (answering twoResponses) ⟨[], 0⟩ sampleNegotiator [] twoResponses
      ∧ ¬ InStep (answering twoResponses) ⟨[], 0⟩ sampleNegotiator [] twoResponses := by
  have hserves := answering_serves twoResponses sampleNegotiator []
  refine ⟨hserves, fun h => ?_⟩
  exact absurd ((inStep_iff _ _ _ _ _ hserves).mp h).front (List.cons_ne_nil _ _)

end Iscsi

end DiscCleaner
