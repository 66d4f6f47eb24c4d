import DiscCleaner.Lib.Transition
import DiscCleaner.Tpm.Seal

/-!
# DiscCleaner — the handles of a seal and an unseal

A successful response to `StartAuthSession` or `Load` hands out a handle. The module says exactly
after which answers a call leaves none of them loaded.

## Main results

* `seal_settled_iff`, `unseal_settled_iff` — when every handle was flushed
* `nothingLoaded_iff` — both, over any transport
-/

namespace DiscCleaner

open ByteLib ProgLib CustodyLib

namespace Tpm

namespace TpmExchange

variable (e : TpmExchange)

/-- The command code of the header. -/
def code : Nat := beNat (slice e.command 6 4)

/-- The parameters of a successful response. -/
def params : Option Bytes :=
  match e.reply with
  | .ok response =>
    match classifyResponse response with
    | .ok params => some params
    | .error _ => none
  | .error _ => none

/-- The session or object handle that a successful response hands out. -/
def handedOut : Option Nat :=
  if e.code = TPM_CC_START_AUTH_SESSION ∨ e.code = TPM_CC_LOAD then
    e.params.bind fun p => if 4 ≤ p.length then some (beNat (p.take 4)) else none
  else none

/-- The subject of a FlushContext command. -/
def flushed : Option Nat :=
  if e.code = TPM_CC_FLUSH_CONTEXT then some (beNat (slice e.command 10 4)) else none

end TpmExchange

/-- Every handle that was handed out was flushed afterwards. -/
abbrev NothingLoaded (es : List TpmExchange) : Prop :=
  Settled TpmExchange.handedOut TpmExchange.flushed es

/-- No handle was handed out. -/
abbrev NoHandle (es : List TpmExchange) : Prop := Idle TpmExchange.handedOut es

/-! ## Which answers the ladders accept -/

def accepts {α : Type} (r : Reader α) (params : Bytes) : Bool := (r.value params).isOk

def acceptsPcrRead (params : Bytes) : Bool :=
  match parsePcrRead.value params with
  | .ok read => read.digests ≠ []
  | .error _ => false

/-- The parsers of a seal's answers, up to the clean-up. Of the second digest only the header is
looked at. -/
def sealLadder : List (Bytes → Bool) :=
  [acceptsPcrRead, accepts Reader.tpm2b, accepts parseStartAuthSession, fun _ => true,
    accepts parsePolicyDigest, fun _ => true, accepts parseCreateSealed]

/-- The parsers of an unseal's answers, up to the session. -/
def unsealLadder : List (Bytes → Bool) :=
  [accepts parseLoad, acceptsPcrRead, accepts Reader.tpm2b, accepts parseStartAuthSession]

/-- The answer is a success that the parser accepts. -/
def Answers (accept : Bytes → Bool) (e : TpmExchange) : Prop :=
  ∃ p, e.params = some p ∧ accept p = true

/-- Each answer, as far as the ladder goes, is accepted by its parser. -/
def Accepted (ladder : List (Bytes → Bool)) (es : List TpmExchange) : Prop :=
  ∀ p ∈ es.zip ladder, Answers p.2 p.1

theorem accepted_cons {accept : Bytes → Bool} {ladder : List (Bytes → Bool)} {e : TpmExchange}
    {es : List TpmExchange} :
    Accepted (accept :: ladder) (e :: es) ↔ Answers accept e ∧ Accepted ladder es := by
  rw [Accepted, List.zip_cons_cons, List.forall_mem_cons]
  rfl

/-- The ladder has ended. -/
theorem accepted_nil (es : List TpmExchange) : Accepted [] es := by
  intro p hp
  rw [List.zip_nil_right] at hp
  cases hp

/-! ## Commands -/

theorem slice_code (tag : Nat) {code : Nat} (body : Bytes) :
    slice (intoCommand tag code body) 6 4 = be 4 code := by
  have hfront : (be 2 tag ++ be 4 (10 + body.length)).length = 6 := by
    rw [List.length_append, be_length, be_length]
  rw [slice, intoCommand, List.append_assoc, List.drop_left' hfront, List.take_left' (be_length 4 code)]

theorem slice_body (tag code : Nat) (body : Bytes) :
    slice (intoCommand tag code body) 10 4 = body.take 4 := by
  have hfront : (be 2 tag ++ be 4 (10 + body.length) ++ be 4 code).length = 10 := by
    rw [List.length_append, List.length_append, be_length, be_length, be_length]
  rw [slice, intoCommand, List.drop_left' hfront]

section

variable {e : TpmExchange} {tag code : Nat} {body : Bytes}

theorem code_of_command (h : e.command = intoCommand tag code body) (hcode : code < 2 ^ 32) :
    e.code = code := by
  rw [TpmExchange.code, h, slice_code, beNat_be (by simpa using hcode)]

/-- Only two commands hand out handles. -/
theorem handedOut_of_code (h : e.command = intoCommand tag code body) (hcode : code < 2 ^ 32)
    (hstart : code ≠ TPM_CC_START_AUTH_SESSION) (hload : code ≠ TPM_CC_LOAD) :
    e.handedOut = none := by
  rw [TpmExchange.handedOut, code_of_command h hcode, if_neg (not_or.mpr ⟨hstart, hload⟩)]

theorem flushed_of_code (h : e.command = intoCommand tag code body) (hcode : code < 2 ^ 32)
    (hflush : code ≠ TPM_CC_FLUSH_CONTEXT) : e.flushed = none := by
  rw [TpmExchange.flushed, code_of_command h hcode, if_neg hflush]

theorem flushed_of_flush {handle : Nat} (h : e.command = encodeFlushContext handle)
    (hhandle : handle < 2 ^ 32) : e.flushed = some handle := by
  rw [TpmExchange.flushed, code_of_command h (by decide), if_pos rfl, h, encodeFlushContext, slice_body,
    List.take_of_length_le (by rw [be_length]), beNat_be (by simpa using hhandle)]

end

/-! ## Rungs -/

section

variable {S α β : Type} {tpm : Transport S} {accept : Bytes → Bool} {V : Bytes → α → Prop}

/-- One exchange: a value when the answer is accepted, and an error when not. -/
def Rung (m : Prog (Host S) TpmError α) (command : Bytes) (accept : Bytes → Bool)
    (V : Bytes → α → Prop) : Prop :=
  ∀ h, ∃ e : TpmExchange, e.command = command ∧ (m h).2.log = h.log ++ [e]
    ∧ ((∃ a p, (m h).1 = .ok a ∧ e.params = some p ∧ accept p = true ∧ V p a)
      ∨ (∃ err, (m h).1 = .err err) ∧ ¬ Answers accept e)

theorem rung_transactOwned {f : Bytes → Except TpmError α} (command : Bytes) :
    Rung (transactOwned tpm command >>= fun params => Prog.ofExcept (f params)) command
      (fun p => (f p).isOk) fun p a => f p = .ok a := by
  intro h
  refine ⟨⟨command, (tpm.transact command h.tpm).1⟩, rfl, ?_⟩
  simp only [transactOwned, transact, Prog.bind_run, Prog.andThen]
  cases hreply : (tpm.transact command h.tpm).1 with
  | error err =>
    refine ⟨rfl, Or.inr ⟨⟨err, rfl⟩, ?_⟩⟩
    rintro ⟨p, hp, -⟩
    cases hp
  | ok response =>
    simp only [replied]
    cases hclass : classifyResponse response with
    | error err =>
      refine ⟨rfl, Or.inr ⟨⟨err, rfl⟩, ?_⟩⟩
      rintro ⟨p, hp, -⟩
      simp [TpmExchange.params, hclass] at hp
    | ok params =>
      have hparams : TpmExchange.params ⟨command, .ok response⟩ = some params := by
        simp [TpmExchange.params, hclass]
      simp only [Prog.ofExcept, Prog.ret]
      cases hf : f params with
      | ok a => exact ⟨rfl, Or.inl ⟨a, params, rfl, hparams, by simp [hf, Except.isOk, Except.toBool], hf⟩⟩
      | error err =>
        refine ⟨rfl, Or.inr ⟨⟨err, rfl⟩, ?_⟩⟩
        rintro ⟨p, hp, haccept⟩
        rw [hparams] at hp
        cases hp
        simp [hf, Except.isOk, Except.toBool] at haccept

theorem Rung.mono {m : Prog (Host S) TpmError α} {command : Bytes} {V' : Bytes → α → Prop}
    (h : Rung m command accept V) (hV : ∀ p a, V p a → V' p a) : Rung m command accept V' := by
  intro s
  obtain ⟨e, hcommand, hlog, hok | herr⟩ := h s
  · obtain ⟨a, p, hrun, hp, haccept, hV'⟩ := hok
    exact ⟨e, hcommand, hlog, Or.inl ⟨a, p, hrun, hp, haccept, hV p a hV'⟩⟩
  · exact ⟨e, hcommand, hlog, Or.inr herr⟩

theorem rung_parse {r : Reader α} (what : String) (command : Bytes) :
    Rung (transactOwned tpm command >>= fun params => Prog.ofExcept (wireStep what (r.value params)))
      command (accepts r) fun p a => r.value p = .ok a := by
  have hrung := @rung_transactOwned S α tpm (fun p => wireStep what (r.value p)) command
  have haccept : (fun p => (wireStep what (r.value p)).isOk) = accepts r := by
    funext p
    unfold accepts wireStep
    cases r.value p <;> rfl
  rw [haccept] at hrung
  refine hrung.mono fun p a h => ?_
  unfold wireStep at h
  cases hvalue : r.value p with
  | ok b =>
    rw [hvalue] at h
    cases h
    rfl
  | error e =>
    rw [hvalue] at h
    cases h

theorem rung_wire {r : Reader α} (command : Bytes) :
    Rung (transactOwned tpm command >>= fun params => Prog.ofExcept (wireResult (r.value params)))
      command (accepts r) fun _ _ => True := by
  have hrung := @rung_transactOwned S α tpm (fun p => wireResult (r.value p)) command
  have haccept : (fun p => (wireResult (r.value p)).isOk) = accepts r := by
    funext p
    unfold accepts wireResult
    cases r.value p <;> rfl
  rw [haccept] at hrung
  exact hrung.mono fun _ _ _ => True.intro

/-- Only the header of the answer is looked at. -/
theorem rung_header (command : Bytes) :
    Rung (transactOwned tpm command) command (fun _ => true) fun _ _ => True := by
  intro h
  obtain ⟨e, hcommand, hlog, hends⟩ := @rung_transactOwned S Bytes tpm .ok command h
  have hrun : (transactOwned tpm command >>= fun params => Prog.ofExcept (.ok params)) h
      = transactOwned tpm command h := by
    show Prog.andThen _ _ h = _
    unfold Prog.andThen
    cases hm : transactOwned tpm command h with
    | mk outcome s => cases outcome <;> rfl
  rw [hrun] at hlog hends
  refine ⟨e, hcommand, hlog, ?_⟩
  rcases hends with ⟨a, p, hok, hp, -⟩ | ⟨herr, hno⟩
  · exact Or.inl ⟨a, p, hok, hp, rfl, True.intro⟩
  · exact Or.inr ⟨herr, hno⟩

/-! ## How a call ends -/

/-- However it ends, the program leaves exchanges like these. -/
def EndsWith (m : Prog (Host S) TpmError α) (Q : List TpmExchange → Prop) : Prop :=
  ∀ h, ∃ es, (m h).2.log = h.log ++ es ∧ Q es

variable {Q : List TpmExchange → Prop} {m : Prog (Host S) TpmError α}
  {k : α → Prog (Host S) TpmError β}

theorem EndsWith.of_keeps (hm : Prog.Keeps Host.log m) (hQ : Q []) : EndsWith m Q := fun h =>
  ⟨[], by rw [List.append_nil]; exact hm h, hQ⟩

theorem endsWith_of_err {h h' : Host S} {err : TpmError} {es : List TpmExchange}
    (hrun : m h = (.err err, h')) (hlog : h'.log = h.log ++ es) (hQ : Q es) :
    ∃ es, ((m >>= k) h).2.log = h.log ++ es ∧ Q es := by
  rw [Prog.bind_run_err hrun]
  exact ⟨es, hlog, hQ⟩

/-- **One rung**, and what follows when its answer is accepted. -/
theorem Rung.endsWith {command : Bytes} (hm : Rung m command accept V)
    (hrefused : ∀ e, e.command = command → ¬ Answers accept e → Q [e])
    (hk : ∀ a e, e.command = command → Answers accept e →
      (∃ p, e.params = some p ∧ V p a) → EndsWith (k a) fun es => Q (e :: es)) :
    EndsWith (m >>= k) Q := by
  intro h
  obtain ⟨e, hcommand, hlog, hends⟩ := hm h
  cases hrun : m h with
  | mk outcome h' =>
    rw [hrun] at hlog hends
    rcases hends with ⟨a, p, rfl, hp, haccept, hV⟩ | ⟨⟨err, rfl⟩, hno⟩
    · obtain ⟨es, hlog', hQ⟩ := hk a e hcommand ⟨p, hp, haccept⟩ ⟨p, hp, hV⟩ h'
      rw [Prog.bind_run_ok hrun]
      refine ⟨e :: es, ?_, hQ⟩
      rw [hlog', hlog, List.append_assoc, List.singleton_append]
    · exact endsWith_of_err hrun hlog (hrefused e hcommand hno)

theorem bind_assoc {γ : Type} (m : Prog (Host S) TpmError α) (f : α → Prog (Host S) TpmError β)
    (g : β → Prog (Host S) TpmError γ) : m >>= f >>= g = m >>= fun a => f a >>= g := by
  funext h
  show Prog.andThen (Prog.andThen m f) g h = Prog.andThen m _ h
  unfold Prog.andThen
  cases m h with
  | mk outcome h' => cases outcome <;> rfl

/-! ### The helpers -/

/-- What the digest step makes of the parameters. -/
def pcrDigestOf (sha256 : Bytes → Bytes) (params : Bytes) : Except TpmError Bytes :=
  match wireStep "PCR_Read" (parsePcrRead.value params) with
  | .error e => .error e
  | .ok read =>
    if read.digests = [] then .error (.policy "selected PCRs returned no digests — bank mismatch?")
    else .ok (sha256 read.digests.flatten)

theorem currentPcrDigest_eq (sha256 : Bytes → Bytes) (selection : PcrSelectionList) :
    currentPcrDigest tpm sha256 selection = transactOwned tpm (encodePcrRead selection) >>=
      fun params => Prog.ofExcept (pcrDigestOf sha256 params) := by
  refine congrArg (transactOwned tpm (encodePcrRead selection) >>= ·) ?_
  funext params h
  unfold pcrDigestOf
  cases hread : wireStep "PCR_Read" (parsePcrRead.value params) with
  | error e => exact Prog.bind_run_err rfl
  | ok read =>
    rw [Prog.bind_run_ok (show (Prog.ofExcept (.ok read) : Prog (Host S) TpmError PcrReadResponse) h
      = (.ok read, h) from rfl)]
    by_cases hempty : read.digests = []
    · simp only [hempty, if_pos]
      rfl
    · simp only [hempty, if_neg, not_false_eq_true]
      rfl

theorem rung_currentPcrDigest (sha256 : Bytes → Bytes) (selection : PcrSelectionList) :
    Rung (currentPcrDigest tpm sha256 selection) (encodePcrRead selection) acceptsPcrRead
      fun _ _ => True := by
  have haccept : (fun p => (pcrDigestOf sha256 p).isOk) = acceptsPcrRead := by
    funext p
    unfold pcrDigestOf acceptsPcrRead wireStep
    cases parsePcrRead.value p with
    | error e => rfl
    | ok read =>
      by_cases hempty : read.digests = []
      · simp [hempty, Except.isOk, Except.toBool]
      · simp [hempty, Except.isOk, Except.toBool]
  rw [currentPcrDigest_eq, ← haccept]
  exact (rung_transactOwned (encodePcrRead selection)).mono fun _ _ _ => True.intro

/-- A parser that starts with a 32-bit word has read it off the front. -/
theorem front_of_value {f : Nat → Reader α} {p : Bytes} {a : α}
    (h : (Reader.u32 >>= f).value p = .ok a) :
    4 ≤ p.length ∧ ∃ c c', f (beNat (p.take 4)) c = .ok (a, c') := by
  obtain ⟨c', hrun⟩ := Read.value_eq_ok.mp h
  obtain ⟨v, c, hword, hf⟩ := Read.bind_eq_ok.mp hrun
  obtain ⟨b, c₁, htake, hret⟩ := Read.bind_eq_ok.mp hword
  cases hret
  by_cases hlen : p.length < 4
  · rw [Reader.take, if_pos hlen] at htake
    cases htake
  · rw [Reader.take, if_neg hlen] at htake
    cases htake
    exact ⟨Nat.le_of_not_lt hlen, _, _, hf⟩

theorem take_beNat_lt (p : Bytes) : beNat (p.take 4) < 2 ^ 32 := by
  have hlt := beNat_lt (p.take 4)
  have hpow : 256 ^ (p.take 4).length ≤ 256 ^ 4 :=
    Nat.pow_le_pow_right (by decide) (List.length_take_le 4 p)
  exact Nat.lt_of_lt_of_le hlt hpow

theorem handle_of_parseStartAuthSession {p : Bytes} {r : StartAuthSessionResponse}
    (h : parseStartAuthSession.value p = .ok r) :
    4 ≤ p.length ∧ r.sessionHandle = beNat (p.take 4) := by
  obtain ⟨hlen, c, c', hrest⟩ := front_of_value h
  refine ⟨hlen, ?_⟩
  by_cases hclass : beNat (p.take 4) >>> 24 ≠ 0x03
  · rw [if_pos hclass] at hrest
    cases hrest
  · rw [if_neg hclass] at hrest
    obtain ⟨nonce, c₁, -, hret⟩ := Read.bind_eq_ok.mp hrest
    cases hret
    rfl

theorem handle_of_parseLoad {p : Bytes} {r : LoadResponse} (h : parseLoad.value p = .ok r) :
    4 ≤ p.length ∧ r.handle = beNat (p.take 4) := by
  obtain ⟨hlen, c, c', hrest⟩ := front_of_value h
  refine ⟨hlen, ?_⟩
  obtain ⟨name, c₁, -, hname⟩ := Read.bind_eq_ok.mp hrest
  by_cases hclass : beNat (p.take 4) >>> 24 ≠ 0x80
  · rw [if_pos hclass] at hname
    cases hname
  · rw [if_neg hclass] at hname
    cases hname
    rfl

theorem handedOut_of_front {e : TpmExchange} {p : Bytes}
    (hcode : e.code = TPM_CC_START_AUTH_SESSION ∨ e.code = TPM_CC_LOAD) (hp : e.params = some p)
    (hlen : 4 ≤ p.length) : e.handedOut = some (beNat (p.take 4)) := by
  rw [TpmExchange.handedOut, if_pos hcode, hp]
  show (if 4 ≤ p.length then _ else _) = _
  rw [if_pos hlen]

/-- **A session**, and what follows when it is there. -/
theorem endsWith_startSession {kind : Nat} {k : Nat → Prog (Host S) TpmError β}
    (hrandom : ∀ e, e.handedOut = none → e.flushed = none →
      ¬ Answers (accepts Reader.tpm2b) e → Q [e])
    (hrefused : ∀ e₁ e₂, e₁.handedOut = none → e₁.flushed = none →
      Answers (accepts Reader.tpm2b) e₁ → e₂.flushed = none →
      ¬ Answers (accepts parseStartAuthSession) e₂ → Q [e₁, e₂])
    (hk : ∀ session e₁ e₂, session < 2 ^ 32 → e₁.handedOut = none →
      Answers (accepts Reader.tpm2b) e₁ → Answers (accepts parseStartAuthSession) e₂ →
      e₂.handedOut = some session → e₂.flushed = none →
      EndsWith (k session) fun es => Q (e₁ :: e₂ :: es)) :
    EndsWith (startSession tpm kind >>= k) Q := by
  have hstart := fun command : Bytes => @rung_parse S _ tpm parseStartAuthSession "StartAuthSession"
    command
  unfold startSession
  rw [← bind_assoc, bind_assoc]
  refine (rung_wire (encodeGetRandom 16)).endsWith ?_ ?_
  · intro e hcommand hno
    exact hrandom e (handedOut_of_code hcommand (by decide) (by decide) (by decide))
      (flushed_of_code hcommand (by decide) (by decide)) hno
  · intro nonce e₁ hcommand hanswers _
    have hidle := handedOut_of_code hcommand (by decide) (by decide) (by decide)
    have hkeep := flushed_of_code hcommand (by decide) (by decide)
    rw [← bind_assoc, bind_assoc]
    refine (hstart _).endsWith ?_ ?_
    · intro e₂ hcommand₂ hno
      exact hrefused e₁ e₂ hidle hkeep hanswers (flushed_of_code hcommand₂ (by decide) (by decide)) hno
    · rintro started e₂ hcommand₂ hanswers₂ ⟨p, hp, hvalue⟩
      obtain ⟨hlen, hhandle⟩ := handle_of_parseStartAuthSession hvalue
      have hcode : e₂.code = TPM_CC_START_AUTH_SESSION := code_of_command hcommand₂ (by decide)
      have hgives := handedOut_of_front (Or.inl hcode) hp hlen
      refine hk _ e₁ e₂ ?_ hidle hanswers hanswers₂ ?_
        (flushed_of_code hcommand₂ (by decide) (by decide))
      · rw [hhandle]
        exact take_beNat_lt p
      · rw [hhandle]
        exact hgives

theorem endsWith_runPolicyPcr {session : Nat} {selection : PcrSelectionList} {pcrDigest : Bytes}
    {k : Bytes → Prog (Host S) TpmError β}
    (hpolicy : ∀ e, e.handedOut = none → e.flushed = none → ¬ Answers (fun _ => true) e → Q [e])
    (hdigest : ∀ e₁ e₂, e₁.handedOut = none → e₁.flushed = none → e₂.handedOut = none →
      e₂.flushed = none → ¬ Answers (accepts parsePolicyDigest) e₂ → Q [e₁, e₂])
    (hk : ∀ digest e₁ e₂, e₁.handedOut = none → e₁.flushed = none → e₂.handedOut = none →
      e₂.flushed = none → Answers (fun _ => true) e₁ → Answers (accepts parsePolicyDigest) e₂ →
      EndsWith (k digest) fun es => Q (e₁ :: e₂ :: es)) :
    EndsWith (runPolicyPcr tpm session selection pcrDigest >>= k) Q := by
  unfold runPolicyPcr
  rw [bind_assoc]
  refine (rung_header (encodePolicyPcr session selection pcrDigest)).endsWith ?_ ?_
  · intro e hcommand hno
    exact hpolicy e (handedOut_of_code hcommand (by decide) (by decide) (by decide))
      (flushed_of_code hcommand (by decide) (by decide)) hno
  · intro _ e₁ hcommand hanswers _
    have hidle := handedOut_of_code hcommand (by decide) (by decide) (by decide)
    have hkeep := flushed_of_code hcommand (by decide) (by decide)
    refine (rung_parse "PolicyGetDigest" (encodePolicyGetDigest session)).endsWith ?_ ?_
    · intro e₂ hcommand₂ hno
      exact hdigest e₁ e₂ hidle hkeep (handedOut_of_code hcommand₂ (by decide) (by decide) (by decide))
        (flushed_of_code hcommand₂ (by decide) (by decide)) hno
    · intro digest e₂ hcommand₂ hanswers₂ _
      exact hk digest e₁ e₂ hidle hkeep
        (handedOut_of_code hcommand₂ (by decide) (by decide) (by decide))
        (flushed_of_code hcommand₂ (by decide) (by decide)) hanswers hanswers₂

/-! ### Clean-up -/

/-- However it ends, the program is not stuck and leaves exchanges that hand out no handle. -/
def Quiet (m : Prog (Host S) TpmError α) : Prop :=
  ∀ h, ∃ es, (m h).2.log = h.log ++ es ∧ NoHandle es
    ∧ ((∃ a, (m h).1 = .ok a) ∨ ∃ err, (m h).1 = .err err)

theorem Rung.quiet {command : Bytes} (hm : Rung m command accept V)
    (hidle : ∀ e : TpmExchange, e.command = command → e.handedOut = none) : Quiet m := by
  intro h
  obtain ⟨e, hcommand, hlog, hends⟩ := hm h
  refine ⟨[e], hlog, fun f hf => ?_, ?_⟩
  · rw [List.mem_singleton.mp hf]
    exact hidle e hcommand
  · rcases hends with ⟨a, p, hrun, -⟩ | ⟨herr, -⟩
    · exact Or.inl ⟨a, hrun⟩
    · exact Or.inr herr

theorem Quiet.bind (hm : Quiet m) (hk : ∀ a, Quiet (k a)) : Quiet (m >>= k) := by
  intro h
  obtain ⟨es, hlog, hidle, hends⟩ := hm h
  cases hrun : m h with
  | mk outcome h' =>
    rw [hrun] at hlog hends
    rcases hends with ⟨a, rfl⟩ | ⟨err, rfl⟩
    · obtain ⟨es', hlog', hidle', hends'⟩ := hk a h'
      rw [Prog.bind_run_ok hrun]
      refine ⟨es ++ es', ?_, ?_, hends'⟩
      · rw [hlog', hlog, List.append_assoc]
      · intro e he
        rcases List.mem_append.mp he with he | he
        · exact hidle e he
        · exact hidle' e he
    · rw [Prog.bind_run_err hrun]
      exact ⟨es, hlog, hidle, Or.inr ⟨err, rfl⟩⟩

/-- Caught, and what follows. -/
theorem Quiet.endsWith_attempt (hm : Quiet m) {k : Except TpmError α → Prog (Host S) TpmError β}
    (hk : ∀ r es₁, NoHandle es₁ → EndsWith (k r) fun es => Q (es₁ ++ es)) :
    EndsWith (Prog.attempt m >>= k) Q := by
  intro h
  obtain ⟨es₁, hlog, hidle, hends⟩ := hm h
  have hcaught : ∃ r, Prog.attempt m h = (.ok r, (m h).2) := by
    unfold Prog.attempt
    cases hrun : m h with
    | mk outcome h' =>
      rw [hrun] at hends
      rcases hends with ⟨a, rfl⟩ | ⟨err, rfl⟩
      · exact ⟨.ok a, rfl⟩
      · exact ⟨.error err, rfl⟩
  obtain ⟨r, hrun⟩ := hcaught
  rw [Prog.bind_run_ok hrun]
  obtain ⟨es, hlog', hQ⟩ := hk r es₁ hidle (m h).2
  refine ⟨es₁ ++ es, ?_, hQ⟩
  rw [hlog', hlog, List.append_assoc]

theorem endsWith_flush {handle : Nat} {k : Unit → Prog (Host S) TpmError β}
    (hhandle : handle < 2 ^ 32)
    (hk : ∀ e : TpmExchange, e.flushed = some handle → e.handedOut = none →
      EndsWith (k ()) fun es => Q (e :: es)) : EndsWith (flush tpm handle >>= k) Q := by
  intro h
  obtain ⟨e, hcommand, hlog, hends⟩ := @rung_header S tpm (encodeFlushContext handle) h
  have hrun : flush tpm handle h = (.ok (), (transactOwned tpm (encodeFlushContext handle) h).2) := by
    show Prog.andThen (Prog.attempt _) _ h = _
    unfold Prog.andThen Prog.attempt
    cases hm : transactOwned tpm (encodeFlushContext handle) h with
    | mk outcome h' =>
      rw [hm] at hends
      rcases hends with ⟨a, p, rfl, -⟩ | ⟨⟨err, rfl⟩, -⟩ <;> rfl
  rw [Prog.bind_run_ok hrun]
  obtain ⟨es, hlog', hQ⟩ := hk e (flushed_of_flush hcommand hhandle)
    (handedOut_of_code hcommand (by decide) (by decide) (by decide))
    (transactOwned tpm (encodeFlushContext handle) h).2
  refine ⟨e :: es, ?_, hQ⟩
  rw [hlog', hlog, List.append_assoc, List.singleton_append]

end

/-! ## The two calls -/

/-- Nothing is loaded exactly if nothing was handed out or the ladder's answers are accepted. -/
def Exactly (ladder : List (Bytes → Bool)) (es : List TpmExchange) : Prop :=
  NothingLoaded es ↔ NoHandle es ∨ Accepted ladder es

theorem exactly_of_noHandle {ladder : List (Bytes → Bool)} {es : List TpmExchange}
    (h : NoHandle es) : Exactly ladder es := iff_of_true h.settled (Or.inl h)

/-- A handle that is flushed nowhere, and an answer that was refused. -/
theorem exactly_of_lost {ladder : List (Bytes → Bool)} (pre post : List TpmExchange)
    {e : TpmExchange} {handle : Nat} (he : e.handedOut = some handle)
    (hpost : ∀ f ∈ post, f.flushed = none) (hrefused : ¬ Accepted ladder (pre ++ e :: post)) :
    Exactly ladder (pre ++ e :: post) := by
  refine iff_of_false (not_settled he fun f hf => ?_) ?_
  · rw [hpost f hf]
    exact nofun
  · rintro (hidle | haccepted)
    · have hnone := hidle e (List.mem_append_right pre List.mem_cons_self)
      rw [he] at hnone
      cases hnone
    · exact hrefused haccepted

section

variable {S : Type} {tpm : Transport S} {sha256 : Bytes → Bytes}

theorem endsWith_seal (now : Nat) (secret : Bytes) (mask : PcrMask) :
    EndsWith («seal» tpm sha256 now secret mask) (Exactly sealLadder) := by
  have hnil : Exactly sealLadder [] := exactly_of_noHandle fun e he => absurd he List.not_mem_nil
  unfold «seal»
  by_cases hsize : secret = [] ∨ secret.length > DC_SEALED_SECRET_MAX
  · rw [if_pos hsize]
    exact .of_keeps (.fail _) hnil
  rw [if_neg hsize]
  refine (rung_currentPcrDigest sha256 _).endsWith ?_ ?_
  · intro e₁ hcommand hno
    refine exactly_of_noHandle fun e he => ?_
    rw [List.mem_singleton.mp he]
    exact handedOut_of_code hcommand (by decide) (by decide) (by decide)
  intro pcrDigest e₁ hcommand hanswers₁ _
  have hidle₁ : e₁.handedOut = none := handedOut_of_code hcommand (by decide) (by decide) (by decide)
  refine endsWith_startSession ?_ ?_ ?_
  · intro e₂ hidle₂ _ hno
    refine exactly_of_noHandle fun e he => ?_
    simp only [List.mem_cons, List.not_mem_nil, or_false] at he
    rcases he with rfl | rfl
    · exact hidle₁
    · exact hidle₂
  · -- the answer to StartAuthSession is refused; it may have handed out a handle all the same
    intro e₂ e₃ hidle₂ _ hanswers₂ hkeep₃ hno
    have hrefused : ¬ Accepted sealLadder [e₁, e₂, e₃] := by simp [sealLadder, accepted_cons, hno]
    cases hgives : e₃.handedOut with
    | none =>
      refine exactly_of_noHandle fun e he => ?_
      simp only [List.mem_cons, List.not_mem_nil, or_false] at he
      rcases he with rfl | rfl | rfl
      · exact hidle₁
      · exact hidle₂
      · exact hgives
    | some handle => exact exactly_of_lost [e₁, e₂] [] hgives (by simp) hrefused
  intro session e₂ e₃ hsession hidle₂ hanswers₂ hanswers₃ hgives hkeep₃
  refine endsWith_runPolicyPcr ?_ ?_ ?_
  · intro e₄ hidle₄ hkeep₄ hno
    exact exactly_of_lost [e₁, e₂] [e₄] hgives (by simp [hkeep₄])
      (by simp [sealLadder, accepted_cons, hno])
  · intro e₄ e₅ hidle₄ hkeep₄ hidle₅ hkeep₅ hno
    exact exactly_of_lost [e₁, e₂] [e₄, e₅] hgives (by simp [hkeep₄, hkeep₅])
      (by simp [sealLadder, accepted_cons, hno])
  intro policyDigest e₄ e₅ hidle₄ hkeep₄ hidle₅ hkeep₅ hanswers₄ hanswers₅
  refine (rung_header (encodePolicyGetDigest session)).endsWith ?_ ?_
  · intro e₆ hcommand₆ hno
    have hkeep₆ : e₆.flushed = none := flushed_of_code hcommand₆ (by decide) (by decide)
    exact exactly_of_lost [e₁, e₂] [e₄, e₅, e₆] hgives (by simp [hkeep₄, hkeep₅, hkeep₆])
      (by simp [sealLadder, accepted_cons, hno])
  intro _ e₆ hcommand₆ hanswers₆ _
  have hidle₆ : e₆.handedOut = none := handedOut_of_code hcommand₆ (by decide) (by decide) (by decide)
  have hkeep₆ : e₆.flushed = none := flushed_of_code hcommand₆ (by decide) (by decide)
  rw [← bind_assoc]
  refine (rung_parse "TPM2_Create" (encodeCreateSealed TPM_RH_OWNER policyDigest secret)).endsWith ?_ ?_
  · intro e₇ hcommand₇ hno
    have hkeep₇ : e₇.flushed = none := flushed_of_code hcommand₇ (by decide) (by decide)
    exact exactly_of_lost [e₁, e₂] [e₄, e₅, e₆, e₇] hgives (by simp [hkeep₄, hkeep₅, hkeep₆, hkeep₇])
      (by simp [sealLadder, accepted_cons, hno])
  intro created e₇ hcommand₇ hanswers₇ _
  have hidle₇ : e₇.handedOut = none := handedOut_of_code hcommand₇ (by decide) (by decide) (by decide)
  refine endsWith_flush hsession fun e₈ hflush₈ hidle₈ => ?_
  refine .of_keeps (.bind .get fun _ => .ret _) (iff_of_true ?_ (Or.inr ?_))
  · have hsubject : ∃ f ∈ [e₄, e₅, e₆, e₇, e₈], f.flushed = some session := ⟨e₈, by simp, hflush₈⟩
    refine (@settled_append TpmExchange _ _ _ [e₁, e₂] _ ?_).mpr ⟨?_, ?_⟩
    · simp [Idle, hidle₁, hidle₂]
    · intro h hh
      rw [hgives] at hh
      cases hh
      exact hsubject
    · exact Idle.settled (by simp [Idle, hidle₄, hidle₅, hidle₆, hidle₇, hidle₈])
  · simp [sealLadder, accepted_cons, accepted_nil, hanswers₁, hanswers₂, hanswers₃, hanswers₄,
      hanswers₅, hanswers₆, hanswers₇]

theorem quiet_unsealUnder (session handle : Nat) (selection : PcrSelectionList) (pcrDigest : Bytes) :
    Quiet (unsealUnder tpm session handle selection pcrDigest) := by
  have hpolicy : Quiet (runPolicyPcr tpm session selection pcrDigest) := by
    refine .bind ((rung_header _).quiet fun e h => ?_) fun _ => (rung_parse _ _).quiet fun e h => ?_
    · exact handedOut_of_code h (by decide) (by decide) (by decide)
    · exact handedOut_of_code h (by decide) (by decide) (by decide)
  exact hpolicy.bind fun _ => (rung_parse _ _).quiet fun e h =>
    handedOut_of_code h (by decide) (by decide) (by decide)

theorem endsWith_unsealLoaded (priv pub : Bytes) (mask : PcrMask) :
    EndsWith (unsealLoaded tpm sha256 priv pub mask) (Exactly unsealLadder) := by
  unfold unsealLoaded
  rw [← bind_assoc]
  refine (rung_parse "TPM2_Load" (encodeLoad TPM_RH_OWNER priv pub)).endsWith ?_ ?_
  · -- the answer to Load is refused; it may have handed out a handle all the same
    intro e₁ hcommand hno
    cases hgives : e₁.handedOut with
    | none =>
      refine exactly_of_noHandle fun e he => ?_
      rw [List.mem_singleton.mp he]
      exact hgives
    | some handle =>
      exact exactly_of_lost [] [] hgives (by simp) (by simp [unsealLadder, accepted_cons, hno])
  rintro loaded e₁ hcommand hanswers₁ ⟨p, hp, hvalue⟩
  obtain ⟨hlen, hhandle⟩ := handle_of_parseLoad hvalue
  have hcode : e₁.code = TPM_CC_LOAD := code_of_command hcommand (by decide)
  have hgives : e₁.handedOut = some loaded.handle := by
    rw [hhandle]
    exact handedOut_of_front (Or.inr hcode) hp hlen
  have hloaded : loaded.handle < 2 ^ 32 := by
    rw [hhandle]
    exact take_beNat_lt p
  refine (rung_currentPcrDigest sha256 _).endsWith ?_ ?_
  · intro e₂ hcommand₂ hno
    have hkeep₂ : e₂.flushed = none := flushed_of_code hcommand₂ (by decide) (by decide)
    exact exactly_of_lost [] [e₂] hgives (by simp [hkeep₂])
      (by simp [unsealLadder, accepted_cons, hno])
  intro pcrDigest e₂ hcommand₂ hanswers₂ _
  have hidle₂ : e₂.handedOut = none := handedOut_of_code hcommand₂ (by decide) (by decide) (by decide)
  have hkeep₂ : e₂.flushed = none := flushed_of_code hcommand₂ (by decide) (by decide)
  refine endsWith_startSession ?_ ?_ ?_
  · intro e₃ hidle₃ hkeep₃ hno
    exact exactly_of_lost [] [e₂, e₃] hgives (by simp [hkeep₂, hkeep₃])
      (by simp [unsealLadder, accepted_cons, hno])
  · intro e₃ e₄ hidle₃ hkeep₃ hanswers₃ hkeep₄ hno
    exact exactly_of_lost [] [e₂, e₃, e₄] hgives (by simp [hkeep₂, hkeep₃, hkeep₄])
      (by simp [unsealLadder, accepted_cons, hno])
  intro session e₃ e₄ hsession hidle₃ hanswers₃ hanswers₄ hgives₄ hkeep₄
  refine (quiet_unsealUnder session loaded.handle _ pcrDigest).endsWith_attempt fun result es hes => ?_
  refine endsWith_flush hsession fun e₅ hflush₅ hidle₅ => ?_
  refine endsWith_flush hloaded fun e₆ hflush₆ hidle₆ => ?_
  refine .of_keeps (.ofExcept result) (iff_of_true ?_ (Or.inr ?_))
  · refine ⟨fun h hh => ?_, ?_⟩
    · rw [hgives] at hh
      cases hh
      exact ⟨e₆, by simp, hflush₆⟩
    rw [settled_cons_of_idle hidle₂, settled_cons_of_idle hidle₃]
    refine ⟨fun h hh => ?_, ?_⟩
    · rw [hgives₄] at hh
      cases hh
      exact ⟨e₅, by simp, hflush₅⟩
    · exact (settled_append hes).mpr (Idle.settled (by simp [Idle, hidle₅, hidle₆]))
  · simp [unsealLadder, accepted_cons, accepted_nil, hanswers₁, hanswers₂, hanswers₃, hanswers₄]

theorem endsWith_unseal (blob : SealedKeyBlob) :
    EndsWith («unseal» tpm sha256 blob) (Exactly unsealLadder) := by
  have hnil : Exactly unsealLadder [] := exactly_of_noHandle fun e he => absurd he List.not_mem_nil
  unfold «unseal»
  by_cases hschema : blob.schema ≠ SealedKeyBlob.SCHEMA
  · rw [if_pos hschema]
    exact .of_keeps (.fail _) hnil
  rw [if_neg hschema]
  cases hexDecode blob.privateHex with
  | none => exact .of_keeps (.fail _) hnil
  | some priv =>
    cases hexDecode blob.publicHex with
    | none => exact .of_keeps (.fail _) hnil
    | some pub =>
      dsimp only
      cases decodeMask blob.pcrMaskHex with
      | error e => exact fun h => ⟨[], (List.append_nil _).symm, hnil⟩
      | ok mask => exact endsWith_unsealLoaded priv pub mask

/-- The exchanges of a seal. -/
def sealLog (tpm : Transport S) (sha256 : Bytes → Bytes) (s : S) (now : Nat) (secret : Bytes)
    (mask : PcrMask) : List TpmExchange :=
  («seal» tpm sha256 now secret mask ⟨s, []⟩).2.log

/-- The exchanges of an unseal. -/
def unsealLog (tpm : Transport S) (sha256 : Bytes → Bytes) (s : S) (blob : SealedKeyBlob) :
    List TpmExchange :=
  («unseal» tpm sha256 blob ⟨s, []⟩).2.log

/-- **Nothing stays loaded exactly when** no handle was handed out, or every answer up to the
clean-up of a seal, or up to the session of an unseal, is accepted. -/
theorem nothingLoaded_iff {S : Type} (tpm : Transport S) (sha256 : Bytes → Bytes) (s : S) (now : Nat)
    (secret : Bytes) (mask : PcrMask) (blob : SealedKeyBlob) :
    (NothingLoaded (sealLog tpm sha256 s now secret mask) ↔
      NoHandle (sealLog tpm sha256 s now secret mask)
        ∨ Accepted sealLadder (sealLog tpm sha256 s now secret mask))
    ∧ (NothingLoaded (unsealLog tpm sha256 s blob) ↔
      NoHandle (unsealLog tpm sha256 s blob)
        ∨ Accepted unsealLadder (unsealLog tpm sha256 s blob)) := by
  constructor
  · obtain ⟨es, hlog, hexactly⟩ := @endsWith_seal S tpm sha256 now secret mask ⟨s, []⟩
    rw [List.nil_append] at hlog
    rw [sealLog, hlog]
    exact hexactly
  · obtain ⟨es, hlog, hexactly⟩ := @endsWith_unseal S tpm sha256 blob ⟨s, []⟩
    rw [List.nil_append] at hlog
    rw [unsealLog, hlog]
    exact hexactly

end

/-! ### A policy command that is refused -/

/-- Answers one response after the other. -/
def scripted : Transport (List Bytes) where
  transact _ replies :=
    match replies with
    | [] => (.error (.io "TPM closed mid-response"), [])
    | reply :: replies => (.ok reply, replies)
  describe _ := "scripted"

def okResponse (params : Bytes) : Bytes :=
  be 2 TPM_ST_NO_SESSIONS ++ be 4 (10 + params.length) ++ be 4 TPM_RC_SUCCESS ++ params

def errorResponse (code : Nat) : Bytes := be 2 TPM_ST_NO_SESSIONS ++ be 4 10 ++ be 4 code

theorem lowByte_length : ([0x01, 0, 0, 0] : Bytes).length = 4 := rfl

/-- Register 0. -/
def firstPcr : PcrMask := ⟨[0x01, 0, 0, 0], lowByte_length⟩

/-- One register, some entropy and a session; PolicyPCR is answered with `TPM_RC_PCR_CHANGED`. -/
def refusedPolicy : List Bytes :=
  [okResponse ((PcrSelectionList.singleSha256 firstPcr).write ++ be 4 1
      ++ tpm2b (List.replicate 32 0)),
    okResponse (tpm2b [7]), okResponse (be 4 0x03000001 ++ tpm2b [7]), errorResponse 0x128]

/-- The seal fails, and its session stays. -/
theorem refusedPolicy_not_nothingLoaded :
    ¬ NothingLoaded (sealLog scripted (fun _ => []) refusedPolicy 0 [1] firstPcr) := by
  have hgives : ∃ e ∈ sealLog scripted (fun _ => []) refusedPolicy 0 [1] firstPcr,
      e.handedOut = some 0x03000001 := by decide
  have hkeep : ∀ e ∈ sealLog scripted (fun _ => []) refusedPolicy 0 [1] firstPcr,
      e.flushed = none := by decide
  obtain ⟨e, he, hhandle⟩ := hgives
  obtain ⟨pre, post, hsplit⟩ := List.append_of_mem he
  rw [hsplit] at hkeep ⊢
  refine not_settled hhandle fun f hf => ?_
  rw [hkeep f (List.mem_append_right pre (List.mem_cons_of_mem e hf))]
  exact nofun

end Tpm

end DiscCleaner
