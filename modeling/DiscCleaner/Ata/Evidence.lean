import DiscCleaner.Ata.Lifeline
import DiscCleaner.Nvme.Evidence

/-!
# DiscCleaner — what the ATA ladder goes by

The ladder is what follows the intake: the sanitize commands with their log reads, and the
commands of a security erase. The geometry probes before it and the IDENTIFY after it only fill
in the summary. A log page is decoded whatever status the read ended with.
-/

namespace DiscCleaner

open ByteLib DialogueLib LadderLib

namespace AtaPurgeClient

/-! ## Exchanges as events -/

/-- The mechanism of a purge command: SANITIZE DEVICE by its feature, SECURITY ERASE UNIT by its
enhanced bit. -/
def mechanismOf (cdb : Bytes) : Option AtaPurgeMechanism :=
  let command := cdb.getD 14 0
  let features := cdb.getD 4 0
  if command = 0xB4 then
    if features = 0x20 then some .sanitizeCryptoScramble
    else if features = 0x10 then some .sanitizeBlockErase
    else none
  else if command = 0xF4 then
    if features &&& 0x02 ≠ 0 then some .securityEraseEnhanced else some .securityEraseNormal
  else none

/-- How a command ended: an ILLEGAL REQUEST is a rejection. -/
def ending : SatAnswer → Ending
  | .ok reply =>
    if reply.isGood then .done
    else if (senseIllegalRequest reply).isSome then .rejected
    else .failed
  | .error _ => .failed

/-- A read of the Sanitize Status log. -/
def readOf : SatAnswer → Read
  | .ok reply =>
    .answered reply.isGood ((AtaSanitizeStatus.decodeLog reply.dataIn).toOption.map
      fun status => ⟨status.isCompleted, status.isFailed⟩)
  | .error _ => .fault

def event (e : SatExchange) : Option (Event AtaPurgeMechanism) :=
  match mechanismOf e.request.cdb with
  | some m => some (.purge m (ending e.reply))
  | none =>
    if e.isSetPassword || e.isErasePrepare then some (.arm (ending e.reply))
    else if e.request = statusLogRequest then some (readOf e.reply).event
    else none

/-- The reads of the status log among the exchanges. -/
def logReads (es : List SatExchange) : List Read :=
  (es.filter fun e => e.request = statusLogRequest).map fun e => readOf e.reply

/-! ## The contract -/

end AtaPurgeClient

open AtaPurgeClient

namespace AtaPurgeMechanism

def Sanitizes (m : AtaPurgeMechanism) : Prop :=
  m = .sanitizeCryptoScramble ∨ m = .sanitizeBlockErase

instance (m : AtaPurgeMechanism) : Decidable m.Sanitizes := inferInstanceAs (Decidable (_ ∨ _))

/-- The name of a mechanism in a fallback record. -/
def name : AtaPurgeMechanism → String
  | .sanitizeCryptoScramble => "SanitizeCryptoScramble"
  | .sanitizeBlockErase => "SanitizeBlockErase"
  | .securityEraseEnhanced => "SecurityEraseEnhanced"
  | .securityEraseNormal => "SecurityEraseNormal"

/-- The ladder from a mechanism on. -/
def ladder : AtaPurgeMechanism → List AtaPurgeMechanism
  | .sanitizeCryptoScramble =>
    [.sanitizeCryptoScramble, .sanitizeBlockErase, .securityEraseEnhanced, .securityEraseNormal]
  | .sanitizeBlockErase => [.sanitizeBlockErase, .securityEraseEnhanced, .securityEraseNormal]
  | .securityEraseEnhanced => [.securityEraseEnhanced, .securityEraseNormal]
  | .securityEraseNormal => [.securityEraseNormal]

end AtaPurgeMechanism

/-- IDENTIFY does not offer the mechanism. -/
def AtaIdentifyData.Declines (identify : AtaIdentifyData) (m : AtaPurgeMechanism) : Prop :=
  m = .securityEraseEnhanced ∧ identify.security.enhancedEraseSupported = false

namespace AtaPurgeClient

/-- `own` is the mechanism that a result certifies, with those it names as passed over after the
ones of `fallbacks`. -/
def VerdictAfter (fallbacks : List AtaMechanismFallback)
    (result : Except AtaPurgeError AtaPurgeExecutionSummary)
    (own : Option (AtaPurgeMechanism × List AtaPurgeMechanism)) : Prop :=
  match result with
  | .ok summary => ∃ passed, own = some (summary.executedMechanism, passed)
      ∧ summary.fallbacks.map AtaMechanismFallback.source
        = fallbacks.map AtaMechanismFallback.source ++ passed.map AtaPurgeMechanism.name
  | .error _ => own = none

/-- The IDENTIFY data of the intake, which is the first exchange. -/
def intake (es : List SatExchange) : Option AtaIdentifyData :=
  match es.head? with
  | some ⟨_, .ok reply⟩ =>
    if reply.isGood then (AtaCodec.decodeIdentifyDevice reply.dataIn).toOption else none
  | _ => none

/-- The ladder's own evidence; an intake that fails is all there is. -/
def GoesByOwnEvidence (requested : Option AtaPurgeMechanism) (es : List SatExchange)
    (result : Except AtaPurgeError AtaPurgeExecutionSummary) : Prop :=
  match intake es with
  | none => es.length = 1 ∧ ∃ error, result = .error error
  | some identify => ∃ own, VerdictAfter [] result own
      ∧ OwnEvidence AtaPurgeMechanism.Sanitizes identify.Declines
          (((requested.or (autoPrimary identify)).map AtaPurgeMechanism.ladder).getD [])
          (es.filterMap event) own

/-- A rung answers for its verdict exactly when its log reads settle. -/
def Answers (maxPolls : Nat) (identify : AtaIdentifyData) (order : List AtaPurgeMechanism)
    (d : List AtaMechanismFallback → SatDialogue (Except AtaPurgeError AtaPurgeExecutionSummary)) :
    Prop :=
  ∀ fallbacks es result, (d fallbacks).Ends es result →
    ∃ own, VerdictAfter fallbacks result own
      ∧ ((es.filterMap event).filterMap Event.issued).Sublist order
      ∧ (∀ m passed, own = some (m, passed) → m ∈ order)
      ∧ (OwnEvidence AtaPurgeMechanism.Sanitizes identify.Declines order (es.filterMap event) own
          ↔ ReadsSettle maxPolls (logReads es))

theorem VerdictAfter.passed {fallbacks : List AtaMechanismFallback} {f : AtaMechanismFallback}
    {m : AtaPurgeMechanism} {result : Except AtaPurgeError AtaPurgeExecutionSummary}
    {own : Option (AtaPurgeMechanism × List AtaPurgeMechanism)} (hname : f.source = m.name)
    (h : VerdictAfter (fallbacks ++ [f]) result own) :
    VerdictAfter fallbacks result (own.map fun r => (r.1, m :: r.2)) := by
  cases result with
  | error e =>
    obtain rfl : own = none := h
    exact rfl
  | ok summary =>
    obtain ⟨passed, rfl, hsources⟩ := h
    refine ⟨m :: passed, rfl, ?_⟩
    rw [hsources, List.map_append, List.append_assoc, List.map_singleton, hname]
    rfl

theorem name_injective : Function.Injective AtaPurgeMechanism.name := by
  intro a b h
  cases a <;> cases b <;> first | rfl | exact absurd h (by decide)

/-- A result has one reading. -/
theorem VerdictAfter.unique {fallbacks : List AtaMechanismFallback}
    {result : Except AtaPurgeError AtaPurgeExecutionSummary}
    {own own' : Option (AtaPurgeMechanism × List AtaPurgeMechanism)}
    (h : VerdictAfter fallbacks result own) (h' : VerdictAfter fallbacks result own') :
    own' = own := by
  cases result with
  | error e => exact Eq.trans h' (Eq.symm h)
  | ok summary =>
    obtain ⟨passed, rfl, hsources⟩ := h
    obtain ⟨passed', rfl, hsources'⟩ := h'
    have hnames := List.append_cancel_left (hsources'.symm.trans hsources)
    rw [List.map_injective_iff.mpr name_injective hnames]

/-! ## The security erase -/

theorem event_setPassword (password : Block 32) (r : SatAnswer) :
    event ⟨setPasswordRequest password, r⟩ = some (.arm (ending r)) := rfl

theorem event_erasePrepare (r : SatAnswer) :
    event ⟨erasePrepareRequest, r⟩ = some (.arm (ending r)) := rfl

theorem event_eraseUnit (enhanced : Bool) (password : Block 32) (r : SatAnswer) :
    event ⟨eraseUnitRequest enhanced password, r⟩
      = some (.purge (if enhanced then .securityEraseEnhanced else .securityEraseNormal)
          (ending r)) := by
  have hmechanism : mechanismOf (eraseUnitRequest enhanced password).cdb
      = some (if enhanced then .securityEraseEnhanced else .securityEraseNormal) := by
    show mechanismOf (AtaCodec.encodeSatPassthrough16Framed 0xF4
      ((if false = true then 1 else 0) ||| (if enhanced = true then 1 else 0) <<< 1) 0 1 .dataOut) = _
    revert enhanced
    decide
  rw [event, hmechanism]

/-- A command that is neither for a purge nor a log read is none of the ladder's. -/
theorem event_none {request : SatRequest} (hmechanism : mechanismOf request.cdb = none)
    (harm : request.cdb.getD 14 0 ≠ 0xF1 ∧ request.cdb.getD 14 0 ≠ 0xF3)
    (hlog : request ≠ statusLogRequest) (r : SatAnswer) : event ⟨request, r⟩ = none := by
  have hset : SatExchange.isSetPassword ⟨request, r⟩ = false := beq_eq_false_iff_ne.mpr harm.1
  have hprepare : SatExchange.isErasePrepare ⟨request, r⟩ = false := beq_eq_false_iff_ne.mpr harm.2
  rw [event, hmechanism, hset, hprepare]
  exact if_neg hlog

theorem event_disablePassword (password : Block 32) (r : SatAnswer) :
    event ⟨disablePasswordRequest password, r⟩ = none := by
  refine event_none ?_ ⟨?_, ?_⟩ ?_ r
  · show mechanismOf (AtaCodec.encodeSatPassthrough16Framed 0xF6 0x0000 0 1 .dataOut) = none
    decide
  · show (0xF6 : UInt8) ≠ 0xF1
    decide
  · show (0xF6 : UInt8) ≠ 0xF3
    decide
  · intro h
    cases congrArg SatRequest.xfer h

theorem event_identify (r : SatAnswer) : event ⟨identifyRequest, r⟩ = none :=
  event_none (by decide) (by decide) (by decide) r

theorem ending_of_good {reply : SatReply} (h : reply.isGood = true) : ending (.ok reply) = .done :=
  if_pos h

/-- Commands other than SMART READ LOG read no log. -/
theorem logReads_of_commands {es : List SatExchange} (h : ∀ e ∈ es, e.command ≠ 0xB0) :
    logReads es = [] := by
  have hfilter : (es.filter fun e => e.request = statusLogRequest) = [] := by
    refine List.filter_eq_nil_iff.mpr fun e he hlog => h e he ?_
    rw [SatExchange.command, of_decide_eq_true hlog]
    rfl
  rw [logReads, hfilter]
  rfl

/-- A security erase that ends in an error answers for it: only its last event can have failed. -/
theorem answers_error {maxPolls : Nat} {identify : AtaIdentifyData} {m : AtaPurgeMechanism}
    {order : List AtaPurgeMechanism} {es : List SatExchange} {fallbacks : List AtaMechanismFallback}
    {front : List (Event AtaPurgeMechanism)} {last : Event AtaPurgeMechanism}
    {result : Except AtaPurgeError AtaPurgeExecutionSummary}
    (hresult : ∃ error, result = .error error) (hevents : es.filterMap event = front ++ [last])
    (hfront : ∀ e ∈ front, e = Event.arm .done) (hlast : ∀ m', last.issued = some m' → m' = m)
    (hreads : logReads es = []) :
    ∃ own, VerdictAfter fallbacks result own
      ∧ ((es.filterMap event).filterMap Event.issued).Sublist (m :: order)
      ∧ (∀ m' passed, own = some (m', passed) → m' ∈ m :: order)
      ∧ (OwnEvidence AtaPurgeMechanism.Sanitizes identify.Declines (m :: order)
            (es.filterMap event) own ↔ ReadsSettle maxPolls (logReads es)) := by
  obtain ⟨error, rfl⟩ := hresult
  have hissued : ((es.filterMap event).filterMap Event.issued).Sublist (m :: order) := by
    have hnone : front.filterMap Event.issued = [] :=
      List.filterMap_eq_nil_iff.mpr fun e he => by rw [hfront e he]; rfl
    rw [hevents, List.filterMap_append, hnone, List.nil_append]
    cases hcase : last.issued with
    | none =>
      rw [List.filterMap_cons_none hcase]
      exact List.nil_sublist _
    | some m' =>
      rw [List.filterMap_cons_some hcase, hlast m' hcase]
      exact List.singleton_sublist.mpr List.mem_cons_self
  refine ⟨none, rfl, hissued, nofun, iff_of_true (ownEvidence_error hissued ?_) ?_⟩
  · rw [hevents, List.dropLast_concat]
    intro e he hstops
    rw [hfront e he] at hstops
    exact absurd rfl hstops
  · rw [hreads]
    exact readsSettle_nil maxPolls

/-- The mechanism of a security erase. -/
def securityErase (enhanced : Bool) : AtaPurgeMechanism :=
  if enhanced then .securityEraseEnhanced else .securityEraseNormal

theorem securityErase_not_sanitizes (enhanced : Bool) : ¬ (securityErase enhanced).Sanitizes := by
  revert enhanced
  decide

theorem executeSecurityErase_answers (maxPolls : Nat) (identify : AtaIdentifyData)
    (hashHex : Bytes → String) (random : Except String (Block 32)) (permit : AtaPurgePermit)
    (enhanced : Bool) (geometry : GeometryTransaction) (order : List AtaPurgeMechanism) :
    Answers maxPolls identify (securityErase enhanced :: order) fun fallbacks =>
      executeSecurityErase hashHex random permit enhanced fallbacks geometry := by
  intro fallbacks es result h
  cases random with
  | error e =>
    obtain ⟨rfl, rfl⟩ := Dialogue.ends_done.mp h
    exact ⟨none, rfl, List.nil_sublist _, nofun,
      iff_of_true (ownEvidence_error (List.nil_sublist _) nofun) (readsSettle_nil maxPolls)⟩
  | ok password =>
    rcases executeSecurityErase_inv h with ⟨fault, rfl, rfl⟩ | ⟨reply, message, hrefused, rfl, rfl⟩ |
      ⟨set, fault, hset, rfl, rfl⟩ | ⟨set, prepare, r, message, hset, hprepare, rfl, rfl⟩ |
      ⟨set, prepare, es', hset, hprepare, rfl, hends⟩
    · exact @answers_error _ _ _ _ _ _ [] _ _ ⟨_, rfl⟩ rfl nofun nofun rfl
    · exact @answers_error _ _ _ _ _ _ [] _ _ ⟨_, rfl⟩ rfl nofun nofun rfl
    · refine @answers_error _ _ _ _ _ _ [.arm .done] (.arm .failed) _ ⟨_, rfl⟩ ?_ (by simp) nofun ?_
      · simp [event_setPassword, event_erasePrepare, ending_of_good hset]
        rfl
      · exact logReads_of_commands (by simp)
    · refine @answers_error _ _ _ _ _ _ [.arm .done] (.arm (ending (.ok prepare))) _ ⟨_, rfl⟩ ?_
        (by simp) nofun ?_
      · simp [event_setPassword, event_erasePrepare, event_disablePassword, ending_of_good hset]
      · exact logReads_of_commands (by simp)
    · have hevents : ∀ tail : List SatExchange,
          ((⟨setPasswordRequest password, .ok set⟩ : SatExchange)
            :: ⟨erasePrepareRequest, .ok prepare⟩ :: tail).filterMap event
              = [.arm .done, .arm .done] ++ tail.filterMap event := by
        intro tail
        simp [event_setPassword, event_erasePrepare, ending_of_good hset, ending_of_good hprepare]
      rcases eraseUnit_inv hends with ⟨fault, rfl, rfl⟩ |
        ⟨reply, r, summary, hgood, rfl, rfl, hfallbacks, hexecuted⟩ | ⟨reply, r, r', hrefused, rfl, hend⟩
      · refine @answers_error _ _ _ _ _ _ [.arm .done, .arm .done] (.purge (securityErase enhanced) .failed)
          _ ⟨_, rfl⟩ ?_ (by simp) (fun m' hm' => (Option.some.inj hm').symm) ?_
        · rw [hevents, List.filterMap_cons_some (event_eraseUnit _ _ _)]
          rfl
        · exact logReads_of_commands (by simp)
      · -- The erase is certified by its command.
        have hdone : ((⟨setPasswordRequest password, .ok set⟩ : SatExchange)
            :: ⟨erasePrepareRequest, .ok prepare⟩ :: [⟨eraseUnitRequest enhanced password, .ok reply⟩,
              ⟨identifyRequest, r⟩]).filterMap event
            = [.arm .done, .arm .done] ++ [.purge (securityErase enhanced) .done] := by
          rw [hevents, List.filterMap_cons_some (event_eraseUnit _ _ _),
            List.filterMap_cons_none (event_identify r), ending_of_good hgood]
          rfl
        refine ⟨some (securityErase enhanced, []), ⟨[], ?_, ?_⟩, ?_, ?_, iff_of_true ?_ ?_⟩
        · rw [hexecuted]
          rfl
        · rw [hfallbacks, List.map_nil, List.append_nil]
        · rw [hdone]
          exact List.singleton_sublist.mpr List.mem_cons_self
        · rintro m' passed ⟨⟩
          exact List.mem_cons_self
        · rw [hdone]
          exact ownEvidence_done (securityErase_not_sanitizes enhanced) (by simp)
        · rw [logReads_of_commands (by simp)]
          exact readsSettle_nil maxPolls
      · have herror : ∃ error, result = .error error := by
          rcases hend with ⟨-, error, rfl⟩ | ⟨detail, rfl⟩
          · exact ⟨error, rfl⟩
          · exact ⟨_, rfl⟩
        refine @answers_error _ _ _ _ _ _ [.arm .done, .arm .done]
          (.purge (securityErase enhanced) (ending (.ok reply))) _ herror ?_ (by simp)
          (fun m' hm' => (Option.some.inj hm').symm) ?_
        · rw [hevents, List.filterMap_cons_some (event_eraseUnit _ _ _),
            List.filterMap_cons_none (event_disablePassword _ _),
            List.filterMap_cons_none (event_identify _)]
          rfl
        · exact logReads_of_commands (by simp)

/-! ## The sanitize rungs -/

theorem readSanitizeStatus_inv {es : List SatExchange} {status : Except String AtaSanitizeStatus}
    (h : readSanitizeStatus.Ends es status) :
    ∃ r, es = [⟨statusLogRequest, r⟩]
      ∧ ((∃ e, status = .error e ∧ readOf r = .fault) ∨
        (∃ e clean, status = .error e ∧ readOf r = .answered clean none) ∨
        ∃ s clean, status = .ok s ∧ readOf r = .answered clean (some ⟨s.isCompleted, s.isFailed⟩)) := by
  obtain ⟨r, es', rfl, hnext⟩ := Dialogue.ends_ask.mp h
  refine ⟨r, ?_⟩
  cases r with
  | error fault =>
    obtain ⟨rfl, rfl⟩ := Dialogue.ends_done.mp hnext
    exact ⟨rfl, Or.inl ⟨fault, rfl, rfl⟩⟩
  | ok reply =>
    obtain ⟨rfl, rfl⟩ := Dialogue.ends_done.mp hnext
    refine ⟨rfl, Or.inr ?_⟩
    rw [readOf]
    cases AtaSanitizeStatus.decodeLog reply.dataIn with
    | error e => exact Or.inl ⟨e, _, rfl, rfl⟩
    | ok s => exact Or.inr ⟨s, _, rfl, rfl⟩

theorem sanitizePoll_reads (maxPolls : Nat) :
    (sanitizePoll maxPolls).Reads statusLogRequest readOf Except.isOk where
  read := fun _ _ h => readSanitizeStatus_inv h
  onError := fun _ => rfl
  onFailed := fun _ => rfl
  onFinished := fun _ => rfl
  onExhausted := fun _ => rfl

/-- A sanitize is taken and polled, rejected, or at an end; a poll rejects nothing. -/
theorem runSanitize_inv {maxPolls : Nat} {feature : AtaSanitizeFeature} {es : List SatExchange}
    {out : Except AtaStepOutcome (AtaSanitizeStatus × Nat)}
    (h : (runSanitize maxPolls feature).Ends es out) :
    ∃ r es', es = ⟨sanitizeRequest feature, r⟩ :: es'
      ∧ ((es' = [] ∧ ending r = .rejected ∧ ∃ reason, out = .error (.rejected reason)) ∨
        (es' = [] ∧ ending r = .failed ∧ ∃ reason, out = .error (.fatal reason)) ∨
        (ending r = .done ∧ (∀ e ∈ es', e.request = statusLogRequest)
          ∧ Polled maxPolls (es'.map fun e => readOf e.reply) out.isOk
          ∧ ∀ reason, out ≠ .error (.rejected reason))) := by
  obtain ⟨r, es', rfl, hnext⟩ := Dialogue.ends_ask.mp h
  refine ⟨r, es', rfl, ?_⟩
  cases r with
  | error fault =>
    obtain ⟨rfl, rfl⟩ := Dialogue.ends_done.mp hnext
    exact Or.inr (Or.inl ⟨rfl, rfl, _, rfl⟩)
  | ok reply =>
    dsimp only at hnext
    by_cases hgood : reply.isGood = true
    · rw [if_pos hgood] at hnext
      obtain ⟨hlog, hpolled⟩ := (sanitizePoll_reads maxPolls).loop_polled hnext
      refine Or.inr (Or.inr ⟨ending_of_good hgood, hlog, hpolled, fun reason heq => ?_⟩)
      subst heq
      rcases (sanitizePoll maxPolls).loop_result hnext with ⟨e, he⟩ | ⟨s, hs⟩ | ⟨s, hs⟩ | ⟨s, hs⟩
      · cases he
      · cases hs
      · cases hs
      · cases hs
    · rw [if_neg hgood] at hnext
      cases hillegal : senseIllegalRequest reply with
      | some sense =>
        rw [hillegal] at hnext
        obtain ⟨rfl, rfl⟩ := Dialogue.ends_done.mp hnext
        refine Or.inl ⟨rfl, ?_, sense, rfl⟩
        rw [ending, if_neg hgood, hillegal]
        rfl
      | none =>
        rw [hillegal] at hnext
        obtain ⟨rfl, rfl⟩ := Dialogue.ends_done.mp hnext
        refine Or.inr (Or.inl ⟨rfl, ?_, _, rfl⟩)
        rw [ending, if_neg hgood, hillegal]
        rfl

theorem event_of_log {e : SatExchange} (h : e.request = statusLogRequest) :
    event e = some (readOf e.reply).event := by
  cases e with
  | mk request reply =>
    obtain rfl : request = statusLogRequest := h
    rfl

theorem events_of_log {es : List SatExchange} (h : ∀ e ∈ es, e.request = statusLogRequest) :
    es.filterMap event = (es.map fun e => readOf e.reply).map Read.event := by
  induction es with
  | nil => rfl
  | cons e es ih =>
    obtain ⟨he, hes⟩ := List.forall_mem_cons.mp h
    rw [List.filterMap_cons_some (event_of_log he), ih hes]
    rfl

theorem logReads_of_log {es : List SatExchange} (h : ∀ e ∈ es, e.request = statusLogRequest) :
    logReads es = es.map fun e => readOf e.reply := by
  rw [logReads, List.filter_eq_self.mpr fun e he => by simp [h e he]]

/-- **Step lemma**: a sanitize rung answers for its verdict as its poll and the rungs after it do. -/
theorem sanitizeRung_answers {maxPolls : Nat} {identify : AtaIdentifyData}
    {geometry : GeometryTransaction} {m : AtaPurgeMechanism} {feature : AtaSanitizeFeature}
    {target : String} {order : List AtaPurgeMechanism}
    {next : List AtaMechanismFallback → SatDialogue (Except AtaPurgeError AtaPurgeExecutionSummary)}
    (hevent : ∀ r, event ⟨sanitizeRequest feature, r⟩ = some (.purge m (ending r)))
    (hm : m.Sanitizes) (hnew : m ∉ order) (hnext : Answers maxPolls identify order next) :
    Answers maxPolls identify (m :: order)
      (sanitizeRung maxPolls geometry m feature m.name target next) := by
  intro fallbacks es result h
  obtain ⟨es₁, out, es₂, rfl, hrun, hrest⟩ := Dialogue.ends_andThen.mp h
  have hsingle : ∀ (r : SatAnswer) (es : List SatExchange),
      logReads (⟨sanitizeRequest feature, r⟩ :: es) = logReads es := by
    intro r es
    have hother : sanitizeRequest feature ≠ statusLogRequest := fun heq => by
      cases congrArg SatRequest.xfer heq
    rw [logReads, List.filter_cons_of_neg (by simpa using hother)]
    rfl
  obtain ⟨r, es', rfl, ⟨rfl, hending, reason, rfl⟩ | ⟨rfl, hending, reason, rfl⟩ |
    ⟨hending, hlog, hpolled, hnotRejected⟩⟩ := runSanitize_inv hrun
  · obtain ⟨own, hverdict, hordered, hmem, hiff⟩ := hnext _ _ _ hrest
    rw [List.singleton_append, List.filterMap_cons_some (hevent r), hending, hsingle]
    refine ⟨own.map fun r => (r.1, m :: r.2), hverdict.passed rfl, ?_, ?_, ?_⟩
    · exact hordered.cons_cons m
    · intro m' l hsome
      obtain ⟨r', hr', heq⟩ := Option.map_eq_some_iff.mp hsome
      obtain ⟨rfl, -⟩ := Prod.mk.inj heq
      exact List.mem_cons_of_mem m (hmem r'.1 r'.2 hr')
    · rw [← hiff]
      exact ownEvidence_passed hnew (Or.inl rfl) hordered hmem
  · obtain ⟨rfl, rfl⟩ := Dialogue.ends_done.mp hrest
    rw [List.append_nil, List.filterMap_cons_some (hevent r), hending, hsingle]
    have hissued : ([Event.purge m .failed].filterMap Event.issued).Sublist (m :: order) :=
      List.singleton_sublist.mpr List.mem_cons_self
    exact ⟨none, rfl, hissued, nofun,
      iff_of_true (ownEvidence_error hissued nofun) (readsSettle_nil maxPolls)⟩
  · -- The command was taken, and the poll's verdict is the rung's.
    have hverdict : es₂ = [] ∧ VerdictAfter fallbacks result
        (if out.isOk then some (m, []) else none) := by
      cases out with
      | ok ended =>
        obtain ⟨rfl, rfl⟩ := Dialogue.ends_done.mp hrest
        exact ⟨rfl, [], rfl, by simp [finalizeSummary]⟩
      | error outcome =>
        cases outcome with
        | rejected reason => exact absurd rfl (hnotRejected reason)
        | fatal reason =>
          obtain ⟨rfl, rfl⟩ := Dialogue.ends_done.mp hrest
          exact ⟨rfl, rfl⟩
    obtain ⟨rfl, hverdict⟩ := hverdict
    rw [List.append_nil, List.filterMap_cons_some (hevent r), hending, hsingle, events_of_log hlog,
      logReads_of_log hlog]
    refine ⟨_, hverdict, ?_, ?_, ownEvidence_polled hm hpolled⟩
    · show (m :: ((es'.map fun e => readOf e.reply).map Read.event).filterMap Event.issued).Sublist _
      rw [filterMap_issued_reads]
      exact List.singleton_sublist.mpr List.mem_cons_self
    · intro m' l hsome
      split at hsome
      · rw [Option.some.injEq, Prod.mk.injEq] at hsome
        exact hsome.1 ▸ List.mem_cons_self
      · cases hsome

/-! ## The ladder -/

theorem error_answers (maxPolls : Nat) (identify : AtaIdentifyData) (order : List AtaPurgeMechanism)
    (error : AtaPurgeError) :
    Answers maxPolls identify order fun _ => .done (.error error) := by
  intro fallbacks es result h
  obtain ⟨rfl, rfl⟩ := Dialogue.ends_done.mp h
  exact ⟨none, rfl, List.nil_sublist _, nofun,
    iff_of_true (ownEvidence_error (List.nil_sublist _) nofun) (readsSettle_nil maxPolls)⟩

/-- An enhanced erase that is not on offer is passed over without a command. -/
theorem declined_answers {maxPolls : Nat} {identify : AtaIdentifyData} {f : AtaMechanismFallback}
    {order : List AtaPurgeMechanism}
    {next : List AtaMechanismFallback → SatDialogue (Except AtaPurgeError AtaPurgeExecutionSummary)}
    {m : AtaPurgeMechanism} (hname : f.source = m.name) (hdeclined : identify.Declines m)
    (hnew : m ∉ order) (hnext : Answers maxPolls identify order next) :
    Answers maxPolls identify (m :: order) fun fallbacks => next (fallbacks ++ [f]) := by
  intro fallbacks es result h
  obtain ⟨own, hverdict, hordered, hmem, hiff⟩ := hnext _ _ _ h
  refine ⟨own.map fun r => (r.1, m :: r.2), hverdict.passed hname, hordered.cons m, ?_, ?_⟩
  · intro m' l hsome
    obtain ⟨r', hr', heq⟩ := Option.map_eq_some_iff.mp hsome
    obtain ⟨rfl, -⟩ := Prod.mk.inj heq
    exact List.mem_cons_of_mem m (hmem r'.1 r'.2 hr')
  · rw [← hiff]
    exact @ownEvidence_passed _ _ _ _ _ _ [] _ _ hnew (Or.inr ⟨rfl, hdeclined⟩) hordered hmem

theorem securityEraseRung_answers (maxPolls : Nat) (identify : AtaIdentifyData)
    (hashHex : Bytes → String) (random : Except String (Block 32)) (permit : AtaPurgePermit)
    (geometry : GeometryTransaction) (enhanced : Bool) :
    Answers maxPolls identify (securityErase enhanced).ladder
      (securityEraseRung hashHex random permit identify.security geometry enhanced) := by
  have hsecurity := executeSecurityErase_answers maxPolls identify hashHex random permit
  unfold securityEraseRung
  cases hsupported : identify.security.supported with
  | false => exact error_answers maxPolls identify _ _
  | true =>
    cases enhanced with
    | false => exact hsecurity false geometry []
    | true =>
      cases hoffered : identify.security.enhancedEraseSupported with
      | true => exact hsecurity true geometry [.securityEraseNormal]
      | false =>
        exact declined_answers rfl ⟨rfl, hoffered⟩ (by decide) (hsecurity false geometry [])

theorem ladderFrom_answers (maxPolls : Nat) (identify : AtaIdentifyData) (hashHex : Bytes → String)
    (random : Except String (Block 32)) (permit : AtaPurgePermit) (geometry : GeometryTransaction)
    (m : AtaPurgeMechanism) {es : List SatExchange}
    {result : Except AtaPurgeError AtaPurgeExecutionSummary}
    (h : (ladderFrom hashHex random maxPolls permit identify.security geometry m).Ends es result) :
    ∃ own, VerdictAfter [] result own
      ∧ (OwnEvidence AtaPurgeMechanism.Sanitizes identify.Declines m.ladder (es.filterMap event) own
          ↔ ReadsSettle maxPolls (logReads es)) := by
  have hsecurity := securityEraseRung_answers maxPolls identify hashHex random permit geometry
  have hblock : Answers maxPolls identify AtaPurgeMechanism.sanitizeBlockErase.ladder
      (blockEraseRung hashHex random maxPolls permit identify.security geometry) :=
    sanitizeRung_answers (fun _ => rfl) (by decide) (by decide) (hsecurity true)
  have hcrypto : Answers maxPolls identify AtaPurgeMechanism.sanitizeCryptoScramble.ladder
      (cryptoScrambleRung hashHex random maxPolls permit identify.security geometry) :=
    sanitizeRung_answers (fun _ => rfl) (by decide) (by decide) hblock
  have hladder : ∀ d, Answers maxPolls identify m.ladder d → (d []).Ends es result →
      ∃ own, VerdictAfter [] result own
        ∧ (OwnEvidence AtaPurgeMechanism.Sanitizes identify.Declines m.ladder (es.filterMap event) own
            ↔ ReadsSettle maxPolls (logReads es)) := by
    intro d hanswers hends
    obtain ⟨own, hverdict, -, -, hiff⟩ := hanswers [] es result hends
    exact ⟨own, hverdict, hiff⟩
  cases m with
  | sanitizeCryptoScramble => exact hladder _ hcrypto h
  | sanitizeBlockErase => exact hladder _ hblock h
  | securityEraseEnhanced => exact hladder _ (hsecurity true) h
  | securityEraseNormal => exact hladder _ (hsecurity false) h

/-! ## The intake -/

theorem identify_intake {es : List SatExchange} {data : Except String AtaIdentifyData}
    (h : identify.Ends es data) :
    ∃ r, es = [⟨identifyRequest, r⟩]
      ∧ ∀ rest, intake (⟨identifyRequest, r⟩ :: rest) = data.toOption := by
  obtain ⟨r, es', rfl, hnext⟩ := Dialogue.ends_ask.mp h
  refine ⟨r, ?_⟩
  cases r with
  | error fault =>
    obtain ⟨rfl, rfl⟩ := Dialogue.ends_done.mp hnext
    exact ⟨rfl, fun _ => rfl⟩
  | ok reply =>
    dsimp only at hnext
    by_cases hgood : reply.isGood = true
    · rw [if_pos hgood] at hnext
      obtain ⟨rfl, rfl⟩ := Dialogue.ends_done.mp hnext
      exact ⟨rfl, fun _ => if_pos hgood⟩
    · rw [if_neg hgood] at hnext
      obtain ⟨rfl, rfl⟩ := Dialogue.ends_done.mp hnext
      exact ⟨rfl, fun _ => if_neg hgood⟩

/-- Exchanges that are none of the ladder's. -/
def Aside (es : List SatExchange) : Prop :=
  ∀ e ∈ es, event e = none ∧ e.request ≠ statusLogRequest

theorem Aside.events {es : List SatExchange} (h : Aside es) (rest : List SatExchange) :
    (es ++ rest).filterMap event = rest.filterMap event := by
  rw [List.filterMap_append, List.filterMap_eq_nil_iff.mpr fun e he => (h e he).1, List.nil_append]

theorem Aside.logReads {es : List SatExchange} (h : Aside es) (rest : List SatExchange) :
    logReads (es ++ rest) = logReads rest := by
  have hnone : (es.filter fun e => e.request = statusLogRequest) = [] :=
    List.filter_eq_nil_iff.mpr fun e he => by simpa using (h e he).2
  rw [AtaPurgeClient.logReads, List.filter_append, hnone, List.nil_append]
  rfl

theorem identify_aside (r : SatAnswer) : Aside [⟨identifyRequest, r⟩] := by
  intro e he
  rw [List.mem_singleton.mp he]
  have hother : identifyRequest ≠ statusLogRequest := by decide
  exact ⟨event_identify r, hother⟩

theorem restoreGeometry_aside {hashHex : Bytes → String} {identify : AtaIdentifyData}
    {es : List SatExchange} {tx : GeometryTransaction}
    (h : (restoreGeometry hashHex identify).Ends es tx) : Aside es := by
  have hdco : ∀ r, event ⟨dcoIdentifyRequest, r⟩ = none ∧ dcoIdentifyRequest ≠ statusLogRequest :=
    fun r => ⟨event_none (by decide) (by decide) (by decide) r, by decide⟩
  have hnative : ∀ r, event ⟨readNativeMaxRequest, r⟩ = none
      ∧ readNativeMaxRequest ≠ statusLogRequest :=
    fun r => ⟨event_none (by decide) (by decide) (by decide) r, by decide⟩
  have hset : ∀ n r, event ⟨setMaxRequest n, r⟩ = none ∧ setMaxRequest n ≠ statusLogRequest := by
    intro n r
    have hother : setMaxRequest n ≠ statusLogRequest := fun heq => by
      cases congrArg SatRequest.xfer heq
    exact ⟨event_none rfl ⟨by show (0x37 : UInt8) ≠ 0xF1; decide, by show (0x37 : UInt8) ≠ 0xF3; decide⟩
      hother r, hother⟩
  obtain ⟨dcoReply, nativeReply, hcases⟩ := restoreGeometry_inv h
  rcases hcases with ⟨-, reply, rfl, -⟩ | ⟨-, rfl, -⟩
  · exact List.forall_mem_cons.mpr ⟨hdco _, List.forall_mem_cons.mpr ⟨hnative _,
      List.forall_mem_cons.mpr ⟨hset _ _, nofun⟩⟩⟩
  · exact List.forall_mem_cons.mpr ⟨hdco _, List.forall_mem_cons.mpr ⟨hnative _, nofun⟩⟩

/-- A run without any event of the ladder that ends in an error. -/
theorem goesByOwnEvidence_of_aside {maxPolls : Nat} {requested : Option AtaPurgeMechanism}
    {es : List SatExchange} {error : AtaPurgeError} {identify : AtaIdentifyData} (h : Aside es)
    (hintake : intake es = some identify) :
    GoesByOwnEvidence requested es (.error error) ↔ ReadsSettle maxPolls (logReads es) := by
  have hevents := h.events []
  have hreads := h.logReads []
  rw [List.append_nil] at hevents hreads
  rw [GoesByOwnEvidence, hintake, hevents, hreads]
  exact iff_of_true ⟨none, rfl, ownEvidence_error (List.nil_sublist _) nofun⟩
    (readsSettle_nil maxPolls)

/-- **Run lemma**: the whole run of the client. -/
theorem executePurgeLadder_iff {hashHex : Bytes → String} {random : Except String (Block 32)}
    {maxPolls : Nat} {permit : AtaPurgePermit} {requested : Option AtaPurgeMechanism}
    {es : List SatExchange} {result : Except AtaPurgeError AtaPurgeExecutionSummary}
    (h : (executePurgeLadder hashHex random maxPolls permit requested).Ends es result) :
    GoesByOwnEvidence requested es result ↔ ReadsSettle maxPolls (logReads es) := by
  obtain ⟨es₁, data, es₂, rfl, hidentify, hrest⟩ := Dialogue.ends_andThen.mp h
  obtain ⟨r, rfl, hintake⟩ := identify_intake hidentify
  have haside := identify_aside r
  have hintake := hintake es₂
  rw [← List.singleton_append] at hintake
  cases data with
  | error e =>
    obtain ⟨rfl, rfl⟩ := Dialogue.ends_done.mp hrest
    rw [GoesByOwnEvidence, hintake]
    refine iff_of_true ⟨rfl, _, rfl⟩ ?_
    rw [haside.logReads]
    exact readsSettle_nil maxPolls
  | ok identify =>
    dsimp only at hrest
    split at hrest
    · obtain ⟨rfl, rfl⟩ := Dialogue.ends_done.mp hrest
      rw [List.append_nil] at hintake ⊢
      exact goesByOwnEvidence_of_aside haside hintake
    · split at hrest
      · obtain ⟨rfl, rfl⟩ := Dialogue.ends_done.mp hrest
        rw [List.append_nil] at hintake ⊢
        exact goesByOwnEvidence_of_aside haside hintake
      · obtain ⟨es₃, geometry, es₄, rfl, hgeometry, hladder⟩ := Dialogue.ends_andThen.mp hrest
        have hboth : Aside ([⟨identifyRequest, r⟩] ++ es₃) :=
          List.forall_mem_append.mpr ⟨haside, restoreGeometry_aside hgeometry⟩
        rw [← List.append_assoc] at hintake ⊢
        cases hstart : requested.or (autoPrimary identify) with
        | none =>
          rw [hstart] at hladder
          obtain ⟨rfl, rfl⟩ := Dialogue.ends_done.mp hladder
          rw [List.append_nil] at hintake ⊢
          exact goesByOwnEvidence_of_aside hboth hintake
        | some m =>
          rw [hstart] at hladder
          obtain ⟨own, hverdict, hiff⟩ :=
            ladderFrom_answers maxPolls identify hashHex random permit geometry m hladder
          rw [GoesByOwnEvidence, hintake, hboth.events, hboth.logReads, ← hiff]
          show (∃ own, VerdictAfter [] result own ∧ OwnEvidence _ _
            (((requested.or (autoPrimary identify)).map AtaPurgeMechanism.ladder).getD []) _ own) ↔ _
          rw [hstart]
          constructor
          · rintro ⟨own', hverdict', hown⟩
            exact hverdict.unique hverdict' ▸ hown
          · intro hown
            exact ⟨own, hverdict, hown⟩

end AtaPurgeClient

/-- **Both ladders go by their own evidence exactly when** no NVMe purge command ends with a
positive status, and every log read that ends in an error status, on either transport, carries a
page at which the poll ends in an error anyway. -/
theorem goesByOwnEvidence_iff (controller : Nvme.NvmeController) (nvmePolls : Nat)
    (nvmePermit : Nvme.PurgePermit) (primary : Nvme.PurgeMechanism) (transport : SatTransport)
    (hashHex : Bytes → String) (random : Except String (Block 32)) (ataPolls : Nat)
    (ataPermit : AtaPurgePermit) (requested : Option AtaPurgeMechanism) :
    (let out := (Nvme.NvmePurgeClient.executePurgeLadder nvmePolls nvmePermit primary).run controller [];
      Nvme.GoesByOwnEvidence primary out.2 out.1 ↔ Nvme.StatusesHarmless nvmePolls out.2)
    ∧ (let out := (executePurgeLadder hashHex random ataPolls ataPermit requested).run transport [];
      GoesByOwnEvidence requested out.2 out.1 ↔ ReadsSettle ataPolls (logReads out.2)) :=
  ⟨Nvme.executePurgeLadder_iff (Dialogue.ends_run _ _), executePurgeLadder_iff (Dialogue.ends_run _ _)⟩

/-! ### Devices that end commands in an error status -/

/-- A controller that ends Sanitize with the status Invalid Command Opcode, and whose log still
shows an earlier sanitize as completed. -/
def refusingController : Nvme.NvmeController := fun _ cmd =>
  if cmd = Nvme.NvmeCodec.encodeGetSanitizeStatusLog then ⟨0, 0, [0xFF, 0xFF, 0x01, 0x00]⟩
  else ⟨1, 0, []⟩

/-- A disk that takes every command, but ends the read of its Sanitize Status log in CHECK
CONDITION, with a page that shows an end. -/
def staleLogDisk : SatTransport := fun _ request =>
  if request = identifyRequest then .ok ⟨0x00, [], List.replicate 512 0⟩
  else if request = statusLogRequest then .ok ⟨0x02, [], [0, 0, 0, 0, 0xFF, 0xFF, 0, 0, 0, 0, 0x02, 0x00]⟩
  else .ok ⟨0x00, [], []⟩

set_option maxRecDepth 4000 in
/-- Both are certified. -/
theorem ladders_certify_errors :
    (let out := (Nvme.NvmePurgeClient.executePurgeLadder 4 ⟨"/dev/nvme0n1"⟩ .sanitizeCryptoErase).run
        refusingController [];
      (∃ summary, out.1 = .ok summary) ∧ ¬ Nvme.GoesByOwnEvidence .sanitizeCryptoErase out.2 out.1)
    ∧ (let out := (executePurgeLadder (fun _ => "00000000") (.error "") 4 ⟨"/dev/sdb"⟩
        (some .sanitizeCryptoScramble)).run staleLogDisk [];
      (∃ summary, out.1 = .ok summary)
        ∧ ¬ GoesByOwnEvidence (some .sanitizeCryptoScramble) out.2 out.1) := by
  refine ⟨⟨⟨_, rfl⟩, fun hown => ?_⟩, ⟨⟨_, rfl⟩, fun hown => ?_⟩⟩
  · have hharmless := (Nvme.executePurgeLadder_iff (Dialogue.ends_run _ _)).mp hown
    exact hharmless.1 ⟨Nvme.NvmeCodec.encodeSanitize .cryptoErase false, ⟨1, 0, []⟩⟩
      List.mem_cons_self (by decide) (by decide)
  · have hsettle := (executePurgeLadder_iff (Dialogue.ends_run _ _)).mp hown
    have hpage := hsettle [] (some ⟨true, false⟩) [] rfl
    revert hpage
    decide

end DiscCleaner
