import DiscCleaner.Lib.Ladder
import DiscCleaner.Nvme.Purge

/-!
# DiscCleaner — what the NVMe ladder goes by

The ladder certifies by the payloads it is handed. A positive NVMe status does not reach it: a
purge command that the controller ended with one counts as taken, and a log page that came with
one counts as read.
-/

namespace DiscCleaner

open ByteLib DialogueLib LadderLib

namespace Nvme

open NvmePurgeClient

/-! ## Exchanges as events -/

/-- The mechanism of a purge command: Sanitize by its action, or Format NVM. -/
def mechanismOf (cmd : Bytes) : Option PurgeMechanism :=
  if cmd.getD 0 0 = 0x84 then
    if cmd.getD 40 0 &&& 0x07 = 4 then some .sanitizeCryptoErase
    else if cmd.getD 40 0 &&& 0x07 = 2 then some .sanitizeBlockErase
    else none
  else if cmd.getD 0 0 = 0x80 then some .formatNvmCryptoErase
  else none

/-- How a command ended: only a return of zero is success, and an I/O error is a rejection. -/
def ending (r : IoctlReturn) : Ending :=
  if r.ret = 0 then .done else if r.ret < 0 ∧ r.errno = EIO then .rejected else .failed

def logPayload (r : IoctlReturn) : Bytes :=
  let len := dataLenFor NvmeCodec.encodeGetSanitizeStatusLog
  (r.data ++ List.replicate len 0).take len

/-- A read of the status log. -/
def readOf (r : IoctlReturn) : Read :=
  if r.ret < 0 then .fault
  else
    .answered (r.ret == 0) ((NvmeCodec.decodeSanitizeStatusLog (logPayload r)).toOption.map
      fun status => ⟨status.isCompleted, status.isFailed⟩)

def event (e : NvmeExchange) : Event PurgeMechanism :=
  match mechanismOf e.request with
  | some m => .purge m (ending e.reply)
  | none => (readOf e.reply).event

def PurgeMechanism.Sanitizes (m : PurgeMechanism) : Prop :=
  m = .sanitizeCryptoErase ∨ m = .sanitizeBlockErase

instance (m : PurgeMechanism) : Decidable m.Sanitizes := inferInstanceAs (Decidable (_ ∨ _))

/-- The ladder from a mechanism on. -/
def PurgeMechanism.ladder : PurgeMechanism → List PurgeMechanism
  | .sanitizeCryptoErase =>
    [.sanitizeCryptoErase, .sanitizeBlockErase, .formatNvmCryptoErase, .logicalOverwrite]
  | .sanitizeBlockErase => [.sanitizeBlockErase, .formatNvmCryptoErase, .logicalOverwrite]
  | .formatNvmCryptoErase => [.formatNvmCryptoErase, .logicalOverwrite]
  | .logicalOverwrite => [.logicalOverwrite]

/-- The mechanism that a result certifies, and those it names as passed over. -/
def verdict : Except String PurgeExecutionSummary → Option (PurgeMechanism × List PurgeMechanism)
  | .ok summary => some (summary.executedMechanism, summary.fallbacks.map MechanismFallback.source)
  | .error _ => none

/-- The ladder's own evidence, where every mechanism is on offer. -/
def GoesByOwnEvidence (primary : PurgeMechanism) (es : List NvmeExchange)
    (result : Except String PurgeExecutionSummary) : Prop :=
  OwnEvidence PurgeMechanism.Sanitizes (fun _ => False) primary.ladder (es.map event)
    (verdict result)

/-- The reads of the status log among the exchanges. -/
def logReads (es : List NvmeExchange) : List Read :=
  (es.filter fun e => (mechanismOf e.request).isNone).map fun e => readOf e.reply

/-- The answers under which it does: no purge command ends with a positive NVMe status, and a log
read that does ends the poll in an error anyway. -/
def StatusesHarmless (maxPolls : Nat) (es : List NvmeExchange) : Prop :=
  (∀ e ∈ es, (mechanismOf e.request).isSome = true → ¬ 0 < e.reply.ret)
    ∧ ReadsSettle maxPolls (logReads es)

/-! ## Polling -/

theorem classify_rejected {errno : Int} {n : Int} {description : String}
    (h : classify errno = .controllerRejected n description) : errno = EIO := by
  unfold classify at h
  by_contra hne
  rw [if_neg hne] at h
  repeat' split at h
  all_goals cases h

theorem classify_of_ne {errno : Int} (hne : errno ≠ EIO) :
    ∀ n description, classify errno ≠ .controllerRejected n description :=
  fun _ _ h => hne (classify_rejected h)

theorem mechanismOf_log : mechanismOf NvmeCodec.encodeGetSanitizeStatusLog = none := by decide

/-- A read fails with the ioctl, or gives what the payload decodes to. -/
theorem readSanitizeStatus_inv {es : List NvmeExchange} {status : Except String NvmeSanitizeStatus}
    (h : readSanitizeStatus.Ends es status) :
    ∃ r, es = [⟨NvmeCodec.encodeGetSanitizeStatusLog, r⟩]
      ∧ ((∃ e, status = .error e ∧ readOf r = .fault) ∨
        (∃ e clean, status = .error e ∧ readOf r = .answered clean none) ∨
        ∃ s clean, status = .ok s ∧ readOf r = .answered clean (some ⟨s.isCompleted, s.isFailed⟩)) := by
  obtain ⟨es₁, payload, es₂, rfl, hask, hrest⟩ := Dialogue.ends_andThen.mp h
  obtain ⟨r, es₃, rfl, hdone⟩ := Dialogue.ends_ask.mp hask
  obtain ⟨rfl, rfl⟩ := Dialogue.ends_done.mp hdone
  refine ⟨r, ?_⟩
  unfold passthroughResult at hrest
  by_cases hneg : r.ret < 0
  · rw [if_pos hneg] at hrest
    obtain ⟨rfl, rfl⟩ := Dialogue.ends_done.mp hrest
    exact ⟨rfl, Or.inl ⟨_, rfl, if_pos hneg⟩⟩
  · rw [if_neg hneg] at hrest
    obtain ⟨rfl, rfl⟩ := Dialogue.ends_done.mp hrest
    refine ⟨rfl, Or.inr ?_⟩
    rw [readOf, if_neg hneg, logPayload]
    generalize NvmeCodec.decodeSanitizeStatusLog _ = decoded
    cases decoded with
    | error e => exact Or.inl ⟨e, _, rfl, rfl⟩
    | ok s => exact Or.inr ⟨s, _, rfl, rfl⟩

theorem sanitizePoll_reads (maxPolls : Nat) :
    (sanitizePoll maxPolls).Reads NvmeCodec.encodeGetSanitizeStatusLog readOf Except.isOk where
  read := fun _ _ h => readSanitizeStatus_inv h
  onError := fun _ => rfl
  onFailed := fun _ => rfl
  onFinished := fun _ => rfl
  onExhausted := fun _ => rfl

/-! ## Rungs -/

/-- What a continuation of the ladder adds to the mechanisms passed over before it. -/
def VerdictAfter (fallbacks : List MechanismFallback)
    (result : Except String PurgeExecutionSummary)
    (own : Option (PurgeMechanism × List PurgeMechanism)) : Prop :=
  verdict result
    = own.map fun r => (r.1, fallbacks.map MechanismFallback.source ++ r.2)

theorem VerdictAfter.passed {fallbacks : List MechanismFallback} {f : MechanismFallback}
    {result : Except String PurgeExecutionSummary}
    {own : Option (PurgeMechanism × List PurgeMechanism)}
    (h : VerdictAfter (fallbacks ++ [f]) result own) :
    VerdictAfter fallbacks result (own.map fun r => (r.1, f.source :: r.2)) := by
  rw [VerdictAfter, h, Option.map_map]
  congr 1
  funext r
  simp

/-- The ladder over `order` answers for its verdict exactly when the statuses are harmless. -/
def Answers (maxPolls : Nat) (order : List PurgeMechanism)
    (d : List MechanismFallback → NvmeDialogue (Except String PurgeExecutionSummary)) : Prop :=
  ∀ fallbacks es result, (d fallbacks).Ends es result →
    ∃ own, VerdictAfter fallbacks result own
      ∧ ((es.map event).filterMap Event.issued).Sublist order
      ∧ (∀ m passed, own = some (m, passed) → m ∈ order)
      ∧ (OwnEvidence PurgeMechanism.Sanitizes (fun _ => False) order (es.map event) own
          ↔ StatusesHarmless maxPolls es)

/-- What may follow the command of a mechanism that passed. -/
def FollowsUp (maxPolls : Nat) (m : PurgeMechanism)
    (d : List MechanismFallback → NvmeDialogue (Except String PurgeExecutionSummary)) : Prop :=
  ∀ fallbacks es result, (d fallbacks).Ends es result →
    ∃ own, VerdictAfter fallbacks result own
      ∧ (∀ e ∈ es, e.request = NvmeCodec.encodeGetSanitizeStatusLog)
      ∧ (own = none ∨ own = some (m, [])) ∧ (es ≠ [] ∨ own ≠ none)
      ∧ ∀ order, OwnEvidence PurgeMechanism.Sanitizes (fun _ => False) (m :: order)
            (Event.purge m .done :: es.map event) own
          ↔ ReadsSettle maxPolls (es.map fun e => readOf e.reply)

theorem event_of_log {e : NvmeExchange} (h : e.request = NvmeCodec.encodeGetSanitizeStatusLog) :
    event e = (readOf e.reply).event := by
  rw [event, h, mechanismOf_log]

theorem map_event_of_log {es : List NvmeExchange}
    (h : ∀ e ∈ es, e.request = NvmeCodec.encodeGetSanitizeStatusLog) :
    es.map event = (es.map fun e => readOf e.reply).map Read.event := by
  rw [List.map_map]
  exact List.map_congr_left fun e he => event_of_log (h e he)

theorem sanitized_followsUp (maxPolls : Nat) {m : PurgeMechanism} (hm : m.Sanitizes) :
    FollowsUp maxPolls m (sanitized maxPolls m) := by
  intro fallbacks es result h
  obtain ⟨es₁, status, es₂, rfl, hwait, hrest⟩ := Dialogue.ends_andThen.mp h
  obtain ⟨hlog, hpolled⟩ := (sanitizePoll_reads maxPolls).loop_polled hwait
  have hne : es₁ ≠ [] := fun heq => hpolled.ne_nil (by rw [heq]; rfl)
  refine ⟨if status.isOk then some (m, []) else none, ?_⟩
  cases status with
  | error e =>
    obtain ⟨rfl, rfl⟩ := Dialogue.ends_done.mp hrest
    rw [List.append_nil]
    refine ⟨rfl, hlog, Or.inl rfl, Or.inl hne, fun order => ?_⟩
    rw [map_event_of_log hlog]
    exact ownEvidence_polled hm hpolled
  | ok status =>
    obtain ⟨rfl, rfl⟩ := Dialogue.ends_done.mp hrest
    rw [List.append_nil]
    refine ⟨by simp [VerdictAfter, verdict, Except.isOk, Except.toBool], hlog, Or.inr rfl, Or.inl hne,
      fun order => ?_⟩
    rw [map_event_of_log hlog]
    exact ownEvidence_polled hm hpolled

theorem formatted_followsUp (maxPolls : Nat) :
    FollowsUp maxPolls .formatNvmCryptoErase formatted := by
  intro fallbacks es result h
  obtain ⟨rfl, rfl⟩ := Dialogue.ends_done.mp h
  refine ⟨some (.formatNvmCryptoErase, []), by simp [VerdictAfter, verdict], nofun, Or.inr rfl,
    Or.inr nofun, fun order => iff_of_true ?_ ?_⟩
  · exact @ownEvidence_done _ _ _ _ .formatNvmCryptoErase order [] (by decide) nofun
  · exact readsSettle_nil maxPolls

theorem logReads_of_log {es : List NvmeExchange}
    (h : ∀ e ∈ es, e.request = NvmeCodec.encodeGetSanitizeStatusLog) :
    logReads es = es.map fun e => readOf e.reply := by
  rw [logReads, List.filter_eq_self.mpr fun e he => by rw [h e he, mechanismOf_log]; rfl]

theorem statusesHarmless_cons {maxPolls : Nat} {cmd : Bytes} {m : PurgeMechanism} {r : IoctlReturn}
    {es : List NvmeExchange} (hcmd : mechanismOf cmd = some m) (hr : ¬ 0 < r.ret) :
    StatusesHarmless maxPolls (⟨cmd, r⟩ :: es) ↔ StatusesHarmless maxPolls es := by
  have hreads : logReads (⟨cmd, r⟩ :: es) = logReads es := by
    rw [logReads, List.filter_cons_of_neg (by rw [hcmd]; exact nofun)]
    rfl
  rw [StatusesHarmless, hreads, List.forall_mem_cons]
  constructor
  · rintro ⟨⟨-, hes⟩, hsettle⟩
    exact ⟨hes, hsettle⟩
  · rintro ⟨hes, hsettle⟩
    exact ⟨⟨fun _ => hr, hes⟩, hsettle⟩

theorem statusesHarmless_of_log {maxPolls : Nat} {es : List NvmeExchange}
    (h : ∀ e ∈ es, e.request = NvmeCodec.encodeGetSanitizeStatusLog) :
    StatusesHarmless maxPolls es ↔ ReadsSettle maxPolls (es.map fun e => readOf e.reply) := by
  rw [StatusesHarmless, logReads_of_log h]
  refine and_iff_right fun e he hpurge => ?_
  rw [h e he, mechanismOf_log] at hpurge
  cases hpurge

/-- **Step lemma**: a rung answers for its verdict as its follow-up and the rungs after it do. -/
theorem rung_answers {maxPolls : Nat} {cmd : Bytes} {m target : PurgeMechanism} {label : String}
    {passed next : List MechanismFallback → NvmeDialogue (Except String PurgeExecutionSummary)}
    {order : List PurgeMechanism} (hcmd : mechanismOf cmd = some m) (hnew : m ∉ order)
    (hpassed : FollowsUp maxPolls m passed) (hnext : Answers maxPolls order next) :
    Answers maxPolls (m :: order) (rung cmd m target label passed next) := by
  intro fallbacks es result h
  obtain ⟨es₁, payload, es₂, rfl, hask, hrest⟩ := Dialogue.ends_andThen.mp h
  obtain ⟨r, es₃, rfl, hdone⟩ := Dialogue.ends_ask.mp hask
  obtain ⟨rfl, rfl⟩ := Dialogue.ends_done.mp hdone
  have hevent : event ⟨cmd, r⟩ = .purge m (ending r) := by rw [event, hcmd]
  rw [List.singleton_append, List.map_cons, hevent]
  by_cases hneg : r.ret < 0
  · have hnotPositive : ¬ 0 < r.ret := by omega
    rw [passthroughResult, if_pos hneg] at hrest
    by_cases herrno : r.errno = EIO
    · -- Rejected: the rest of the ladder answers.
      have hending : ending r = .rejected := by
        rw [ending, if_neg (by omega), if_pos ⟨hneg, herrno⟩]
      rw [herrno] at hrest
      obtain ⟨own, hverdict, hordered, hmem, hiff⟩ := hnext _ _ _ hrest
      refine ⟨own.map fun r => (r.1, m :: r.2), hverdict.passed, ?_, ?_, ?_⟩
      · exact hordered.cons_cons m
      · intro m' l hsome
        obtain ⟨r', hr', heq⟩ := Option.map_eq_some_iff.mp hsome
        obtain ⟨rfl, -⟩ := Prod.mk.inj heq
        exact List.mem_cons_of_mem m (hmem r'.1 r'.2 hr')
      · rw [statusesHarmless_cons hcmd hnotPositive, ← hiff, hending]
        exact ownEvidence_passed hnew (Or.inl rfl) hordered hmem
    · have hending : ending r = .failed := by
        rw [ending, if_neg (by omega), if_neg fun h => herrno h.2]
      have hfatal : es₂ = [] ∧ verdict result = none := by
        have hother := classify_of_ne herrno
        cases hclass : classify r.errno with
        | controllerRejected n description => exact absurd hclass (hother n description)
        | _ =>
          rw [hclass] at hrest
          obtain ⟨rfl, rfl⟩ := Dialogue.ends_done.mp hrest
          exact ⟨rfl, rfl⟩
      obtain ⟨rfl, hnone⟩ := hfatal
      rw [hending]
      have hissued : ([Event.purge m .failed].filterMap Event.issued).Sublist (m :: order) :=
        List.singleton_sublist.mpr List.mem_cons_self
      refine ⟨none, hnone, hissued, nofun, iff_of_true (ownEvidence_error hissued nofun) ?_⟩
      rw [statusesHarmless_cons hcmd hnotPositive]
      exact ⟨nofun, readsSettle_nil maxPolls⟩
  · rw [passthroughResult, if_neg hneg] at hrest
    obtain ⟨own, hverdict, hlog, hown, hgoes, hiff⟩ := hpassed _ _ _ hrest
    refine ⟨own, hverdict, ?_, ?_, ?_⟩
    · show (m :: (es₂.map event).filterMap Event.issued).Sublist _
      rw [map_event_of_log hlog, filterMap_issued_reads]
      exact List.singleton_sublist.mpr List.mem_cons_self
    · rintro m' l rfl
      rcases hown with hown | hown
      · cases hown
      · rw [Option.some.injEq, Prod.mk.injEq] at hown
        exact hown.1 ▸ List.mem_cons_self
    · by_cases hzero : r.ret = 0
      · rw [statusesHarmless_cons hcmd (by omega), statusesHarmless_of_log hlog, ← hiff order, ending,
          if_pos hzero]
      · -- A positive status: the command failed, and the ladder goes on.
        refine iff_of_false ?_ fun hharmless => ?_
        · rw [ending, if_neg hzero, if_neg fun h => hneg h.1]
          refine @not_ownEvidence _ _ _ _ _ [] _ _ _ rfl (hgoes.imp_left fun hne heq => ?_)
          exact hne (List.map_eq_nil_iff.mp heq)
        · refine hharmless.1 ⟨cmd, r⟩ List.mem_cons_self ?_ (by show 0 < r.ret; omega)
          show (mechanismOf cmd).isSome = true
          rw [hcmd]
          rfl

theorem logicalOverwriteRung_answers (maxPolls : Nat) :
    Answers maxPolls [.logicalOverwrite] logicalOverwriteRung := by
  intro fallbacks es result h
  obtain ⟨rfl, rfl⟩ := Dialogue.ends_done.mp h
  have hissued : (([] : List NvmeExchange).map event |>.filterMap Event.issued).Sublist
      [PurgeMechanism.logicalOverwrite] := List.nil_sublist _
  exact ⟨none, rfl, hissued, nofun,
    iff_of_true (ownEvidence_error hissued nofun) ⟨nofun, readsSettle_nil maxPolls⟩⟩

theorem mechanismOf_format (nsid : Nat) :
    mechanismOf (NvmeCodec.encodeFormatNvm nsid .cryptoErase 0) = some .formatNvmCryptoErase := rfl

/-- **Run lemma**: the ladder from its last rung up. -/
theorem executePurgeLadder_iff {maxPolls : Nat} {permit : PurgePermit} {primary : PurgeMechanism}
    {es : List NvmeExchange} {result : Except String PurgeExecutionSummary}
    (h : (executePurgeLadder maxPolls permit primary).Ends es result) :
    GoesByOwnEvidence primary es result ↔ StatusesHarmless maxPolls es := by
  have hlogical := logicalOverwriteRung_answers maxPolls
  have hformat : Answers maxPolls _ (formatRung permit) :=
    rung_answers (mechanismOf_format _) (by decide) (formatted_followsUp maxPolls) hlogical
  have hblock : Answers maxPolls _ (blockEraseRung maxPolls permit) :=
    rung_answers (by decide) (by decide) (sanitized_followsUp maxPolls (by decide)) hformat
  have hcrypto : Answers maxPolls _ (cryptoEraseRung maxPolls permit) :=
    rung_answers (by decide) (by decide) (sanitized_followsUp maxPolls (by decide)) hblock
  have hladder : ∀ order d, Answers maxPolls order d → order = primary.ladder →
      (d []).Ends es result → (GoesByOwnEvidence primary es result ↔ StatusesHarmless maxPolls es) := by
    rintro order d hanswers rfl hends
    obtain ⟨own, hverdict, -, -, hiff⟩ := hanswers [] es result hends
    have hsame : verdict result = own := by
      rw [hverdict, List.map_nil]
      cases own <;> rfl
    rw [GoesByOwnEvidence, hsame]
    exact hiff
  cases primary with
  | sanitizeCryptoErase => exact hladder _ _ hcrypto rfl h
  | sanitizeBlockErase => exact hladder _ _ hblock rfl h
  | formatNvmCryptoErase => exact hladder _ _ hformat rfl h
  | logicalOverwrite => exact hladder _ _ hlogical rfl h

end Nvme

end DiscCleaner
