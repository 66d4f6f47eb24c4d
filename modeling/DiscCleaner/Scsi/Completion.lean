import DiscCleaner.Scsi.Purge

/-!
# DiscCleaner — what a certified sanitize rests on

A conforming device answers REQUEST SENSE with GOOD status and puts its report in the data-in
buffer; the sense buffer is filled for CHECK CONDITION only. The poll reads the sense buffer, so
it takes the first answer of any conforming device for the end of the operation.
-/

namespace DiscCleaner

open ByteLib ScsiPurgeClient

/-! ## Devices and their reports -/

/-- SPC: REQUEST SENSE ends in GOOD status, and a GOOD reply carries no autosense. -/
def ScsiTransport.Conforming (transport : ScsiTransport) : Prop :=
  ∀ h request reply, transport h request = .ok reply →
    (request = senseRequest → reply.isGood = true) ∧ (reply.isGood = true → reply.sense = [])

/-- The sense data of a data-in buffer: key, ASC and ASCQ, in fixed or descriptor format. -/
def senseReport (dataIn : Bytes) : Option (UInt8 × UInt8 × UInt8) := do
  let responseCode := (← dataIn[0]?) &&& 0x7F
  if responseCode = 0x70 ∨ responseCode = 0x71 then
    return ((← dataIn[2]?) &&& 0x0F, ← dataIn[12]?, ← dataIn[13]?)
  else if responseCode = 0x72 ∨ responseCode = 0x73 then
    return ((← dataIn[1]?) &&& 0x0F, ← dataIn[2]?, ← dataIn[3]?)
  else none

namespace ScsiExchange

/-- What the device reported in this exchange. -/
def report (e : ScsiExchange) : Option (UInt8 × UInt8 × UInt8) :=
  match e.reply with
  | .ok reply => if e.request = senseRequest ∧ reply.isGood then senseReport reply.dataIn else none
  | .error _ => none

/-- The end of the operation without failure: no sense, or unit attention after a reset. -/
def EndReported (e : ScsiExchange) : Prop :=
  ∃ key asc ascq, e.report = some (key, asc, ascq) ∧ (key = 0x00 ∨ key = 0x06 ∧ asc = ascPowerOnReset)

/-- A failed sanitize: ASC 31h under NOT READY or MEDIUM ERROR. -/
def FailureReported (e : ScsiExchange) : Prop :=
  ∃ key asc ascq, e.report = some (key, asc, ascq)
    ∧ (key = 0x02 ∨ key = 0x03) ∧ asc = ascSanitizeFailed

def InProgressReported (e : ScsiExchange) : Prop :=
  ∃ key asc ascq, e.report = some (key, asc, ascq) ∧ key = 0x02 ∧ asc = ascLuNotReady

/-- The sanitize action whose command was accepted in this exchange. -/
def accepted (e : ScsiExchange) : Option ScsiSanitizeServiceAction :=
  match e.reply with
  | .ok reply =>
    if reply.isGood then
      if e.request = sanitizeRequest .cryptoErase then some .cryptoErase
      else if e.request = sanitizeRequest .blockErase then some .blockErase
      else none
    else none
  | .error _ => none

theorem EndReported.not_failure {e : ScsiExchange} (h : e.EndReported) : ¬ e.FailureReported := by
  obtain ⟨key, asc, ascq, hreport, hend⟩ := h
  rintro ⟨key', asc', ascq', hreport', hkey, hasc⟩
  rw [hreport, Option.some.injEq, Prod.mk.injEq, Prod.mk.injEq] at hreport'
  obtain ⟨rfl, rfl, -⟩ := hreport'
  rcases hend with rfl | ⟨rfl, -⟩
  · revert hkey
    decide
  · revert hkey
    decide

theorem EndReported.not_inProgress {e : ScsiExchange} (h : e.EndReported) :
    ¬ e.InProgressReported := by
  obtain ⟨key, asc, ascq, hreport, hend⟩ := h
  rintro ⟨key', asc', ascq', hreport', hkey, -⟩
  rw [hreport, Option.some.injEq, Prod.mk.injEq, Prod.mk.injEq] at hreport'
  obtain ⟨rfl, -, -⟩ := hreport'
  subst hkey
  rcases hend with heq | ⟨heq, -⟩
  · revert heq
    decide
  · revert heq
    decide

end ScsiExchange

/-- The first accepted sanitize among the exchanges, and what came after it. -/
def afterAccepted : List ScsiExchange → Option (ScsiSanitizeServiceAction × List ScsiExchange)
  | [] => none
  | e :: es =>
    match e.accepted with
    | some action => some (action, es)
    | none => afterAccepted es

theorem afterAccepted_append {es : List ScsiExchange} (h : ∀ e ∈ es, e.accepted = none)
    (es' : List ScsiExchange) : afterAccepted (es ++ es') = afterAccepted es' := by
  induction es with
  | nil => rfl
  | cons e es ih =>
    obtain ⟨he, hes⟩ := List.forall_mem_cons.mp h
    rw [List.cons_append, afterAccepted, he]
    exact ih hes

def ScsiPurgeMechanism.sanitizeAction : ScsiPurgeMechanism → Option ScsiSanitizeServiceAction
  | .sanitizeCryptoErase => some .cryptoErase
  | .sanitizeBlockErase => some .blockErase
  | .formatUnit => none

/-- A sanitize is certified only after its end: the command of the mechanism was accepted and
the device has reported the end without a failure; a reported failure, or an operation still in
progress at the last poll, is an error. -/
def CertifiesOnlyTheEnd (result : Except String ScsiPurgeExecutionSummary)
    (h : List ScsiExchange) : Prop :=
  (∀ summary, result = .ok summary → ∀ action, summary.executedMechanism.sanitizeAction = some action →
      ∃ polls, afterAccepted h = some (action, polls)
        ∧ (∃ e ∈ polls, e.EndReported) ∧ ∀ e ∈ polls, ¬ e.FailureReported)
    ∧ ∀ action polls, afterAccepted h = some (action, polls) →
        ((∃ e ∈ polls, e.FailureReported) ∨ ∃ e, polls.getLast? = some e ∧ e.InProgressReported) →
        ∃ reason, result = .error reason

/-! ## When the ladder meets it -/

/-- The sanitize actions a ladder tries from a mechanism on. -/
def ScsiPurgeMechanism.attempts : ScsiPurgeMechanism → List ScsiSanitizeServiceAction
  | .sanitizeCryptoErase => [.cryptoErase, .blockErase]
  | .sanitizeBlockErase => [.blockErase]
  | .formatUnit => []

/-- The first action the device accepts, where it rejects those before, and the exchanges up to
the acceptance. -/
def acceptedAt (transport : ScsiTransport) :
    List ScsiSanitizeServiceAction → List ScsiExchange →
      Option (ScsiSanitizeServiceAction × List ScsiExchange)
  | [], _ => none
  | action :: actions, h =>
    let request := sanitizeRequest action
    let h' := h ++ [⟨request, transport h request⟩]
    match transport h request with
    | .error _ => none
    | .ok reply =>
      if reply.isGood then some (action, h')
      else if (illegalRequestReason reply).isSome then acceptedAt transport actions h'
      else none

/-- The answer to the first poll of an accepted sanitize is a fault or reports the end. -/
def FirstPollSettles (transport : ScsiTransport) (requested : Option ScsiPurgeMechanism) : Prop :=
  ∀ action h,
    acceptedAt transport (requested.getD .sanitizeCryptoErase).attempts
        [⟨readDefectRequest, transport [] readDefectRequest⟩] = some (action, h) →
      (∃ fault, transport h senseRequest = .error fault)
        ∨ ScsiExchange.EndReported ⟨senseRequest, transport h senseRequest⟩

/-! ## Steps against a conforming device -/

namespace ScsiPurgeClient

variable {transport : ScsiTransport}

/-- Any other request than an erase is no accepted sanitize. -/
theorem accepted_other {request : ScsiRequest} (hcrypto : request ≠ sanitizeRequest .cryptoErase)
    (hblock : request ≠ sanitizeRequest .blockErase) (reply : Except String ScsiReply) :
    ScsiExchange.accepted ⟨request, reply⟩ = none := by
  unfold ScsiExchange.accepted
  cases reply with
  | error e => rfl
  | ok reply =>
    dsimp only
    rw [if_neg hcrypto, if_neg hblock, ite_self]

/-- The sense buffer of a conforming device is empty, so a poll either faults or reads it as an
idle unit. -/
theorem requestSense_conforming (hc : transport.Conforming) (h : List ScsiExchange) :
    (∃ fault, transport h senseRequest = .error fault
        ∧ requestSense transport h = (.error fault, h ++ [⟨senseRequest, transport h senseRequest⟩])) ∨
      ∃ reply, transport h senseRequest = .ok reply
        ∧ requestSense transport h = (.ok noSense, h ++ [⟨senseRequest, transport h senseRequest⟩]) := by
  unfold requestSense issue
  cases hreply : transport h senseRequest with
  | error fault => exact Or.inl ⟨fault, rfl, rfl⟩
  | ok reply =>
    obtain ⟨hgood, hempty⟩ := hc h senseRequest reply hreply
    refine Or.inr ⟨reply, rfl, ?_⟩
    dsimp only
    rw [hempty (hgood rfl)]
    rfl

/-- The first poll is the last. -/
theorem pollSense_conforming (hc : transport.Conforming) (maxPolls remaining : Nat)
    (h : List ScsiExchange) :
    (∃ fault, transport h senseRequest = .error fault
        ∧ pollSense transport maxPolls remaining h
          = (.error (.fatal fault), h ++ [⟨senseRequest, transport h senseRequest⟩])) ∨
      ∃ reply, transport h senseRequest = .ok reply
        ∧ pollSense transport maxPolls remaining h
          = (.ok (1000, noSense), h ++ [⟨senseRequest, transport h senseRequest⟩]) := by
  rcases requestSense_conforming hc h with ⟨fault, hfault, hrun⟩ | ⟨reply, hreply, hrun⟩
  · refine Or.inl ⟨fault, hfault, ?_⟩
    rw [pollSense.eq_def]
    dsimp only
    rw [hrun]
  · refine Or.inr ⟨reply, hreply, ?_⟩
    rw [pollSense.eq_def]
    dsimp only
    rw [hrun]
    rfl

/-- How a ladder that still has `actions` to try ends on a conforming device: with the first
poll of the sanitize it accepts, or without one. -/
def LadderEnd (transport : ScsiTransport) (actions : List ScsiSanitizeServiceAction)
    (h : List ScsiExchange)
    (out : Except String ScsiPurgeExecutionSummary × List ScsiExchange) : Prop :=
  match acceptedAt transport actions h with
  | some (action, h') =>
    afterAccepted out.2 = some (action, [⟨senseRequest, transport h' senseRequest⟩])
      ∧ ((∃ fault, transport h' senseRequest = .error fault ∧ out.1 = .error fault) ∨
        ∃ reply summary, transport h' senseRequest = .ok reply ∧ out.1 = .ok summary
          ∧ summary.executedMechanism.sanitizeAction = some action)
  | none =>
    afterAccepted out.2 = none
      ∧ ∀ summary, out.1 = .ok summary → summary.executedMechanism.sanitizeAction = none

theorem afterAccepted_none {es : List ScsiExchange} (h : ∀ e ∈ es, e.accepted = none) :
    afterAccepted es = none := by
  rw [← List.append_nil es, afterAccepted_append h]
  rfl

theorem formatUnitRung_end (hc : transport.Conforming) (permit : ScsiPurgePermit)
    (defects : Option Nat) (fallbacks : List ScsiMechanismFallback) {h : List ScsiExchange}
    (hnone : ∀ e ∈ h, e.accepted = none) :
    LadderEnd transport [] h (formatUnitRung transport permit defects fallbacks h) := by
  have hformat : ∀ reply, ScsiExchange.accepted ⟨formatUnitRequest, reply⟩ = none :=
    accepted_other (by decide) (by decide)
  have hsense : ∀ reply, ScsiExchange.accepted ⟨senseRequest, reply⟩ = none :=
    accepted_other (by decide) (by decide)
  have hissued : ∀ reply, ∀ e ∈ h ++ [⟨formatUnitRequest, reply⟩], e.accepted = none :=
    fun reply => List.forall_mem_append.mpr
      ⟨hnone, fun e he => List.mem_singleton.mp he ▸ hformat reply⟩
  show afterAccepted _ = none ∧ _
  unfold formatUnitRung issue
  cases hreply : transport h formatUnitRequest with
  | error fault => exact ⟨afterAccepted_none (hissued _), nofun⟩
  | ok reply =>
    dsimp only
    by_cases hgood : reply.isGood = true
    · rw [if_pos hgood]
      rcases requestSense_conforming hc (h ++ [⟨formatUnitRequest, .ok reply⟩]) with
        ⟨fault, -, hrun⟩ | ⟨sense, -, hrun⟩
      all_goals
        rw [hrun]
        refine ⟨afterAccepted_none (List.forall_mem_append.mpr ⟨hissued _, fun e he => ?_⟩),
          fun summary heq => ?_⟩
        · exact List.mem_singleton.mp he ▸ hsense _
        · rw [← Except.ok.inj heq]
          rfl
    · rw [if_neg hgood]
      exact ⟨afterAccepted_none (hissued _), nofun⟩

/-- The command of an erase is accepted exactly by a GOOD reply. -/
theorem accepted_sanitize {action : ScsiSanitizeServiceAction}
    (haction : action = .cryptoErase ∨ action = .blockErase) {reply : ScsiReply} :
    ScsiExchange.accepted ⟨sanitizeRequest action, .ok reply⟩
      = if reply.isGood then some action else none := by
  have hne : sanitizeRequest .blockErase ≠ sanitizeRequest .cryptoErase := by decide
  unfold ScsiExchange.accepted
  dsimp only
  rcases haction with rfl | rfl
  · rw [if_pos rfl]
  · rw [if_neg hne, if_pos rfl]

/-- **Step lemma**: a rung ends with its own sanitize, or as the rungs after it do. -/
theorem sanitizeRung_end (hc : transport.Conforming) (maxPolls : Nat) (defects : Option Nat)
    {mechanism : ScsiPurgeMechanism} {action : ScsiSanitizeServiceAction}
    (haction : action = .cryptoErase ∨ action = .blockErase)
    (hmechanism : mechanism.sanitizeAction = some action) (source target : String)
    {next : List ScsiMechanismFallback → ScsiStep String ScsiPurgeExecutionSummary}
    {actions : List ScsiSanitizeServiceAction}
    (hnext : ∀ fallbacks (h : List ScsiExchange), (∀ e ∈ h, e.accepted = none) →
      LadderEnd transport actions h (next fallbacks h))
    (fallbacks : List ScsiMechanismFallback) {h : List ScsiExchange}
    (hnone : ∀ e ∈ h, e.accepted = none) :
    LadderEnd transport (action :: actions) h
      (sanitizeRung transport maxPolls defects mechanism action source target next fallbacks h) := by
  unfold LadderEnd sanitizeRung runSanitize issue
  rw [acceptedAt]
  cases hreply : transport h (sanitizeRequest action) with
  | error fault =>
    refine ⟨afterAccepted_none (List.forall_mem_append.mpr ⟨hnone, fun e he => ?_⟩), nofun⟩
    rw [List.mem_singleton.mp he]
    rfl
  | ok reply =>
    dsimp only
    have haccepted := @accepted_sanitize action haction reply
    by_cases hgood : reply.isGood = true
    · -- Accepted: the first poll decides.
      rw [if_pos hgood] at haccepted ⊢
      rw [if_pos hgood]
      have hafter : ∀ poll : ScsiExchange,
          afterAccepted (h ++ [⟨sanitizeRequest action, .ok reply⟩] ++ [poll])
            = some (action, [poll]) := by
        intro poll
        rw [List.append_assoc, afterAccepted_append hnone, List.singleton_append, afterAccepted,
          haccepted]
      rcases pollSense_conforming hc maxPolls maxPolls
        (h ++ [⟨sanitizeRequest action, .ok reply⟩]) with ⟨fault, hfault, hrun⟩ | ⟨sense, hsense, hrun⟩
      · rw [hrun]
        exact ⟨hafter _, Or.inl ⟨fault, hfault, rfl⟩⟩
      · rw [hrun]
        exact ⟨hafter _, Or.inr ⟨sense, _, hsense, rfl, hmechanism⟩⟩
    · rw [if_neg hgood] at haccepted ⊢
      rw [if_neg hgood]
      have hissued : ∀ e ∈ h ++ [⟨sanitizeRequest action, .ok reply⟩], e.accepted = none :=
        List.forall_mem_append.mpr
          ⟨hnone, fun e he => List.mem_singleton.mp he ▸ haccepted⟩
      cases hillegal : illegalRequestReason reply with
      | none => exact ⟨afterAccepted_none hissued, nofun⟩
      | some reason => exact hnext _ _ hissued

/-- **Run lemma**: the whole ladder, from the probe of the defect list on. -/
theorem executePurgeLadder_end (hc : transport.Conforming) (maxPolls : Nat)
    (permit : ScsiPurgePermit) (requested : Option ScsiPurgeMechanism) :
    LadderEnd transport (requested.getD .sanitizeCryptoErase).attempts
      [⟨readDefectRequest, transport [] readDefectRequest⟩]
      (executePurgeLadder transport maxPolls permit requested []) := by
  have hprobe : (readGrownDefects transport []).2
      = [⟨readDefectRequest, transport [] readDefectRequest⟩] := by
    unfold readGrownDefects issue
    cases transport [] readDefectRequest with
    | error fault => rfl
    | ok reply =>
      dsimp only
      split <;> rfl
  have hnone : ∀ e ∈ (readGrownDefects transport []).2, e.accepted = none := by
    rw [hprobe]
    intro e he
    rw [List.mem_singleton.mp he]
    exact accepted_other (by decide) (by decide) _
  have hformat := fun fallbacks (h : List ScsiExchange) (hnone : ∀ e ∈ h, e.accepted = none) =>
    formatUnitRung_end hc permit (readGrownDefects transport []).1.toOption fallbacks hnone
  have hblock := fun fallbacks (h : List ScsiExchange) (hnone : ∀ e ∈ h, e.accepted = none) =>
    @sanitizeRung_end transport hc maxPolls (readGrownDefects transport []).1.toOption
      .sanitizeBlockErase .blockErase (Or.inr rfl) rfl "SanitizeBlockErase" "FormatUnit" _ _ hformat
      fallbacks h hnone
  unfold executePurgeLadder
  dsimp only
  rw [← hprobe]
  cases requested.getD .sanitizeCryptoErase with
  | sanitizeCryptoErase =>
    exact sanitizeRung_end hc maxPolls _ (Or.inl rfl) rfl _ _ hblock [] hnone
  | sanitizeBlockErase => exact hblock [] _ hnone
  | formatUnit => exact hformat [] _ hnone

/-- Without an accepted sanitize there is none to certify too early. -/
theorem certifiesOnlyTheEnd_of_none {result : Except String ScsiPurgeExecutionSummary}
    {h : List ScsiExchange} (hafter : afterAccepted h = none)
    (hmechanism : ∀ summary, result = .ok summary → summary.executedMechanism.sanitizeAction = none) :
    CertifiesOnlyTheEnd result h := by
  refine ⟨fun summary hok action haction => ?_, fun action polls hpolls => ?_⟩
  · rw [hmechanism summary hok] at haction
    cases haction
  · rw [hafter] at hpolls
    cases hpolls

/-- An accepted sanitize that was polled once is certified rightly exactly if that poll reported
the end. -/
theorem certifiesOnlyTheEnd_one_poll {summary : ScsiPurgeExecutionSummary} {h : List ScsiExchange}
    {action : ScsiSanitizeServiceAction} {poll : ScsiExchange}
    (hafter : afterAccepted h = some (action, [poll]))
    (hmechanism : summary.executedMechanism.sanitizeAction = some action) :
    CertifiesOnlyTheEnd (.ok summary) h ↔ poll.EndReported := by
  constructor
  · intro hcert
    obtain ⟨polls, hpolls, ⟨e, he, hended⟩, -⟩ := hcert.1 summary rfl action hmechanism
    rw [hafter, Option.some.injEq, Prod.mk.injEq] at hpolls
    rw [← hpolls.2, List.mem_singleton] at he
    exact he ▸ hended
  · intro hended
    refine ⟨fun summary' hok action' haction => ?_, fun action' polls hpolls hbad => ?_⟩
    · rw [← Except.ok.inj hok, hmechanism, Option.some.injEq] at haction
      subst haction
      refine ⟨_, hafter, ⟨_, List.mem_singleton_self _, hended⟩, fun e he => ?_⟩
      rw [List.mem_singleton.mp he]
      exact hended.not_failure
    · -- The one report says neither a failure nor a progress.
      rw [hafter, Option.some.injEq, Prod.mk.injEq] at hpolls
      obtain ⟨-, rfl⟩ := hpolls
      rcases hbad with ⟨e, he, hfailed⟩ | ⟨e, he, hprogress⟩
      · exact absurd (List.mem_singleton.mp he ▸ hfailed) hended.not_failure
      · rw [List.getLast?_singleton, Option.some.injEq] at he
        exact absurd (he ▸ hprogress) hended.not_inProgress

/-- **The ladder certifies only the end exactly when the first poll settles it**: no conforming
device is polled twice, so an operation in progress and a failed one are certified alike. -/
theorem certifiesOnlyTheEnd_iff (hc : transport.Conforming) (maxPolls : Nat)
    (permit : ScsiPurgePermit) (requested : Option ScsiPurgeMechanism) :
    CertifiesOnlyTheEnd (executePurgeLadder transport maxPolls permit requested []).1
        (executePurgeLadder transport maxPolls permit requested []).2
      ↔ FirstPollSettles transport requested := by
  have hend := executePurgeLadder_end hc maxPolls permit requested
  unfold FirstPollSettles
  unfold LadderEnd at hend
  generalize executePurgeLadder transport maxPolls permit requested [] = out at hend ⊢
  cases haccepted : acceptedAt transport (requested.getD .sanitizeCryptoErase).attempts
      [⟨readDefectRequest, transport [] readDefectRequest⟩] with
  | none =>
    rw [haccepted] at hend
    exact iff_of_true (certifiesOnlyTheEnd_of_none hend.1 hend.2) nofun
  | some found =>
    obtain ⟨action, h⟩ := found
    rw [haccepted] at hend
    obtain ⟨hafter, ⟨fault, hfault, herror⟩ | ⟨reply, summary, hreply, hok, hmechanism⟩⟩ := hend
    · -- The poll faults, and so does the ladder.
      refine iff_of_true ⟨fun summary hok => ?_, fun _ _ _ _ => ⟨fault, herror⟩⟩ ?_
      · rw [herror] at hok
        cases hok
      · intro action' h' heq
        obtain ⟨rfl, rfl⟩ := Prod.mk.inj (Option.some.inj heq)
        exact Or.inl ⟨fault, hfault⟩
    · rw [hok, certifiesOnlyTheEnd_one_poll hafter hmechanism]
      constructor
      · intro hended action' h' heq
        obtain ⟨rfl, rfl⟩ := Prod.mk.inj (Option.some.inj heq)
        exact Or.inr hended
      · intro hsettles
        rcases hsettles action h rfl with ⟨fault, hfault⟩ | hended
        · rw [hfault] at hreply
          cases hreply
        · exact hended

/-! ### Devices that keep reporting one state -/

/-- Fixed-format sense data of 18 bytes. -/
def fixedSense (key asc ascq : UInt8) : Bytes :=
  [0x70, 0, key, 0, 0, 0, 0, 10, 0, 0, 0, 0, asc, ascq, 0, 0, 0, 0]

/-- A device that accepts every command and answers every poll with the same report. -/
def reporting (key asc ascq : UInt8) : ScsiTransport := fun _ request =>
  .ok ⟨0x00, [], if request = senseRequest then fixedSense key asc ascq else [0, 0, 0, 0]⟩

theorem reporting_conforming (key asc ascq : UInt8) : (reporting key asc ascq).Conforming := by
  intro h request reply hreply
  obtain rfl := Except.ok.inj hreply
  exact ⟨fun _ => rfl, fun _ => rfl⟩

/-- A device that has ended the operation by the first poll is certified rightly. -/
theorem certifiesOnlyTheEnd_iff_idle :
    CertifiesOnlyTheEnd (executePurgeLadder (reporting 0x00 0x00 0x00) 4 ⟨"/dev/sdb"⟩ none []).1
      (executePurgeLadder (reporting 0x00 0x00 0x00) 4 ⟨"/dev/sdb"⟩ none []).2 := by
  refine (certifiesOnlyTheEnd_iff (reporting_conforming 0x00 0x00 0x00) 4 ⟨"/dev/sdb"⟩ none).mpr ?_
  exact fun _ _ _ => Or.inr ⟨0x00, 0x00, 0x00, rfl, Or.inl rfl⟩

/-- A sanitize in progress at every poll, and one that failed, are both certified at the first
poll, with a terminal sense no device sent. -/
theorem certifies_busy_and_failed :
    (reporting 0x02 0x04 0x1B).Conforming ∧ (reporting 0x02 0x31 0x00).Conforming
      ∧ (executePurgeLadder (reporting 0x02 0x04 0x1B) 4 ⟨"/dev/sdb"⟩ none []).1
        = .ok ⟨.sanitizeCryptoErase, [], .sensePollTerminal, 1000, some 0, noSense⟩
      ∧ (executePurgeLadder (reporting 0x02 0x31 0x00) 4 ⟨"/dev/sdb"⟩ none []).1
        = .ok ⟨.sanitizeCryptoErase, [], .sensePollTerminal, 1000, some 0, noSense⟩
      ∧ ¬ CertifiesOnlyTheEnd
          (executePurgeLadder (reporting 0x02 0x04 0x1B) 4 ⟨"/dev/sdb"⟩ none []).1
          (executePurgeLadder (reporting 0x02 0x04 0x1B) 4 ⟨"/dev/sdb"⟩ none []).2
      ∧ ¬ CertifiesOnlyTheEnd
          (executePurgeLadder (reporting 0x02 0x31 0x00) 4 ⟨"/dev/sdb"⟩ none []).1
          (executePurgeLadder (reporting 0x02 0x31 0x00) 4 ⟨"/dev/sdb"⟩ none []).2 := by
  refine ⟨reporting_conforming _ _ _, reporting_conforming _ _ _, rfl, rfl, fun hcert => ?_,
    fun hcert => ?_⟩
  · obtain ⟨reason, hreason⟩ := hcert.2 .cryptoErase _ rfl
      (Or.inr ⟨_, rfl, 0x02, 0x04, 0x1B, rfl, rfl, rfl⟩)
    cases hreason
  · obtain ⟨reason, hreason⟩ := hcert.2 .cryptoErase _ rfl
      (Or.inl ⟨_, List.mem_singleton_self _, 0x02, 0x31, 0x00, rfl, Or.inl rfl, rfl⟩)
    cases hreason

end ScsiPurgeClient

end DiscCleaner
