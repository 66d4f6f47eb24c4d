import DiscCleaner.Ata.Purge

/-!
# DiscCleaner — the password of a security erase

Once SECURITY SET PASSWORD may have reached the drive, the run owes the operator one of three
ends: the erase is done, the password is off again, or the password is disclosed. Whether it
keeps this is decided by the drive's answers to four commands.
-/

namespace DiscCleaner

open ByteLib DialogueLib AtaPurgeClient

namespace SatExchange

/-- The ATA command code of a request. -/
def command (e : SatExchange) : UInt8 := e.request.cdb.getD 14 0

@[simp] def isSetPassword (e : SatExchange) : Bool := e.command == 0xF1
@[simp] def isErasePrepare (e : SatExchange) : Bool := e.command == 0xF3
@[simp] def isEraseUnit (e : SatExchange) : Bool := e.command == 0xF4
@[simp] def isDisablePassword (e : SatExchange) : Bool := e.command == 0xF6

end SatExchange

/-- Whether the drive may hold a password after an exchange, given whether it might before: a SET
PASSWORD that was not refused sets one, an accepted erase or DISABLE PASSWORD clears it. -/
def mayHoldPassword (held : Bool) (e : SatExchange) : Bool :=
  if e.isSetPassword then held || !e.reply.refused
  else if e.isEraseUnit || e.isDisablePassword then held && !e.reply.accepted
  else held

/-- The three ends a run may have after a password may have been set, and what they are for. -/
structure LifelineKept (result : Except AtaPurgeError AtaPurgeExecutionSummary)
    (es : List SatExchange) : Prop where
  ends : ∀ e ∈ es, ∀ password, e.request = setPasswordRequest password →
    (e.reply.accepted = true ∨ e.reply.faulted = true) →
    ((∃ summary, result = .ok summary)
        ∧ ∃ e' ∈ es, e'.isEraseUnit = true ∧ e'.reply.accepted = true) ∨
      ((∃ error, result = .error error)
        ∧ ∃ e' ∈ es, e'.isDisablePassword = true ∧ e'.reply.accepted = true) ∨
      ∃ detail, result = .error (.eraseFailedLockedDisclosed detail (hexEncode password.bytes))
  notStranded : es.foldl mayHoldPassword false = true →
    ∃ detail password, result = .error (.eraseFailedLockedDisclosed detail password)

/-- The answers under which the lifeline holds: no fault on the way to the erase, and a refused
ERASE PREPARE followed by an accepted DISABLE PASSWORD. -/
def AnswersSpareLifeline (es : List SatExchange) : Prop :=
  (∀ e ∈ es, (e.isSetPassword || e.isErasePrepare || e.isEraseUnit) = true →
      e.reply.faulted = false)
    ∧ ∀ e ∈ es, e.isErasePrepare = true → e.reply.refused = true →
      ∃ e' ∈ es, e'.isDisablePassword = true ∧ e'.reply.accepted = true

namespace AtaPurgeClient

theorem setPasswordRequest_injective : Function.Injective setPasswordRequest := by
  intro a b h
  have hpayload : AtaCodec.securityPasswordPayload false a
      = AtaCodec.securityPasswordPayload false b := SatXfer.toDev.inj (congrArg SatRequest.xfer h)
  unfold AtaCodec.securityPasswordPayload at hpayload
  exact Block.ext (List.append_cancel_left (List.append_cancel_right hpayload))

/-! ## The commands of a run -/

section commands

variable (password : Block 32) (enhanced : Bool) (r : SatAnswer)

@[simp] theorem command_setPassword :
    SatExchange.command ⟨setPasswordRequest password, r⟩ = 0xF1 := rfl

@[simp] theorem command_erasePrepare : SatExchange.command ⟨erasePrepareRequest, r⟩ = 0xF3 := rfl

@[simp] theorem command_eraseUnit :
    SatExchange.command ⟨eraseUnitRequest enhanced password, r⟩ = 0xF4 := rfl

@[simp] theorem command_disablePassword :
    SatExchange.command ⟨disablePasswordRequest password, r⟩ = 0xF6 := rfl

@[simp] theorem command_identify : SatExchange.command ⟨identifyRequest, r⟩ = 0xEC := rfl

end commands

/-- A request that sets a password is told from the others of a run by its command. -/
theorem setPassword_command {e : SatExchange} {password : Block 32}
    (h : e.request = setPasswordRequest password) : e.command = 0xF1 := by
  rw [SatExchange.command, h]
  rfl

/-! ## The ways a run can go -/

theorem noHarmRepair_inv {password : Block 32} {es : List SatExchange} {repair : Except String Unit}
    (h : (noHarmRepair password).Ends es repair) :
    ∃ r, es = [⟨disablePasswordRequest password, r⟩] ∧ repair.isOk = SatAnswer.accepted r := by
  obtain ⟨r, es', rfl, hnext⟩ := Dialogue.ends_ask.mp h
  refine ⟨r, ?_⟩
  cases r with
  | error e =>
    obtain ⟨rfl, rfl⟩ := Dialogue.ends_done.mp hnext
    exact ⟨rfl, rfl⟩
  | ok reply =>
    dsimp only at hnext
    by_cases hgood : reply.isGood = true
    · rw [if_pos hgood] at hnext
      obtain ⟨rfl, rfl⟩ := Dialogue.ends_done.mp hnext
      exact ⟨rfl, hgood.symm⟩
    · rw [if_neg hgood] at hnext
      obtain ⟨rfl, rfl⟩ := Dialogue.ends_done.mp hnext
      exact ⟨rfl, (Bool.not_eq_true _ ▸ hgood : reply.isGood = false).symm⟩

theorem identify_inv {es : List SatExchange} {data : Except String AtaIdentifyData}
    (h : identify.Ends es data) :
    ∃ r, es = [⟨identifyRequest, r⟩]
      ∧ ∀ identify, data = .ok identify → SatAnswer.accepted r = true := by
  obtain ⟨r, es', rfl, hnext⟩ := Dialogue.ends_ask.mp h
  refine ⟨r, ?_⟩
  cases r with
  | error e =>
    obtain ⟨rfl, rfl⟩ := Dialogue.ends_done.mp hnext
    exact ⟨rfl, fun _ h => by cases h⟩
  | ok reply =>
    dsimp only at hnext
    by_cases hgood : reply.isGood = true
    · rw [if_pos hgood] at hnext
      obtain ⟨rfl, rfl⟩ := Dialogue.ends_done.mp hnext
      exact ⟨rfl, fun _ _ => hgood⟩
    · rw [if_neg hgood] at hnext
      obtain ⟨rfl, rfl⟩ := Dialogue.ends_done.mp hnext
      exact ⟨rfl, fun _ h => by cases h⟩

theorem postSecurity_inv {es : List SatExchange} {post : AtaSecurityStatus}
    (h : postSecurity.Ends es post) : ∃ r, es = [⟨identifyRequest, r⟩] := by
  obtain ⟨es₁, data, es₂, rfl, hidentify, hpost⟩ := Dialogue.ends_andThen.mp h
  obtain ⟨r, rfl, -⟩ := identify_inv hidentify
  cases data with
  | error e =>
    obtain ⟨rfl, rfl⟩ := Dialogue.ends_done.mp hpost
    exact ⟨r, rfl⟩
  | ok identify =>
    obtain ⟨rfl, rfl⟩ := Dialogue.ends_done.mp hpost
    exact ⟨r, rfl⟩

/-- A refused erase is followed by the repair and an IDENTIFY, and ends with the password off or
disclosed. -/
theorem afterRefusedErase_inv {permit : AtaPurgePermit} {enhanced : Bool} {password : Block 32}
    {eraseReply : SatReply} {es : List SatExchange}
    {result : Except AtaPurgeError AtaPurgeExecutionSummary}
    (h : (afterRefusedErase permit enhanced password eraseReply).Ends es result) :
    ∃ r r', es = [⟨disablePasswordRequest password, r⟩, ⟨identifyRequest, r'⟩]
      ∧ ((SatAnswer.accepted r = true ∧ ∃ error, result = .error error) ∨
        ∃ detail, result = .error (.eraseFailedLockedDisclosed detail (hexEncode password.bytes))) := by
  obtain ⟨es₁, repair, es₂, rfl, hrepair, hrest⟩ := Dialogue.ends_andThen.mp h
  obtain ⟨es₃, post, es₄, rfl, hpost, hend⟩ := Dialogue.ends_andThen.mp hrest
  obtain ⟨r, rfl, hok⟩ := noHarmRepair_inv hrepair
  obtain ⟨r', rfl⟩ := postSecurity_inv hpost
  refine ⟨r, r', ?_⟩
  dsimp only at hend
  by_cases hclear : (repair.isOk && !post.locked) = true
  · rw [if_pos hclear] at hend
    obtain ⟨rfl, rfl⟩ := Dialogue.ends_done.mp hend
    rw [hok, Bool.and_eq_true] at hclear
    exact ⟨rfl, Or.inl ⟨hclear.1, _, rfl⟩⟩
  · rw [if_neg hclear] at hend
    obtain ⟨rfl, rfl⟩ := Dialogue.ends_done.mp hend
    exact ⟨rfl, Or.inr ⟨_, rfl⟩⟩

theorem eraseUnit_inv {permit : AtaPurgePermit} {enhanced : Bool} {lifeline : AtaLifeline}
    {password : Block 32} {fallbacks : List AtaMechanismFallback} {geometry : GeometryTransaction}
    {es : List SatExchange} {result : Except AtaPurgeError AtaPurgeExecutionSummary}
    (h : (eraseUnit permit enhanced lifeline password fallbacks geometry).Ends es result) :
    (∃ fault, es = [⟨eraseUnitRequest enhanced password, .error fault⟩]
        ∧ result = .error (.fatal fault)) ∨
      (∃ reply r summary, reply.isGood = true
        ∧ es = [⟨eraseUnitRequest enhanced password, .ok reply⟩, ⟨identifyRequest, r⟩]
        ∧ result = .ok summary ∧ summary.fallbacks = fallbacks
        ∧ summary.executedMechanism = if enhanced then .securityEraseEnhanced else .securityEraseNormal) ∨
      ∃ reply r r', reply.isGood = false
        ∧ es = [⟨eraseUnitRequest enhanced password, .ok reply⟩,
            ⟨disablePasswordRequest password, r⟩, ⟨identifyRequest, r'⟩]
        ∧ ((SatAnswer.accepted r = true ∧ ∃ error, result = .error error) ∨
          ∃ detail, result = .error (.eraseFailedLockedDisclosed detail (hexEncode password.bytes))) := by
  obtain ⟨answer, es', rfl, hnext⟩ := Dialogue.ends_ask.mp h
  cases answer with
  | error fault =>
    obtain ⟨rfl, rfl⟩ := Dialogue.ends_done.mp hnext
    exact Or.inl ⟨fault, rfl, rfl⟩
  | ok reply =>
    dsimp only at hnext
    by_cases hgood : reply.isGood = true
    · rw [if_pos hgood] at hnext
      obtain ⟨es₁, post, es₂, rfl, hpost, hend⟩ := Dialogue.ends_andThen.mp hnext
      obtain ⟨r, rfl⟩ := postSecurity_inv hpost
      obtain ⟨rfl, rfl⟩ := Dialogue.ends_done.mp hend
      exact Or.inr (Or.inl ⟨reply, r, _, hgood, rfl, rfl, rfl, rfl⟩)
    · rw [if_neg hgood] at hnext
      obtain ⟨r, r', rfl, hend⟩ := afterRefusedErase_inv hnext
      exact Or.inr (Or.inr ⟨reply, r, r', Bool.not_eq_true _ ▸ hgood, rfl, hend⟩)

/-- The commands before the erase: a fault of either ends the run, a refusal of the second is
followed by the repair, whose outcome is not looked at. -/
theorem executeSecurityErase_inv {hashHex : Bytes → String} {password : Block 32}
    {permit : AtaPurgePermit} {enhanced : Bool} {fallbacks : List AtaMechanismFallback}
    {geometry : GeometryTransaction} {es : List SatExchange}
    {result : Except AtaPurgeError AtaPurgeExecutionSummary}
    (h : (executeSecurityErase hashHex (.ok password) permit enhanced fallbacks geometry).Ends es
      result) :
    (∃ fault, es = [⟨setPasswordRequest password, .error fault⟩]
        ∧ result = .error (.fatal fault)) ∨
      (∃ reply message, reply.isGood = false ∧ es = [⟨setPasswordRequest password, .ok reply⟩]
        ∧ result = .error (.fatal message)) ∨
      (∃ set fault, set.isGood = true
        ∧ es = [⟨setPasswordRequest password, .ok set⟩, ⟨erasePrepareRequest, .error fault⟩]
        ∧ result = .error (.fatal fault)) ∨
      (∃ set prepare r message, set.isGood = true ∧ prepare.isGood = false
        ∧ es = [⟨setPasswordRequest password, .ok set⟩, ⟨erasePrepareRequest, .ok prepare⟩,
            ⟨disablePasswordRequest password, r⟩]
        ∧ result = .error (.fatal message)) ∨
      ∃ set prepare es', set.isGood = true ∧ prepare.isGood = true
        ∧ es = ⟨setPasswordRequest password, .ok set⟩ :: ⟨erasePrepareRequest, .ok prepare⟩ :: es'
        ∧ (eraseUnit permit enhanced (AtaLifeline.new hashHex (hexEncode password.bytes)) password
            fallbacks geometry).Ends es' result := by
  obtain ⟨answer, es₁, rfl, hset⟩ := Dialogue.ends_ask.mp h
  cases answer with
  | error fault =>
    obtain ⟨rfl, rfl⟩ := Dialogue.ends_done.mp hset
    exact Or.inl ⟨fault, rfl, rfl⟩
  | ok set =>
    dsimp only at hset
    by_cases hgood : set.isGood = true
    · rw [if_pos hgood] at hset
      obtain ⟨answer, es₂, rfl, hprepare⟩ := Dialogue.ends_ask.mp hset
      cases answer with
      | error fault =>
        obtain ⟨rfl, rfl⟩ := Dialogue.ends_done.mp hprepare
        exact Or.inr (Or.inr (Or.inl ⟨set, fault, hgood, rfl, rfl⟩))
      | ok prepare =>
        dsimp only at hprepare
        by_cases hready : prepare.isGood = true
        · rw [if_pos hready] at hprepare
          exact Or.inr (Or.inr (Or.inr (Or.inr ⟨set, prepare, es₂, hgood, hready, rfl, hprepare⟩)))
        · rw [if_neg hready] at hprepare
          obtain ⟨es₃, repair, es₄, rfl, hrepair, hend⟩ := Dialogue.ends_andThen.mp hprepare
          obtain ⟨r, rfl, -⟩ := noHarmRepair_inv hrepair
          obtain ⟨rfl, rfl⟩ := Dialogue.ends_done.mp hend
          exact Or.inr (Or.inr (Or.inr (Or.inl
            ⟨set, prepare, r, _, hgood, Bool.not_eq_true _ ▸ hready, rfl, rfl⟩)))
    · rw [if_neg hgood] at hset
      obtain ⟨rfl, rfl⟩ := Dialogue.ends_done.mp hset
      exact Or.inr (Or.inl ⟨set, _, Bool.not_eq_true _ ▸ hgood, rfl, rfl⟩)

/-! ## When the lifeline holds -/

theorem not_lifelineKept_of_fatal {message : String} {es : List SatExchange}
    (h : es.foldl mayHoldPassword false = true) :
    ¬ LifelineKept (.error (.fatal message)) es := by
  intro hkept
  obtain ⟨detail, password, hresult⟩ := hkept.notStranded h
  cases hresult

/-- A fault on the way to the erase ends the run with the password set and nowhere disclosed. -/
theorem fault_iff {message : String} {es : List SatExchange} {e : SatExchange} (he : e ∈ es)
    (hcommand : (e.isSetPassword || e.isErasePrepare || e.isEraseUnit) = true)
    (hfault : e.reply.faulted = true) (hheld : es.foldl mayHoldPassword false = true) :
    LifelineKept (.error (.fatal message)) es ↔ AnswersSpareLifeline es := by
  refine iff_of_false (not_lifelineKept_of_fatal hheld) fun hspare => ?_
  rw [hspare.1 e he hcommand] at hfault
  cases hfault

/-- A refused ERASE PREPARE ends well exactly when the password comes off again. -/
theorem refusedPrepare_iff {password : Block 32} {set prepare : SatReply} {r : SatAnswer}
    {message : String} (hset : set.isGood = true) (hprepare : prepare.isGood = false) :
    let es : List SatExchange := [⟨setPasswordRequest password, .ok set⟩,
      ⟨erasePrepareRequest, .ok prepare⟩, ⟨disablePasswordRequest password, r⟩]
    LifelineKept (.error (.fatal message)) es ↔ AnswersSpareLifeline es := by
  intro es
  have hdisable : (⟨disablePasswordRequest password, r⟩ : SatExchange) ∈ es := by simp [es]
  by_cases hdisabled : r.accepted = true
  · refine iff_of_true ⟨fun _ _ _ _ _ => ?_, fun hheld => ?_⟩ ⟨fun e he hcommand => ?_, fun _ _ _ _ => ?_⟩
    · exact Or.inr (Or.inl ⟨⟨_, rfl⟩, _, hdisable, rfl, hdisabled⟩)
    · simp [es, mayHoldPassword, hdisabled] at hheld
    · simp only [es, List.mem_cons, List.not_mem_nil, or_false] at he
      rcases he with rfl | rfl | rfl
      · rfl
      · rfl
      · simp at hcommand
    · exact ⟨_, hdisable, rfl, hdisabled⟩
  · refine iff_of_false (not_lifelineKept_of_fatal ?_) fun hspare => ?_
    · simp [es, mayHoldPassword, hdisabled, SatAnswer.refused, hset]
    · obtain ⟨e, he, hcommand, haccepted⟩ := hspare.2 ⟨erasePrepareRequest, .ok prepare⟩
        (by simp [es]) rfl (by simp [SatAnswer.refused, hprepare])
      simp only [es, List.mem_cons, List.not_mem_nil, or_false] at he
      rcases he with rfl | rfl | rfl
      · simp at hcommand
      · simp at hcommand
      · exact hdisabled haccepted

/-- With the erase prepared, every exchange up to an answered erase spares the lifeline. -/
theorem spare_of_answered {password : Block 32} {enhanced : Bool} {set prepare reply : SatReply}
    {rest : List SatExchange} (hprepare : prepare.isGood = true)
    (hrest : ∀ e ∈ rest, (e.isSetPassword || e.isErasePrepare || e.isEraseUnit) = false) :
    AnswersSpareLifeline (⟨setPasswordRequest password, .ok set⟩
      :: ⟨erasePrepareRequest, .ok prepare⟩ :: ⟨eraseUnitRequest enhanced password, .ok reply⟩
      :: rest) := by
  refine ⟨fun e he hcommand => ?_, fun e he hcommand hrefused => ?_⟩
  · simp only [List.mem_cons] at he
    rcases he with rfl | rfl | rfl | he
    · rfl
    · rfl
    · rfl
    · rw [hrest e he] at hcommand
      cases hcommand
  · simp only [List.mem_cons] at he
    rcases he with rfl | rfl | rfl | he
    · simp at hcommand
    · simp [SatAnswer.refused, hprepare] at hrefused
    · simp at hcommand
    · have hother := hrest e he
      rw [hcommand, Bool.or_true, Bool.true_or] at hother
      cases hother

/-- With the erase prepared, only a fault of the erase itself loses the password. -/
theorem eraseUnit_iff {permit : AtaPurgePermit} {enhanced : Bool} {lifeline : AtaLifeline}
    {password : Block 32} {fallbacks : List AtaMechanismFallback} {geometry : GeometryTransaction}
    {set prepare : SatReply} {es' : List SatExchange}
    {result : Except AtaPurgeError AtaPurgeExecutionSummary} (hset : set.isGood = true)
    (hprepare : prepare.isGood = true)
    (h : (eraseUnit permit enhanced lifeline password fallbacks geometry).Ends es' result) :
    let es : List SatExchange :=
      ⟨setPasswordRequest password, .ok set⟩ :: ⟨erasePrepareRequest, .ok prepare⟩ :: es'
    LifelineKept result es ↔ AnswersSpareLifeline es := by
  intro es
  rcases eraseUnit_inv h with ⟨fault, rfl, rfl⟩ | ⟨reply, r, summary, hgood, rfl, rfl, -, -⟩ |
    ⟨reply, r, r', hrefused, rfl, hend⟩
  · refine fault_iff (e := ⟨eraseUnitRequest enhanced password, .error fault⟩) (by simp [es]) rfl rfl ?_
    simp [es, mayHoldPassword, SatAnswer.refused, SatAnswer.accepted, hset]
  · refine iff_of_true ⟨fun _ _ _ _ _ => ?_, fun hheld => ?_⟩ (spare_of_answered hprepare ?_)
    · exact Or.inl ⟨⟨summary, rfl⟩, ⟨eraseUnitRequest enhanced password, .ok reply⟩, by simp [es],
        rfl, hgood⟩
    · simp [es, mayHoldPassword, SatAnswer.accepted, hgood] at hheld
    · simp
  · refine iff_of_true ⟨fun e he pw hpw _ => ?_, fun hheld => ?_⟩ (spare_of_answered hprepare ?_)
    · rcases hend with ⟨haccepted, hfailed⟩ | ⟨detail, hdisclosed⟩
      · exact Or.inr (Or.inl ⟨hfailed, ⟨disablePasswordRequest password, r⟩, by simp [es], rfl,
          haccepted⟩)
      · -- The one password that was set is the one disclosed.
        have hset := setPassword_command hpw
        simp only [es, List.mem_cons, List.not_mem_nil, or_false] at he
        rcases he with rfl | rfl | rfl | rfl | rfl
        · rw [← setPasswordRequest_injective hpw]
          exact Or.inr (Or.inr ⟨detail, hdisclosed⟩)
        all_goals simp at hset
    · rcases hend with ⟨haccepted, -⟩ | ⟨detail, hdisclosed⟩
      · simp [es, mayHoldPassword, haccepted] at hheld
      · exact ⟨detail, _, hdisclosed⟩
    · simp

/-- **The lifeline holds exactly when** neither SET PASSWORD, ERASE PREPARE nor ERASE UNIT ends in
a transport fault, and a refused ERASE PREPARE is followed by an accepted DISABLE PASSWORD. -/
theorem executeSecurityErase_iff {hashHex : Bytes → String} {random : Except String (Block 32)}
    {permit : AtaPurgePermit} {enhanced : Bool} {fallbacks : List AtaMechanismFallback}
    {geometry : GeometryTransaction} {es : List SatExchange}
    {result : Except AtaPurgeError AtaPurgeExecutionSummary}
    (h : (executeSecurityErase hashHex random permit enhanced fallbacks geometry).Ends es result) :
    LifelineKept result es ↔ AnswersSpareLifeline es := by
  cases random with
  | error e =>
    obtain ⟨rfl, rfl⟩ := Dialogue.ends_done.mp h
    exact iff_of_true ⟨nofun, nofun⟩ ⟨nofun, nofun⟩
  | ok password =>
    rcases executeSecurityErase_inv h with ⟨fault, rfl, rfl⟩ | ⟨reply, message, hrefused, rfl, rfl⟩ |
      ⟨set, fault, hset, rfl, rfl⟩ | ⟨set, prepare, r, message, hset, hprepare, rfl, rfl⟩ |
      ⟨set, prepare, es', hset, hprepare, rfl, hends⟩
    · refine fault_iff (List.mem_singleton_self _) rfl rfl ?_
      simp [mayHoldPassword, SatAnswer.refused]
    · -- The drive took no password.
      refine iff_of_true ⟨fun e he pw _ hsent => ?_, fun hheld => ?_⟩ ⟨fun e he _ => ?_, fun e he hp => ?_⟩
      · rw [List.mem_singleton.mp he] at hsent
        simp [SatAnswer.accepted, SatAnswer.faulted, hrefused] at hsent
      · simp [mayHoldPassword, SatAnswer.refused, hrefused] at hheld
      · rw [List.mem_singleton.mp he]
        rfl
      · rw [List.mem_singleton.mp he] at hp
        simp at hp
    · refine fault_iff (e := ⟨erasePrepareRequest, .error fault⟩) (by simp) rfl rfl ?_
      simp [mayHoldPassword, SatAnswer.refused, hset]
    · exact refusedPrepare_iff hset hprepare
    · exact eraseUnit_iff hset hprepare hends

/-- **Against any transport.** -/
theorem lifelineKept_iff (hashHex : Bytes → String) (random : Except String (Block 32))
    (permit : AtaPurgePermit) (enhanced : Bool) (fallbacks : List AtaMechanismFallback)
    (geometry : GeometryTransaction) (transport : SatTransport) :
    let out := (executeSecurityErase hashHex random permit enhanced fallbacks geometry).run transport []
    LifelineKept out.1 out.2 ↔ AnswersSpareLifeline out.2 :=
  executeSecurityErase_iff (Dialogue.ends_run _ _)

/-- A drive that takes the password and then faults at ERASE PREPARE keeps it, and the error does
not tell it. -/
theorem lifeline_lost_at_prepare :
    let transport : SatTransport := fun _ request =>
      if request = erasePrepareRequest then .error "SG_IO transport fault: ioctl errno 5"
      else .ok ⟨0x00, [], []⟩
    let geometry := (GeometryTransaction.start (fun _ => "00000000") 1000 999 1000).commit
    let out := (executeSecurityErase (fun _ => "00000000") (.ok (Block.ofNat 32 1)) ⟨"/dev/sdb"⟩
      false [] geometry).run transport []
    out.1 = .error (.fatal "SG_IO transport fault: ioctl errno 5") ∧ ¬ LifelineKept out.1 out.2 := by
  intro transport geometry out
  refine ⟨rfl, fun hkept => ?_⟩
  obtain ⟨detail, password, hresult⟩ := hkept.notStranded rfl
  cases hresult

end AtaPurgeClient

end DiscCleaner
