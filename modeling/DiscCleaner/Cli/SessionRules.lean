import DiscCleaner.Cli.Phase

/-!
# DiscCleaner — rules for the steps of a session

One rule for each step the commands are made of: what it does to the phase of the journal and
to the state machine, and that a failing step leaves a sound session.
-/

namespace DiscCleaner

open ByteLib ProgLib

/-- A certificate's report is the one a Verify record keeps. -/
def Embeds (report : VerificationReport) (v : VerifyRecord) : Prop :=
  v = Command.verifyRecord report report.streamHashSha256 v.fastPathUsed

theorem embeds_verifyRecord {report : VerificationReport} {sha256 : Option String}
    (h : report.streamHashSha256 = sha256) (fast : Bool) :
    Embeds report (Command.verifyRecord report sha256 fast) := by
  rw [Embeds, h]
  rfl

/-- A certificate issued on a completed journal, with the journal's verification in it. -/
def IssuedSound (p : Policy) (i : Issued) : Prop :=
  ∃ v, phaseOf p i.journal = .completed v ∧ Embeds i.cert.verification v

def FsmState.isFlushing (st : FsmState) : Prop := ∃ pass, st = .flushing pass

namespace Command

variable {σ α β : Type} {p : Policy} {phase N : Phase} {F G : FsmState → Prop}

/-- The session is in a phase, its state machine in some states, and nothing is issued. -/
def At (p : Policy) (phase : Phase) (F : FsmState → Prop) (s : Session σ) : Prop :=
  phaseOf p s.journal = phase ∧ F s.fsm ∧ s.issued = []

def Sound (p : Policy) (s : Session σ) : Prop :=
  phaseOf p s.journal ≠ .broken ∧ ∀ i ∈ s.issued, IssuedSound p i

theorem At.sound {s : Session σ} (h : At p phase F s) (hphase : phase ≠ .broken) :
    Sound p s := by
  obtain ⟨hj, -, hissued⟩ := h
  refine ⟨by rwa [hj], ?_⟩
  rw [hissued]
  intro i hi
  simp at hi

theorem ne_broken_of_ongoing (h : phase.ongoing = true) : phase ≠ .broken := by
  rintro rfl
  simp [Phase.ongoing] at h

/-! ## Quiet steps -/

/-- What the soundness of a session depends on. -/
def record (s : Session σ) : List JournalRecord × FsmState × List Issued :=
  (s.journal, s.fsm, s.issued)

/-- The step leaves the journal, the state machine and the issued certificates alone. -/
abbrev Quiet (m : Command σ α) : Prop := Prog.Keeps record m

namespace Quiet

theorem keeps_at {m : Command σ α} (h : Quiet m) (hphase : phase ≠ .broken) :
    Prog.Triple (At p phase F) m (fun _ => At p phase F) (Sound p) :=
  (Prog.Keeps.triple h fun r => phaseOf p r.1 = phase ∧ F r.2.1 ∧ r.2.2 = []).consequence
    (fun _ hs => hs) (fun _ _ hs => hs) fun _ hs => At.sound (F := F) hs hphase

theorem keeps_sound {m : Command σ α} (h : Quiet m) :
    Prog.Triple (Sound p) m (fun _ => Sound p) (Sound p) :=
  Prog.Keeps.triple h fun r => phaseOf p r.1 ≠ .broken ∧ ∀ i ∈ r.2.2, IssuedSound p i

theorem engineCall (call : EngineCall) (run : σ → CallResult α × σ) :
    Quiet (engineCall call run) := fun _ => rfl

variable (env : CommandEnv σ)

theorem nowIso : Quiet (nowIso env) := fun _ => rfl

theorem elapsed : Quiet (elapsed env) := fun _ => rfl

theorem history (records : List JournalRecord) : Quiet (history env records) := fun _ => rfl

theorem loadKey : Quiet (loadKey env) := by
  unfold Command.loadKey
  split
  · exact Prog.Keeps.ofExcept _
  · exact Prog.Keeps.ret _

theorem overwrite (label : UInt8) (pattern : Pattern) (source : PatternSource) (span : LbaSpan)
    (supports : Bool) (startWindow : Nat) :
    Quiet (overwrite env label pattern source span supports startWindow) := by
  unfold Command.overwrite
  split
  · exact engineCall _ _
  · exact engineCall _ _

theorem readInto (verifier : StreamVerifier) (source : PatternSource) (span : LbaSpan)
    (stride : Nat) : Quiet (readInto env verifier source span stride) := by
  intro s
  unfold Command.readInto
  cases env.engine.readVerify source span stride s.device with
  | mk outcome rest => cases outcome <;> rfl

theorem patternSource (pf : Platform) (pattern : Pattern) :
    Quiet (patternSource pf pattern : Command σ PatternSource) := by
  unfold Command.patternSource
  split
  · exact Prog.Keeps.ret _
  · exact Prog.Keeps.unwind

end Quiet

/-! ## The state machine and the journal -/

variable (env : CommandEnv σ)

theorem fsm_rule {method : FsmState → Except DcError FsmState} (hphase : phase ≠ .broken)
    (h : ∀ st st', F st → method st = .ok st' → G st') :
    Prog.Triple (σ := Session σ) (At p phase F) (fsm method) (fun _ => At p phase G)
      (Sound p) := by
  intro s hs
  unfold fsm
  cases hmethod : method s.fsm with
  | ok st =>
    refine ⟨fun a s' hrun => ?_, fun hno => absurd rfl (hno ())⟩
    simp only [Prod.mk.injEq] at hrun
    rw [← hrun.2]
    exact ⟨hs.1, h s.fsm st hs.2.1 hmethod, hs.2.2⟩
  | error e => exact ⟨fun a s' hrun => by simp at hrun, fun _ => hs.sound hphase⟩

/-- **An append moves the phase by its record**, and a failed one moves it or not. -/
theorem append_rule {r : JournalRecord} (hnext : phase.next p r = N)
    (hphase : phase ≠ .broken) (hnextPhase : N ≠ .broken) :
    Prog.Triple (At p phase F) (append env r) (fun _ => At p N F) (Sound p) := by
  intro s hs
  have hafter : At p N F { s with journal := s.journal ++ [r] } := by
    refine ⟨?_, hs.2⟩
    show phaseOf p (s.journal ++ [r]) = N
    rw [phaseOf_concat, hs.1, hnext]
  unfold append
  cases env.append s.journal.length with
  | ok =>
    refine ⟨fun a s' hrun => ?_, fun hno => absurd rfl (hno ())⟩
    simp only [Prod.mk.injEq] at hrun
    rw [← hrun.2]
    exact hafter
  | failed e kept =>
    refine ⟨fun a s' hrun => by simp at hrun, fun _ => ?_⟩
    cases kept with
    | true => exact hafter.sound hnextPhase
    | false => exact hs.sound hphase

theorem append_neutral {r : JournalRecord} (hr : r.neutral = true)
    (hphase : phase.ongoing = true) :
    Prog.Triple (At p phase F) (append env r) (fun _ => At p phase F) (Sound p) :=
  append_rule env (Phase.next_neutral hr hphase) (ne_broken_of_ongoing hphase)
    (ne_broken_of_ongoing hphase)

theorem append_header {h : Header} (hh : p.header h = true) :
    Prog.Triple (At p .fresh F) (append env (.header h)) (fun _ => At p (.writing h 0) F)
      (Sound p) :=
  append_rule env (if_pos hh) (by simp) (by simp)

/-- The record of a report, whatever its level. -/
theorem append_verify {report : VerificationReport} {sha256 : Option String} {fast : Bool} :
    Prog.Triple (At p .flushed F) (append env (.verify (verifyRecord report sha256 fast)))
      (fun _ => At p (.verified (verifyRecord report sha256 fast)) F) (Sound p) :=
  append_rule env (if_pos (lowerTag_shortTag report.level)) (by simp) (by simp)

theorem append_completed {v : VerifyRecord} {at_ : String} {duration : Nat}
    (hv : p.verified v = true) :
    Prog.Triple (At p (.verified v) F) (append env (.completed at_ duration))
      (fun _ => At p (.completed v) F) (Sound p) :=
  append_rule env (if_pos hv) (by simp) (by simp)

theorem appendQuietly_neutral {r : JournalRecord} (hr : r.neutral = true)
    (hphase : phase.ongoing = true) :
    Prog.Triple (At p phase F) (appendQuietly env r) (fun _ => At p phase F) (Sound p) := by
  intro s hs
  have hafter : At p phase F { s with journal := s.journal ++ [r] } := by
    refine ⟨?_, hs.2⟩
    show phaseOf p (s.journal ++ [r]) = phase
    rw [phaseOf_concat, hs.1, Phase.next_neutral hr hphase]
  have hrun : ∃ s', appendQuietly env r s = (.ok (), s') ∧ At p phase F s' := by
    show ∃ s', Prog.andThen (Prog.attempt (append env r)) (fun _ => pure ()) s = (.ok (), s')
      ∧ At p phase F s'
    unfold Prog.andThen Prog.attempt append
    cases env.append s.journal.length with
    | ok => exact ⟨_, rfl, hafter⟩
    | failed e kept =>
      cases kept with
      | true => exact ⟨_, rfl, hafter⟩
      | false => exact ⟨_, rfl, hs⟩
  obtain ⟨s₁, hrun, hat⟩ := hrun
  rw [hrun]
  refine ⟨fun a s' h => ?_, fun hno => absurd rfl (hno ())⟩
  simp only [Prod.mk.injEq] at h
  rw [← h.2]
  exact hat

theorem journalFailed_rule {op : String} {e : DcError} (hphase : phase.ongoing = true) :
    Prog.Triple (At p phase F) (journalFailed env op e) (fun _ => At p phase F) (Sound p) :=
  appendQuietly_neutral env rfl hphase

theorem journalInterrupted_rule {hint : String} {pass : Option UInt8} {window : Option Nat}
    (hphase : phase.ongoing = true) :
    Prog.Triple (At p phase F) (journalInterrupted env hint pass window)
      (fun _ => At p phase F) (Sound p) := by
  apply Prog.Triple.bind ((Quiet.nowIso env).keeps_at (ne_broken_of_ongoing hphase))
  intro at_
  exact appendQuietly_neutral env rfl hphase

/-! ## Committing a pass -/

/-- **A written pass is flushed before anything else happens.** In a journal without a flush
it is pass 0, from the first window not yet committed. -/
theorem commitPass_rule {passIdx startWindow : Nat} {outcome : PassOutcome}
    (hphase : (∃ h, phase = .writing h startWindow) ∧ passIdx = 0 ∨ phase = .flushed) :
    Prog.Triple (At p phase F) (commitPass env passIdx startWindow outcome)
      (fun _ => At p .flushed FsmState.isFlushing) (Sound p) := by
  obtain ⟨committed, hcommit, hongoing, hflush⟩ : ∃ committed : Phase,
      phase.next p (.rangeCommit (UInt8.ofNat passIdx) startWindow outcome.windowsWritten)
        = committed ∧ committed.ongoing = true
        ∧ committed.next p (.flushed (UInt8.ofNat passIdx)) = .flushed := by
    rcases hphase with ⟨⟨h, rfl⟩, rfl⟩ | rfl
    · exact ⟨.writing h (startWindow + outcome.windowsWritten), if_pos ⟨rfl, rfl⟩, rfl, rfl⟩
    · exact ⟨.flushed, rfl, rfl, rfl⟩
  have hne := ne_broken_of_ongoing hongoing
  have hphase' : phase ≠ .broken := by rcases hphase with ⟨⟨h, rfl⟩, -⟩ | rfl <;> simp
  apply Prog.Triple.bind (append_rule env hcommit hphase' hne)
  intro _
  apply Prog.Triple.bind (append_neutral env rfl hongoing)
  intro _
  apply Prog.Triple.bind (fsm_rule (G := FsmState.isFlushing) hne
    fun st st' _ h => ⟨_, FsmState.beginFlush_ok h⟩)
  intro _
  apply Prog.Triple.bind (Quiet.keeps_at (Quiet.engineCall _ _) hne)
  intro _
  exact append_rule env hflush hne (by simp)

/-! ## Calls with error paths -/

/-- **A call whose errors are journalled**: the error branches only append neutral records and
fail, so the session stays where it is. -/
theorem attempt_rule {m : Command σ α} {k : Except DcError α → Command σ β}
    {Q : β → Session σ → Prop} (hphase : phase.ongoing = true) (hm : Quiet m)
    (hok : ∀ a, Prog.Triple (At p phase F) (k (.ok a)) Q (Sound p))
    (herr : ∀ e, Prog.Triple (At p phase F) (k (.error e)) Q (Sound p)) :
    Prog.Triple (At p phase F) (Prog.attempt m >>= k) Q (Sound p) := by
  apply Prog.Triple.bind (Quiet.keeps_at (Prog.Keeps.attempt hm) (ne_broken_of_ongoing hphase))
  intro r
  cases r with
  | ok a => exact hok a
  | error e => exact herr e

/-- Journal what went wrong, then fail. -/
theorem report_and_fail {m : Command σ Unit} {e : DcError} {Q : β → Session σ → Prop}
    (hphase : phase.ongoing = true)
    (hm : Prog.Triple (At p phase F) m (fun _ => At p phase F) (Sound p)) :
    Prog.Triple (At p phase F) (m >>= fun _ => Prog.fail e) Q (Sound p) := by
  apply Prog.Triple.bind hm
  intro _
  exact Prog.Triple.fail fun _ hs => hs.sound (ne_broken_of_ongoing hphase)

/-! ## Reading back and signing -/

/-- Every window a returned read-back has shown held the expected pattern. -/
def Clean (s : Session σ) : Prop := ∀ r ∈ s.reads, r.isValid = true

/-- Steps that are no read-back leave what was read alone. -/
abbrev ReadsKept (m : Command σ α) : Prop := Prog.Keeps Session.reads m

theorem ReadsKept.append (r : JournalRecord) : ReadsKept (append env r) := by
  intro s
  unfold Command.append
  cases env.append s.journal.length with
  | ok => rfl
  | failed e kept => cases kept <;> rfl

theorem ReadsKept.fsm (method : FsmState → Except DcError FsmState) :
    ReadsKept (fsm method : Command σ Unit) := by
  intro s
  unfold Command.fsm
  cases method s.fsm <;> rfl

theorem ReadsKept.issue (pf : Platform) (keypair : SigningKey) (cert : SanitizationCertificate) :
    ReadsKept (issue env pf keypair cert) := by
  intro s
  unfold Command.issue
  cases cert.signCertificate pf.toCertPrimitives keypair
    (env.keyFile.map fun _ => env.sibling) <;> rfl

theorem readInto_shows {verifier : StreamVerifier} {source : PatternSource} {span : LbaSpan}
    {stride : Nat} :
    Prog.Triple (fun _ => True) (readInto env verifier source span stride)
      (fun v s => ∃ reads, v = verifier.onWindows reads
        ∧ (Clean s → ∀ r ∈ reads, r.isValid = true)) fun _ => True := by
  intro s _
  refine ⟨fun v s' hrun => ?_, fun _ => trivial⟩
  unfold readInto at hrun
  cases hread : env.engine.readVerify source span stride s.device with
  | mk outcome rest =>
    rw [hread] at hrun
    cases outcome with
    | ok u =>
      simp only [Prod.mk.injEq, Outcome.ok.injEq] at hrun
      refine ⟨rest.1, hrun.1.symm, fun hclean r hr => hclean r ?_⟩
      rw [← hrun.2]
      exact List.mem_append_right _ hr
    | err e => simp at hrun
    | panic => simp at hrun
    | blocked => simp at hrun

/-- **What a read-back returns** is its sink after the windows it was shown. -/
theorem readBack_shows {hint op : String} {verifier : StreamVerifier} {source : PatternSource}
    {span : LbaSpan} {stride : Nat} :
    Prog.Triple (fun _ => True) (readBack env hint op verifier source span stride)
      (fun v s => ∃ reads, v = verifier.onWindows reads
        ∧ (Clean s → ∀ r ∈ reads, r.isValid = true)) fun _ => True := by
  apply Prog.Triple.bind (Prog.Triple.attempt (readInto_shows env))
  intro r
  cases r with
  | ok v => exact Prog.Triple.ret v fun _ hs => hs
  | error e =>
    cases e with
    | interrupted through =>
      apply Prog.Triple.bind ((Prog.Triple.trivial _).weaken_pre fun _ _ => trivial)
      intro _
      exact Prog.Triple.fail fun _ _ => trivial
    | _ =>
      apply Prog.Triple.bind ((Prog.Triple.trivial _).weaken_pre fun _ _ => trivial)
      intro _
      exact Prog.Triple.fail fun _ _ => trivial

theorem readBack_rule {hint op : String} {verifier : StreamVerifier} {source : PatternSource}
    {span : LbaSpan} {stride : Nat} (hphase : phase.ongoing = true) :
    Prog.Triple (At p phase F) (readBack env hint op verifier source span stride)
      (fun _ => At p phase F) (Sound p) := by
  apply attempt_rule hphase (Quiet.readInto env verifier source span stride)
  · intro v
    exact Quiet.keeps_at (Prog.Keeps.ret v) (ne_broken_of_ongoing hphase)
  · intro e
    cases e with
    | interrupted through => exact report_and_fail hphase (journalInterrupted_rule env hphase)
    | _ => exact report_and_fail hphase (journalFailed_rule env hphase)

/-- Where a read-back leaves the session, and what its sink has seen. -/
theorem readBack_shown {hint op : String} {verifier : StreamVerifier} {source : PatternSource}
    {span : LbaSpan} {stride : Nat} (hphase : phase.ongoing = true) :
    Prog.Triple (At p phase F) (readBack env hint op verifier source span stride)
      (fun v s => At p phase F s ∧ ∃ reads, v = verifier.onWindows reads
        ∧ (Clean s → ∀ r ∈ reads, r.isValid = true)) (Sound p) :=
  ((readBack_rule env hphase).conj (readBack_shows env)).consequence
    (fun _ hs => ⟨hs, trivial⟩) (fun _ _ hs => hs) fun _ hs => hs.1

/-- **Issuing on a completed journal**: a certificate with the journal's verification in it
leaves the session sound, signed or not. -/
theorem issue_rule {pf : Platform} {keypair : SigningKey} {cert : SanitizationCertificate}
    {v : VerifyRecord} (h : Embeds cert.verification v) :
    Prog.Triple (At p (.completed v) F) (issue env pf keypair cert) (fun _ => Sound p)
      (Sound p) := by
  intro s hs
  unfold issue
  cases hsign : cert.signCertificate pf.toCertPrimitives keypair
      (env.keyFile.map fun _ => env.sibling) with
  | error e => exact ⟨fun a s' hrun => by simp at hrun, fun _ => hs.sound (by simp)⟩
  | ok signed =>
    refine ⟨fun a s' hrun => ?_, fun hno => absurd rfl (hno ())⟩
    simp only [Prod.mk.injEq] at hrun
    rw [← hrun.2]
    have hpayload := SanitizationCertificate.signCertificate_unsignedPayload _ hsign
    have hreport : signed.verification = cert.verification := by
      show signed.unsignedPayload.verification = _
      rw [hpayload]
      rfl
    refine ⟨by simp [hs.1], ?_⟩
    show ∀ i ∈ s.issued ++ [⟨signed, s.journal⟩], IssuedSound p i
    rw [hs.2.2]
    intro i hi
    rw [List.nil_append, List.mem_singleton] at hi
    rw [hi]
    exact ⟨v, hs.1, hreport ▸ h⟩

end Command

end DiscCleaner
