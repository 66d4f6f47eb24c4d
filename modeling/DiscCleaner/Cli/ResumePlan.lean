import DiscCleaner.Cli.Epochs

/-!
# DiscCleaner — what a resume is for

A resume takes an interrupted `execute` to its end: the passes not yet flushed, in plan order
and each from its first uncommitted window, then the read-back, then the Completed record. This
file states that for an engine without faults, and finds the journals for which `resume` does
it.
-/

namespace DiscCleaner

open ByteLib ProgLib Command

variable {σ : Type}

/-! ## The plan a journal leaves -/

/-- The engine call writes pass `i` of the plan, under its label, from a window. -/
def EngineCall.writes (call : EngineCall) (i : Nat) (pass : Pass) (start : Nat) : Prop :=
  match call with
  | .writePass label pattern startWindow =>
    label.toNat = i ∧ pattern = pass.pattern ∧ startWindow = start
  | .zeroPass label startWindow => label.toNat = i ∧ pass.pattern = .zero ∧ startWindow = start
  | _ => False

/-- Every window of the pass below this one is committed, and this one is not. -/
def FirstUncommitted (journal : List JournalRecord) (pass window : Nat) : Prop :=
  (∀ w < window, WindowCommitted journal pass w) ∧ ¬ WindowCommitted journal pass window

/-- Passes written and flushed one after the other, each from a window that suits it. -/
inductive WritesPasses (start : Nat → Nat → Prop) :
    List (Pass × Nat) → List EngineCall → Prop where
  | nil : WritesPasses start [] []
  | cons {pass : Pass} {i window : Nat} {rest : List (Pass × Nat)} {call : EngineCall}
      {calls : List EngineCall} (hwrites : call.writes i pass window) (hstart : start i window)
      (hrest : WritesPasses start rest calls) :
      WritesPasses start ((pass, i) :: rest) (call :: .flush :: calls)

def JournalRecord.isFlushOf (pass : Nat) : JournalRecord → Bool
  | .flushed label => label.toNat = pass
  | _ => false

/-- The passes of a plan that a journal has no flush of, with their numbers. -/
def unflushed (journal : List JournalRecord) (passes : List Pass) : List (Pass × Nat) :=
  passes.zipIdx.filter fun pass => !journal.any (JournalRecord.isFlushOf pass.2)

/-- `resume` completes the plan: it succeeds, writes exactly the passes not yet flushed, reads
back with the last pass's pattern, and its journal ends in Completed. -/
structure CompletesPlan (pf : Platform) (env : ResumeEnv σ) (records : List JournalRecord)
    (plan : SanitizationPlan) (passes : List Pass) (device : σ) : Prop where
  returns : (Resume.cmdResume pf env records (Session.start records device)).1 = .ok ()
  calls : ∃ written lastPass, passes.getLast? = some lastPass
    ∧ WritesPasses (FirstUncommitted records) (unflushed records passes) written
    ∧ (Resume.cmdResume pf env records (Session.start records device)).2.calls
        = written ++ [.readVerify lastPass.pattern plan.verification.effectiveStride]
  completed : ∃ at_ duration,
    (Resume.cmdResume pf env records (Session.start records device)).2.journal.getLast?
      = some (.completed at_ duration)

/-! ## An environment without faults -/

/-- The operator has the key a journal asks for. -/
def HoldsKey (pf : Platform) (env : CommandEnv σ) (h : Header) : Prop :=
  (∃ keypair, env.keyFile = some (.ok keypair)
    ∧ (h.sealed = true → ∀ expected, h.operatorPubkey = some expected →
      hexEncode (pf.ed25519Public keypair).bytes = expected))
  ∨ h.sealed = false ∧ env.keyFile = none

/-- Nothing fails: the device is there and permitted, the journal takes every record, the engine
ends every call on the plan's span, and a payload with finite figures has a canonical form. -/
structure FaultFree (pf : Platform) (env : ResumeEnv σ) (h : Header) : Prop where
  probeDevice : env.probeDevice = none
  guardian : env.guardian = none
  armAndLock : env.armAndLock = none
  openForResume : env.openForResume = none
  openEngine : env.openEngine = none
  append : ∀ n, env.append n = .ok
  planHash : ∃ hash, env.computePlanHash h.plan = .ok hash
  key : HoldsKey pf env.toCommandEnv h
  sibling : ∃ pq, env.sibling = .ok pq
  canonical : ∀ payload : UnsignedCertificate,
    (∀ diag, payload.verification.entropy = some diag → ∃ ws, pf.entropy ws = some diag) →
    ∃ bytes, pf.jcs payload = .ok bytes
  writeCertificate : env.writeCertificate = none
  writePass : ∀ label source start device, ∃ outcome device',
    env.engine.writePass label source (Execute.span h.plan h.identity) start device
      = (.ok outcome, device')
  zeroPass : ∀ label start device, ∃ outcome device',
    env.engine.zeroPass label (Execute.span h.plan h.identity) start device
      = (.ok outcome, device')
  readVerify : ∀ source stride device, ∃ reads device',
    env.engine.readVerify source (Execute.span h.plan h.identity) stride device
      = (.ok (), reads, device')
  flush : ∀ device, ∃ device', env.engine.flush device = (.ok (), device')

/-! ## Steps that end with a value -/

namespace Command

/-- The engine calls made so far, where the state machine stands, and what the journal says. -/
def Has (calls : List EngineCall) (F : FsmState → Prop) (J : List JournalRecord → Prop)
    (s : Session σ) : Prop :=
  s.calls = calls ∧ F s.fsm ∧ J s.journal

variable {calls : List EngineCall} {F G : FsmState → Prop} {J K : List JournalRecord → Prop}
  {E : Session σ → Prop} (env : CommandEnv σ)

theorem nowIso_has : Prog.Triple (Has calls F J) (nowIso env) (fun _ => Has calls F J) E :=
  Prog.Triple.of_run fun _ hs => ⟨_, _, rfl, hs⟩

theorem elapsed_has : Prog.Triple (Has calls F J) (elapsed env) (fun _ => Has calls F J) E :=
  Prog.Triple.of_run fun _ hs => ⟨_, _, rfl, hs⟩

theorem history_has (records : List JournalRecord) :
    Prog.Triple (Has calls F J) (history env records) (fun _ => Has calls F J) E :=
  Prog.Triple.of_run fun _ hs => ⟨_, _, rfl, hs⟩

theorem append_has {r : JournalRecord} (happend : ∀ n, env.append n = .ok)
    (hJ : ∀ journal, J journal → K (journal ++ [r])) :
    Prog.Triple (Has calls F J) (append env r) (fun _ => Has calls F K) E := by
  apply Prog.Triple.of_run
  intro s hs
  refine ⟨(), { s with journal := s.journal ++ [r] }, ?_, hs.1, hs.2.1, hJ _ hs.2.2⟩
  unfold append
  rw [happend]

theorem fsm_has {method : FsmState → Except DcError FsmState}
    (h : ∀ st, F st → ∃ st', method st = .ok st' ∧ G st') :
    Prog.Triple (σ := Session σ) (Has calls F J) (fsm method) (fun _ => Has calls G J) E := by
  apply Prog.Triple.of_run
  intro s hs
  obtain ⟨st', hmethod, hst'⟩ := h s.fsm hs.2.1
  refine ⟨(), { s with fsm := st' }, ?_, hs.1, hst', hs.2.2⟩
  unfold fsm
  rw [hmethod]

theorem failIf_has {e : Option DcError} (he : e = none) :
    Prog.Triple (σ := Session σ) (Has calls F J) (Prog.failIf e) (fun _ => Has calls F J) E := by
  rw [he]
  exact Prog.Triple.ret () fun _ hs => hs

theorem engineCall_has {α : Type} {call : EngineCall} {run : σ → CallResult α × σ}
    (hrun : ∀ device, ∃ a device', run device = (.ok a, device')) :
    Prog.Triple (Has calls F J) (engineCall call run)
      (fun _ => Has (calls ++ [call]) F J) E := by
  apply Prog.Triple.of_run
  intro s hs
  obtain ⟨a, device', hrun⟩ := hrun s.device
  refine ⟨a, { s with device := device', calls := s.calls ++ [call] }, ?_, ?_, hs.2⟩
  · unfold engineCall
    rw [hrun]
  · show s.calls ++ [call] = calls ++ [call]
    rw [hs.1]

theorem armPlan_has {plan : SanitizationPlan}
    (hhash : ∃ hash, env.computePlanHash plan = .ok hash) :
    Prog.Triple (Has calls (· = .probed) J) (armPlan env plan)
      (fun _ => Has calls (· = .armed) J) E := by
  obtain ⟨hash, hhash⟩ := hhash
  apply Prog.Triple.bind (fsm_has (G := (· = .planCompiled plan hash)) ?_)
  · intro _
    apply Prog.Triple.bind (fsm_has (G := (· = .planApproved plan hash)) ?_)
    · intro _
      apply fsm_has
      rintro st rfl
      exact ⟨.armed, rfl, rfl⟩
    · rintro st rfl
      exact ⟨_, rfl, rfl⟩
  · rintro st rfl
    refine ⟨.planCompiled plan hash, ?_, rfl⟩
    show (env.computePlanHash plan).map _ = _
    rw [hhash]
    rfl

theorem patternSource_has {pf : Platform} {pattern : Pattern} (h : pattern.isVdf = false) :
    Prog.Triple (σ := Session σ) (Has calls F J) (patternSource pf pattern)
      (fun source s => source.descriptor.pattern = pattern ∧ Has calls F J s) E := by
  obtain ⟨source, hsource, hpattern⟩ := createPatternSource_isSome pf.keystream h
  unfold patternSource
  rw [hsource]
  exact Prog.Triple.ret source fun s hs => ⟨hpattern, hs⟩

/-- A caught call that ends with a value is the call. -/
theorem attempt_has {α β : Type} {m : Command σ α} {k : Except DcError α → Command σ β}
    {P : Session σ → Prop} {Q : α → Session σ → Prop} {R : β → Session σ → Prop}
    (hm : Prog.Triple P m Q fun _ => False) (hk : ∀ a, Prog.Triple (Q a) (k (.ok a)) R E) :
    Prog.Triple P (Prog.attempt m >>= k) R E := by
  intro s hs
  obtain ⟨a, s', hrun, hQ⟩ := hm.run_of_total hs
  have hattempt : Prog.attempt m s = (.ok (.ok a), s') := by
    unfold Prog.attempt
    rw [hrun]
  rw [Prog.bind_run_ok hattempt]
  exact hk a s' hQ

/-- A read-back that ends hands on its sink after the windows it was shown. -/
theorem readBack_has {hint op : String} {verifier : StreamVerifier} {source : PatternSource}
    {span : LbaSpan} {stride : Nat}
    (hread : ∀ device, ∃ reads device',
      env.engine.readVerify source span stride device = (.ok (), reads, device')) :
    Prog.Triple (Has calls F J) (readBack env hint op verifier source span stride)
      (fun v s => (∃ device reads device',
          env.engine.readVerify source span stride device = (.ok (), reads, device')
            ∧ v = verifier.onWindows reads)
        ∧ Has (calls ++ [.readVerify source.descriptor.pattern stride]) F J s) E := by
  refine attempt_has (Q := fun v s => (∃ device reads device',
      env.engine.readVerify source span stride device = (.ok (), reads, device')
        ∧ v = verifier.onWindows reads)
    ∧ Has (calls ++ [.readVerify source.descriptor.pattern stride]) F J s) ?_ ?_
  · apply Prog.Triple.of_run
    intro s hs
    obtain ⟨reads, device', hread⟩ := hread s.device
    refine ⟨verifier.onWindows reads,
      { s with
        device := device'
        calls := s.calls ++ [.readVerify source.descriptor.pattern stride]
        reads := s.reads ++ reads }, ?_, ⟨s.device, reads, device', hread, rfl⟩, ?_, hs.2⟩
    · unfold readInto
      rw [hread]
    · show s.calls ++ _ = calls ++ _
      rw [hs.1]
  · intro v
    exact Prog.Triple.ret v fun _ hs => hs

/-- Signing succeeds on a payload with finite figures and a usable key. -/
theorem issue_has {pf : Platform} {keypair : SigningKey} {cert : SanitizationCertificate}
    (hsibling : ∃ pq, env.sibling = .ok pq)
    (hcanonical : ∀ payload : UnsignedCertificate,
      payload.verification = cert.verification → ∃ bytes, pf.jcs payload = .ok bytes) :
    Prog.Triple (Has calls F J) (issue env pf keypair cert) (fun _ => Has calls F J) E := by
  have hissue := SanitizationCertificate.signCertificate_ok pf.toCertPrimitives keypair
    (env.keyFile.map fun _ => env.sibling) cert (by
      obtain ⟨pq, hpq⟩ := hsibling
      intro answer hanswer
      obtain ⟨_, -, rfl⟩ := Option.map_eq_some_iff.mp hanswer
      exact ⟨pq, hpq⟩)
    hcanonical
  apply Prog.Triple.of_run
  intro s hs
  obtain ⟨signed, hsigned⟩ := hissue
  refine ⟨(), { s with issued := s.issued ++ [⟨signed, s.journal⟩] }, ?_, hs⟩
  unfold issue
  rw [hsigned]

end Command

/-! ## A resume without faults -/

namespace Resume

variable {pf : Platform} {env : ResumeEnv σ} {p : Policy} {records : List JournalRecord}
  {h : Header} {committed : Nat} {calls : List EngineCall} {J : List JournalRecord → Prop}
  {E : Session σ → Prop}

/-- A writing journal opens with its header. -/
theorem records_eq (facts : WritingFacts p records h committed) :
    ∃ rest, records = .header h :: rest := by
  cases records with
  | nil => simpa using facts.head
  | cons r rest =>
    have hr : r = .header h := by simpa using facts.head
    exact ⟨rest, by rw [hr]⟩

theorem refuseCompleted_has {F : FsmState → Prop} (facts : WritingFacts p records h committed) :
    Prog.Triple (σ := Session σ) (Has calls F J) (refuseCompleted records)
      (fun _ => Has calls F J) E := by
  unfold refuseCompleted
  split
  · next hnone =>
    obtain ⟨rest, rfl⟩ := records_eq facts
    simp at hnone
  · next at_ duration hlast =>
    exact absurd (List.mem_of_getLast? hlast) (facts.uncompleted at_ duration)
  · exact Prog.Triple.ret () fun _ hs => hs

/-- The key a journal of this header is resumed with. -/
def FitsHeader (pf : Platform) (h : Header) (keypair : SigningKey) : Prop :=
  h.sealed = true → ∀ expected, h.operatorPubkey = some expected →
    hexEncode (pf.ed25519Public keypair).bytes = expected

theorem resumeKey_has {F : FsmState → Prop} (facts : WritingFacts p records h committed)
    (hkey : HoldsKey pf env.toCommandEnv h) :
    Prog.Triple (Has calls F J) (resumeKey env records)
      (fun keypair s => FitsHeader pf h keypair ∧ Has calls F J s) E := by
  obtain ⟨rest, rfl⟩ := records_eq facts
  unfold resumeKey
  rcases hkey with ⟨keypair, hfile, hmatches⟩ | ⟨hunsealed, hfile⟩
  · rw [hfile]
    exact Prog.Triple.ret keypair fun s hs => ⟨hmatches, hs⟩
  · rw [hfile]
    show Prog.Triple _ (if h.sealed = true then _ else _) _ _
    rw [if_neg (by simp [hunsealed])]
    refine Prog.Triple.ret _ fun s hs => ⟨fun hsealed => ?_, hs⟩
    simp [hunsealed] at hsealed

theorem checkSealKey_has {F : FsmState → Prop} (facts : WritingFacts p records h committed)
    {keypair : SigningKey} (hkey : FitsHeader pf h keypair) :
    Prog.Triple (σ := Session σ) (Has calls F J) (checkSealKey pf records keypair)
      (fun _ => Has calls F J) E := by
  obtain ⟨rest, rfl⟩ := records_eq facts
  unfold checkSealKey
  cases hpubkey : h.operatorPubkey with
  | none =>
    simp only [hpubkey]
    exact Prog.Triple.ret () fun _ hs => hs
  | some expected =>
    have hfits : ¬ (h.sealed = true
        ∧ hexEncode (pf.ed25519Public keypair).bytes ≠ expected) := fun hbad =>
      hbad.2 (hkey hbad.1 expected hpubkey)
    simp only [hpubkey, if_neg hfits]
    exact Prog.Triple.ret () fun _ hs => hs

theorem armResume_has (facts : WritingFacts p records h committed) (free : FaultFree pf env h)
    (happend : ∀ journal r, J journal → J (journal ++ [r])) :
    Prog.Triple (Has calls (· = .probed) J) (armResume pf env records)
      (fun armed s => armed.1 = h ∧ Has calls (· = .armed) J s) E := by
  apply Prog.Triple.bind (refuseCompleted_has facts)
  intro _
  apply Prog.Triple.bind (Q := fun h' s => h' = h ∧ Has calls (· = .probed) J s)
  · obtain ⟨rest, rfl⟩ := records_eq facts
    exact Prog.Triple.ret h fun s hs => ⟨rfl, hs⟩
  intro h'
  apply Prog.Triple.of_fact
  rintro rfl
  apply Prog.Triple.bind (history_has env.toCommandEnv records)
  intro past
  apply Prog.Triple.bind (Q := fun _ => Has calls (· = .probed) J)
  · unfold crashInterruption
    split
    · exact Prog.Triple.ret _ fun _ hs => hs
    · exact Prog.Triple.ret _ fun _ hs => hs
    · exact Prog.Triple.ret _ fun _ hs => hs
    · apply Prog.Triple.bind (nowIso_has env.toCommandEnv)
      intro _
      apply Prog.Triple.bind (nowIso_has env.toCommandEnv)
      intro _
      exact Prog.Triple.ret _ fun _ hs => hs
  intro crash
  apply Prog.Triple.bind (failIf_has free.probeDevice)
  intro _
  apply Prog.Triple.bind (failIf_has free.guardian)
  intro _
  apply Prog.Triple.bind (failIf_has free.armAndLock)
  intro _
  apply Prog.Triple.bind (armPlan_has env.toCommandEnv free.planHash)
  intro _
  apply Prog.Triple.bind (resumeKey_has facts free.key)
  intro keypair
  apply Prog.Triple.of_fact
  intro hfits
  apply Prog.Triple.bind (checkSealKey_has facts hfits)
  intro _
  apply Prog.Triple.bind (failIf_has free.openForResume)
  intro _
  apply Prog.Triple.bind (nowIso_has env.toCommandEnv)
  intro armedAt
  apply Prog.Triple.bind
    (append_has env.toCommandEnv free.append fun journal hJ => happend journal _ hJ)
  intro _
  apply Prog.Triple.bind (nowIso_has env.toCommandEnv)
  intro resumedAt
  apply Prog.Triple.bind
    (append_has env.toCommandEnv free.append fun journal hJ => happend journal _ hJ)
  intro _
  apply Prog.Triple.bind (failIf_has free.openEngine)
  intro _
  exact Prog.Triple.ret _ fun s hs => ⟨rfl, hs⟩

/-! ### The passes left -/

/-- A pass may begin. -/
def Ready (st : FsmState) : Prop := st = .armed ∨ st.isFlushing

/-- Where the passes of a writing journal start. -/
def startOf (committed : Nat) (i window : Nat) : Prop :=
  window = if i = 0 then committed else 0

theorem overwrite_has {F : FsmState → Prop} (free : FaultFree pf env h) {i start : Nat}
    {pass : Pass} {source : PatternSource} (hi : i < 256)
    (hsource : source.descriptor.pattern = pass.pattern) (supports : Bool) :
    Prog.Triple (Has calls F J)
      (overwrite env.toCommandEnv (UInt8.ofNat i) pass.pattern source
        (Execute.span h.plan h.identity) supports start)
      (fun _ s => ∃ call : EngineCall, call.writes i pass start
        ∧ Has (calls ++ [call]) F J s) E := by
  have hlabel : (UInt8.ofNat i).toNat = i := UInt8.toNat_ofNat_of_lt hi
  unfold overwrite
  split
  · next hzero =>
    refine (engineCall_has (free.zeroPass _ _)).strengthen_post fun _ s hs => ?_
    exact ⟨.zeroPass _ start, ⟨hlabel, hzero.1, rfl⟩, hs⟩
  · refine (engineCall_has (free.writePass _ _ _)).strengthen_post fun _ s hs => ?_
    exact ⟨.writePass _ _ start, ⟨hlabel, hsource, rfl⟩, hs⟩

theorem beginPassRecord_has {F : FsmState → Prop} (free : FaultFree pf env h)
    (happend : ∀ journal r, J journal → J (journal ++ [r])) {i start : Nat}
    {source : PatternSource} :
    Prog.Triple (Has calls F J) (beginPassRecord env h i source start)
      (fun _ => Has calls F J) E := by
  unfold beginPassRecord
  split
  · exact append_has env.toCommandEnv free.append fun journal hJ => happend journal _ hJ
  · exact Prog.Triple.ret () fun _ hs => hs

theorem writeMedia_has {F : FsmState → Prop} (free : FaultFree pf env h) {i start : Nat}
    {pass : Pass} {source : PatternSource} (hi : i < 256)
    (hsource : source.descriptor.pattern = pass.pattern) :
    Prog.Triple (Has calls F J) (writeMedia env h i pass source start)
      (fun _ s => ∃ call : EngineCall, call.writes i pass start
        ∧ Has (calls ++ [call]) F J s) E := by
  unfold writeMedia
  apply attempt_has (overwrite_has free hi hsource _)
  intro outcome
  exact Prog.Triple.ret outcome fun _ hs => hs

theorem resumePass_has (free : FaultFree pf env h)
    (happend : ∀ journal r, J journal → J (journal ++ [r])) {pass : Pass} {i : Nat}
    (hi : i < 256) (hpass : pass.pattern.isVdf = false) :
    Prog.Triple (Has calls Ready J)
      (resumePass pf env h ⟨0, committed, false⟩ pass i)
      (fun _ s => ∃ (call : EngineCall) (window : Nat), call.writes i pass window
        ∧ startOf committed i window ∧ Has (calls ++ [call, .flush]) FsmState.isFlushing J s)
      E := by
  have hindex : (0 : UInt8).toNat + i = i := by simp
  unfold resumePass
  simp only [hindex]
  apply Prog.Triple.bind (fsm_has (G := (· = .executing (UInt8.ofNat i) 0)) ?_)
  · intro _
    apply Prog.Triple.bind (patternSource_has hpass)
    intro source
    apply Prog.Triple.of_fact
    intro hsource
    apply Prog.Triple.bind (beginPassRecord_has free happend)
    intro _
    apply Prog.Triple.bind (writeMedia_has free hi hsource)
    intro outcome
    apply Prog.Triple.of_exists
    intro call
    apply Prog.Triple.of_fact
    intro hwrites
    -- committing appends three records and makes the flush
    apply Prog.Triple.bind (Q := fun _ => Has (calls ++ [call, .flush]) FsmState.isFlushing J)
    · apply Prog.Triple.bind
        (append_has env.toCommandEnv free.append fun journal hJ => happend journal _ hJ)
      intro _
      apply Prog.Triple.bind
        (append_has env.toCommandEnv free.append fun journal hJ => happend journal _ hJ)
      intro _
      apply Prog.Triple.bind (fsm_has (G := FsmState.isFlushing) ?_)
      · intro _
        apply Prog.Triple.bind (engineCall_has fun device => ⟨(), free.flush device⟩)
        intro _
        rw [List.append_assoc]
        exact append_has env.toCommandEnv free.append fun journal hJ => happend journal _ hJ
      · rintro st rfl
        exact ⟨_, rfl, _, rfl⟩
    intro _
    exact Prog.Triple.ret _ fun s hs => ⟨call, _, hwrites, rfl, hs⟩
  · rintro st (rfl | ⟨pass', rfl⟩)
    · exact ⟨_, rfl, rfl⟩
    · exact ⟨_, rfl, rfl⟩

/-- After the loop over a list of passes: all of them written, and a flush last. -/
def Written (committed : Nat) (calls : List EngineCall) (F : FsmState → Prop)
    (J : List JournalRecord → Prop) (passes : List (Pass × Nat)) (s : Session σ) : Prop :=
  ∃ written, WritesPasses (startOf committed) passes written
    ∧ Has (calls ++ written) (fun st => st.isFlushing ∨ passes = [] ∧ F st) J s

theorem resumePasses_has {F : FsmState → Prop} (committed : Nat) (free : FaultFree pf env h)
    (happend : ∀ journal r, J journal → J (journal ++ [r])) (hF : ∀ st, F st → Ready st)
    (passes : List (Pass × Nat))
    (hpasses : ∀ x ∈ passes, x.1.pattern.isVdf = false ∧ x.2 < 256) :
    Prog.Triple (Has calls F J) (resumePasses pf env h ⟨0, committed, false⟩ passes)
      (fun _ => Written committed calls F J passes) E := by
  induction passes generalizing calls F with
  | nil =>
    refine Prog.Triple.ret _ fun s hs => ⟨[], .nil, ?_, Or.inr ⟨rfl, hs.2.1⟩, hs.2.2⟩
    rw [List.append_nil]
    exact hs.1
  | cons head rest ih =>
    obtain ⟨hvdf, hindex⟩ := hpasses head List.mem_cons_self
    apply Prog.Triple.bind
      ((resumePass_has free happend hindex hvdf).weaken_pre fun s hs =>
        ⟨hs.1, hF _ hs.2.1, hs.2.2⟩)
    intro _
    apply Prog.Triple.of_exists
    intro call
    apply Prog.Triple.of_exists
    intro window
    apply Prog.Triple.of_fact
    intro hwrites
    apply Prog.Triple.of_fact
    intro hstart
    apply Prog.Triple.bind (ih (fun _ => Or.inr) fun x hx => hpasses x (List.mem_cons_of_mem _ hx))
    intro _
    refine Prog.Triple.ret _ fun s hs => ?_
    obtain ⟨written, hrest, hcalls, hflushing, hJ⟩ := hs
    refine ⟨call :: .flush :: written, .cons hwrites hstart hrest, ?_, Or.inl ?_, hJ⟩
    · rw [hcalls]
      simp
    · exact hflushing.elim id And.right

/-! ### Read-back and certificate -/

/-- The report of the read-back that a resume makes. -/
def ReadBackOf (env : ResumeEnv σ) (h : Header) (report : VerificationReport) : Prop :=
  ∃ source device reads device',
    env.engine.readVerify source (Execute.span h.plan h.identity)
      h.plan.verification.effectiveStride device = (.ok (), reads, device')
    ∧ report.mismatchCount = reads.countP fun r => !r.isValid

theorem verifyMedia_has {F : FsmState → Prop} (free : FaultFree pf env h) {passes : List Pass}
    {lastPass : Pass} (hlast : passes.getLast? = some lastPass)
    (hvdf : lastPass.pattern.isVdf = false) :
    Prog.Triple (Has calls F J) (verifyMedia pf env h passes)
      (fun report s => (ReadBackOf env h report
          ∧ ∀ diag, report.entropy = some diag → ∃ ws, pf.entropy ws = some diag)
        ∧ Has (calls ++ [.readVerify lastPass.pattern
            h.plan.verification.effectiveStride]) F J s) E := by
  unfold verifyMedia verifySource
  rw [hlast]
  apply Prog.Triple.bind (patternSource_has hvdf)
  intro source
  apply Prog.Triple.of_fact
  intro hsource
  apply Prog.Triple.bind (readBack_has env.toCommandEnv (free.readVerify _ _))
  intro verifier
  refine Prog.Triple.ret _ fun s hs => ?_
  obtain ⟨⟨device, reads, device', hread, hv⟩, hcalls, hF, hJ⟩ := hs
  subst hv
  refine ⟨⟨⟨source, device, reads, device', hread, ?_⟩, ?_⟩, ?_, hF, hJ⟩
  · show ((_ : StreamVerifier).onWindows reads).mismatchCount = _
    rw [StreamVerifier.onWindows_mismatchCount]
    show 0 + _ = _
    rw [Nat.zero_add]
  · intro diag hdiag
    obtain ⟨ws, -, hws⟩ := Option.bind_eq_some_iff.mp hdiag
    exact ⟨ws, hws⟩
  · rw [hcalls, hsource]

/-- The journal of a resume that went through: a verification, then Completed. -/
def CompletedWith (v : VerifyRecord) (journal : List JournalRecord) : Prop :=
  ∃ pre at_ duration, journal = pre ++ [.verify v, .completed at_ duration]

theorem certifyRun_has (free : FaultFree pf env h) {v : VerifyRecord} {keypair : SigningKey}
    {past : List FailureRecord × List InterruptionRecord}
    {reports : List ExecutionPassReport} {report : VerificationReport}
    (hentropy : ∀ diag, report.entropy = some diag → ∃ ws, pf.entropy ws = some diag) :
    Prog.Triple (Has calls (· = .verifying) fun journal => ∃ pre, journal = pre ++ [.verify v])
      (certifyRun pf env records keypair h past reports report)
      (fun _ => Has calls (· = .certified) (CompletedWith v)) E := by
  apply Prog.Triple.bind (fsm_has (G := (· = .certified)) ?_)
  · intro _
    apply Prog.Triple.bind (nowIso_has env.toCommandEnv)
    intro finished
    apply Prog.Triple.bind (elapsed_has env.toCommandEnv)
    intro durationMs
    apply Prog.Triple.bind (append_has (K := CompletedWith v) env.toCommandEnv free.append ?_)
    · intro _
      apply Prog.Triple.bind (nowIso_has env.toCommandEnv)
      intro started
      apply Prog.Triple.bind (elapsed_has env.toCommandEnv)
      intro certDurationMs
      apply Prog.Triple.bind Prog.Triple.get
      intro s
      apply Prog.Triple.bind ((issue_has (F := (· = .certified)) (J := CompletedWith v)
        env.toCommandEnv free.sibling ?_).weaken_pre fun _ hs => hs.2)
      · intro _
        exact failIf_has free.writeCertificate
      · intro payload hpayload
        refine free.canonical payload fun diag hdiag => hentropy diag ?_
        rw [hpayload] at hdiag
        exact hdiag
    · rintro journal ⟨pre, rfl⟩
      exact ⟨pre, finished, durationMs, by simp⟩
  · rintro st rfl
    exact ⟨_, rfl, rfl⟩

/-- **A resume without faults on a journal without a flush** ends well: every pass is written
and flushed, the medium is read back, and the journal is completed, whatever the read-back
has found. -/
theorem cmdResume_has (facts : WritingFacts p records h committed) (free : FaultFree pf env h)
    {passes : List Pass} {lastPass : Pass} (hplan : logicalPasses h.plan = passes)
    (hlast : passes.getLast? = some lastPass)
    (hvdf : ∀ pass ∈ passes, pass.pattern.isVdf = false) (hlength : passes.length ≤ 256) :
    Prog.Triple (Has [] (· = .probed) fun _ => True) (cmdResume pf env records)
      (fun _ s => ∃ written report sha256 fast,
        WritesPasses (startOf committed) passes.zipIdx written ∧ ReadBackOf env h report
        ∧ Has (written
            ++ [.readVerify lastPass.pattern h.plan.verification.effectiveStride])
          (· = .certified) (CompletedWith (verifyRecord report sha256 fast)) s) E := by
  have hne : passes.zipIdx ≠ [] := by
    rintro hnil
    rw [List.zipIdx_eq_nil_iff] at hnil
    simp [hnil] at hlast
  apply Prog.Triple.bind (armResume_has facts free fun _ _ _ => trivial)
  rintro ⟨h', past, keypair⟩
  apply Prog.Triple.of_fact
  rintro rfl
  simp only [facts.resumes, hplan]
  apply Prog.Triple.bind (resumePasses_has committed free (fun _ _ _ => trivial)
    (fun _ => Or.inl) passes.zipIdx ?_)
  · intro reports
    apply Prog.Triple.of_exists
    intro written
    apply Prog.Triple.of_fact
    intro hwritten
    rw [List.nil_append]
    apply Prog.Triple.bind (fsm_has (G := (· = .verifying)) ?_)
    · intro _
      apply Prog.Triple.bind
        (verifyMedia_has free hlast (hvdf lastPass (List.mem_of_getLast? hlast)))
      intro report
      apply Prog.Triple.of_fact
      rintro ⟨hread, hentropy⟩
      apply Prog.Triple.bind (append_has (K := fun journal => ∃ pre, journal = pre ++ [_])
        env.toCommandEnv free.append fun journal _ => ⟨journal, rfl⟩)
      intro _
      refine (certifyRun_has free hentropy).strengthen_post fun _ s hs => ?_
      exact ⟨written, report, _, _, hwritten, hread, hs⟩
    · rintro st (⟨pass, rfl⟩ | ⟨hnil, -⟩)
      · exact ⟨_, rfl, rfl⟩
      · exact absurd hnil hne
  · intro x hx
    obtain ⟨pass, i⟩ := x
    have hmem := List.mem_zipIdx hx
    simp only [Nat.zero_add, Nat.sub_zero] at hmem
    refine ⟨hvdf _ ?_, by omega⟩
    rw [hmem.2.2]
    exact List.getElem_mem _

end Resume

/-! ## Which journals resume -/

theorem WritesPasses.mono {start start' : Nat → Nat → Prop}
    (h : ∀ i window, start i window → start' i window) {passes : List (Pass × Nat)}
    {calls : List EngineCall} (hwrites : WritesPasses start passes calls) :
    WritesPasses start' passes calls := by
  induction hwrites with
  | nil => exact .nil
  | cons hcall hstart _ ih => exact .cons hcall (h _ _ hstart) ih

theorem EngineCall.writes_lt {call : EngineCall} {i start : Nat} {pass : Pass}
    (h : call.writes i pass start) : i < 256 := by
  cases call with
  | writePass label pattern startWindow =>
    rw [← h.1]
    exact label.toNat_lt
  | zeroPass label startWindow =>
    rw [← h.1]
    exact label.toNat_lt
  | readVerify pattern stride => exact h.elim
  | flush => exact h.elim

/-- A label is a byte. -/
theorem WritesPasses.index_lt {start : Nat → Nat → Prop} {passes : List (Pass × Nat)}
    {calls : List EngineCall} (h : WritesPasses start passes calls) :
    ∀ x ∈ passes, x.2 < 256 := by
  induction h with
  | nil => simp
  | cons hcall _ _ ih =>
    intro x hx
    cases List.mem_cons.mp hx with
    | inl heq =>
      rw [heq]
      exact EngineCall.writes_lt hcall
    | inr hrest => exact ih x hrest

theorem unflushed_of_no_flush {records : List JournalRecord} (passes : List Pass)
    (h : ∀ label, .flushed label ∉ records) : unflushed records passes = passes.zipIdx := by
  unfold unflushed
  rw [List.filter_eq_self]
  rintro ⟨pass, i⟩ -
  rw [Bool.not_eq_true', List.any_eq_false]
  intro r hr
  cases r with
  | flushed label => exact absurd hr (h label)
  | _ => simp [JournalRecord.isFlushOf]

/-- The header of a run is the one of its job. -/
def jobPolicy (job : DeviceJob) : Policy where
  header h := h.plan = job.plan ∧ h.identity = job.identity
  verified _ := true

theorem execute_not_broken (pf : Platform) (env : ExecuteEnv σ) (job : DeviceJob) (device : σ) :
    phaseOf (jobPolicy job)
      (Execute.executeDeviceInner pf env job (Session.start [] device)).2.journal ≠ .broken := by
  have hrule := Execute.executeDeviceInner_rule (p := jobPolicy job) pf env job
    (fun _ _ => decide_eq_true ⟨rfl, rfl⟩) (fun _ _ => rfl)
  exact (hrule.always (at_start [] device)).1

/-- **A journal with a flush cannot be resumed**: nothing is left to write, and the state
machine lets no verification begin without a flush of its own. -/
theorem cmdResume_stuck {p : Policy} {pf : Platform} {env : ResumeEnv σ}
    {records : List JournalRecord} (h : phaseOf p records ≠ .broken)
    (hreached : (Resume.resumePoint records).verifyReached = true) (device : σ) :
    (Resume.cmdResume pf env records (Session.start records device)).1 ≠ .ok () := by
  have hleft : ∀ passes, Resume.passesLeft (Resume.resumePoint records) passes = [] :=
    fun passes => if_pos hreached
  have hrule : Prog.Triple (At p (phaseOf p records) (· = .probed))
      (Resume.cmdResume pf env records) (fun _ _ => False) fun _ => True := by
    apply Prog.Triple.bind ((Resume.armResume_rule pf env h).consequence (fun _ hs => hs)
      (fun _ _ hs => hs) fun _ _ => trivial)
    rintro ⟨h', past, keypair⟩
    apply Prog.Triple.of_fact
    intro _
    simp only [hleft]
    apply Prog.Triple.bind (Q := fun _ => At p (phaseOf p records) (· = .armed))
    · exact Prog.Triple.ret [] fun _ hs => hs
    intro reports
    apply Prog.Triple.bind (Q := fun _ _ => False)
    · intro s hs
      have hrefused : fsm FsmState.beginVerify s
          = (.err (.usage "Cannot begin verification: media not flushed"), s) := by
        unfold fsm
        rw [hs.2.1]
        rfl
      rw [hrefused]
      exact ⟨fun a s' heq => by simp at heq, fun _ => trivial⟩
    · intro _ s hs
      exact hs.elim
  intro hok
  obtain ⟨hnever, -⟩ := hrule (Session.start records device) (at_start records device)
  exact hnever () _ (Prod.ext hok rfl)

/-- **Resume completes the plan exactly when nothing was flushed** and the passes have labels:
on every prefix of an `execute` run's journal, from its arming up to its completion. -/
theorem completesPlan_iff {pf : Platform} {execEnv : ExecuteEnv σ} {job : DeviceJob}
    {passes : List Pass} {execDevice device : σ} {records : List JournalRecord}
    {env : ResumeEnv σ} (hplan : job.plan.mechanism = .logicalOverwrite passes)
    (hpasses : passes ≠ []) (hvdf : ∀ pass ∈ passes, pass.pattern.isVdf = false)
    (hinitial : records <+: (Execute.executeDeviceInner pf execEnv job
      (Session.start [] execDevice)).2.journal)
    (harmed : ∃ overrides locks at_, .armed overrides locks at_ ∈ records)
    (hcompleted : ∀ at_ duration, .completed at_ duration ∉ records)
    (hfree : ∀ h, records.head? = some (.header h) → FaultFree pf env h) :
    CompletesPlan pf env records job.plan passes device
      ↔ (∀ label, .flushed label ∉ records) ∧ passes.length ≤ 256 := by
  have hbroken := phaseOf_of_extension hinitial (execute_not_broken pf execEnv job execDevice)
  have hfacts := phaseFacts (jobPolicy job) records
  have hlogical : Resume.logicalPasses job.plan = passes := by
    unfold Resume.logicalPasses
    rw [hplan]
  cases hphase : phaseOf (jobPolicy job) records with
  | broken => exact absurd hphase hbroken
  | fresh =>
    rw [hphase] at hfacts
    obtain ⟨overrides, locks, at_, hmem⟩ := harmed
    rw [show records = [] from hfacts] at hmem
    simp at hmem
  | completed v =>
    rw [hphase] at hfacts
    obtain ⟨-, -, -, at_, duration, hlast⟩ := hfacts
    exact absurd (List.mem_of_getLast? hlast) (hcompleted at_ duration)
  | flushed =>
    rw [hphase] at hfacts
    obtain ⟨-, hreached, label, hflushed⟩ := hfacts
    exact ⟨fun h => absurd h.returns (cmdResume_stuck hbroken hreached device),
      fun h => absurd hflushed (h.1 label)⟩
  | verified v =>
    rw [hphase] at hfacts
    obtain ⟨-, -, hreached, label, hflushed⟩ := hfacts
    exact ⟨fun h => absurd h.returns (cmdResume_stuck hbroken hreached device),
      fun h => absurd hflushed (h.1 label)⟩
  | writing h committed =>
    rw [hphase] at hfacts
    have facts : WritingFacts (jobPolicy job) records h committed := hfacts
    obtain ⟨hhplan, hhidentity⟩ := of_decide_eq_true facts.accepted
    have hall := unflushed_of_no_flush passes facts.unflushed
    constructor
    · intro hcompletes
      refine ⟨facts.unflushed, ?_⟩
      obtain ⟨written, lastPass, -, hwrites, -⟩ := hcompletes.calls
      rw [hall] at hwrites
      by_contra hlong
      -- pass 256 has no label
      have hmem : (passes[256], 256) ∈ passes.zipIdx := by
        rw [List.mem_iff_getElem]
        exact ⟨256, by rw [List.length_zipIdx]; omega, by simp⟩
      have := hwrites.index_lt _ hmem
      omega
    · rintro ⟨-, hlength⟩
      obtain ⟨lastPass, hlast⟩ : ∃ lastPass, passes.getLast? = some lastPass := by
        cases hlast : passes.getLast? with
        | none => exact absurd (List.getLast?_eq_none_iff.mp hlast) hpasses
        | some lastPass => exact ⟨lastPass, rfl⟩
      have hrun := Resume.cmdResume_has (E := fun _ => False) facts (hfree h facts.head)
        (by rw [hhplan, hlogical]) hlast hvdf hlength
      obtain ⟨_, s, hresult, written, report, sha256, fast, hwrites, -, hcalls, -, hjournal⟩ :=
        hrun.run_of_total (s := Session.start records device) ⟨rfl, rfl, trivial⟩
      refine ⟨by rw [hresult], ⟨written, lastPass, hlast, ?_, ?_⟩, ?_⟩
      · rw [hall]
        apply hwrites.mono
        rintro i window rfl
        constructor
        · intro w hw
          apply (facts.windows i w).mpr
          split at hw
          · next hzero => exact ⟨hzero, hw⟩
          · omega
        · intro hcommitted
          obtain ⟨rfl, hlt⟩ := (facts.windows i _).mp hcommitted
          simp at hlt
      · rw [hresult, hcalls, hhplan]
      · rw [hresult]
        obtain ⟨pre, at_, duration, hjournal⟩ := hjournal
        exact ⟨at_, duration, by rw [hjournal]; simp⟩

/-! ### A run on one window

A device of one window, a plan of one zero pass, and an engine that never returns from the
read-back: the machine dies there, with the pass flushed. -/

def sampleIdentity : DeviceIdentity where
  stable := ⟨none, none, none, 4096, .file, none, none⟩
  kernel := ⟨7, 0⟩
  kernelName := "loop0"
  devPath := "/dev/loop0"
  logicalBlockSize := 512
  physicalBlockSize := 512

def sampleJob : DeviceJob where
  plan := ⟨"diskcleaner-plan/1", sampleIdentity.stable, .logicalOverwrite [⟨.zero, "zero"⟩],
    .full, 4096, .forbidWriteZeroes, none, none⟩
  planHash := "p"
  identity := sampleIdentity

/-- Writes its window; a read-back ends as given, having shown the one window. -/
def sampleEngine (readBack : CallResult Unit) (valid : Bool) : Engine Unit where
  writePass _ _ _ _ _ := (.ok ⟨1, 4096, false, 1⟩, ())
  zeroPass _ _ _ _ := (.ok ⟨1, 4096, true, 1⟩, ())
  readVerify _ _ _ _ := (readBack, [⟨0, valid, []⟩], ())
  flush _ := (.ok (), ())

def sampleEnv (engine : Engine Unit) : CommandEnv Unit where
  engine := engine
  openEngine := none
  canWriteZeroes := false
  append _ := .ok
  clock _ := "t"
  elapsedMs _ := 1
  computePlanHash _ := .ok "p"
  throughputKibS _ := 4
  signalsReceived := 0
  keyFile := none
  generatedKey := Block.ofNat 32 7
  sibling := .ok none
  writeCertificate := none

def sampleTool : ToolBuild := ⟨"diskcleaner", "0.9.0", "b", "x86_64"⟩

def sampleExecute (engine : Engine Unit) : ExecuteEnv Unit where
  toCommandEnv := sampleEnv engine
  engineName := "sync"
  tool := sampleTool
  allowFlags := []
  checkpointMib := 64
  checkpointMs := 1000
  sha256 := false
  createJournal := none
  journalPath := "unit.dcj"
  chainHead _ := ""
  vdf := none
  pufPre := none
  pufMid := none
  pufPost := none
  thermalAborted := none
  evidence := .ok Evidence.empty
  verificationSchemeDoc := "doc"

def sampleResume (engine : Engine Unit) : ResumeEnv Unit where
  toCommandEnv := sampleEnv engine
  probeDevice := none
  guardian := none
  armAndLock := none
  openForResume := none
  discardedTailBytes := 0
  journalPath := "unit.dcj"
  chainHead _ := ""
  tool := sampleTool
  verificationSchemeDoc := "doc"

theorem zeros_length (_ : Block 32) (_ : Bytes) (n : Nat) :
    (List.replicate n (0 : UInt8)).length = n :=
  List.length_replicate

/-- A platform that answers every call; its canonical form is the schema line alone. -/
def samplePlatform : Platform where
  toCrypto := tableCrypto (Block.ofNat 32 9) [] []
  base64Encode _ := ""
  base64Decode _ := .ok []
  fromSlice _ := .error "expected value"
  jcs payload := .ok (utf8 payload.schema)
  mlDsaVerify _ _ _ := false
  hexErrorText _ := ""
  publicKeyErrorText _ := ""
  utf8ErrorText _ := ""
  keystream := ⟨fun _ _ n => List.replicate n 0, zeros_length⟩
  sha256 _ := Block.ofNat 32 0
  entropy _ := none

/-- The journal of the run that dies in its read-back. -/
def sampleJournal : List JournalRecord :=
  (Execute.executeDeviceInner samplePlatform (sampleExecute (sampleEngine .blocked true))
    sampleJob (Session.start [] ())).2.journal

theorem sampleJournal_eq : sampleJournal =
    [.header (Execute.header samplePlatform (sampleExecute (sampleEngine .blocked true))
        sampleJob (Block.ofNat 32 7) "t"),
      .armed [] [Execute.kernelNumber sampleIdentity] "t",
      .beginPass 0 zeroPattern.descriptor 4096, .rangeCommit 0 0 1, .endPass 0,
      .flushed 0] := by
  simp [sampleJournal, Execute.executeDeviceInner, Execute.armRun, Prog.bind_run, Prog.andThen,
    Execute.logicalPasses, sampleJob, armPlan, fsm, FsmState.compilePlan, FsmState.approvePlan,
    FsmState.arm, Session.start, sampleExecute, sampleEnv, nowIso, loadKey, Prog.failIf, Prog.ret,
    append, Execute.executePasses, Execute.executePass, FsmState.beginPass, Execute.passSource,
    patternSource, createPatternSource, Execute.writeMedia, Prog.attempt, overwrite, engineCall,
    sampleEngine, Execute.guardMid, commitPass, FsmState.beginFlush, engineFlush,
    FsmState.beginVerify, Execute.verifyMedia, Execute.verifySource, readBack, readInto,
    Except.map, Execute.supportsWriteZeroes]

/-- Nothing fails on the sample device. -/
theorem sampleResume_free {h : Header} (hsealed : h.sealed = false) (valid : Bool) :
    FaultFree samplePlatform (sampleResume (sampleEngine (.ok ()) valid)) h where
  probeDevice := rfl
  guardian := rfl
  armAndLock := rfl
  openForResume := rfl
  openEngine := rfl
  append _ := rfl
  planHash := ⟨"p", rfl⟩
  key := Or.inr ⟨hsealed, rfl⟩
  sibling := ⟨none, rfl⟩
  canonical _ _ := ⟨_, rfl⟩
  writeCertificate := rfl
  writePass _ _ _ _ := ⟨_, (), rfl⟩
  zeroPass _ _ _ := ⟨_, (), rfl⟩
  readVerify _ _ _ := ⟨_, (), rfl⟩
  flush _ := ⟨(), rfl⟩

theorem sampleJournal_free (n : Nat) :
    ∀ h, (sampleJournal.take n).head? = some (.header h) →
      FaultFree samplePlatform (sampleResume (sampleEngine (.ok ()) true)) h := by
  intro h hhead
  apply sampleResume_free
  rw [sampleJournal_eq] at hhead
  cases n with
  | zero => simp at hhead
  | succ n =>
    simp only [List.take_succ_cons, List.head?_cons, Option.some.injEq,
      JournalRecord.header.injEq] at hhead
    rw [← hhead]
    rfl

/-- The sample run cut right after it was armed. -/
theorem completesPlan_iff_sample :
    CompletesPlan samplePlatform (sampleResume (sampleEngine (.ok ()) true))
      (sampleJournal.take 2) sampleJob.plan [⟨.zero, "zero"⟩] () := by
  refine (completesPlan_iff rfl (by simp) (by simp [Pattern.isVdf])
    (List.take_prefix 2 sampleJournal) ?_ ?_ (sampleJournal_free 2)).mpr ⟨?_, by simp⟩
  · exact ⟨[], [Execute.kernelNumber sampleIdentity], "t", by simp [sampleJournal_eq]⟩
  · simp [sampleJournal_eq]
  · simp [sampleJournal_eq]

/-- **A flushed pass blocks the resume**: the whole sample journal has no Completed record and
nothing fails on its device, yet `resume` does not complete the plan. -/
theorem flushed_journal_not_resumed :
    (∀ at_ duration, .completed at_ duration ∉ sampleJournal)
      ∧ (∀ h, sampleJournal.head? = some (.header h) →
        FaultFree samplePlatform (sampleResume (sampleEngine (.ok ()) true)) h)
      ∧ ¬ CompletesPlan samplePlatform (sampleResume (sampleEngine (.ok ()) true))
        sampleJournal sampleJob.plan [⟨.zero, "zero"⟩] () := by
  refine ⟨by simp [sampleJournal_eq], ?_, fun h => ?_⟩
  · have hfree := sampleJournal_free sampleJournal.length
    rwa [List.take_length] at hfree
  · have hbroken : phaseOf (jobPolicy sampleJob) sampleJournal ≠ .broken :=
      execute_not_broken samplePlatform _ sampleJob ()
    have hreached : (Resume.resumePoint sampleJournal).verifyReached = true := by
      rw [sampleJournal_eq]
      rfl
    exact cmdResume_stuck hbroken hreached () h.returns

end DiscCleaner
