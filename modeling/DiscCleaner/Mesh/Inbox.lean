import DiscCleaner.Mesh.Frame
import DiscCleaner.Mesh.Witness

/-!
# DiscCleaner — what the inbox survives (`mesh.rs`)

Draining the inbox stops at the first frame whose handling fails: the error ends the step, and
what is queued behind the frame is left. `tolerated` says exactly which frames are got through.
-/

namespace DiscCleaner.Mesh.MeshNode

open ByteLib ProgLib TransitionLib

variable {p : Nat} {G : Type} [AddCommGroup G] [Module (ZMod p) G] (env : MeshEnv p G)

/-! ## What the property says -/

/-- **The inbox is drained**: no error, no panic, and every frame was handed on. -/
structure Drained (parse : MsgType → Bytes → Message) (n : MeshNode p)
    (wires : List (Mac × Bytes)) : Prop where
  returns : (drainInbox env (wires.map (openFrame env.toCrypto parse)) n).1 = .ok ()
  processed : ∃ frames : List MeshFrame,
    wires.map (openFrame env.toCrypto parse) = frames.map .ok
      ∧ (drainInbox env (wires.map (openFrame env.toCrypto parse)) n).2
        = run (next env) n (frames.map .receive)

/-- The slice of a window that wraps in 64 bits: an honest node panics on it. -/
def sliceWraps (n : MeshNode p) (ch : SpotChallenge) : Bool :=
  (n.cfg.behavior ≠ .silent ∧ n.cfg.behavior ≠ .liar)
    && (n.simDrives.find? fun d => d.spec.serial = ch.serial).any fun drive =>
      let len := ch.windowSectors * 512
      let start := ch.window * len % 2 ^ 64
      let stop := (start + len) % 2 ^ 64
      stop ≤ drive.backing.length ∧ stop < start

/-- The proof answers a pending challenge on a report of its sender that declares a weave. -/
def hitsWeave (n : MeshNode p) (frm : String) (proof : SpotProof) : Bool :=
  (n.pending.find? fun q => q.1 = proof.nonce).any fun q =>
    (n.gossip.get proof.serial).any fun report =>
      report.node = frm ∧ (proof.serial = q.2.serial ∧ proof.window = q.2.window
        ∧ proof.nonce = q.2.nonce) ∧ report.pattern.isVdf

/-- The block reaches the consensus, which refuses another membership with an error. -/
def foreignBlock (n : MeshNode p) (frm : String) (block : Block) : Bool :=
  n.consensus.any fun c =>
    ((c.noteProposalDigest frm (block.hash env.toCrypto)).1 = none
      ∧ n.holdsBlock env.toCrypto block) ∧ c.decided = none
      ∧ block.membershipHash ≠ c.membershipHash

def kindKnown (kind : String) : Bool :=
  kind = "equivocation" ∨ kind = "duplicate_serial" ∨ kind = "failed_spot_proof" ∨ kind = "timeout"

/-- The frame is got through: it is dropped, or its message parses and meets none of the errors
and panics of its handler. -/
def tolerated (n : MeshNode p) (f : MeshFrame) : Bool :=
  (n.rogue.isIsolated f.frm ∨ f.frm = n.name) ||
    match f.msg with
    | .unparsed _ => false
    | .challenge ch => !n.sliceWraps ch
    | .spotProof proof => !n.hitsWeave f.frm proof
    | .proposal block => !foreignBlock env n f.frm block
    | .accuse wire => kindKnown wire.kind
    | .isolate wire => kindKnown wire.kind
    | _ => true

/-- The same of a wire payload: it decodes, verifies, and its frame is got through. -/
def toleratedWire (parse : MsgType → Bytes → Message) (n : MeshNode p) (x : Mac × Bytes) : Bool :=
  match openFrame env.toCrypto parse x with
  | .ok f => tolerated env n f
  | .error _ => false

/-- The state after a wire payload. -/
def nextWire (parse : MsgType → Bytes → Message) (n : MeshNode p) (x : Mac × Bytes) : MeshNode p :=
  match openFrame env.toCrypto parse x with
  | .ok f => next env n (.receive f)
  | .error _ => n

/-! ## Parts that always return -/

variable {env} {n : MeshNode p}

/-- A transport that takes every frame, as the virtual segment does. -/
def Delivers (env : MeshEnv p G) : Prop := ∀ sent, env.sendError sent = none

theorem sendFrame_run (hsend : Delivers env) (dst : Mac) (view : UInt32) (msg : Message) :
    sendFrame env dst view msg n = (.ok (), n.addSent ⟨dst, view, msg⟩) := by
  show Prog.failIf (env.sendError _) (n.addSent ⟨dst, view, msg⟩) = _
  rw [hsend]
  rfl

theorem finishes_sendFrame (hsend : Delivers env) (dst : Mac) (view : UInt32) (msg : Message) :
    Prog.Finishes (sendFrame env dst view msg) n := ⟨_, _, sendFrame_run hsend dst view msg⟩

theorem finishes_maybeIsolate (hsend : Delivers env) (accused digest : String) (kind : RogueKind)
    (count : Nat) : Prog.Finishes (maybeIsolate env accused kind digest count) n := by
  unfold maybeIsolate
  refine Prog.Finishes.get_bind.mpr ?_
  split
  · split
    · exact .ret _
    · exact Prog.Finishes.update_bind.mpr
        ((finishes_sendFrame hsend ..).bind fun _ _ => .update _)
  · exact .ret _

theorem finishes_accuse (hsend : Delivers env) (accused evidence : String) (kind : RogueKind) :
    Prog.Finishes (accuse env accused kind evidence) n := by
  unfold accuse
  refine Prog.Finishes.get_bind.mpr ?_
  split
  · exact .ret _
  · exact Prog.Finishes.update_bind.mpr
      ((finishes_sendFrame hsend ..).bind fun _ _ => finishes_maybeIsolate hsend ..)

theorem finishes_issueChallenges (hsend : Delivers env) (report : DriveReport) :
    Prog.Finishes (issueChallenges env report) n := by
  refine Prog.Finishes.get_bind.mpr (.forM fun i n => ?_)
  refine Prog.Finishes.get_bind.mpr (Prog.Finishes.update_bind.mpr ?_)
  exact (finishes_sendFrame hsend ..).bind fun _ _ => .update _

theorem finishes_onHello (hsend : Delivers env) (srcMac : Mac) (view : UInt32) (body : HelloBody) :
    Prog.Finishes (onHello env srcMac view body) n := by
  unfold onHello
  refine Prog.Finishes.get_bind.mpr ?_
  dsimp only
  generalize n.discovery.ingest env.toCrypto srcMac body = answered
  obtain ⟨fresh, discovery⟩ := answered
  refine Prog.Finishes.update_bind.mpr ?_
  split
  · exact finishes_sendFrame hsend ..
  · exact .ret _

theorem finishes_onDriveReport (hsend : Delivers env) (frm : String) (report : DriveReport) :
    Prog.Finishes (onDriveReport env frm report) n := by
  unfold onDriveReport
  split
  · exact finishes_accuse hsend ..
  · refine Prog.Finishes.get_bind.mpr ?_
    dsimp only
    generalize n.gossip.ingest report = answered
    obtain ⟨⟨fresh, duplicate⟩, gossip⟩ := answered
    refine Prog.Finishes.update_bind.mpr ?_
    split
    · exact finishes_accuse hsend ..
    · split
      · exact finishes_issueChallenges hsend report
      · exact .ret _

theorem finishes_onVote (hsend : Delivers env) (frm : String) (vote : Consensus.VoteBody) :
    Prog.Finishes (onVote env frm vote) n := by
  unfold onVote
  refine Prog.Finishes.get_bind.mpr ?_
  split
  · exact .ret _
  · refine Prog.Finishes.update_bind.mpr ?_
    split
    · exact finishes_sendFrame hsend ..
    · exact .update _
    · exact .ret _

/-! ## Parts that may fail -/

theorem kindFromStr_ok {kind : String} :
    (∃ k, kindFromStr kind = .ok k) ↔ kindKnown kind = true := by
  unfold kindFromStr kindKnown
  by_cases h₁ : kind = "equivocation"
  · simp [h₁]
  · by_cases h₂ : kind = "duplicate_serial"
    · simp [h₂]
    · by_cases h₃ : kind = "failed_spot_proof"
      · simp [h₃]
      · by_cases h₄ : kind = "timeout"
        · simp [h₄]
        · simp [h₁, h₂, h₃, h₄]

theorem finishes_onAccuse (hsend : Delivers env) (frm : String) (wire : AccuseWire) :
    Prog.Finishes (onAccuse env frm wire) n ↔ kindKnown wire.kind = true := by
  rw [← kindFromStr_ok]
  refine Prog.Finishes.ofExcept_bind.trans (exists_congr fun kind => and_iff_left ?_)
  exact Prog.Finishes.get_bind.mpr (Prog.Finishes.update_bind.mpr (finishes_maybeIsolate hsend ..))

theorem finishes_onIsolate (wire : IsolateWire) :
    Prog.Finishes (onIsolate wire : MeshM p Unit) n ↔ kindKnown wire.kind = true := by
  rw [← kindFromStr_ok]
  refine Prog.Finishes.ofExcept_bind.trans (exists_congr fun kind => and_iff_left ?_)
  refine Prog.Finishes.get_bind.mpr ?_
  split
  · exact .ret _
  · exact Prog.Finishes.update_bind.mpr (.update _)

theorem finishes_answerChallenge (hsend : Delivers env) (ch : SpotChallenge) :
    Prog.Finishes (answerChallenge env ch) n ↔ n.sliceWraps ch = false := by
  unfold answerChallenge
  rw [Prog.Finishes.get_bind]
  by_cases hsilent : n.cfg.behavior = .silent
  · rw [if_pos hsilent]
    exact iff_of_true (.ret _) (by simp [sliceWraps, hsilent])
  · rw [if_neg hsilent]
    cases hdrive : n.simDrives.find? fun d => d.spec.serial = ch.serial with
    | none => exact iff_of_true (.ret _) (by simp [sliceWraps, hdrive])
    | some drive =>
      dsimp only
      by_cases hliar : n.cfg.behavior = .liar
      · have hdata : n.windowBytes drive ch = some _ := if_pos hliar
        rw [hdata]
        exact iff_of_true (finishes_sendFrame hsend ..) (by simp [sliceWraps, hliar])
      · -- the slice, unless the window is past what is written
        have hwraps : n.sliceWraps ch = true ↔ n.windowBytes drive ch = none := by
          simp only [sliceWraps, windowBytes, hdrive, Option.any_some, if_neg hliar]
          split
          · next hstop => split <;> simp_all
          · next hstop => simp_all
        cases hdata : n.windowBytes drive ch with
        | none =>
          rw [hdata, eq_self, iff_true] at hwraps
          rw [hwraps]
          exact iff_of_false Prog.Finishes.not_unwind (by decide)
        | some data =>
          rw [hdata] at hwraps
          refine iff_of_true (finishes_sendFrame hsend ..) ?_
          simpa using hwraps

/-- Verification panics on a weave, and only when the proof answers the challenge. -/
theorem verify_eq_none {cr : Crypto} {ks : Keystream} {witness wiper : String}
    {challenge : SpotChallenge} {proof : SpotProof} {report : DriveReport} :
    SpotTranscript.verify cr ks witness wiper challenge (some proof) report = none
      ↔ (proof.serial = challenge.serial ∧ proof.window = challenge.window
        ∧ proof.nonce = challenge.nonce) ∧ report.pattern.isVdf = true := by
  unfold SpotTranscript.verify
  dsimp only
  split
  · next hother =>
    refine iff_of_false (by simp) ?_
    rintro ⟨⟨hserial, hwindow, hnonce⟩, -⟩
    rcases hother with h | h | h
    · exact h hserial
    · exact h hwindow
    · exact h hnonce
  · next hanswers =>
    push Not at hanswers
    rw [Option.map_eq_none_iff, and_iff_right hanswers, DriveReport.expectedBytes,
      Option.map_eq_none_iff]
    cases hvdf : report.pattern.isVdf with
    | true =>
      cases hpattern : report.pattern with
      | vdfWoven scheme seed => exact iff_of_true rfl rfl
      | _ => rw [hpattern] at hvdf; exact absurd hvdf (by simp [Pattern.isVdf])
    | false =>
      obtain ⟨src, hsrc, -⟩ := createPatternSource_isSome ks hvdf
      rw [hsrc]
      exact iff_of_false (by simp) Bool.false_ne_true

theorem finishes_judge (hsend : Delivers env) (frm : String) (t : SpotTranscript) :
    Prog.Finishes (judge env frm t) n := by
  unfold judge
  split
  · exact (finishes_sendFrame hsend ..).bind fun _ _ => .update _
  · exact finishes_accuse hsend ..

theorem finishes_handleProof (hsend : Delivers env) (frm : String) (proof : SpotProof) :
    Prog.Finishes (handleProof env frm proof) n ↔ n.hitsWeave frm proof = false := by
  unfold handleProof
  rw [Prog.Finishes.get_bind]
  cases hpending : n.pending.find? fun q => q.1 = proof.nonce with
  | none => exact iff_of_true (.ret _) (by simp [hitsWeave, hpending])
  | some q =>
    rw [Prog.Finishes.update_bind]
    cases hget : n.gossip.get proof.serial with
    | none => exact iff_of_true (.ret _) (by simp [hitsWeave, hpending, hget])
    | some report =>
      dsimp only
      by_cases hnode : report.node = frm
      · rw [if_neg (not_not_intro hnode)]
        have hhits : n.hitsWeave frm proof = true
            ↔ SpotTranscript.verify env.toCrypto env.ks n.name frm q.2 (some proof) report
              = none := by
          rw [verify_eq_none]
          simp [hitsWeave, hpending, hget, hnode]
        cases hverify : SpotTranscript.verify env.toCrypto env.ks n.name frm q.2 (some proof)
            report with
        | none =>
          rw [hhits.mpr hverify]
          exact iff_of_false Prog.Finishes.not_unwind (by decide)
        | some t =>
          refine iff_of_true (finishes_judge hsend frm t) ?_
          rw [hverify] at hhits
          simpa using hhits
      · rw [if_pos hnode]
        exact iff_of_true (.ret _) (by simp [hitsWeave, hpending, hget, hnode])

/-- The consensus refuses a block of another membership while it is undecided. -/
theorem onProposal_error {cr : Crypto} {c : Consensus} {frm : String} {block : Block} :
    (∃ error, (c.onProposal cr frm block).1 = .error error)
      ↔ c.decided = none ∧ block.membershipHash ≠ c.membershipHash := by
  unfold Consensus.onProposal
  split
  · next hdecided =>
    refine iff_of_false nofun fun h => ?_
    rw [h.1] at hdecided
    exact absurd hdecided (by decide)
  · next hopen =>
    have hnone : c.decided = none := by simpa using hopen
    rw [and_iff_right hnone]
    split
    · next hforeign => exact iff_of_true ⟨_, rfl⟩ hforeign
    · next hsame => exact iff_of_false nofun hsame

theorem decided_noteProposalDigest {c : Consensus} {frm hash : String} :
    (c.noteProposalDigest frm hash).2.decided = c.decided
      ∧ (c.noteProposalDigest frm hash).2.membershipHash = c.membershipHash := by
  unfold Consensus.noteProposalDigest
  split
  · exact ⟨rfl, rfl⟩
  · split <;> exact ⟨rfl, rfl⟩

theorem finishes_onAcceptable (hsend : Delivers env) (frm : String) (block : Block) :
    Prog.Finishes (onAcceptable env frm block) n
      ↔ ∀ c, n.consensus = some c →
        ¬ (c.decided = none ∧ block.membershipHash ≠ c.membershipHash) := by
  unfold onAcceptable
  rw [Prog.Finishes.get_bind]
  cases hc : n.consensus with
  | none => exact iff_of_true (.ret _) nofun
  | some c =>
    have herror := @onProposal_error env.toCrypto c frm block
    dsimp only
    generalize c.onProposal env.toCrypto frm block = answered at herror ⊢
    obtain ⟨answer, c'⟩ := answered
    cases answer with
    | error error =>
      refine iff_of_false ?_ fun h => h c rfl (herror.mp ⟨error, rfl⟩)
      rintro ⟨u, n', hrun⟩
      exact absurd (Prod.mk.inj hrun).1 nofun
    | ok answer =>
      refine iff_of_true (Prog.Finishes.update_bind.mpr ?_) ?_
      · split
        · exact finishes_sendFrame hsend ..
        · exact .ret _
      · rintro c'' hc'' hforeign
        obtain rfl := Option.some.inj hc''
        obtain ⟨error, herr⟩ := herror.mpr hforeign
        exact absurd herr nofun

theorem finishes_onProposal (hsend : Delivers env) (frm : String) (view : UInt32) (block : Block) :
    Prog.Finishes (onProposal env frm view block) n ↔ foreignBlock env n frm block = false := by
  unfold onProposal
  rw [Prog.Finishes.get_bind, Prog.Finishes.update_bind]
  cases hc : n.consensus with
  | none =>
    refine iff_of_true ?_ (by simp [foreignBlock, hc])
    dsimp only [Option.map_none, Option.bind_none]
    split
    · exact (finishes_onAcceptable hsend frm block).mpr nofun
    · exact .ret _
  | some c =>
    have hnoted := @decided_noteProposalDigest c frm (block.hash env.toCrypto)
    simp only [foreignBlock, hc, Option.any_some, Option.map_some, Option.bind_some]
    generalize c.noteProposalDigest frm (block.hash env.toCrypto) = noted at hnoted ⊢
    obtain ⟨other, c'⟩ := noted
    cases other with
    | some other => exact iff_of_true (finishes_accuse hsend ..) (by simp)
    | none =>
      dsimp only at hnoted ⊢
      split
      · next hholds =>
        have hholds : n.holdsBlock env.toCrypto block = true := hholds
        rw [finishes_onAcceptable hsend, hholds, ← hnoted.1, ← hnoted.2]
        simp
      · next hother =>
        have hother : n.holdsBlock env.toCrypto block = false := by simpa using hother
        exact iff_of_true (.ret _) (by simp [hother])

/-! ## One frame, and the inbox -/

/-- **One frame** is handled to the end exactly when it is tolerated. -/
theorem finishes_receive (hsend : Delivers env) (f : MeshFrame) :
    Prog.Finishes (receive env f) n ↔ tolerated env n f = true := by
  unfold receive tolerated
  rw [Prog.Finishes.get_bind]
  by_cases hdropped : n.rogue.isIsolated f.frm = true ∨ f.frm = n.name
  · rw [if_pos hdropped]
    exact iff_of_true (.ret _) (by simp [hdropped])
  · rw [if_neg hdropped, decide_eq_false hdropped, Bool.false_or]
    cases hmsg : f.msg with
    | hello body => exact iff_of_true (finishes_onHello hsend ..) rfl
    | helloAck body => exact iff_of_true (finishes_onHello hsend ..) rfl
    | driveReport report => exact iff_of_true (finishes_onDriveReport hsend ..) rfl
    | challenge ch => exact (finishes_answerChallenge hsend ch).trans (by simp)
    | spotProof proof => exact (finishes_handleProof hsend f.frm proof).trans (by simp)
    | transcript t => exact iff_of_true (.update _) rfl
    | proposal block => exact (finishes_onProposal hsend f.frm f.view block).trans (by simp)
    | prepare vote => exact iff_of_true (finishes_onVote hsend ..) rfl
    | commit vote => exact iff_of_true (finishes_onVote hsend ..) rfl
    | accuse wire => exact finishes_onAccuse hsend f.frm wire
    | isolate wire => exact finishes_onIsolate wire
    | sealCommit c => exact iff_of_true (.update _) rfl
    | sealShare s => exact iff_of_true (.update _) rfl
    | unparsed error => exact iff_of_false (Prog.Finishes.not_fail error) Bool.false_ne_true
    | peerList => exact iff_of_true (.ret _) rfl
    | changeView => exact iff_of_true (.ret _) rfl
    | heartbeat => exact iff_of_true (.ret _) rfl

variable {parse : MsgType → Bytes → Message}

/-- The frames of an inbox that is got through, in the states they arrive in. -/
theorem drainInbox_of_tolerated (hsend : Delivers env) {wires : List (Mac × Bytes)}
    (h : Along (nextWire env parse) (fun n x => toleratedWire env parse n x = true) n wires) :
    ∃ frames : List MeshFrame, wires.map (openFrame env.toCrypto parse) = frames.map .ok
      ∧ drainInbox env (wires.map (openFrame env.toCrypto parse)) n
        = (.ok (), run (next env) n (frames.map .receive)) := by
  induction wires generalizing n with
  | nil => exact ⟨[], rfl, rfl⟩
  | cons x wires ih =>
    obtain ⟨htolerated, hrest⟩ := h
    obtain ⟨f, hopen, htolerated⟩ : ∃ f, openFrame env.toCrypto parse x = .ok f
        ∧ tolerated env n f = true := by
      unfold toleratedWire at htolerated
      split at htolerated
      · next f hopen => exact ⟨f, hopen, htolerated⟩
      · exact absurd htolerated Bool.false_ne_true
    obtain ⟨u, n', hrun⟩ := (finishes_receive hsend f).mpr htolerated
    have hnext : next env n (.receive f) = n' := by
      show (receive env f n).2 = n'
      rw [hrun]
    have hwire : nextWire env parse n x = n' := by
      unfold nextWire
      rw [hopen]
      exact hnext
    rw [hwire] at hrest
    obtain ⟨frames, hframes, hdrained⟩ := ih hrest
    refine ⟨f :: frames, ?_, ?_⟩
    · rw [List.map_cons, List.map_cons, hopen, hframes]
    · rw [List.map_cons, hopen, List.map_cons, run_cons, hnext, ← hdrained]
      exact Prog.bind_run_ok hrun

/-- An inbox that is drained was got through frame by frame. -/
theorem tolerated_of_drainInbox (hsend : Delivers env) {wires : List (Mac × Bytes)}
    (h : Prog.Finishes (drainInbox env (wires.map (openFrame env.toCrypto parse))) n) :
    Along (nextWire env parse) (fun n x => toleratedWire env parse n x = true) n wires := by
  induction wires generalizing n with
  | nil => trivial
  | cons x wires ih =>
    rw [List.map_cons] at h
    cases hopen : openFrame env.toCrypto parse x with
    | error error =>
      rw [hopen] at h
      exact absurd h (Prog.Finishes.not_fail error)
    | ok f =>
      rw [hopen] at h
      have hfirst : Prog.Finishes (receive env f) n := Prog.Finishes.of_bind h
      obtain ⟨u, n', hrun⟩ := hfirst
      have hwire : nextWire env parse n x = n' := by
        unfold nextWire
        rw [hopen]
        show (receive env f n).2 = n'
        rw [hrun]
      refine ⟨?_, ?_⟩
      · show toleratedWire env parse n x = true
        unfold toleratedWire
        rw [hopen]
        exact (finishes_receive hsend f).mp ⟨u, n', hrun⟩
      · rw [hwire]
        exact ih ((Prog.Finishes.bind_of_run hrun).mp h)

/-- A report of the fourth member that declares a weave. -/
def wovenReport : DriveReport :=
  { zeroReport with pattern := .vdfWoven .wesolowskiRsaUfoV1 (repeated 0 32) }

/-- A parser for fixed runs: one message for each type. -/
def fixedParse : MsgType → Bytes → Message
  | .driveReport, _ => .driveReport wovenReport
  | .spotProof, _ => .spotProof ⟨"S", 0, onlyNonce, none, ""⟩
  | _, _ => .heartbeat

/-- A wire payload of the member whose key repeats one byte, without content. -/
def emptyWire (k msgType : UInt8) : Mac × Bytes :=
  (broadcastMac, meshMagic ++ [protocolVersion, msgType] ++ be32 1 ++ List.replicate 32 k
    ++ be32 0 ++ List.replicate 64 0)

end DiscCleaner.Mesh.MeshNode
