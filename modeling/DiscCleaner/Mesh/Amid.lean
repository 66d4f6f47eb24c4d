import DiscCleaner.Lib.Checks
import DiscCleaner.Mesh.Lifecycle

/-!
# DiscCleaner — what an event does to a mesh node

`Amid env n₀ e n`: the event `e`, taken up in the state `n₀`, can leave the node in `n`. Each
constructor is one change of the node's books with what the code knows when it makes it; what
no book records (the clock of the node apart) is `quiet`. **`next_amid`**: whatever an event
leaves, however it ends, is of this kind, so an invariant of the runs is checked on the changes.
-/

namespace DiscCleaner.Mesh.MeshNode

open ByteLib ProgLib

variable {p : Nat} {G : Type} [AddCommGroup G] [Module (ZMod p) G]

/-! ## The changes -/

/-- Two states with the same books; the second may have sent more and used up its session. -/
structure SameBooks (n n' : MeshNode p) : Prop where
  name : n'.name = n.name
  state : n'.state = n.state
  tick : n'.tick = n.tick
  discovery : n'.discovery = n.discovery
  gossip : n'.gossip = n.gossip
  consensus : n'.consensus = n.consensus
  rogue : n'.rogue = n.rogue
  frostShare : n'.frostShare = n.frostShare
  sealCommitments : n'.sealCommitments = n.sealCommitments
  sealShares : n'.sealShares = n.sealShares
  transcripts : n'.transcripts = n.transcripts
  pending : n'.pending = n.pending
  challenged : n'.challenged = n.challenged
  session : ∀ s, n'.sealSession = some s → n.sealSession = some s
  sent : n.sent ⊆ n'.sent

/-- The nonce of the `i`-th challenge on a serial. -/
def nonceOf (name serial : String) (i : Nat) : String := name ++ "-" ++ serial ++ "-" ++ toString i

/-- The events that may lead to an accusation or an isolation. -/
def Judges (n₀ : MeshNode p) : Event → Prop
  | .tick => False
  | .act => n₀.state ≠ .discovering
  | .receive f =>
    match f.msg with
    | .driveReport _ | .proposal _ | .accuse _ | .isolate _ => True
    | .spotProof _ => ∃ report ∈ n₀.gossip.reports, report.node = f.frm
    | _ => False

/-- The consensus calls an event makes. -/
def Calls (n₀ : MeshNode p) : Event → Consensus.Call → Prop
  | .tick, _ => False
  | .act, call =>
    n₀.state ≠ .discovering ∧ (call = .tick ∨ ∃ block, call = .proposal n₀.name block)
  | .receive f, call =>
    (∃ block, f.msg = .proposal block ∧ call = .proposal f.frm block)
      ∨ ∃ vote, (f.msg = .prepare vote ∨ f.msg = .commit vote)
        ∧ call = .vote vote.kind f.frm vote.view vote.hash

/-- A report the node has still to make: of one of its own drives. -/
def OwnReport (n₀ : MeshNode p) (report : DriveReport) : Prop :=
  n₀.reportsSent = false ∧ report.node = n₀.name
    ∧ ∃ drive ∈ n₀.simDrives, drive.spec.serial = report.serial

/-- A session the event found, or opened with the node's own share. -/
def OwnSession (n₀ : MeshNode p) (session : SignerSession p) : Prop :=
  n₀.sealSession = some session ∨ n₀.frostShare = some session.secret

variable (env : MeshEnv p G)

inductive Amid (n₀ : MeshNode p) (e : Event) : MeshNode p → Prop
  | start : Amid n₀ e n₀
  | quiet {n n' : MeshNode p} (h : Amid n₀ e n) (hsame : SameBooks n n') : Amid n₀ e n'
  | ticked {n : MeshNode p} (h : Amid n₀ e n) (he : e = .tick) :
      Amid n₀ e { n with tick := n.tick + 1 }
  | moved {n : MeshNode p} (h : Amid n₀ e n) (state : NodeState)
      (hwhy : n.consensus.isSome ∨ n₀.state ≠ .discovering) : Amid n₀ e { n with state }
  | discovered {n : MeshNode p} (h : Amid n₀ e n) {discovery : Discovery}
      (hgrows : n.discovery.Grows discovery) : Amid n₀ e { n with discovery }
  | began {n : MeshNode p} (h : Amid n₀ e n) (he : e = .act) {membership : Membership}
      (hfrozen : n.discovery.frozen = some membership) (timeout : UInt32) :
      Amid n₀ e { n with
        consensus := some (.new n.name membership timeout)
        state := .executing }
  | accused {n : MeshNode p} (h : Amid n₀ e n) (hjudges : Judges n₀ e) {accused : String}
      (hother : accused ≠ n.name) (kind : RogueKind) (evidence : String) :
      Amid n₀ e { n with
        rogue := (n.rogue.accuse n.name accused kind evidence
          (RogueLedger.digestOf env.toCrypto evidence)).2 }
  | filed {n : MeshNode p} (h : Amid n₀ e n) {f : MeshFrame} (he : e = .receive f)
      {wire : AccuseWire} (hmsg : f.msg = .accuse wire) {kind : RogueKind}
      (hkind : kindFromStr wire.kind = .ok kind) :
      Amid n₀ e { n with
        rogue := (n.rogue.accuse f.frm wire.accused kind wire.evidence wire.evidenceDigest).2 }
  | isolated {n : MeshNode p} (h : Amid n₀ e n) (hjudges : Judges n₀ e) {node digest : String}
      {kind : RogueKind} {quorum : Nat} {view : UInt32} {entry : RogueEntry}
      (hentry : (n.rogue.tryIsolate node kind digest quorum view).1 = some entry) :
      Amid n₀ e { n with
        rogue := (n.rogue.tryIsolate node kind digest quorum view).2
        consensus := n.consensus.map fun c => c.applyIsolation node }
  | dropped {n : MeshNode p} (h : Amid n₀ e n) {node : String}
      (hnode : n.rogue.isIsolated node = true) :
      Amid n₀ e { n with
        pending := n.pending.filter fun q =>
          q.2.serial ∉ (n.gossip.all.filter fun r => r.node = node).map DriveReport.serial }
  | issued {n : MeshNode p} (h : Amid n₀ e n) {f : MeshFrame} (he : e = .receive f)
      {report : DriveReport} (hmsg : f.msg = .driveReport report) (hnode : report.node = f.frm)
      (hget : n.gossip.get report.serial = some report) {i : Nat}
      (hi : n.challenged report.serial = i) {challenge : SpotChallenge}
      (hserial : challenge.serial = report.serial)
      (hnonce : challenge.nonce = nonceOf n.name report.serial i)
      {dst : Mac} (hsent : ⟨dst, 1, .challenge challenge⟩ ∈ n.sent) :
      Amid n₀ e { n with
        pending := (challenge.nonce, challenge) :: n.pending.filter fun q => q.1 ≠ challenge.nonce
        challenged := Function.update n.challenged report.serial (i + 1) }
  | taken {n : MeshNode p} (h : Amid n₀ e n) {f : MeshFrame} (he : e = .receive f)
      {proof : SpotProof} (hmsg : f.msg = .spotProof proof) :
      Amid n₀ e { n with pending := n.pending.filter fun q => q.1 ≠ proof.nonce }
  | witnessed {n : MeshNode p} (h : Amid n₀ e n) {f : MeshFrame} (he : e = .receive f)
      {proof : SpotProof} (hmsg : f.msg = .spotProof proof) {challenge : SpotChallenge}
      (hpending : (proof.nonce, challenge) ∈ n₀.pending) {report : DriveReport}
      (hget : n₀.gossip.get proof.serial = some report) (hnode : report.node = f.frm)
      {t : SpotTranscript}
      (hverify : SpotTranscript.verify env.toCrypto env.ks n₀.name f.frm challenge (some proof)
        report = some t)
      (hpassed : t.passed = true) : Amid n₀ e { n with transcripts := n.transcripts ++ [t] }
  | received {n : MeshNode p} (h : Amid n₀ e n) {f : MeshFrame} (he : e = .receive f)
      {t : SpotTranscript} (hmsg : f.msg = .transcript t) :
      Amid n₀ e { n with transcripts := n.transcripts ++ [t] }
  | expired {n : MeshNode p} (h : Amid n₀ e n) (hstate : n₀.state ≠ .discovering)
      (he : e = .act) {nonce : String} {challenge : SpotChallenge}
      (hpending : (nonce, challenge) ∈ n.pending)
      (hlate : ∃ late, (nonce, late) ∈ n₀.pending ∧ late.deadlineTick < n₀.tick)
      (hother : n.targetOf challenge ≠ n.name) :
      Amid n₀ e { n with
        pending := n.pending.filter fun q => q.1 ≠ nonce
        rogue := (n.rogue.accuse n.name (n.targetOf challenge) .timeout
          (deadlineEvidence challenge)
          (RogueLedger.digestOf env.toCrypto (deadlineEvidence challenge))).2 }
  | lapsed {n : MeshNode p} (h : Amid n₀ e n) (he : e = .act) {nonce : String}
      {challenge : SpotChallenge} (hpending : (nonce, challenge) ∈ n.pending)
      (hwhy : n.targetOf challenge = "" ∨ n.targetOf challenge = n.name
        ∨ n.rogue.isIsolated (n.targetOf challenge) = true) :
      Amid n₀ e { n with pending := n.pending.filter fun q => q.1 ≠ nonce }
  | reported {n : MeshNode p} (h : Amid n₀ e n) {f : MeshFrame} (he : e = .receive f)
      {report : DriveReport} (hmsg : f.msg = .driveReport report) (hnode : report.node = f.frm) :
      Amid n₀ e { n with gossip := (n.gossip.ingest report).2 }
  | reportedOwn {n : MeshNode p} (h : Amid n₀ e n) (hstate : n₀.state ≠ .discovering)
      (he : e = .act) {report : DriveReport} (hown : OwnReport n₀ report) :
      Amid n₀ e { n with gossip := (n.gossip.ingest report).2 }
  | noted {n : MeshNode p} (h : Amid n₀ e n) {f : MeshFrame} (he : e = .receive f)
      {block : Block} (hmsg : f.msg = .proposal block) :
      Amid n₀ e { n with
        consensus := n.consensus.map fun c =>
          (c.noteProposalDigest f.frm (block.hash env.toCrypto)).2 }
  | called {n : MeshNode p} (h : Amid n₀ e n) {c : Consensus} (hc : n.consensus = some c)
      {call : Consensus.Call} (hcall : Calls n₀ e call) :
      Amid n₀ e { n with consensus := some (c.next env.toCrypto call) }
  | committed {n : MeshNode p} (h : Amid n₀ e n) {f : MeshFrame} (he : e = .receive f)
      {c : RoundOneCommitment} (hmsg : f.msg = .sealCommit c) : Amid n₀ e (keepCommitment c n)
  | committedOwn {n : MeshNode p} (h : Amid n₀ e n) (hstate : n₀.state ≠ .discovering)
      (he : e = .act) {c : RoundOneCommitment} {session : SignerSession p}
      (hsession : n₀.frostShare = some session.secret) (hsigner : c.signer = session.secret.index) :
      Amid n₀ e (keepCommitment c { n with sealSession := some session })
  | shared {n : MeshNode p} (h : Amid n₀ e n) {f : MeshFrame} (he : e = .receive f)
      {s : SealShareWire} (hmsg : f.msg = .sealShare s) : Amid n₀ e (keepShare s n)
  | sharedOwn {n : MeshNode p} (h : Amid n₀ e n) (hstate : n₀.state ≠ .discovering)
      (he : e = .act) {s : SealShareWire} {session : SignerSession p}
      (hsession : OwnSession n₀ session) (hsigner : s.frost.signer = session.secret.index) :
      Amid n₀ e (keepShare s n)

variable {env} {n₀ n : MeshNode p} {e : Event}

theorem SameBooks.refl (n : MeshNode p) : SameBooks n n :=
  ⟨rfl, rfl, rfl, rfl, rfl, rfl, rfl, rfl, rfl, rfl, rfl, rfl, rfl, fun _ => id, List.Subset.refl _⟩

/-! ## Sending -/

/-- The node after a frame went to the transport. -/
def addSent (n : MeshNode p) (x : Sent) : MeshNode p := { n with sent := n.sent ++ [x] }

theorem Amid.addSent (h : Amid env n₀ e n) (x : Sent) : Amid env n₀ e (n.addSent x) :=
  h.quiet { SameBooks.refl n with sent := List.subset_append_left _ _ }

theorem amid_sendFrame (h : Amid env n₀ e n) (dst : Mac) (view : UInt32) (msg : Message) :
    Prog.Leaves (sendFrame env dst view msg) (Amid env n₀ e) n :=
  .update_bind (.get_bind (.failIf (h.addSent ⟨dst, view, msg⟩)))

/-- A frame that was sent leaves the node as it was but for the frame. -/
theorem sendFrame_ok {dst : Mac} {view : UInt32} {msg : Message} {u : Unit} {n' : MeshNode p}
    (h : sendFrame env dst view msg n = (.ok u, n')) : n' = n.addSent ⟨dst, view, msg⟩ := by
  have hrun : sendFrame env dst view msg n
      = Prog.failIf (env.sendError (n.addSent ⟨dst, view, msg⟩).sent) (n.addSent ⟨dst, view, msg⟩) :=
    rfl
  rw [hrun] at h
  cases hsend : env.sendError (n.addSent ⟨dst, view, msg⟩).sent with
  | none =>
    rw [hsend] at h
    exact (Prod.mk.inj h).2.symm
  | some error =>
    rw [hsend] at h
    exact absurd (Prod.mk.inj h).1 nofun

theorem amid_broadcast (h : Amid env n₀ e n) (view : UInt32) (msg : Message) :
    Prog.Leaves (broadcast env view msg) (Amid env n₀ e) n := amid_sendFrame h broadcastMac view msg

/-! ## Accusation and isolation -/

theorem isIsolated_of_tryIsolate {ledger : RogueLedger} {node digest : String} {kind : RogueKind}
    {quorum : Nat} {view : UInt32} {entry : RogueEntry}
    (h : (ledger.tryIsolate node kind digest quorum view).1 = some entry) :
    (ledger.tryIsolate node kind digest quorum view).2.isIsolated node = true := by
  unfold RogueLedger.tryIsolate at h ⊢
  split at h
  · exact absurd h nofun
  · next hnew =>
    dsimp only at h
    split at h
    · exact absurd h nofun
    · next hquorum =>
      rw [if_neg hnew]
      dsimp only
      rw [if_neg hquorum]
      simp [RogueLedger.isIsolated]

theorem amid_dropPendingFor (h : Amid env n₀ e n) {node : String}
    (hnode : n.rogue.isIsolated node = true) :
    Prog.Leaves (dropPendingFor node) (Amid env n₀ e) n := .update (h.dropped hnode)

theorem amid_maybeIsolate (h : Amid env n₀ e n) (hjudges : Judges n₀ e) (accused digest : String)
    (kind : RogueKind) (count : Nat) :
    Prog.Leaves (maybeIsolate env accused kind digest count) (Amid env n₀ e) n := by
  unfold maybeIsolate
  refine .get_bind ?_
  split
  · cases htry : n.rogue.tryIsolate accused kind digest n.frozenQuorum 1 with
    | mk entry ledger =>
      cases entry with
      | none => exact .ret h
      | some entry =>
        have hentry : (n.rogue.tryIsolate accused kind digest n.frozenQuorum 1).1 = some entry := by
          rw [htry]
        have hisolated := h.isolated hjudges hentry
        have hnode := isIsolated_of_tryIsolate hentry
        rw [htry] at hisolated hnode
        refine .update_bind (.bind (amid_broadcast hisolated 1 _) fun _ n' hrun h' => ?_)
        rw [sendFrame_ok hrun] at h' ⊢
        exact amid_dropPendingFor h' hnode
  · exact .ret h

/-- What follows the entry of an accusation in the ledger. -/
theorem amid_accuse_filed (h : Amid env n₀ e n) (hjudges : Judges n₀ e) (accused digest : String)
    (kind : RogueKind) (count : Nat) (msg : Message) :
    Prog.Leaves (broadcast env 1 msg >>= fun _ => maybeIsolate env accused kind digest count)
      (Amid env n₀ e) n :=
  .bind (amid_broadcast h 1 msg) fun _ _ _ h' => amid_maybeIsolate h' hjudges accused digest kind count

theorem amid_accuse (h : Amid env n₀ e n) (hjudges : Judges n₀ e) (accused evidence : String)
    (kind : RogueKind) : Prog.Leaves (accuse env accused kind evidence) (Amid env n₀ e) n := by
  unfold accuse
  refine .get_bind ?_
  split
  · exact .ret h
  · next hother =>
    push Not at hother
    exact .update_bind (amid_accuse_filed (h.accused hjudges hother.1 kind evidence) hjudges ..)

/-! ## Challenges and proofs -/

/-- The turns of the challenge loop from the `i`-th on: each knows the report on record and the
count its predecessor left. -/
theorem amid_issueFrom {f : MeshFrame} (he : e = .receive f) {report : DriveReport}
    (hmsg : f.msg = .driveReport report) (hnode : report.node = f.frm) (k i : Nat)
    {n : MeshNode p} (h : Amid env n₀ e n) (hget : n.gossip.get report.serial = some report)
    (hi : n.challenged report.serial = i) :
    Prog.Leaves ((List.range' i k).forM (issueChallenge env report)) (Amid env n₀ e) n := by
  induction k generalizing i n with
  | zero => exact .ret h
  | succ k ih =>
    let rng := (DetRng.below n.rng report.windowsTotal).2
    let challenge : SpotChallenge :=
      { serial := report.serial
        window := (DetRng.below n.rng report.windowsTotal).1
        windowSectors := report.windowSectors
        nonce := nonceOf n.name report.serial i
        deadlineTick := (n.tick + n.cfg.challengeDeadlineTicks) % 2 ^ 64 }
    let dst := n.discovery.routeTo report.node
    -- one turn: draw, send, then record the challenge
    have hturn : issueChallenge env report i n
        = (sendFrame env dst 1 (.challenge challenge) >>= fun _ =>
            Prog.update fun n => { n with
              pending := (challenge.nonce, challenge)
                :: n.pending.filter fun q => q.1 ≠ challenge.nonce
              challenged := Function.update n.challenged report.serial (i + 1) })
            { n with rng } := rfl
    have hdrawn : Amid env n₀ e { n with rng } := h.quiet { SameBooks.refl n with }
    have hkept : Amid env n₀ e { n.addSent ⟨dst, 1, .challenge challenge⟩ with
        rng
        pending := (challenge.nonce, challenge)
          :: n.pending.filter fun q => q.1 ≠ challenge.nonce
        challenged := Function.update n.challenged report.serial (i + 1) } :=
      (hdrawn.addSent ⟨dst, 1, .challenge challenge⟩).issued he hmsg hnode hget hi rfl rfl
        (List.mem_append_right _ List.mem_cons_self)
    show Prog.Leaves (issueChallenge env report i >>= fun _ =>
      (List.range' (i + 1) k).forM (issueChallenge env report)) (Amid env n₀ e) n
    refine .bind ?_ ?_
    · show Amid env n₀ e (issueChallenge env report i n).2
      rw [hturn]
      refine Prog.Leaves.bind (amid_sendFrame hdrawn dst 1 _) fun _ n' hrun _ => ?_
      rw [sendFrame_ok hrun]
      exact .update hkept
    · intro _ n' hrun _
      rw [hturn] at hrun
      cases hsend : sendFrame env dst 1 (.challenge challenge) { n with rng } with
      | mk outcome n₁ =>
        cases outcome with
        | ok u =>
          rw [Prog.bind_run_ok hsend, sendFrame_ok hsend] at hrun
          obtain rfl := (Prod.mk.inj hrun).2
          exact ih (i + 1) hkept hget (Function.update_self ..)
        | _ =>
          rw [Prog.bind_run, Prog.andThen, hsend] at hrun
          exact absurd (Prod.mk.inj hrun).1 (by simp)

theorem amid_issueChallenges {f : MeshFrame} (he : e = .receive f) {report : DriveReport}
    (hmsg : f.msg = .driveReport report) (hnode : report.node = f.frm) (h : Amid env n₀ e n)
    (hget : n.gossip.get report.serial = some report) :
    Prog.Leaves (issueChallenges env report) (Amid env n₀ e) n :=
  .get_bind (amid_issueFrom he hmsg hnode _ _ h hget rfl)

theorem amid_answerChallenge (h : Amid env n₀ e n) (ch : SpotChallenge) :
    Prog.Leaves (answerChallenge env ch) (Amid env n₀ e) n := by
  unfold answerChallenge
  refine .get_bind ?_
  split
  · exact .ret h
  · split
    · exact .ret h
    · split
      · exact .unwind h
      · exact amid_broadcast h 1 _

theorem amid_handleProof {f : MeshFrame} {proof : SpotProof} (hmsg : f.msg = .spotProof proof) :
    Prog.Leaves (handleProof env f.frm proof) (Amid env n₀ (.receive f)) n₀ := by
  unfold handleProof
  refine .get_bind ?_
  cases hfind : n₀.pending.find? fun q => q.1 = proof.nonce with
  | none => exact .ret .start
  | some q =>
    have hnonce : q.1 = proof.nonce := by simpa using List.find?_some hfind
    have hpending : (proof.nonce, q.2) ∈ n₀.pending := hnonce ▸ List.mem_of_find?_eq_some hfind
    have htaken := (Amid.start : Amid env n₀ (.receive f) n₀).taken rfl hmsg
    refine .update_bind ?_
    cases hget : n₀.gossip.get proof.serial with
    | none => exact .ret htaken
    | some report =>
      dsimp only
      split
      · exact .ret htaken
      · next hnode =>
        push Not at hnode
        split
        · exact .unwind htaken
        · next t hverify =>
          unfold judge
          split
          · next hpassed =>
            refine .bind (amid_broadcast htaken 1 _) fun _ n' hrun h' => ?_
            exact .update (h'.witnessed rfl hmsg hpending hget hnode hverify hpassed)
          · -- the reporter itself answered, so the accusation is one of its frame
            refine amid_accuse htaken ?_ _ _ _
            simp only [Judges, hmsg]
            exact ⟨report, List.mem_of_find?_eq_some hget, hnode⟩

/-! ## The handlers -/

theorem amid_onHello (srcMac : Mac) (view : UInt32) (body : HelloBody) :
    Prog.Leaves (onHello env srcMac view body) (Amid env n₀ e) n₀ := by
  have h := (Amid.start : Amid env n₀ e n₀).discovered
    (Discovery.grows_ingest : n₀.discovery.Grows (n₀.discovery.ingest env.toCrypto srcMac body).2)
  unfold onHello
  refine .get_bind ?_
  dsimp only
  generalize n₀.discovery.ingest env.toCrypto srcMac body = answered at h ⊢
  obtain ⟨fresh, discovery⟩ := answered
  refine .update_bind ?_
  split
  · exact amid_sendFrame h srcMac view _
  · exact .ret h

theorem get_of_fresh {g : GossipStore} {report : DriveReport}
    (h : (g.ingest report).1.1 = true) : (g.ingest report).2.get report.serial = some report := by
  unfold GossipStore.ingest at h ⊢
  split at h
  · split at h
    · exact absurd h nofun
    · exact absurd h nofun
  · exact List.find?_cons_of_pos (by simp)

theorem amid_onDriveReport {f : MeshFrame} {report : DriveReport}
    (hmsg : f.msg = .driveReport report) :
    Prog.Leaves (onDriveReport env f.frm report) (Amid env n₀ (.receive f)) n₀ := by
  have hjudges : Judges n₀ (.receive f) := by
    simp only [Judges, hmsg]
  unfold onDriveReport
  split
  · exact amid_accuse .start hjudges _ _ _
  · next hnode =>
    push Not at hnode
    have h := (Amid.start : Amid env n₀ (.receive f) n₀).reported rfl hmsg hnode
    have hget := @get_of_fresh n₀.gossip report
    refine .get_bind ?_
    dsimp only
    generalize n₀.gossip.ingest report = answered at h hget ⊢
    obtain ⟨⟨fresh, duplicate⟩, gossip⟩ := answered
    refine .update_bind ?_
    split
    · exact amid_accuse h hjudges _ _ _
    · split
      · next hfresh => exact amid_issueChallenges rfl hmsg hnode h (hget hfresh)
      · exact .ret h

theorem amid_onTranscript {f : MeshFrame} {t : SpotTranscript} (hmsg : f.msg = .transcript t) :
    Prog.Leaves (onTranscript t) (Amid env n₀ (.receive f)) n₀ := by
  refine .update ?_
  split
  · exact .start
  · exact Amid.start.received rfl hmsg

theorem amid_onAcceptable {f : MeshFrame} {block : Block} (hmsg : f.msg = .proposal block)
    (h : Amid env n₀ (.receive f) n) :
    Prog.Leaves (onAcceptable env f.frm block) (Amid env n₀ (.receive f)) n := by
  unfold onAcceptable
  refine .get_bind ?_
  cases hc : n.consensus with
  | none => exact .ret h
  | some c =>
    have hsender : Calls n₀ (.receive f) (.proposal f.frm block) := .inl ⟨block, hmsg, rfl⟩
    have hcalled := h.called hc hsender
    simp only [Consensus.next] at hcalled
    dsimp only
    generalize c.onProposal env.toCrypto f.frm block = answered at hcalled ⊢
    obtain ⟨answer, c'⟩ := answered
    cases answer with
    | error error => exact .update_bind (.fail hcalled)
    | ok answer =>
      refine .update_bind ?_
      split
      · exact amid_broadcast hcalled _ _
      · exact .ret hcalled

theorem amid_onProposal {f : MeshFrame} {block : Block} (hmsg : f.msg = .proposal block) :
    Prog.Leaves (onProposal env f.frm f.view block) (Amid env n₀ (.receive f)) n₀ := by
  have hnoted := (Amid.start : Amid env n₀ (.receive f) n₀).noted rfl hmsg
  unfold onProposal
  refine .get_bind (.update_bind ?_)
  rw [Option.map_map]
  split
  · refine amid_accuse hnoted ?_ _ _ _
    simp only [Judges, hmsg]
  · split
    · exact amid_onAcceptable hmsg hnoted
    · exact .ret hnoted

theorem amid_onVote {f : MeshFrame} {vote : Consensus.VoteBody}
    (hmsg : f.msg = .prepare vote ∨ f.msg = .commit vote) :
    Prog.Leaves (onVote env f.frm vote) (Amid env n₀ (.receive f)) n₀ := by
  unfold onVote
  refine .get_bind ?_
  cases hc : n₀.consensus with
  | none => exact .ret .start
  | some c =>
    have hsender : Calls n₀ (.receive f) (.vote vote.kind f.frm vote.view vote.hash) :=
      .inr ⟨vote, hmsg, rfl⟩
    have hcalled := (Amid.start : Amid env n₀ (.receive f) n₀).called hc hsender
    simp only [Consensus.next] at hcalled
    dsimp only
    generalize c.onVote vote.kind f.frm vote.view vote.hash = answered at hcalled ⊢
    obtain ⟨outcome, c'⟩ := answered
    refine .update_bind ?_
    cases outcome with
    | enteredCommit => exact amid_broadcast hcalled _ _
    | decided => exact .update (hcalled.moved .sealing (.inl rfl))
    | ignored => exact .ret hcalled
    | counting => exact .ret hcalled

theorem amid_onAccuse {f : MeshFrame} {wire : AccuseWire} (hmsg : f.msg = .accuse wire) :
    Prog.Leaves (onAccuse env f.frm wire) (Amid env n₀ (.receive f)) n₀ := by
  refine .ofExcept_bind .start fun kind hkind => .get_bind (.update_bind ?_)
  refine amid_maybeIsolate (Amid.start.filed rfl hmsg hkind) ?_ _ _ _ _
  simp only [Judges, hmsg]

theorem amid_onIsolate {f : MeshFrame} {wire : IsolateWire} (hmsg : f.msg = .isolate wire) :
    Prog.Leaves (onIsolate wire) (Amid env n₀ (.receive f)) n₀ := by
  refine .ofExcept_bind .start fun kind hkind => .get_bind ?_
  have hjudges : Judges n₀ (.receive f) := by
    simp only [Judges, hmsg]
  cases htry : n₀.rogue.tryIsolate wire.node kind wire.digest n₀.frozenQuorum wire.view with
  | mk entry ledger =>
    cases entry with
    | none => exact .ret .start
    | some entry =>
      have hentry : (n₀.rogue.tryIsolate wire.node kind wire.digest n₀.frozenQuorum
          wire.view).1 = some entry := by
        rw [htry]
      have hisolated := (Amid.start : Amid env n₀ (.receive f) n₀).isolated hjudges hentry
      have hnode := isIsolated_of_tryIsolate hentry
      rw [htry] at hisolated hnode
      exact .update_bind (amid_dropPendingFor hisolated hnode)

/-- **One frame**: whatever its handler does is a change of its kind. -/
theorem amid_receive (f : MeshFrame) :
    Prog.Leaves (receive env f) (Amid env n₀ (.receive f)) n₀ := by
  unfold receive
  refine .get_bind ?_
  split
  · exact .ret .start
  · cases hmsg : f.msg with
    | hello body => exact amid_onHello ..
    | helloAck body => exact amid_onHello ..
    | driveReport report => exact amid_onDriveReport hmsg
    | challenge ch => exact amid_answerChallenge .start ch
    | spotProof proof => exact amid_handleProof hmsg
    | transcript t => exact amid_onTranscript hmsg
    | proposal block => exact amid_onProposal hmsg
    | prepare vote => exact amid_onVote (.inl hmsg)
    | commit vote => exact amid_onVote (.inr hmsg)
    | accuse wire => exact amid_onAccuse hmsg
    | isolate wire => exact amid_onIsolate hmsg
    | sealCommit c => exact .update (Amid.start.committed rfl hmsg)
    | sealShare s => exact .update (Amid.start.shared rfl hmsg)
    | unparsed error => exact .fail .start
    | peerList => exact .ret .start
    | changeView => exact .ret .start
    | heartbeat => exact .ret .start

/-! ## What no change touches -/

theorem Amid.name (h : Amid env n₀ e n) : n.name = n₀.name := by
  induction h with
  | start => rfl
  | quiet _ hsame ih => exact hsame.name.trans ih
  | _ => assumption

theorem Amid.frostShare (h : Amid env n₀ e n) : n.frostShare = n₀.frostShare := by
  induction h with
  | start => rfl
  | quiet _ hsame ih => exact hsame.frostShare.trans ih
  | _ => assumption

/-- What follows the inbox waits for nothing: no challenge is added, and the clock stands. -/
theorem Amid.waiting (h : Amid env n₀ .act n) : n.pending ⊆ n₀.pending ∧ n.tick = n₀.tick := by
  generalize he : Event.act = e at h
  induction h with
  | start => exact ⟨List.Subset.refl _, rfl⟩
  | quiet _ hsame ih => exact ⟨hsame.pending ▸ ih.1, hsame.tick.trans ih.2⟩
  | ticked _ hother => exact absurd (he.trans hother) nofun
  | issued _ hother => exact absurd (he.trans hother) nofun
  | dropped _ _ ih => exact ⟨List.Subset.trans (List.filter_subset_self _) ih.1, ih.2⟩
  | taken _ _ _ ih => exact ⟨List.Subset.trans (List.filter_subset_self _) ih.1, ih.2⟩
  | expired _ _ _ _ _ _ ih => exact ⟨List.Subset.trans (List.filter_subset_self _) ih.1, ih.2⟩
  | lapsed _ _ _ _ ih => exact ⟨List.Subset.trans (List.filter_subset_self _) ih.1, ih.2⟩
  | _ => assumption

/-! ## Discovery and the wipe -/

theorem amid_beginExecuting {membership : Membership} (h : Amid env n₀ .act n)
    (hfrozen : n.discovery.frozen = some membership) :
    Prog.Leaves (beginExecuting membership) (Amid env n₀ .act) n := by
  have hcfg : Amid env n₀ .act { n with
      cfg := { n.cfg with
        threshold := some (n.cfg.threshold.getD (.defaultFor membership.nodes.length)) } } :=
    h.quiet { SameBooks.refl n with }
  exact .update (hcfg.began rfl hfrozen n.cfg.viewTimeoutTicks)

theorem amid_stepDiscovering : Prog.Leaves (stepDiscovering env) (Amid env n₀ .act) n₀ := by
  have h := (Amid.start : Amid env n₀ .act n₀).discovered
    (Discovery.grows_step : n₀.discovery.Grows (n₀.discovery.step env.toCrypto).2)
  unfold stepDiscovering
  refine .get_bind ?_
  dsimp only
  generalize n₀.discovery.step env.toCrypto = answered at h ⊢
  obtain ⟨⟨hello, froze⟩, discovery⟩ := answered
  refine .update_bind (.bind ?_ fun _ n' hrun h' => ?_)
  · cases hello with
    | none => exact .ret h
    | some body => exact amid_broadcast h 0 _
  · have hsame : n'.discovery = discovery := by
      cases hello with
      | none => exact (Prod.mk.inj hrun).2 ▸ rfl
      | some body => rw [sendFrame_ok hrun]; rfl
    dsimp only
    split
    · next hmembership => exact amid_beginExecuting h' (hsame ▸ hmembership)
    · exact .ret h'

theorem amid_ingestOwn (hstate : n₀.state ≠ .discovering) {reports : List DriveReport}
    (hown : ∀ r ∈ reports, OwnReport n₀ r) (h : Amid env n₀ .act n) :
    Amid env n₀ .act { n with
      gossip := reports.foldl (fun g report => (g.ingest report).2) n.gossip } := by
  induction reports generalizing n with
  | nil => exact h
  | cons report reports ih =>
    have hfirst := h.reportedOwn hstate rfl (hown report List.mem_cons_self)
    refine ih ?_ hfirst
    exact fun r hr => hown r (List.mem_cons_of_mem report hr)

theorem ownReport_of_honestReport (hname : n.name = n₀.name) (hsent : n₀.reportsSent = false)
    {drive : SimDrive} (hdrive : ∃ own ∈ n₀.simDrives, own.spec.serial = drive.spec.serial)
    {report : DriveReport} (hreport : honestReport env n drive = some report) :
    OwnReport n₀ report := by
  unfold honestReport at hreport
  obtain ⟨src, -, rfl⟩ := Option.map_eq_some_iff.mp hreport
  exact ⟨hsent, hname, hdrive⟩

theorem amid_announceAll (h : Amid env n₀ .act n) (reports : List DriveReport) :
    Prog.Leaves (reports.forM (announce env)) (Amid env n₀ .act) n :=
  .forM (fun _ _ _ h' => amid_broadcast h' 1 _) h

theorem amid_forgeReports (hstate : n₀.state ≠ .discovering) (hsent : n₀.reportsSent = false)
    {drive : SimDrive} (hdrive : drive ∈ n₀.simDrives) (h : Amid env n₀ .act n) :
    Prog.Leaves (forgeReports env drive) (Amid env n₀ .act) n := by
  unfold forgeReports
  refine .get_bind ?_
  split
  · exact .unwind h
  · next report hreport =>
    refine .update_bind ?_
    refine amid_broadcast (amid_ingestOwn hstate ?_ h) 1 _
    intro r hr
    rw [List.mem_singleton.mp hr]
    exact ownReport_of_honestReport h.name hsent ⟨drive, hdrive, rfl⟩ hreport

theorem mapM_mem {α β : Type} {f : α → Option β} {l : List α} {l' : List β}
    (h : l.mapM f = some l') {b : β} (hb : b ∈ l') : ∃ a ∈ l, f a = some b := by
  induction l generalizing l' with
  | nil =>
    obtain rfl : [] = l' := by simpa using h
    exact absurd hb List.not_mem_nil
  | cons a l ih =>
    rw [List.mapM_cons] at h
    obtain ⟨b', hb', h⟩ := Option.bind_eq_some_iff.mp h
    obtain ⟨tail, htail, h⟩ := Option.bind_eq_some_iff.mp h
    obtain rfl := Option.some.inj h
    rcases List.mem_cons.mp hb with rfl | hb
    · exact ⟨a, List.mem_cons_self, hb'⟩
    · obtain ⟨a', ha', hfa⟩ := ih htail hb
      exact ⟨a', List.mem_cons_of_mem a ha', hfa⟩

theorem wipeChunk_spec {ks : Keystream} {pattern : Pattern} {drive drive' : SimDrive}
    (h : wipeChunk ks pattern drive = some drive') : drive'.spec = drive.spec := by
  unfold wipeChunk at h
  split at h
  · obtain ⟨src, -, rfl⟩ := Option.map_eq_some_iff.mp h
    rfl
  · rw [Option.some.inj h]

theorem amid_wipeAndReport (hstate : n₀.state ≠ .discovering) (hsent : n₀.reportsSent = false) :
    Prog.Leaves (wipeAndReport env) (Amid env n₀ .act) n₀ := by
  unfold wipeAndReport
  refine .get_bind ?_
  split
  · exact .unwind .start
  · next simDrives hwipe =>
    have hwiped : Amid env n₀ .act { n₀ with simDrives } :=
      Amid.start.quiet { SameBooks.refl n₀ with }
    refine .update_bind ?_
    split
    · have hmarked : Amid env n₀ .act { n₀ with simDrives, reportsSent := true } :=
        Amid.start.quiet { SameBooks.refl n₀ with }
      refine .update_bind ?_
      split
      · exact .unwind hmarked
      · next reports hreports =>
        refine .update_bind (amid_announceAll (amid_ingestOwn hstate ?_ hmarked) reports)
        intro r hr
        obtain ⟨drive, hdrive, hreport⟩ := mapM_mem hreports hr
        obtain ⟨own, hown, hchunk⟩ := mapM_mem hwipe hdrive
        -- a wiped drive is still the drive it was
        have hspec : drive.spec = own.spec := by
          split at hchunk
          · rw [Option.some.inj hchunk]
          · exact wipeChunk_spec hchunk
        exact ownReport_of_honestReport rfl hsent ⟨own, hown, by rw [hspec]⟩ hreport
    · exact .ret hwiped

theorem amid_stepWipe (hstate : n₀.state ≠ .discovering) :
    Prog.Leaves (stepWipe env) (Amid env n₀ .act) n₀ := by
  have hmarked : Amid env n₀ .act { n₀ with reportsSent := true } :=
    Amid.start.quiet { SameBooks.refl n₀ with }
  unfold stepWipe
  refine .get_bind ?_
  split
  · next hopen =>
    split
    · exact .update_bind
        (.forM (fun _ hdrive _ h' => amid_forgeReports hstate hopen.2 hdrive h') hmarked)
    · exact .ret .start
    all_goals
      split
      · exact .update hmarked
      · exact amid_wipeAndReport hstate hopen.2
  · exact .ret .start

/-! ## Deadlines and the clock -/

theorem amid_expire (hstate : n₀.state ≠ .discovering) {nonce : String}
    (hlate : ∃ late, (nonce, late) ∈ n₀.pending ∧ late.deadlineTick < n₀.tick)
    (h : Amid env n₀ .act n) : Prog.Leaves (expire env nonce) (Amid env n₀ .act) n := by
  unfold expire
  refine .get_bind ?_
  cases hfind : n.pending.find? fun q => q.1 = nonce with
  | none => exact .unwind h
  | some q =>
    have hnonce : q.1 = nonce := by simpa using List.find?_some hfind
    have hpending : (nonce, q.2) ∈ n.pending := hnonce ▸ List.mem_of_find?_eq_some hfind
    refine .update_bind ?_
    split
    · unfold accuse
      refine .get_bind ?_
      split
      · next hquiet => exact .ret (h.lapsed rfl hpending (.inr hquiet))
      · next hother =>
        push Not at hother
        -- the removal and the entry of the accusation are one change: nothing fails in between
        exact .update_bind
          (amid_accuse_filed (h.expired hstate rfl hpending hlate hother.1) hstate ..)
    · next hsilent =>
      refine .ret (h.lapsed rfl hpending ?_)
      by_cases hempty : n.targetOf q.2 = ""
      · exact .inl hempty
      · refine .inr (.inr ?_)
        by_contra hlive
        exact hsilent ⟨hempty, by simpa using hlive⟩

theorem amid_missReport (hstate : n₀.state ≠ .discovering) (h : Amid env n₀ .act n)
    (peer : String) : Prog.Leaves (missReport env peer) (Amid env n₀ .act) n := by
  unfold missReport
  refine .get_bind ?_
  split
  · exact .ret h
  · split
    · exact amid_accuse h hstate _ _ _
    · exact .ret h

theorem late_of_expired (h : Amid env n₀ .act n) {nonce : String} (hnonce : nonce ∈ expired env n) :
    ∃ late, (nonce, late) ∈ n₀.pending ∧ late.deadlineTick < n₀.tick := by
  obtain ⟨⟨_, late⟩, hq, rfl⟩ := List.mem_map.mp hnonce
  obtain ⟨hq, hlate⟩ := List.mem_filter.mp hq
  obtain ⟨hpending, htick⟩ := h.waiting
  refine ⟨late, hpending ((env.pendingOrder_perm n.pending).mem_iff.mp hq), ?_⟩
  rw [← htick]
  simpa using hlate

theorem amid_enforceDeadlines (hstate : n₀.state ≠ .discovering) (h : Amid env n₀ .act n) :
    Prog.Leaves (enforceDeadlines env) (Amid env n₀ .act) n := by
  unfold enforceDeadlines
  refine .get_bind (.bind ?_ fun _ n' _ h' => .get_bind ?_)
  · exact .forM (fun _ hnonce _ h' => amid_expire hstate (late_of_expired h hnonce) h') h
  · split
    · exact .ret h'
    · split
      · exact .forM (fun peer _ _ h'' => amid_missReport hstate h'' peer) h'
      · exact .ret h'

theorem amid_consensusClock (hstate : n₀.state ≠ .discovering) (h : Amid env n₀ .act n)
    (wasReady : Bool) : Prog.Leaves (consensusClock env wasReady) (Amid env n₀ .act) n := by
  unfold consensusClock
  refine .get_bind ?_
  cases hc : n.consensus with
  | none => exact .ret h
  | some c =>
    have hticked : Amid env n₀ .act { n with consensus := some c.tick.2 } :=
      h.called hc (show Calls n₀ .act .tick from ⟨hstate, .inl rfl⟩)
    refine .update_bind ?_
    split
    · dsimp only
      split
      · exact amid_accuse hticked hstate _ _ _
      · exact .ret hticked
    · exact .ret hticked

/-! ## Proposing -/

theorem amid_consensusStepSealing (hstate : n₀.state ≠ .discovering) (h : Amid env n₀ .act n) :
    Prog.Leaves (consensusStepSealing env) (Amid env n₀ .act) n := by
  unfold consensusStepSealing
  refine .get_bind ?_
  cases hc : n.consensus with
  | none => exact .ret h
  | some c =>
    dsimp only
    split
    · have hproposing : Amid env n₀ .act { n with lastProposedView := some c.view } :=
        h.quiet { SameBooks.refl n with }
      refine .update_bind ?_
      generalize c.buildProposal env.toCrypto n.liveReports n.passingTranscripts n.rogue = block
      split
      · exact .bind (amid_broadcast hproposing _ _) fun _ _ _ h' => amid_broadcast h' _ _
      · split
        · exact .ret hproposing
        · refine .bind (amid_broadcast hproposing _ _) fun _ n' hrun h' => ?_
          rw [sendFrame_ok hrun] at h' ⊢
          have hown : Calls n₀ .act (.proposal n.name block) :=
            ⟨hstate, .inr ⟨block, by rw [h.name]⟩⟩
          have hcalled := h'.called hc hown
          simp only [Consensus.next] at hcalled
          generalize c.onProposal env.toCrypto n.name block = answered at hcalled ⊢
          obtain ⟨answer, c'⟩ := answered
          cases answer with
          | error error => exact .update_bind (.fail hcalled)
          | ok answer => exact .update hcalled
    · exact .ret h

/-! ## The seal -/

/-- The message is read off the state. -/
theorem sealingMessage_state : (sealingMessage env n).2 = n := by
  show Prog.Leaves (sealingMessage env) (· = n) n
  unfold sealingMessage
  refine .get_bind ?_
  split
  · exact .ret rfl
  · split
    · exact .unwind rfl
    · exact .ret rfl

/-- What follows the message starts from the same state. -/
theorem leaves_sealingMessage {α : Type} {I : MeshNode p → Prop} {k : Bytes → MeshM p α} (h : I n)
    (hk : ∀ message, Prog.Leaves (k message) I n) :
    Prog.Leaves (sealingMessage env >>= k) I n := by
  refine .bind ?_ fun message n' hrun _ => ?_
  · show I (sealingMessage env n).2
    rw [sealingMessage_state]
    exact h
  · have hsame : (sealingMessage env n).2 = n' := by rw [hrun]
    rw [← hsame, sealingMessage_state]
    exact hk message

theorem coordinator_state : (coordinator env n).2 = n := by
  show Prog.Leaves (coordinator env) (· = n) n
  unfold coordinator
  refine .get_bind ?_
  split
  · exact .ret rfl
  · refine leaves_sealingMessage rfl fun message => ?_
    split
    · exact .ret rfl
    · exact .ret rfl

theorem leaves_coordinator {α : Type} {I : MeshNode p → Prop}
    {k : Option CoordinatorSession → MeshM p α} (h : I n)
    (hk : ∀ coord, Prog.Leaves (k coord) I n) : Prog.Leaves (coordinator env >>= k) I n := by
  refine .bind ?_ fun coord n' hrun _ => ?_
  · show I (coordinator env n).2
    rw [coordinator_state]
    exact h
  · have hsame : (coordinator env n).2 = n' := by rw [hrun]
    rw [← hsame, coordinator_state]
    exact hk coord

theorem amid_sealRoundOne (hstate : n₀.state ≠ .discovering) (h : Amid env n₀ .act n)
    (parts : List UInt16) : Prog.Leaves (sealRoundOne env parts) (Amid env n₀ .act) n := by
  unfold sealRoundOne
  refine .get_bind ?_
  cases hshare : n.frostShare with
  | none => exact .ret h
  | some secret =>
    dsimp only
    split
    · have hsent : Amid env n₀ .act { n with sealCommitSent := true } :=
        h.quiet { SameBooks.refl n with }
      refine .update_bind (amid_broadcast ?_ 1 _)
      exact hsent.committedOwn hstate rfl (h.frostShare.symm.trans hshare) rfl
    · exact .ret h

/-- A session the node holds is its own. -/
theorem Amid.session (h : Amid env n₀ e n) {session : SignerSession p}
    (hsession : n.sealSession = some session) : OwnSession n₀ session := by
  induction h with
  | start => exact .inl hsession
  | quiet _ hsame ih => exact ih (hsame.session session hsession)
  | committedOwn _ _ _ hshare _ _ => exact .inr (Option.some.inj hsession ▸ hshare)
  | _ => rename_i ih; exact ih hsession

theorem round2_signer {session : SignerSession p} {coord : CoordinatorSession}
    {share : RoundTwoShare} (h : session.round2 env.grp coord = .ok share) :
    share.signer = session.secret.index := by
  unfold SignerSession.round2 at h
  dsimp only at h
  split at h
  · exact absurd h nofun
  · obtain ⟨terms, -, h⟩ := Checks.bind_eq_ok.mp h
    exact (Except.ok.inj h) ▸ rfl

theorem amid_sealRoundTwo (hstate : n₀.state ≠ .discovering) (h : Amid env n₀ .act n)
    (parts : List UInt16) : Prog.Leaves (sealRoundTwo env parts) (Amid env n₀ .act) n := by
  have hsent : Amid env n₀ .act { n with sealShareSent := true } :=
    h.quiet { SameBooks.refl n with }
  have hused : Amid env n₀ .act { n with sealShareSent := true, sealSession := none } :=
    h.quiet { SameBooks.refl n with session := fun s hs => absurd hs nofun }
  unfold sealRoundTwo
  refine .get_bind ?_
  dsimp only
  split
  · refine .update_bind (leaves_sealingMessage hsent fun message => .update_bind ?_)
    refine leaves_coordinator hused fun coord => ?_
    split
    · next session hsession =>
      split
      · exact .ret hused
      · next frost hround =>
        refine .update_bind (amid_broadcast ?_ 1 _)
        exact hused.sharedOwn hstate rfl (h.session hsession) (round2_signer hround)
    · exact .ret hused
  · exact .ret h

theorem Amid.certified (hstate : n₀.state ≠ .discovering) (h : Amid env n₀ .act n)
    (cert : SwarmCertificate) :
    Amid env n₀ .act { n with certificate := some cert, state := .certified } := by
  have hkept : Amid env n₀ .act { n with certificate := some cert } :=
    h.quiet { SameBooks.refl n with }
  exact hkept.moved .certified (.inr hstate)

theorem amid_assembleCertificate (hstate : n₀.state ≠ .discovering) (h : Amid env n₀ .act n) :
    Prog.Leaves (assembleCertificate env) (Amid env n₀ .act) n := by
  unfold assembleCertificate
  refine .get_bind ?_
  split
  · split
    · exact .ret h
    · split
      · exact .unwind h
      · refine leaves_sealingMessage h fun message => ?_
        refine .ofExcept_bind h fun coord _ => .ofExcept_bind h fun frost _ => ?_
        dsimp only
        split
        · exact .update (h.certified hstate _)
        · exact .fail h
  · exact .ret h

theorem amid_stepSeal (hstate : n₀.state ≠ .discovering) (h : Amid env n₀ .act n) :
    Prog.Leaves (stepSeal env) (Amid env n₀ .act) n := by
  unfold stepSeal
  refine .bind (amid_consensusStepSealing hstate h) fun _ n₁ _ h₁ => .get_bind ?_
  split
  · refine .bind (amid_sealRoundOne hstate h₁ _) fun _ n₂ _ h₂ => ?_
    refine .bind (amid_sealRoundTwo hstate h₂ _) fun _ n₃ _ h₃ => ?_
    unfold sealFinish
    refine .get_bind ?_
    dsimp only
    split
    · exact amid_assembleCertificate hstate h₃
    · exact .ret h₃
  · exact .ret h₁

/-! ## The step -/

theorem amid_stepActive (hstate : n₀.state ≠ .discovering) :
    Prog.Leaves (stepActive env) (Amid env n₀ .act) n₀ := by
  unfold stepActive
  refine .bind (amid_stepWipe hstate) fun _ n₁ _ h₁ => ?_
  refine .bind ?_ fun _ n₂ _ h₂ => .bind ?_ fun _ n₃ _ h₃ => ?_
  · unfold stepDeadlines
    refine .get_bind ?_
    split
    · exact amid_enforceDeadlines hstate h₁
    · exact .ret h₁
  · unfold stepReadiness
    refine .get_bind (.bind (amid_consensusClock hstate h₂ _) fun _ n' _ h' => ?_)
    split
    · exact .update (h'.moved .sealing (.inr hstate))
    · exact .ret h'
  · unfold stepSealing
    refine .get_bind ?_
    split
    · exact amid_stepSeal hstate h₃
    · exact .ret h₃

theorem amid_act : Prog.Leaves (act env) (Amid env n₀ .act) n₀ := by
  unfold act
  refine .get_bind ?_
  cases hstate : n₀.state with
  | discovering => exact amid_stepDiscovering
  | executing => exact amid_stepActive (by rw [hstate]; nofun)
  | sealing => exact amid_stepActive (by rw [hstate]; nofun)
  | certified => exact .ret .start

/-- **What an event leaves** is what changes of its kind make of the state, however it ends. -/
theorem next_amid (e : Event) : Amid env n₀ e (next env n₀ e) := by
  cases e with
  | tick => exact Amid.start.ticked rfl
  | receive f => exact amid_receive f
  | act => exact amid_act

end DiscCleaner.Mesh.MeshNode
