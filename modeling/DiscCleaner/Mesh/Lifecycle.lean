import DiscCleaner.Mesh.Node

/-!
# DiscCleaner — the lifecycle of a mesh node (`mesh.rs`)

One step of a node: the clock, the inbox, then what the state asks for: discovery, the wipe and
its reports, the deadlines, the consensus clock and, once decided, the two rounds of the seal.
A run is any sequence of these parts; what a step leaves is what a run of its parts leaves.
-/

namespace DiscCleaner.Mesh.MeshNode

open ByteLib ProgLib TransitionLib

variable {p : Nat} {G : Type} [AddCommGroup G] [Module (ZMod p) G] (env : MeshEnv p G)

/-! ## Discovery -/

def announceSelf : Option HelloBody → MeshM p Unit
  | some body => broadcast env 0 (.hello body)
  | none => pure ()

/-- The node starts to execute with the membership that froze. -/
def beginExecuting (membership : Membership) : MeshM p Unit :=
  Prog.update fun n => { n with
    cfg := { n.cfg with
      threshold := some (n.cfg.threshold.getD (.defaultFor membership.nodes.length)) }
    consensus := some (.new n.name membership n.cfg.viewTimeoutTicks)
    state := .executing }

def stepDiscovering : MeshM p Unit := do
  let n ← Prog.get
  let ((hello, frozen), discovery) := n.discovery.step env.toCrypto
  Prog.update fun n => { n with discovery }
  announceSelf env hello
  match frozen, discovery.membership with
  | true, some membership => beginExecuting membership
  | _, _ => pure ()

/-! ## The wipe and its reports -/

/-- One window of a drive; `none` is the panic on a weave. -/
def wipeChunk (ks : Keystream) (pattern : Pattern) (drive : SimDrive) : Option SimDrive :=
  if drive.windowsWritten < drive.spec.capacityWindows then
    let w := drive.windowsWritten
    let len := drive.spec.windowSectors * 512
    let backing := drive.backing ++ List.replicate ((w + 1) * len - drive.backing.length) 0
    (createPatternSource ks pattern).map fun src =>
      { drive with
        backing := backing.take (w * len) ++ src.fill w len ++ backing.drop (w * len + len)
        windowsWritten := w + 1
        wiped := drive.wiped || drive.spec.capacityWindows ≤ w + 1 }
  else some drive

/-- The report of a drive: the digests of its windows, of the pattern where nothing is written;
`none` is the panic on a weave. -/
def honestReport (n : MeshNode p) (drive : SimDrive) : Option DriveReport :=
  (createPatternSource env.ks n.cfg.pattern).map fun src =>
    let len := drive.spec.windowSectors * 512
    let digest (w : Nat) : Bytes :=
      if w * len + len ≤ drive.backing.length then
        (env.blake3 ((drive.backing.drop (w * len)).take len)).bytes
      else (env.blake3 (src.fill w len)).bytes
    { node := n.name
      serial := drive.spec.serial
      wwn := none
      bus := "SIM"
      capacityLbas := drive.spec.capacityWindows * drive.spec.windowSectors
      windowSectors := drive.spec.windowSectors
      windowsTotal := drive.spec.capacityWindows
      windowsVerified := drive.spec.capacityWindows
      pattern := n.cfg.pattern
      evidenceRoot :=
        evidenceRoot env.toCrypto ((List.range drive.spec.capacityWindows).map digest)
      view := 1 }

/-- The reports enter the node's own store, which never hears its broadcasts. -/
def ingestOwn (reports : List DriveReport) : MeshM p Unit :=
  Prog.update fun n => { n with
    gossip := reports.foldl (fun g report => (g.ingest report).2) n.gossip }

def announce (report : DriveReport) : MeshM p Unit := broadcast env 1 (.driveReport report)

/-- A liar reports drive by drive, without a wipe. -/
def forgeReports (drive : SimDrive) : MeshM p Unit := do
  let n ← Prog.get
  match honestReport env n drive with
  | none => Prog.unwind
  | some report => do
    ingestOwn [report]
    announce env report

/-- One window of every drive that is not wiped; the reports when all are. -/
def wipeAndReport : MeshM p Unit := do
  let n ← Prog.get
  match n.simDrives.mapM fun d => if d.wiped then some d else wipeChunk env.ks n.cfg.pattern d with
  | none => Prog.unwind
  | some simDrives => do
    Prog.update fun n => { n with simDrives }
    if simDrives.all SimDrive.wiped then do
      Prog.update fun n => { n with reportsSent := true }
      match simDrives.mapM (honestReport env n) with
      | none => Prog.unwind
      | some reports => do
        ingestOwn reports
        reports.forM (announce env)
    else pure ()

def stepWipe : MeshM p Unit := do
  let n ← Prog.get
  if n.state = .executing ∧ n.reportsSent = false then
    match n.cfg.behavior with
    | .liar => do
      Prog.update fun n => { n with reportsSent := true }
      n.simDrives.forM (forgeReports env)
    | .silent => pure ()
    | .honest | .equivocator =>
      if n.simDrives.isEmpty then Prog.update fun n => { n with reportsSent := true }
      else wipeAndReport env
  else pure ()

/-! ## Deadlines -/

/-- One expired challenge; a challenge that went with its node in the meantime is a panic. -/
def expire (nonce : String) : MeshM p Unit := do
  let n ← Prog.get
  match n.pending.find? fun q => q.1 = nonce with
  | none => Prog.unwind
  | some (_, ch) => do
    Prog.update fun n => { n with pending := n.pending.filter fun q => q.1 ≠ nonce }
    if n.targetOf ch ≠ "" ∧ !n.rogue.isIsolated (n.targetOf ch) then
      accuse env (n.targetOf ch) .timeout (deadlineEvidence ch)
    else pure ()

/-- A member that announced drives and reported none. -/
def missReport (peer : String) : MeshM p Unit := do
  let n ← Prog.get
  if peer = n.name ∨ n.rogue.isIsolated peer then pure ()
  else if 0 < n.discovery.drivesOf peer ∧ n.gossip.byNode peer = [] then
    accuse env peer .timeout (evidenceText
      [("node", quoted peer), ("advertised", toString (n.discovery.drivesOf peer)),
       ("reported", "0"), ("tick", toString n.tick)])
  else pure ()

/-- The nonces of the challenges past their deadline, as the hash map lists them. -/
def expired (n : MeshNode p) : List String :=
  ((env.pendingOrder n.pending).filter fun q => q.2.deadlineTick < n.tick).map Prod.fst

def enforceDeadlines : MeshM p Unit := do
  let n ← Prog.get
  (expired env n).forM (expire env)
  let n ← Prog.get
  match n.discovery.membership with
  | none => pure ()
  | some membership =>
    if n.cfg.reportDeadlineTicks < n.tick then membership.nodes.forM (missReport env) else pure ()

/-! ## Readiness -/

/-- The drives the live members announced, counted down in 64 bits. -/
def expectedDrives (n : MeshNode p) (membership : Membership) : Nat :=
  membership.nodes.foldl
    (fun expected peer =>
      if n.rogue.isIsolated peer then expected - n.discovery.drivesOf peer else expected)
    membership.totalDrives

/-- All expected reports are in, each with a passing transcript of another node, and no
challenge is pending. -/
def isReady (n : MeshNode p) : Bool :=
  match n.discovery.membership with
  | none => false
  | some membership =>
    n.reportsSent && n.expectedDrives membership ≤ n.liveReports.length
      && n.liveReports.all (hasPassingWitness n.transcripts) && n.pending.isEmpty

/-! ## The consensus clock -/

def stallEvidence (view : UInt32) : String :=
  evidenceText
    [("stalled_view", toString view.toNat), ("role", quoted "speaker"), ("accuser_ready", "true")]

def consensusClock (wasReady : Bool) : MeshM p Unit := do
  let n ← Prog.get
  match n.consensus with
  | none => pure ()
  | some c => do
    Prog.update fun n => { n with consensus := some c.tick.2 }
    if c.tick.1 ∧ wasReady then
      let stalledView := c.tick.2.view - 1
      let speaker := c.tick.2.speakerOf env.toCrypto stalledView
      if speaker ≠ "" ∧ speaker ≠ n.name then
        accuse env speaker .timeout (stallEvidence stalledView)
      else pure ()
    else pure ()

/-! ## Proposing -/

def consensusStepSealing : MeshM p Unit := do
  let n ← Prog.get
  match n.consensus with
  | none => pure ()
  | some c =>
    let equivocating := n.cfg.behavior = .equivocator
    if (c.amSpeaker env.toCrypto ∨ equivocating) ∧ c.decided = none ∧ c.proposal = none
        ∧ n.lastProposedView ≠ some c.view then do
      Prog.update fun n => { n with lastProposedView := some c.view }
      let block := c.buildProposal env.toCrypto n.liveReports n.passingTranscripts n.rogue
      if equivocating then do
        broadcast env c.view (.proposal { block with reportCount := block.reportCount + 1 })
        broadcast env c.view (.proposal block)
      else if n.cfg.behavior = .silent then pure ()
      else do
        broadcast env c.view (.proposal block)
        match c.onProposal env.toCrypto n.name block with
        | (.error e, c') => do
          Prog.update fun n => { n with consensus := some c' }
          Prog.fail e
        | (.ok _, c') => Prog.update fun n => { n with consensus := some c' }
    else pure ()

/-! ## The seal -/

/-- The share indices of the first `t` live members. -/
def sealSet (n : MeshNode p) : List UInt16 :=
  match n.discovery.membership with
  | none => []
  | some membership =>
    (((membership.nodes.zipIdx.filter fun m => !n.rogue.isIsolated m.1).map
        fun m => UInt16.ofNat (m.2 + 1)).take
      ((n.cfg.threshold.map fun t => t.threshold.toNat).getD 2))

/-- The message of the proposal the node holds; a hash without a block is a panic. -/
def sealingMessage : MeshM p Bytes := do
  let n ← Prog.get
  match n.consensus.bind fun c => c.proposalHash.map fun h => (h, c) with
  | none => pure (SwarmCertificate.sealingMessage env.toCrypto "" [] 0)
  | some (hash, c) =>
    match c.proposal with
    | none => Prog.unwind
    | some block =>
      pure (SwarmCertificate.sealingMessage env.toCrypto hash block.rogueEntries c.view)

/-- A coordinator with the commitments of the seal set. -/
def ingestCommitments (n : MeshNode p) (parts : List UInt16) (coord : CoordinatorSession) :
    CoordinatorSession :=
  (n.sealCommitments.filter fun c => c.signer ∈ parts).foldl CoordinatorSession.ingestCommitment
    coord

def coordinator : MeshM p (Option CoordinatorSession) := do
  let n ← Prog.get
  if n.sealSet = [] then pure none
  else
    let message ← sealingMessage env
    match CoordinatorSession.new n.frostPublic n.sealSet message with
    | .error _ => pure none
    | .ok coord => pure (some (ingestCommitments n n.sealSet coord))

/-- Round 1: the node's commitment, once. -/
def sealRoundOne (parts : List UInt16) : MeshM p Unit := do
  let n ← Prog.get
  match n.frostShare with
  | none => pure ()
  | some secret =>
    if n.sealCommitSent = false ∧ secret.index ∈ parts then do
      let nonces := env.nonces (n.cfg.sealDeterminism.map fun sd =>
        sd ^^^ (secret.index.toUInt64 <<< 32) ^^^ (UInt64.ofNat n.tick <<< 16))
      let (commitment, session) :=
        (SignerSession.round1 secret nonces.1 nonces.2).commitment env.grp
      Prog.update fun n => keepCommitment commitment { n with
        sealCommitSent := true
        sealSession := some session }
      broadcast env 1 (.sealCommit commitment)
    else pure ()

/-- Round 2: once the commitments of the seal set are in, the node's share and its ML-DSA
partial, once. The session is used up whether or not there is an answer. -/
def sealRoundTwo (parts : List UInt16) : MeshM p Unit := do
  let n ← Prog.get
  let committed := (n.sealCommitments.filter fun c => c.signer ∈ parts).length
  if n.sealShareSent = false ∧ (n.frostShare.any fun s => s.index ∈ parts)
      ∧ parts.length ≤ committed then do
    Prog.update fun n => { n with sealShareSent := true }
    let message ← sealingMessage env
    Prog.update fun n => { n with sealSession := none }
    let coord ← coordinator env
    match coord, n.sealSession with
    | some coord, some session =>
      match session.round2 env.grp coord with
      | .error _ => pure ()
      | .ok frost => do
        let wire : SealShareWire := ⟨frost, hexEncode (n.ml.sign message).bytes⟩
        Prog.update (keepShare wire)
        broadcast env 1 (.sealShare wire)
    | _, _ => pure ()
  else pure ()

/-! ## The certificate -/

/-- Share `i` belongs to the `i`-th member. -/
def shareIndexToNode (n : MeshNode p) (index : UInt16) : Option String := do
  let membership ← n.discovery.membership
  if index = 0 ∨ membership.nodes.length < index.toNat then none
  else membership.nodes[index.toNat - 1]?

def advertisedDrivesOf (n : MeshNode p) (node : String) : Nat :=
  if node = n.name then n.discovery.me.drives.toNat else n.discovery.drivesOf node

/-- The drives of the isolated nodes, one entry for each drive they announced. -/
def uncertifiedDrives (n : MeshNode p) : List UncertifiedDrive :=
  (n.rogue.entries.flatMap fun entry =>
    (List.range (n.advertisedDrivesOf entry.node)).map fun d =>
      { node := entry.node
        serial := some ("unverified#" ++ toString d)
        reason := "node isolated by 2f+1 swarm verdict (" ++ entry.kind.asStr ++ "); drive "
          ++ toString d ++ " unverifiable" : UncertifiedDrive }).insertionSort
    fun a b => a.node < b.node ∨ a.node = b.node ∧ a.serial.getD "" ≤ b.serial.getD ""

/-- The certificate over a decided block. -/
def certificateOf (n : MeshNode p) (membership : Membership) (block : Block) (hash : String)
    (committers : List String) (frost : FrostSignature) (message : Bytes) : SwarmCertificate where
  schema := swarmCertSchema
  clusterId := "sim-" ++ String.ofList (membership.hash.toList.take 12)
  membership := membership.nodes.map fun node =>
    ⟨node,
      if node = n.name then hexEncode n.ml.publicKey.bytes
      else ((n.discovery.peer node).map PeerInfo.mlDsaPk).getD ""⟩
  membershipHash := membership.hash
  tolerance := membership.tolerance
  quorum := membership.quorum
  advertisedDrives := membership.totalDrives
  driveReports := n.liveReports
  spotTranscripts :=
    n.passingTranscripts.insertionSort fun a b => a.challenge.nonce ≤ b.challenge.nonce
  reportRoot := block.reportRoot
  reportCount := block.reportCount
  spotRoot := block.spotRoot
  spotCount := block.spotCount
  rogueLedger := block.rogueEntries
  uncertified := n.uncertifiedDrives
  view := block.view
  blockHash := hash
  committers
  frostGroupPub := n.frostPublic.groupPub
  frostThreshold := (n.cfg.threshold.map ThresholdParams.threshold).getD 2
  frostSignature := frost
  mlDsa :=
    { threshold := (n.cfg.threshold.map ThresholdParams.threshold).getD 2
      entries := (n.sealShares.filterMap fun s =>
        (n.shareIndexToNode s.frost.signer).map fun node =>
          (⟨node, s.mlDsa⟩ : MlDsaSealEntry)).insertionSort fun a b => a.node ≤ b.node }
  sealedMessage := hexEncode message

def assembleCertificate : MeshM p Unit := do
  let n ← Prog.get
  match n.consensus, n.discovery.membership with
  | some c, some membership =>
    match c.decision with
    | none => pure ()
    | some (hash, committers) =>
      match c.proposal with
      | none => Prog.unwind
      | some block => do
        let message ← sealingMessage env
        let coord ← Prog.ofExcept (CoordinatorSession.new n.frostPublic n.sealSet message)
        let shares := (n.sealShares.filter fun s => s.frost.signer ∈ n.sealSet).map
          SealShareWire.frost
        let frost ← Prog.ofExcept
          ((ingestCommitments n n.sealSet coord).aggregate env.grp shares)
        let cert := n.certificateOf membership block hash committers frost message
        let report := verifySwarmCertificate env.toSealPrimitives cert ⟨none, none, []⟩
        if report.verified then
          Prog.update fun n => { n with certificate := some cert, state := .certified }
        else
          Prog.fail (.lifecycle ("assembled certificate failed self-verification: "
            ++ env.debugText report.notes))
  | _, _ => pure ()

/-- The certificate once the shares of the seal set are in. -/
def sealFinish (parts : List UInt16) : MeshM p Unit := do
  let n ← Prog.get
  let shares := (n.sealShares.filter fun s => s.frost.signer ∈ parts).length
  if parts.length ≤ shares ∧ 0 < parts.length ∧ n.certificate = none then assembleCertificate env
  else pure ()

def stepSeal : MeshM p Unit := do
  consensusStepSealing env
  let n ← Prog.get
  if n.consensus.any fun c => c.decided.isSome then do
    sealRoundOne env n.sealSet
    sealRoundTwo env n.sealSet
    sealFinish env n.sealSet
  else pure ()

/-! ## The step -/

def stepDeadlines : MeshM p Unit := do
  let n ← Prog.get
  if n.state = .executing then enforceDeadlines env else pure ()

/-- A node that is ready seals, after the clock. -/
def stepReadiness : MeshM p Unit := do
  let n ← Prog.get
  let ready := n.state = .executing ∧ n.isReady
  consensusClock env ready
  if ready then Prog.update fun n => { n with state := .sealing } else pure ()

def stepSealing : MeshM p Unit := do
  let n ← Prog.get
  if n.state = .sealing then stepSeal env else pure ()

/-- The tick of an executing or sealing node. -/
def stepActive : MeshM p Unit := do
  stepWipe env
  stepDeadlines env
  stepReadiness env
  stepSealing env

/-- What the state asks for after the inbox. -/
def act : MeshM p Unit := do
  let n ← Prog.get
  match n.state with
  | .discovering => stepDiscovering env
  | .executing | .sealing => stepActive env
  | .certified => pure ()

def advance : MeshM p Unit := Prog.update fun n => { n with tick := n.tick + 1 }

/-- The frames of one step; what is no verified frame, or no frame, ends it with an error. -/
def drainInbox : List (Except MeshError MeshFrame) → MeshM p Unit
  | [] => pure ()
  | .error e :: _ => Prog.fail e
  | .ok f :: inbox => do
    receive env f
    drainInbox inbox

def step (inbox : List (Except MeshError MeshFrame)) : MeshM p Unit := do
  advance
  drainInbox env inbox
  act env

/-! ## Runs -/

/-- The parts of a step. -/
inductive Event where
  | tick
  | receive (f : MeshFrame)
  | act

/-- The state after one of them, however it ends. -/
def next (n : MeshNode p) : Event → MeshNode p
  | .tick => ((advance : MeshM p Unit) n).2
  | .receive f => (receive env f n).2
  | .act => (act env n).2

/-- The inbox leaves what the frames it got through leave. -/
theorem drainInbox_run (inbox : List (Except MeshError MeshFrame)) (n : MeshNode p) :
    ∃ frames : List MeshFrame, (∀ f ∈ frames, .ok f ∈ inbox)
      ∧ (drainInbox env inbox n).2 = run (next env) n (frames.map .receive) := by
  induction inbox generalizing n with
  | nil => exact ⟨[], by simp, rfl⟩
  | cons item inbox ih =>
    cases item with
    | error e => exact ⟨[], by simp, rfl⟩
    | ok f =>
      show ∃ frames : List MeshFrame, _ ∧ (Prog.andThen (receive env f)
        (fun _ => drainInbox env inbox) n).2 = _
      unfold Prog.andThen
      cases hrun : receive env f n with
      | mk outcome n₁ =>
        have hnext : next env n (.receive f) = n₁ := by
          show (receive env f n).2 = n₁
          rw [hrun]
        cases outcome with
        | ok u =>
          obtain ⟨frames, hmem, hleft⟩ := ih n₁
          refine ⟨f :: frames, ?_, ?_⟩
          · intro g hg
            rcases List.mem_cons.mp hg with rfl | hg
            · exact List.mem_cons_self
            · exact List.mem_cons_of_mem _ (hmem g hg)
          · rw [List.map_cons, run_cons, hnext]
            exact hleft
        -- a frame that fails, or unwinds, is the last one
        | _ => exact ⟨[f], by simp, hnext.symm⟩

/-- **A step is a run**: what it leaves, a run of its parts over frames of the inbox leaves. -/
theorem step_run (inbox : List (Except MeshError MeshFrame)) (n : MeshNode p) :
    ∃ es : List Event, (∀ f, .receive f ∈ es → .ok f ∈ inbox)
      ∧ (step env inbox n).2 = run (next env) n es := by
  let n₁ : MeshNode p := { n with tick := n.tick + 1 }
  obtain ⟨frames, hmem, hleft⟩ := drainInbox_run env inbox n₁
  have hframes : ∀ f, Event.receive f ∈ frames.map Event.receive → .ok f ∈ inbox := by
    intro f hf
    obtain ⟨g, hg, heq⟩ := List.mem_map.mp hf
    cases heq
    exact hmem f hg
  have hstep : (step env inbox n).2
      = (Prog.andThen (drainInbox env inbox) (fun _ => act env) n₁).2 := rfl
  unfold Prog.andThen at hstep
  cases hrun : drainInbox env inbox n₁ with
  | mk outcome n₂ =>
    rw [hrun] at hstep hleft
    cases outcome with
    | ok u =>
      refine ⟨.tick :: (frames.map .receive ++ [.act]), ?_, ?_⟩
      · intro f hf
        simp only [List.mem_cons, List.mem_append, reduceCtorEq, false_or, List.not_mem_nil,
          or_false] at hf
        exact hframes f hf
      · show _ = run (next env) n₁ (frames.map .receive ++ [.act])
        rw [hstep, run_concat, ← hleft]
        rfl
    | _ =>
      refine ⟨.tick :: frames.map .receive, ?_, ?_⟩
      · intro f hf
        exact hframes f (by simpa using hf)
      · rw [hstep]
        exact hleft

end DiscCleaner.Mesh.MeshNode
