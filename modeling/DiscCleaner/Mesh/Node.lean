import DiscCleaner.Lib.Prog
import DiscCleaner.Mesh.Discovery
import DiscCleaner.Mesh.SwarmCert

/-!
# DiscCleaner — the mesh node and its message handlers (`mesh.rs`)

A node wipes its drives, challenges the drives its peers report, votes and co-signs. This file
has its state and what it does on one frame; frames arrive with the identity of the key that
signed them, whoever holds that key.
-/

namespace DiscCleaner.Mesh

open ByteLib ProgLib Consensus

/-! ## Wire bodies and frames -/

structure AccuseWire where
  accused : String
  kind : String
  evidence : String
  evidenceDigest : String
  deriving DecidableEq

structure IsolateWire where
  node : String
  kind : String
  digest : String
  accusers : List String
  view : UInt32
  deriving DecidableEq

structure SealShareWire where
  frost : RoundTwoShare
  mlDsa : String
  deriving DecidableEq

/-- A payload, parsed as its message type says; `unparsed` is the error of one that does not
parse. -/
inductive Message where
  | hello (body : HelloBody)
  | helloAck (body : HelloBody)
  | peerList
  | driveReport (report : DriveReport)
  | challenge (ch : SpotChallenge)
  | spotProof (proof : SpotProof)
  | proposal (block : Block)
  | prepare (vote : VoteBody)
  | commit (vote : VoteBody)
  | changeView
  | accuse (wire : AccuseWire)
  | isolate (wire : IsolateWire)
  | sealCommit (c : RoundOneCommitment)
  | sealShare (s : SealShareWire)
  | heartbeat
  | transcript (t : SpotTranscript)
  | unparsed (error : MeshError)
  deriving DecidableEq

/-- A frame whose signature verified under the key it names. -/
structure MeshFrame where
  node : ByteLib.Block 32
  srcMac : Mac
  view : UInt32
  msg : Message
  deriving DecidableEq

/-- The identity of the signer. -/
def MeshFrame.frm (f : MeshFrame) : String := hexEncode f.node.bytes

/-- A frame handed to the transport. -/
structure Sent where
  dst : Mac
  view : UInt32
  msg : Message
  deriving DecidableEq

/-! ## The state -/

inductive NodeBehavior where
  | honest | liar | silent | equivocator
  deriving DecidableEq

structure SimDriveSpec where
  serial : String
  capacityWindows : Nat
  windowSectors : Nat
  deriving DecidableEq

structure SimDrive where
  spec : SimDriveSpec
  backing : Bytes
  windowsWritten : Nat
  wiped : Bool
  deriving DecidableEq

structure MeshNodeConfig where
  behavior : NodeBehavior
  drives : List SimDriveSpec
  pattern : Pattern
  threshold : Option ThresholdParams
  expectedNodes : Option Nat
  discoverySilenceTicks : UInt32
  viewTimeoutTicks : UInt32
  spotChallengesPerDrive : Nat
  challengeDeadlineTicks : Nat
  reportDeadlineTicks : Nat
  seed : UInt64
  sealDeterminism : Option UInt64

inductive NodeState where
  | discovering | executing | sealing | certified
  deriving DecidableEq

structure MlDsa44KeyPair where
  publicKey : ByteLib.Block 1312
  sign : Bytes → ByteLib.Block 2420

/-- The pending challenges are those of a hash map keyed by their nonce; `challenged` counts the
challenges issued for a serial; `sent` is what went to the transport. -/
structure MeshNode (p : Nat) where
  name : String
  ml : MlDsa44KeyPair
  cfg : MeshNodeConfig
  state : NodeState
  tick : Nat
  discovery : Discovery
  gossip : GossipStore
  consensus : Option Consensus
  rogue : RogueLedger
  simDrives : List SimDrive
  reportsSent : Bool
  frostPublic : ThresholdPublicKey
  frostShare : Option (ShareSecret p)
  sealCommitments : List RoundOneCommitment
  sealShares : List SealShareWire
  sealCommitSent : Bool
  sealShareSent : Bool
  transcripts : List SpotTranscript
  pending : List (String × SpotChallenge)
  challenged : String → Nat
  certificate : Option SwarmCertificate
  rng : UInt64
  lastProposedView : Option UInt32
  sealSession : Option (SignerSession p)
  sent : List Sent

/-- What the node is given: primitives, the transport's answer to the last of the frames sent,
the nonces of a signing session (of a seed, or of the system), the order in which the hash map
of pending challenges is walked, and the `Debug` text of a list. -/
structure MeshEnv (p : Nat) (G : Type) [AddCommGroup G] [Module (ZMod p) G]
    extends SealPrimitives p G where
  ks : Keystream
  sendError : List Sent → Option MeshError
  nonces : Option UInt64 → ZMod p × ZMod p
  pendingOrder : List (String × SpotChallenge) → List (String × SpotChallenge)
  pendingOrder_perm : ∀ pending, (pendingOrder pending).Perm pending
  debugText : List String → String

/-- What a call of the node does: it may fail, and it leaves the node as it is then. -/
abbrev MeshM (p : Nat) (α : Type) : Type := Prog (MeshNode p) MeshError α

namespace MeshNode

variable {p : Nat}

def new (name : String) (ml : MlDsa44KeyPair) (mac : Mac) (frostPublic : ThresholdPublicKey)
    (frostShare : Option (ShareSecret p)) (cfg : MeshNodeConfig) : MeshNode p where
  name
  ml
  cfg
  state := .discovering
  tick := 0
  discovery := .new ⟨name, hexEncode ml.publicKey.bytes, .ofNat cfg.drives.length, 0⟩ mac
    cfg.expectedNodes cfg.discoverySilenceTicks
  gossip := .new
  consensus := none
  rogue := .new
  simDrives := cfg.drives.map fun spec => ⟨spec, [], 0, false⟩
  reportsSent := false
  frostPublic
  frostShare
  sealCommitments := []
  sealShares := []
  sealCommitSent := false
  sealShareSent := false
  transcripts := []
  pending := []
  challenged := fun _ => 0
  certificate := none
  rng := cfg.seed ^^^ 0x9E3779B97F4A7C15
  lastProposedView := none
  sealSession := none
  sent := []

/-- The reports of nodes that are not isolated, by serial. -/
def liveReports (n : MeshNode p) : List DriveReport :=
  n.gossip.all.filter fun r => !n.rogue.isIsolated r.node

def passingTranscripts (n : MeshNode p) : List SpotTranscript :=
  n.transcripts.filter SpotTranscript.passed

def frozenQuorum (n : MeshNode p) : Nat :=
  (n.discovery.membership.map fun m => decisionQuorum m.nodes.length).getD 3

/-- The node a challenged serial was reported by; empty for a serial nobody reported. -/
def targetOf (n : MeshNode p) (ch : SpotChallenge) : String :=
  ((n.gossip.get ch.serial).map DriveReport.node).getD ""

end MeshNode

/-! ## Evidence texts -/

def quoted (s : String) : String := "\"" ++ s ++ "\""

/-- The members of an evidence body, each value as it is written. -/
def evidenceText (members : List (String × String)) : String :=
  "\x7b" ++ String.intercalate ", " (members.map fun m => quoted m.1 ++ ": " ++ m.2) ++ "\x7d"

/-- The evidence of a failed proof, the same at every witness. -/
def failedProofEvidence (t : SpotTranscript) : String :=
  (fromUtf8 (Json.object
    [("nonce", Json.string t.challenge.nonce),
     ("proof_binding", Json.option (fun pr => Json.string pr.binding) t.proof),
     ("reason", Json.option Json.string t.reason),
     ("serial", Json.string t.challenge.serial),
     ("window", Json.nat t.challenge.window)])).getD ""

/-- The evidence of a challenge that nobody answered in time. -/
def deadlineEvidence (ch : SpotChallenge) : String :=
  evidenceText
    [("nonce", quoted ch.nonce), ("serial", quoted ch.serial),
     ("deadline_tick", toString ch.deadlineTick)]

def kindFromStr (s : String) : Except MeshError RogueKind :=
  if s = "equivocation" then .ok .equivocation
  else if s = "duplicate_serial" then .ok .duplicateSerial
  else if s = "failed_spot_proof" then .ok .failedSpotProof
  else if s = "timeout" then .ok .timeout
  else .error (.frame ("unknown rogue kind " ++ s))

/-! ## The challenge generator -/

namespace DetRng

/-- The number drawn and the state after it. -/
def next (x : UInt64) : UInt64 × UInt64 :=
  let x := x ^^^ (x >>> 12)
  let x := x ^^^ (x <<< 25)
  let x := x ^^^ (x >>> 27)
  (x * 0x2545F4914F6CDD1D, x)

def below (x : UInt64) (n : Nat) : Nat × UInt64 :=
  if n = 0 then (0, x) else ((next x).1.toNat % n, (next x).2)

end DetRng

def maxFramePayload : Nat := 5120

namespace MeshNode

variable {p : Nat} {G : Type} [AddCommGroup G] [Module (ZMod p) G] (env : MeshEnv p G)

/-! ## Sending -/

def sendFrame (dst : Mac) (view : UInt32) (msg : Message) : MeshM p Unit := do
  Prog.update fun n => { n with sent := n.sent ++ [⟨dst, view, msg⟩] }
  let n ← Prog.get
  Prog.failIf (env.sendError n.sent)

def broadcast (view : UInt32) (msg : Message) : MeshM p Unit := sendFrame env broadcastMac view msg

/-! ## Accusation and isolation -/

/-- The pending challenges on drives of the node are dropped. -/
def dropPendingFor (node : String) : MeshM p Unit :=
  Prog.update fun n =>
    let serials := (n.gossip.all.filter fun r => r.node = node).map DriveReport.serial
    { n with pending := n.pending.filter fun q => q.2.serial ∉ serials }

def maybeIsolate (accused : String) (kind : RogueKind) (digest : String) (count : Nat) :
    MeshM p Unit := do
  let n ← Prog.get
  if n.frozenQuorum ≤ count then
    match n.rogue.tryIsolate accused kind digest n.frozenQuorum 1 with
    | (none, _) => pure ()
    | (some entry, ledger) => do
      Prog.update fun n => { n with
        rogue := ledger
        consensus := n.consensus.map fun c => c.applyIsolation accused }
      broadcast env 1
        (.isolate ⟨accused, kind.asStr, digest, entry.accusers, entry.isolatedAtView⟩)
      dropPendingFor accused
  else pure ()

/-- File an accusation of one's own: never against oneself or an isolated node. -/
def accuse (accused : String) (kind : RogueKind) (evidence : String) : MeshM p Unit := do
  let n ← Prog.get
  if accused = n.name ∨ n.rogue.isIsolated accused then pure ()
  else
    let digest := RogueLedger.digestOf env.toCrypto evidence
    let (count, ledger) := n.rogue.accuse n.name accused kind evidence digest
    Prog.update fun n => { n with rogue := ledger }
    broadcast env 1 (.accuse ⟨accused, kind.asStr, evidence, digest⟩)
    maybeIsolate env accused kind digest count

/-! ## Challenges and proofs -/

/-- The `i`-th challenge on a reported drive: sent, then pending under its nonce. -/
def issueChallenge (report : DriveReport) (i : Nat) : MeshM p Unit := do
  let n ← Prog.get
  let nonce := n.name ++ "-" ++ report.serial ++ "-" ++ toString i
  let (window, rng) := DetRng.below n.rng report.windowsTotal
  let challenge : SpotChallenge :=
    { serial := report.serial
      window
      windowSectors := report.windowSectors
      nonce
      deadlineTick := (n.tick + n.cfg.challengeDeadlineTicks) % 2 ^ 64 }
  Prog.update fun n => { n with rng }
  sendFrame env (n.discovery.routeTo report.node) 1 (.challenge challenge)
  Prog.update fun n => { n with
    pending := (nonce, challenge) :: n.pending.filter fun q => q.1 ≠ nonce
    challenged := Function.update n.challenged report.serial (i + 1) }

def issueChallenges (report : DriveReport) : MeshM p Unit := do
  let n ← Prog.get
  let issued := n.challenged report.serial
  (List.range' issued (n.cfg.spotChallengesPerDrive - issued)).forM (issueChallenge env report)

/-- The bytes a node shows of a window; `none` is the panic of a slice whose bounds wrap. -/
def windowBytes (n : MeshNode p) (drive : SimDrive) (ch : SpotChallenge) : Option Bytes :=
  let len := ch.windowSectors * 512
  let start := ch.window * len % 2 ^ 64
  let stop := (start + len) % 2 ^ 64
  if n.cfg.behavior = .liar then
    some ((List.range len).map fun i => UInt8.ofNat ((i * 31 + 7) % 251))
  else if stop ≤ drive.backing.length then
    if stop < start then none else some ((drive.backing.take stop).drop start)
  else some (List.replicate len 0)

def answerChallenge (ch : SpotChallenge) : MeshM p Unit := do
  let n ← Prog.get
  if n.cfg.behavior = .silent then pure ()
  else
    match n.simDrives.find? fun d => d.spec.serial = ch.serial with
    | none => pure ()
    | some drive =>
      match n.windowBytes drive ch with
      | none => Prog.unwind
      | some data =>
        broadcast env 1 (.spotProof
          (if (b64Encode data).length + 512 ≤ maxFramePayload then
            SpotProof.honest env.toCrypto ch.serial ch.window ch.nonce data
          else SpotProof.digestForm env.toCrypto ch.serial ch.window ch.nonce data))

/-- The witness's verdict on a proof: a passing transcript is broadcast and kept, any other one
is an accusation. -/
def judge (frm : String) (t : SpotTranscript) : MeshM p Unit :=
  if t.passed then do
    broadcast env 1 (.transcript t)
    Prog.update fun n => { n with transcripts := n.transcripts ++ [t] }
  else accuse env frm .failedSpotProof (failedProofEvidence t)

def handleProof (frm : String) (proof : SpotProof) : MeshM p Unit := do
  let n ← Prog.get
  match n.pending.find? fun q => q.1 = proof.nonce with
  | none => pure ()
  | some (_, challenge) =>
    -- the challenge is gone before anything about the proof is looked at
    Prog.update fun n => { n with pending := n.pending.filter fun q => q.1 ≠ proof.nonce }
    match n.gossip.get proof.serial with
    | none => pure ()
    | some report =>
      if report.node ≠ frm then pure ()
      else
        match SpotTranscript.verify env.toCrypto env.ks n.name frm challenge (some proof) report with
        | none => Prog.unwind
        | some t => judge env frm t

/-! ## The handlers -/

def onHello (srcMac : Mac) (view : UInt32) (body : HelloBody) : MeshM p Unit := do
  let n ← Prog.get
  let (fresh, discovery) := n.discovery.ingest env.toCrypto srcMac body
  Prog.update fun n => { n with discovery }
  if fresh ∧ n.state ≠ .discovering then
    sendFrame env srcMac view (.helloAck discovery.helloAckBody)
  else pure ()

def onDriveReport (frm : String) (report : DriveReport) : MeshM p Unit := do
  if report.node ≠ frm then
    accuse env frm .duplicateSerial (evidenceText
      [("mismatch", "true"), ("reporter", quoted report.node), ("signer", quoted frm)])
  else
    let n ← Prog.get
    let ((fresh, duplicate), gossip) := n.gossip.ingest report
    Prog.update fun n => { n with gossip }
    if duplicate then
      accuse env frm .duplicateSerial (evidenceText
        [("serial", quoted report.serial),
         ("also_claimed_by",
          quoted (((gossip.get report.serial).map DriveReport.node).getD ""))])
    else if fresh then issueChallenges env report
    else pure ()

/-- A received transcript is kept as it is, one for each nonce and witness. -/
def onTranscript (t : SpotTranscript) : MeshM p Unit :=
  Prog.update fun n =>
    if n.transcripts.any fun x => x.challenge.nonce = t.challenge.nonce ∧ x.witness = t.witness then
      n
    else { n with transcripts := n.transcripts ++ [t] }

/-- The roots of the block are those of what the node holds and it carries every node of the
ledger; a block without reports and transcripts is always taken. -/
def holdsBlock (cr : Crypto) (n : MeshNode p) (block : Block) : Bool :=
  let rootsOk : Bool :=
    reportsRoot cr n.liveReports = (block.reportRoot, block.reportCount)
      ∧ transcriptsRoot cr n.passingTranscripts = (block.spotRoot, block.spotCount)
  let ledgerOk := n.rogue.entries.all fun e => block.rogueEntries.any fun e' => e'.node = e.node
  (block.reportCount = 0 ∧ block.spotCount = 0) || (rootsOk && ledgerOk)

/-- The two digests of an equivocation, in order. -/
def equivocationEvidence (view : UInt32) (a b : String) : String :=
  let (lo, hi) := if a ≤ b then (a, b) else (b, a)
  evidenceText
    [("view", toString view.toNat), ("digest_a", quoted lo), ("digest_b", quoted hi)]

/-- The consensus judges the block; an accepted one is answered with a PREPARE vote. -/
def onAcceptable (frm : String) (block : Block) : MeshM p Unit := do
  let n ← Prog.get
  match n.consensus with
  | none => pure ()
  | some c =>
    match c.onProposal env.toCrypto frm block with
    | (.error e, c') => do
      Prog.update fun n => { n with consensus := some c' }
      Prog.fail e
    | (.ok (accepted, _), c') => do
      Prog.update fun n => { n with consensus := some c' }
      if accepted then
        broadcast env c'.view (.prepare ⟨"prepare", c'.view, block.hash env.toCrypto⟩)
      else pure ()

def onProposal (frm : String) (view : UInt32) (block : Block) : MeshM p Unit := do
  let n ← Prog.get
  -- the digest is noted before the block is looked at
  let noted := n.consensus.map fun c => c.noteProposalDigest frm (block.hash env.toCrypto)
  Prog.update fun n => { n with consensus := noted.map Prod.snd }
  match noted.bind Prod.fst with
  | some other =>
    accuse env frm .equivocation (equivocationEvidence view other (block.hash env.toCrypto))
  | none =>
    if n.holdsBlock env.toCrypto block then onAcceptable env frm block else pure ()

/-- PREPARE and COMMIT frames alike: the kind is the one the body names. -/
def onVote (frm : String) (vote : VoteBody) : MeshM p Unit := do
  let n ← Prog.get
  match n.consensus with
  | none => pure ()
  | some c =>
    match c.onVote vote.kind frm vote.view vote.hash with
    | (outcome, c') => do
      Prog.update fun n => { n with consensus := some c' }
      match outcome with
      | .enteredCommit => broadcast env vote.view (.commit ⟨"commit", vote.view, vote.hash⟩)
      | .decided => Prog.update fun n => { n with state := .sealing }
      | _ => pure ()

def onAccuse (frm : String) (wire : AccuseWire) : MeshM p Unit := do
  let kind ← Prog.ofExcept (kindFromStr wire.kind)
  let n ← Prog.get
  let (count, ledger) := n.rogue.accuse frm wire.accused kind wire.evidence wire.evidenceDigest
  Prog.update fun n => { n with rogue := ledger }
  maybeIsolate env wire.accused kind wire.evidenceDigest count

def onIsolate (wire : IsolateWire) : MeshM p Unit := do
  let kind ← Prog.ofExcept (kindFromStr wire.kind)
  let n ← Prog.get
  match n.rogue.tryIsolate wire.node kind wire.digest n.frozenQuorum wire.view with
  | (none, _) => pure ()
  | (some _, ledger) => do
    Prog.update fun n => { n with
      rogue := ledger
      consensus := n.consensus.map fun c => c.applyIsolation wire.node }
    dropPendingFor wire.node

/-- The first commitment under a share index is kept. -/
def keepCommitment (c : RoundOneCommitment) (n : MeshNode p) : MeshNode p :=
  { n with
    sealCommitments :=
      if n.sealCommitments.any fun x => x.signer = c.signer then n.sealCommitments
      else n.sealCommitments ++ [c] }

/-- The first share under a share index is kept. -/
def keepShare (s : SealShareWire) (n : MeshNode p) : MeshNode p :=
  { n with
    sealShares :=
      if n.sealShares.any fun x => x.frost.signer = s.frost.signer then n.sealShares
      else n.sealShares ++ [s] }

def dispatch (frm : String) (srcMac : Mac) (view : UInt32) : Message → MeshM p Unit
  | .hello body => onHello env srcMac view body
  | .helloAck body => onHello env srcMac view body
  | .driveReport report => onDriveReport env frm report
  | .challenge ch => answerChallenge env ch
  | .spotProof proof => handleProof env frm proof
  | .transcript t => onTranscript t
  | .proposal block => onProposal env frm view block
  | .prepare vote => onVote env frm vote
  | .commit vote => onVote env frm vote
  | .changeView => pure ()
  | .heartbeat => pure ()
  | .peerList => pure ()
  | .accuse wire => onAccuse env frm wire
  | .isolate wire => onIsolate wire
  | .sealCommit c => Prog.update (keepCommitment c)
  | .sealShare s => Prog.update (keepShare s)
  | .unparsed error => Prog.fail error

/-- One turn of the inbox: a frame of an isolated node or of the node itself is dropped. -/
def receive (f : MeshFrame) : MeshM p Unit := do
  let n ← Prog.get
  if n.rogue.isIsolated f.frm ∨ f.frm = n.name then pure ()
  else dispatch env f.frm f.srcMac f.view f.msg

end MeshNode

end DiscCleaner.Mesh
