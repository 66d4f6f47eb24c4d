import DiscCleaner.Lib.Transition
import DiscCleaner.Mesh.Rogue
import Mathlib.Data.Finset.Sort

/-!
# DiscCleaner — the rotating-speaker consensus (`consensus.rs`)

One node's view of the protocol: a proposal of the speaker is prepared, a quorum of PREPARE
votes makes the node commit, a quorum of COMMIT votes makes it decide. Five calls change the
state; `Consensus.enters` says when one of them restarts the round in another view.
-/

namespace DiscCleaner

open ByteLib TransitionLib

/-- `MeshError`, with the text it prints. -/
inductive MeshError where
  | frame (text : String)
  | badSignature (node : String)
  | consensus (text : String)
  | threshold (text : String)
  | rogue (text : String)
  | lifecycle (text : String)
  | transport (text : String)
  deriving DecidableEq

namespace Mesh

/-! ## Blocks and memberships -/

structure Block where
  membershipHash : String
  reportRoot : String
  reportCount : UInt32
  spotRoot : String
  spotCount : UInt32
  rogueEntries : List RogueEntry
  view : UInt32
  deriving DecidableEq

namespace Block

def toJson (b : Block) : Bytes :=
  Json.object
    [("membership_hash", Json.string b.membershipHash),
     ("report_root", Json.string b.reportRoot),
     ("report_count", Json.nat b.reportCount.toNat),
     ("spot_root", Json.string b.spotRoot),
     ("spot_count", Json.nat b.spotCount.toNat),
     ("rogue_entries", Json.array (b.rogueEntries.map RogueEntry.toJson)),
     ("view", Json.nat b.view.toNat)]

/-- BLAKE3 over the canonical JSON. -/
def hash (cr : Crypto) (b : Block) : String := cr.blake3Hex b.toJson

end Block

/-- The frozen epoch membership (`discovery.rs`). -/
structure Membership where
  nodes : List String
  hash : String
  totalDrives : Nat
  tolerance : Nat
  quorum : Nat
  deriving DecidableEq

/-! ## The state -/

inductive Phase where
  | awaitProposal | prepared | committing | decided
  deriving DecidableEq

inductive VotingOutcome where
  | ignored | counting | enteredCommit | decided
  deriving DecidableEq

/-- Vote tables map a block hash to its voters; an absent key has no voters. -/
structure Consensus where
  me : String
  membership : Membership
  membershipHash : String
  isolated : Finset String
  view : UInt32
  phase : Phase
  proposal : Option Block
  proposalHash : Option String
  seenProposals : String → List String
  prepareVotes : String → Finset String
  commitVotes : String → Finset String
  changeViewVotes : Finset String
  viewTimeoutTicks : UInt32
  ticksInView : UInt32
  decided : Option String

namespace Consensus

def new (me : String) (membership : Membership) (viewTimeoutTicks : UInt32) : Consensus where
  me
  membership
  membershipHash := membership.hash
  isolated := ∅
  view := 0
  phase := .awaitProposal
  proposal := none
  proposalHash := none
  seenProposals := fun _ => []
  prepareVotes := fun _ => ∅
  commitVotes := fun _ => ∅
  changeViewVotes := ∅
  viewTimeoutTicks
  ticksInView := 0
  decided := none

variable (cr : Crypto) (c : Consensus)

/-- The committers of the decided hash, read from the vote table. -/
def committers : Finset String :=
  match c.decided with
  | some hash => c.commitVotes hash
  | none => ∅

/-- The decided hash and its committers in order. -/
def decision : Option (String × List String) :=
  c.decided.map fun hash => (hash, (c.commitVotes hash).sort (· ≤ ·))

/-- The members that are not isolated. -/
def live : List String := c.membership.nodes.filter fun n => n ∉ c.isolated

/-- Quorum over the live set. -/
def quorum : Nat := decisionQuorum c.live.length

/-- BLAKE3 of membership and view selects an index into the live members. -/
def speakerOf (view : UInt32) : String :=
  let digest := cr.blake3 (utf8 c.membershipHash ++ be32 view)
  c.live.getD (ofLe (digest.bytes.take 8).reverse % c.live.length) c.me

def amSpeaker : Bool := c.speakerOf cr c.view = c.me

/-- Everything of the current view is dropped; the decision is not touched. -/
def enterView (view : UInt32) : Consensus :=
  { c with
    view
    phase := .awaitProposal
    proposal := none
    proposalHash := none
    prepareVotes := fun _ => ∅
    commitVotes := fun _ => ∅
    changeViewVotes := ∅
    seenProposals := fun _ => []
    ticksInView := 0 }

/-- View synchronization: a later view is adopted. -/
def adopt (view : UInt32) : Consensus := if c.view < view then c.enterView view else c

def applyIsolation (node : String) : Consensus :=
  if node ∈ c.isolated then c
  else { c with isolated := insert node c.isolated }.enterView (c.view + 1)

/-- The block the speaker proposes now. -/
def buildProposal (reports : List DriveReport) (transcripts : List SpotTranscript)
    (rogueLedger : RogueLedger) : Block where
  membershipHash := c.membershipHash
  reportRoot := (reportsRoot cr reports).1
  reportCount := (reportsRoot cr reports).2
  spotRoot := (transcriptsRoot cr transcripts).1
  spotCount := (transcriptsRoot cr transcripts).2
  rogueEntries :=
    (rogueLedger.entries.map (RogueEntry.canonical cr)).insertionSort fun a b => a.node ≤ b.node
  view := c.view

/-- Record a proposal digest; a different one of the same node in this view is returned. -/
def noteProposalDigest (frm hash : String) : Option String × Consensus :=
  match (c.seenProposals frm).find? (· ≠ hash) with
  | some other => (some other, c)
  | none =>
    if hash ∈ c.seenProposals frm then (none, c)
    else
      (none,
        { c with
          seenProposals := Function.update c.seenProposals frm (c.seenProposals frm ++ [hash]) })

def recordPrepare (hash node : String) : Consensus :=
  { c with
    prepareVotes := Function.update c.prepareVotes hash (insert node (c.prepareVotes hash)) }

def recordCommit (hash node : String) : Consensus :=
  { c with
    commitVotes := Function.update c.commitVotes hash (insert node (c.commitVotes hash)) }

/-! ## The five calls -/

/-- Take the proposal of the current speaker, the first one of the view. -/
def accept (frm : String) (block : Block) : Bool × Consensus :=
  if c.speakerOf cr c.view = frm ∧ block.view = c.view ∧ c.proposal = none then
    (true,
      { c with
        proposal := some block
        proposalHash := some (block.hash cr)
        phase := .prepared }.recordPrepare (block.hash cr) c.me)
  else (false, c)

/-- A proposal in the view the node is in: a differing digest is equivocation evidence. -/
def propose (frm : String) (block : Block) :
    (Bool × Option (String × String × String)) × Consensus :=
  match c.noteProposalDigest frm (block.hash cr) with
  | (some other, c') => ((false, some (frm, other, block.hash cr)), c')
  | (none, c') => (((c'.accept cr frm block).1, none), (c'.accept cr frm block).2)

/-- `(prepared_now, equivocation_evidence)`. -/
def onProposal (frm : String) (block : Block) :
    Except MeshError (Bool × Option (String × String × String)) × Consensus :=
  if c.decided.isSome then (.ok (false, none), c)
  else if block.membershipHash ≠ c.membershipHash then
    (.error (.consensus ("proposal membership hash " ++ block.membershipHash ++ " != frozen "
      ++ c.membershipHash)), c)
  else
    let (answer, c') := (c.adopt block.view).propose cr frm block
    (.ok answer, c')

/-- A PREPARE vote of the current view; a quorum makes the node commit. -/
def onPrepare (frm hash : String) : VotingOutcome × Consensus :=
  let c' := c.recordPrepare hash frm
  if c'.proposalHash ≠ some hash ∨ c'.decided.isSome then (.ignored, c')
  else if c'.phase = .prepared ∧ c'.quorum ≤ (c'.prepareVotes hash).card then
    (.enteredCommit, { c' with phase := .committing }.recordCommit hash c'.me)
  else (.counting, c')

/-- A COMMIT vote of the current view; a quorum decides. -/
def onCommit (frm hash : String) : VotingOutcome × Consensus :=
  let c' := c.recordCommit hash frm
  if ¬ (c'.proposalHash = some hash ∨ c'.decided = some hash) ∨ c'.decided.isSome then
    (.ignored, c')
  else if c'.phase = .committing ∧ c'.quorum ≤ (c'.commitVotes hash).card then
    (.decided, { c' with phase := .decided, decided := some hash })
  else (.counting, c')

def onVote (kind frm : String) (view : UInt32) (hash : String) : VotingOutcome × Consensus :=
  let c' := c.adopt view
  if view ≠ c'.view then (.ignored, c')
  else if frm ∈ c'.isolated then (.ignored, c')
  else if kind = "prepare" then c'.onPrepare frm hash
  else if kind = "commit" then c'.onCommit frm hash
  else (.counting, c')

/-- Whether more than `f` members asked for a view change. -/
def onChangeView (frm : String) : Bool × Consensus :=
  let votes := insert frm c.changeViewVotes
  (c.membership.tolerance < votes.card, { c with changeViewVotes := votes })

/-- True when the view timed out. -/
def tick : Bool × Consensus :=
  if c.decided.isSome then (false, c)
  else if c.viewTimeoutTicks ≤ c.ticksInView + 1 then
    (true, { c with ticksInView := c.ticksInView + 1 }.enterView (c.view + 1))
  else (false, { c with ticksInView := c.ticksInView + 1 })

/-- A call of one of the five operations. -/
inductive Call where
  | proposal (frm : String) (block : Block)
  | vote (kind frm : String) (view : UInt32) (hash : String)
  | changeView (frm : String)
  | tick
  | isolation (node : String)

/-- The state after a call. -/
def next (c : Consensus) : Call → Consensus
  | .proposal frm block => (c.onProposal cr frm block).2
  | .vote kind frm view hash => (c.onVote kind frm view hash).2
  | .changeView frm => (c.onChangeView frm).2
  | .tick => c.tick.2
  | .isolation node => c.applyIsolation node

/-- A vote as it goes on the wire (`mesh.rs`). -/
structure VoteBody where
  kind : String
  view : UInt32
  hash : String
  deriving DecidableEq

/-- The votes a node broadcasts for the outcome of a call (`mesh.rs`, `dispatch`). -/
def directs (c : Consensus) : Call → List VoteBody
  | .proposal frm block =>
    match (c.onProposal cr frm block).1 with
    | .ok (true, _) => [⟨"prepare", (c.onProposal cr frm block).2.view, block.hash cr⟩]
    | _ => []
  | .vote kind frm view hash =>
    if (c.onVote kind frm view hash).1 = .enteredCommit then [⟨"commit", view, hash⟩] else []
  | _ => []

/-! ## Views -/

/-- The view a call enters, if it enters one: read off the state before the call. -/
def enters (c : Consensus) : Call → Option UInt32
  | .proposal _ block =>
    if c.decided = none ∧ block.membershipHash = c.membershipHash ∧ c.view < block.view then
      some block.view
    else none
  | .vote _ _ view _ => if c.view < view then some view else none
  | .changeView _ => none
  | .tick =>
    if c.decided = none ∧ c.viewTimeoutTicks ≤ c.ticksInView + 1 then some (c.view + 1) else none
  | .isolation node => if node ∈ c.isolated then none else some (c.view + 1)

/-- The state a call works in: the view it enters, or the view the node is in. -/
def inView (c : Consensus) (call : Call) : Consensus :=
  match c.enters call with
  | none => c
  | some view =>
    match call with
    | .isolation node => { c with isolated := insert node c.isolated }.enterView view
    | _ => c.enterView view

/-! ## What a call does -/

/-- Two states that agree on everything but the PREPARE and change-view tables, the proposal
digests and the clock. -/
structure SameRound (c c' : Consensus) : Prop where
  me : c'.me = c.me
  membership : c'.membership = c.membership
  isolated : c'.isolated = c.isolated
  view : c'.view = c.view
  phase : c'.phase = c.phase
  proposal : c'.proposal = c.proposal
  proposalHash : c'.proposalHash = c.proposalHash
  commitVotes : c'.commitVotes = c.commitVotes
  decided : c'.decided = c.decided

/-- What a call leaves of the state it works in, and the votes it directs. -/
inductive Within (cr : Crypto) (c : Consensus) : Call → List VoteBody → Consensus → Prop
  | quiet {call : Call} {c' : Consensus} (h : SameRound c c') : Within cr c call [] c'
  | accepted {frm : String} {block : Block} {c' : Consensus} (hdecided : c.decided = none)
      (hview : block.view = c.view) (hfresh : c.proposal = none)
      (h : SameRound { c with
        proposal := some block
        proposalHash := some (block.hash cr)
        phase := .prepared } c') :
      Within cr c (.proposal frm block) [⟨"prepare", c.view, block.hash cr⟩] c'
  | recorded {frm hash : String} {c' : Consensus} (hfrm : frm ∉ c.isolated)
      (h : SameRound (c.recordCommit hash frm) c') :
      Within cr c (.vote "commit" frm c.view hash) [] c'
  | committed {frm hash : String} {c' : Consensus} (hdecided : c.decided = none)
      (hphase : c.phase = .prepared) (hhash : c.proposalHash = some hash)
      (h : SameRound ({ c with phase := .committing }.recordCommit hash c.me) c') :
      Within cr c (.vote "prepare" frm c.view hash) [⟨"commit", c.view, hash⟩] c'
  | decides {frm hash : String} {c' : Consensus} (hfrm : frm ∉ c.isolated)
      (hdecided : c.decided = none) (hphase : c.phase = .committing)
      (hhash : c.proposalHash = some hash)
      (hquorum : c.quorum ≤ ((c.recordCommit hash frm).commitVotes hash).card)
      (h : SameRound { c.recordCommit hash frm with
        phase := .decided
        decided := some hash } c') :
      Within cr c (.vote "commit" frm c.view hash) [] c'

theorem SameRound.refl : SameRound c c := ⟨rfl, rfl, rfl, rfl, rfl, rfl, rfl, rfl, rfl⟩

theorem sameRound_noteProposalDigest (frm hash : String) :
    SameRound c (c.noteProposalDigest frm hash).2 := by
  unfold noteProposalDigest
  split
  · exact .refl c
  · split
    · exact .refl c
    · exact ⟨rfl, rfl, rfl, rfl, rfl, rfl, rfl, rfl, rfl⟩

variable {cr c}

theorem within_propose {frm : String} {block : Block} (hdecided : c.decided = none) :
    Within cr c (.proposal frm block)
      (if (c.propose cr frm block).1.1 then
        [⟨"prepare", (c.propose cr frm block).2.view, block.hash cr⟩] else [])
      (c.propose cr frm block).2 := by
  have hsame := sameRound_noteProposalDigest c frm (block.hash cr)
  unfold propose
  generalize c.noteProposalDigest frm (block.hash cr) = noted at hsame ⊢
  obtain ⟨other, c'⟩ := noted
  cases other with
  | some other => exact .quiet hsame
  | none =>
    simp only at hsame ⊢
    unfold accept
    by_cases h : c'.speakerOf cr c'.view = frm ∧ block.view = c'.view ∧ c'.proposal = none
    · rw [if_pos h]
      obtain ⟨-, hview, hfresh⟩ := h
      have hv : c'.view = c.view := hsame.view
      simp only [recordPrepare, hv, if_true]
      refine .accepted hdecided (hview.trans hv) (hsame.proposal ▸ hfresh) ?_
      exact ⟨hsame.me, hsame.membership, hsame.isolated, hv.symm ▸ rfl, rfl, rfl, rfl,
        hsame.commitVotes, hsame.decided⟩
    · rw [if_neg h]
      exact .quiet hsame

theorem sameRound_recordPrepare (hash node : String) : SameRound c (c.recordPrepare hash node) :=
  ⟨rfl, rfl, rfl, rfl, rfl, rfl, rfl, rfl, rfl⟩

theorem within_onPrepare {frm hash : String} :
    Within cr c (.vote "prepare" frm c.view hash)
      (if (c.onPrepare frm hash).1 = .enteredCommit then [⟨"commit", c.view, hash⟩] else [])
      (c.onPrepare frm hash).2 := by
  have hsame := @sameRound_recordPrepare c hash frm
  unfold onPrepare
  simp only
  generalize c.recordPrepare hash frm = c' at hsame ⊢
  split
  · exact .quiet hsame
  · next hopen =>
    push Not at hopen
    obtain ⟨hhash, hdecided⟩ := hopen
    split
    · next hquorum =>
      rw [if_pos rfl]
      have hnone : c.decided = none := by
        rw [← hsame.decided]
        exact Option.not_isSome_iff_eq_none.mp hdecided
      refine .committed hnone (hsame.phase ▸ hquorum.1) (hsame.proposalHash ▸ hhash) ?_
      have hme : c'.me = c.me := hsame.me
      have hvotes : c'.commitVotes = c.commitVotes := hsame.commitVotes
      exact ⟨hme, hsame.membership, hsame.isolated, hsame.view, rfl, hsame.proposal,
        hsame.proposalHash, by simp only [recordCommit, hme, hvotes], hsame.decided⟩
    · exact .quiet hsame

theorem within_onCommit {frm hash : String} (hfrm : frm ∉ c.isolated) :
    Within cr c (.vote "commit" frm c.view hash) [] (c.onCommit frm hash).2
      ∧ (c.onCommit frm hash).1 ≠ .enteredCommit := by
  unfold onCommit
  simp only
  split
  · exact ⟨.recorded hfrm (.refl _), nofun⟩
  · next hopen =>
    push Not at hopen
    obtain ⟨hhash, hdecided⟩ := hopen
    have hnone : c.decided = none := Option.not_isSome_iff_eq_none.mp hdecided
    split
    · next hquorum =>
      refine ⟨.decides hfrm hnone hquorum.1 ?_ hquorum.2 (.refl _), nofun⟩
      -- the vote is for the proposal, as nothing is decided yet
      exact hhash.resolve_right fun h => by simp [recordCommit, hnone] at h
    · exact ⟨.recorded hfrm (.refl _), nofun⟩

theorem inView_vote {kind frm : String} {view : UInt32} {hash : String} :
    c.inView (.vote kind frm view hash) = c.adopt view := by
  unfold inView enters adopt
  by_cases h : c.view < view
  · simp only [if_pos h]
  · simp only [if_neg h]

theorem next_vote_within {kind frm : String} {view : UInt32} {hash : String} :
    Within cr (c.adopt view) (.vote kind frm view hash) (c.directs cr (.vote kind frm view hash))
      (c.onVote kind frm view hash).2 := by
  simp only [directs]
  unfold onVote
  simp only
  generalize c.adopt view = c'
  split
  · exact .quiet (.refl _)
  · next hview =>
    push Not at hview
    subst hview
    split
    · exact .quiet (.refl _)
    · next hfrm =>
      split
      · next hkind => exact hkind ▸ within_onPrepare
      · split
        · next hkind =>
          obtain ⟨hwithin, houtcome⟩ := @within_onCommit cr _ frm hash hfrm
          rw [if_neg houtcome]
          exact hkind ▸ hwithin
        · exact .quiet (.refl _)

theorem next_proposal_within {frm : String} {block : Block} :
    Within cr (c.inView (.proposal frm block)) (.proposal frm block)
      (c.directs cr (.proposal frm block)) (c.onProposal cr frm block).2 := by
  simp only [directs]
  unfold onProposal
  by_cases hdecided : c.decided = none
  · by_cases hmember : block.membershipHash = c.membershipHash
    · -- the block's view is adopted, then the proposal is judged in it
      have hin : c.inView (.proposal frm block) = c.adopt block.view := by
        unfold inView enters adopt
        by_cases h : c.view < block.view
        · simp [hdecided, hmember, h]
        · simp [h]
      have hnone : (c.adopt block.view).decided = none := by
        unfold adopt
        split
        · exact hdecided
        · exact hdecided
      simp only [hdecided, Option.isSome_none, Bool.false_eq_true, if_false, hmember, ne_eq,
        not_true, hin]
      have hwithin := @within_propose cr _ frm block hnone
      generalize (c.adopt block.view).propose cr frm block = answered at hwithin ⊢
      obtain ⟨⟨accepted, evidence⟩, c'⟩ := answered
      cases accepted with
      | true => exact hwithin
      | false => exact hwithin
    · simp only [hdecided, hmember, inView, enters, Option.isSome_none, Bool.false_eq_true,
        if_false, ne_eq, not_false_eq_true, if_true, false_and, and_false]
      exact .quiet (.refl c)
  · have hsome : c.decided.isSome = true := Option.isSome_iff_ne_none.mpr hdecided
    simp only [hsome, hdecided, inView, enters, if_true, false_and, if_false]
    exact .quiet (.refl c)

/-- **What a call does**: it may enter a view; in the view it works in, it is one of the moves
of `Within`. -/
theorem next_within (call : Call) :
    Within cr (c.inView call) call (c.directs cr call) (c.next cr call) := by
  cases call with
  | proposal frm block => exact next_proposal_within
  | vote kind frm view hash =>
    rw [inView_vote]
    exact next_vote_within
  | changeView frm => exact .quiet ⟨rfl, rfl, rfl, rfl, rfl, rfl, rfl, rfl, rfl⟩
  | tick =>
    simp only [next, tick, inView, enters, directs]
    by_cases hdecided : c.decided = none
    · by_cases hlate : c.viewTimeoutTicks ≤ c.ticksInView + 1
      · simp only [hdecided, hlate, Option.isSome_none, Bool.false_eq_true, if_false, if_true,
          and_self]
        exact .quiet ⟨rfl, rfl, rfl, rfl, rfl, rfl, rfl, rfl, hdecided.symm⟩
      · simp only [hdecided, hlate, Option.isSome_none, Bool.false_eq_true, if_false, and_false]
        exact .quiet ⟨rfl, rfl, rfl, rfl, rfl, rfl, rfl, rfl, hdecided.symm⟩
    · have hsome : c.decided.isSome = true := Option.isSome_iff_ne_none.mpr hdecided
      simp only [hsome, hdecided, if_true, false_and, if_false]
      exact .quiet (.refl c)
  | isolation node =>
    simp only [next, applyIsolation, inView, enters, directs]
    by_cases hmem : node ∈ c.isolated
    · simp only [if_pos hmem]
      exact .quiet (.refl c)
    · simp only [if_neg hmem]
      exact .quiet (.refl _)

/-- A call that enters no view works in the state it found. -/
theorem inView_of_enters_none {call : Call} (h : c.enters call = none) : c.inView call = c := by
  simp only [inView, h]

/-- A call that enters a view works in an empty one; only an isolation changes who is live. -/
theorem inView_of_enters_some {call : Call} {view : UInt32} (h : c.enters call = some view) :
    ∃ isolated, c.isolated ⊆ isolated
      ∧ c.inView call = { c with isolated := isolated }.enterView view := by
  cases call with
  | isolation node =>
    exact ⟨insert node c.isolated, Finset.subset_insert _ _, by simp only [inView, h]⟩
  | proposal frm block => exact ⟨c.isolated, subset_rfl, by simp only [inView, h]⟩
  | vote kind frm view' hash => exact ⟨c.isolated, subset_rfl, by simp only [inView, h]⟩
  | changeView frm => exact ⟨c.isolated, subset_rfl, by simp only [inView, h]⟩
  | tick => exact ⟨c.isolated, subset_rfl, by simp only [inView, h]⟩

end Consensus

/-! ## Four nodes -/

/-- Primitives with a byte sum in place of BLAKE3, at both ends of the digest. -/
def checksumCrypto : Crypto where
  blake3 bs := .ofNat 32 ((bs.map UInt8.toNat).sum * (2 ^ 192 + 1))
  ed25519Public _ := .ofNat 32 0
  ed25519FromBytes _ := true
  ed25519Sign _ _ := .ofNat 64 0
  ed25519Verify _ _ _ := true

/-- A cluster that tolerates one Byzantine member. -/
def fourNodes : Membership where
  nodes := ["a", "b", "c", "d"]
  hash := "m"
  totalDrives := 4
  tolerance := byzantineTolerance 4
  quorum := decisionQuorum 4

/-- The block every node of the cluster proposes in a view when it holds no report. -/
def emptyBlock (view : UInt32) : Block :=
  ((Consensus.new "a" fourNodes 10).enterView view).buildProposal checksumCrypto [] [] .new

end Mesh

end DiscCleaner
