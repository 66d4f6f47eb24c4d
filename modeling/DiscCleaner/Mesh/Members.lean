import DiscCleaner.Mesh.Witness

/-!
# DiscCleaner — who counts after the freeze (`mesh.rs`)

A frame verifies under any key that signed it, so each handler has to ask on its own whether the
signer is a member and whether it speaks in its own name. The handlers of reports, proposals,
votes, accusations, isolations, transcripts, commitments and shares do not. Only members count,
each under its own identity, in the runs whose frames keep to that by themselves.
-/

namespace DiscCleaner.Mesh

open ByteLib ProgLib TransitionLib

/-! ## The votes of a call -/

namespace Consensus

/-- Votes of a call: those there were, one of the node itself, or the one the call brings. -/
structure Votes (c : Consensus) (call : Call) (c' : Consensus) : Prop where
  me : c'.me = c.me
  prepare : ∀ hash node, node ∈ c'.prepareVotes hash →
    node ∈ c.prepareVotes hash ∨ node = c.me ∨ ∃ view, call = .vote "prepare" node view hash
  commit : ∀ hash node, node ∈ c'.commitVotes hash →
    node ∈ c.commitVotes hash ∨ node = c.me ∨ ∃ view, call = .vote "commit" node view hash

variable {cr : Crypto} {c c' c'' : Consensus} {call : Call}

theorem Votes.of_eq (hme : c'.me = c.me) (hprepare : c'.prepareVotes = c.prepareVotes)
    (hcommit : c'.commitVotes = c.commitVotes) : Votes c call c' :=
  ⟨hme, fun _ _ h => .inl (hprepare ▸ h), fun _ _ h => .inl (hcommit ▸ h)⟩

theorem Votes.trans (h : Votes c call c') (h' : Votes c' call c'') : Votes c call c'' where
  me := h'.me.trans h.me
  prepare hash node hnode := by
    rcases h'.prepare hash node hnode with hnode | hself | hcall
    · exact h.prepare hash node hnode
    · exact .inr (.inl (hself.trans h.me))
    · exact .inr (.inr hcall)
  commit hash node hnode := by
    rcases h'.commit hash node hnode with hnode | hself | hcall
    · exact h.commit hash node hnode
    · exact .inr (.inl (hself.trans h.me))
    · exact .inr (.inr hcall)

/-- A new view starts with empty tables. -/
theorem votes_enterView (view : UInt32) : Votes c call (c.enterView view) :=
  ⟨rfl, fun _ _ h => absurd h (Finset.notMem_empty _), fun _ _ h => absurd h (Finset.notMem_empty _)⟩

theorem votes_adopt (view : UInt32) : Votes c call (c.adopt view) := by
  unfold adopt
  split
  · exact votes_enterView view
  · exact .of_eq rfl rfl rfl

theorem votes_applyIsolation (node : String) : Votes c call (c.applyIsolation node) := by
  unfold applyIsolation
  split
  · exact .of_eq rfl rfl rfl
  · have hisolated : Votes c call { c with isolated := insert node c.isolated } :=
      .of_eq rfl rfl rfl
    exact hisolated.trans (votes_enterView _)

theorem votes_noteProposalDigest (frm hash : String) :
    Votes c call (c.noteProposalDigest frm hash).2 := by
  unfold noteProposalDigest
  split
  · exact .of_eq rfl rfl rfl
  · split <;> exact .of_eq rfl rfl rfl

/-- A voter of a table after one vote was entered. -/
theorem mem_update_insert {votes : String → Finset String} {hash node hash' node' : String}
    (h : node' ∈ Function.update votes hash (insert node (votes hash)) hash') :
    node' ∈ votes hash' ∨ node' = node ∧ hash' = hash := by
  by_cases hhash : hash' = hash
  · subst hhash
    rw [Function.update_self] at h
    rcases Finset.mem_insert.mp h with hnode | hkept
    · exact .inr ⟨hnode, rfl⟩
    · exact .inl hkept
  · rw [Function.update_of_ne hhash] at h
    exact .inl h

theorem votes_recordPrepare {hash node : String}
    (hwho : node = c.me ∨ ∃ view, call = .vote "prepare" node view hash) :
    Votes c call (c.recordPrepare hash node) where
  me := rfl
  prepare hash' node' h := by
    rcases mem_update_insert h with hkept | ⟨rfl, rfl⟩
    · exact .inl hkept
    · exact .inr hwho
  commit _ _ h := .inl h

theorem votes_recordCommit {hash node : String}
    (hwho : node = c.me ∨ ∃ view, call = .vote "commit" node view hash) :
    Votes c call (c.recordCommit hash node) where
  me := rfl
  prepare _ _ h := .inl h
  commit hash' node' h := by
    rcases mem_update_insert h with hkept | ⟨rfl, rfl⟩
    · exact .inl hkept
    · exact .inr hwho

theorem votes_accept (frm : String) (block : Block) : Votes c call (c.accept cr frm block).2 := by
  unfold accept
  split
  · have hprepared : Votes c call { c with
        proposal := some block
        proposalHash := some (block.hash cr)
        phase := .prepared } := .of_eq rfl rfl rfl
    exact hprepared.trans (votes_recordPrepare (.inl rfl))
  · exact .of_eq rfl rfl rfl

theorem votes_onProposal (frm : String) (block : Block) :
    Votes c call (c.onProposal cr frm block).2 := by
  unfold onProposal
  split
  · exact .of_eq rfl rfl rfl
  · split
    · exact .of_eq rfl rfl rfl
    · refine (votes_adopt block.view).trans ?_
      show Votes _ call ((c.adopt block.view).propose cr frm block).2
      have hnoted := @votes_noteProposalDigest (c.adopt block.view) call frm (block.hash cr)
      unfold propose
      generalize (c.adopt block.view).noteProposalDigest frm (block.hash cr) = noted at hnoted ⊢
      obtain ⟨other, c'⟩ := noted
      cases other with
      | some other => exact hnoted
      | none => exact hnoted.trans (votes_accept frm block)

theorem votes_onPrepare {frm hash : String} {view : UInt32} :
    Votes c (.vote "prepare" frm view hash) (c.onPrepare frm hash).2 := by
  have hrecorded : Votes c (.vote "prepare" frm view hash) (c.recordPrepare hash frm) :=
    votes_recordPrepare (.inr ⟨view, rfl⟩)
  unfold onPrepare
  dsimp only
  split
  · exact hrecorded
  · split
    · refine hrecorded.trans ?_
      have hcommitting : Votes (c.recordPrepare hash frm) (.vote "prepare" frm view hash)
          { c.recordPrepare hash frm with phase := .committing } := .of_eq rfl rfl rfl
      exact hcommitting.trans (votes_recordCommit (.inl rfl))
    · exact hrecorded

theorem votes_onCommit {frm hash : String} {view : UInt32} :
    Votes c (.vote "commit" frm view hash) (c.onCommit frm hash).2 := by
  have hrecorded : Votes c (.vote "commit" frm view hash) (c.recordCommit hash frm) :=
    votes_recordCommit (.inr ⟨view, rfl⟩)
  unfold onCommit
  dsimp only
  split
  · exact hrecorded
  · split
    · exact hrecorded.trans (.of_eq rfl rfl rfl)
    · exact hrecorded

theorem votes_onVote {kind frm : String} {view : UInt32} {hash : String} :
    Votes c (.vote kind frm view hash) (c.onVote kind frm view hash).2 := by
  refine (votes_adopt view).trans ?_
  unfold onVote
  dsimp only
  split
  · exact .of_eq rfl rfl rfl
  · split
    · exact .of_eq rfl rfl rfl
    · split
      · next hkind =>
        subst hkind
        exact votes_onPrepare
      · split
        · next hkind =>
          subst hkind
          exact votes_onCommit
        · exact .of_eq rfl rfl rfl

/-- **What a call adds to the votes**: its own vote under its sender, and votes of the node. -/
theorem votes_next (call : Call) : Votes c call (c.next cr call) := by
  cases call with
  | proposal frm block => exact votes_onProposal frm block
  | vote kind frm view hash => exact votes_onVote
  | changeView frm => exact .of_eq rfl rfl rfl
  | tick =>
    show Votes c .tick c.tick.2
    unfold tick
    split
    · exact .of_eq rfl rfl rfl
    · have hticked : Votes c .tick { c with ticksInView := c.ticksInView + 1 } := .of_eq rfl rfl rfl
      split
      · exact hticked.trans (votes_enterView _)
      · exact hticked
  | isolation node => exact votes_applyIsolation node

end Consensus

variable {p : Nat} {G : Type} [AddCommGroup G] [Module (ZMod p) G]

namespace MeshNode

/-! ## What the property says -/

/-- Two states with the same ledger, votes, view, reports, transcripts and seal material. -/
structure SameCounts (n n' : MeshNode p) : Prop where
  rogue : n'.rogue = n.rogue
  votes : n'.consensus.map (fun c => (c.view, c.prepareVotes, c.commitVotes, c.changeViewVotes))
    = n.consensus.map fun c => (c.view, c.prepareVotes, c.commitVotes, c.changeViewVotes)
  gossip : n'.gossip = n.gossip
  transcripts : n'.transcripts = n.transcripts
  sealCommitments : n'.sealCommitments = n.sealCommitments
  sealShares : n'.sealShares = n.sealShares

/-- What a node records in the name of a member. -/
inductive Record where
  | accusation (a : Accusation)
  | prepare (hash node : String)
  | commit (hash node : String)
  | transcript (t : SpotTranscript)
  | commitment (c : RoundOneCommitment)
  | share (s : SealShareWire)

def Holds (n : MeshNode p) : Record → Prop
  | .accusation a => a ∈ n.rogue.accusations
  | .prepare hash node => ∃ c, n.consensus = some c ∧ node ∈ c.prepareVotes hash
  | .commit hash node => ∃ c, n.consensus = some c ∧ node ∈ c.commitVotes hash
  | .transcript t => t ∈ n.transcripts
  | .commitment c => c ∈ n.sealCommitments
  | .share s => s ∈ n.sealShares

/-- In whose name a record counts; a share index counts for the member in its place. -/
def nameOn (n : MeshNode p) : Record → Option String
  | .accusation a => some a.accuser
  | .prepare _ node => some node
  | .commit _ node => some node
  | .transcript t => some t.witness
  | .commitment c => n.shareIndexToNode c.signer
  | .share s => n.shareIndexToNode s.frost.signer

/-- The frame brings the record. -/
def Carries (f : MeshFrame) : Record → Prop
  | .accusation a => ∃ wire, f.msg = .accuse wire ∧ wire.accused = a.accused
      ∧ kindFromStr wire.kind = .ok a.kind ∧ wire.evidence = a.evidence
      ∧ wire.evidenceDigest = a.evidenceDigest
  | .prepare hash _ => ∃ vote, (f.msg = .prepare vote ∨ f.msg = .commit vote)
      ∧ vote.kind = "prepare" ∧ vote.hash = hash
  | .commit hash _ => ∃ vote, (f.msg = .prepare vote ∨ f.msg = .commit vote)
      ∧ vote.kind = "commit" ∧ vote.hash = hash
  | .transcript t => f.msg = .transcript t
  | .commitment c => f.msg = .sealCommit c
  | .share s => f.msg = .sealShare s

/-- A record is the node's own, or a frame of the member in whose name it counts brought it. -/
def Attributed (n : MeshNode p) (frames : MeshFrame → Prop) (r : Record) : Prop :=
  n.nameOn r = some n.name
    ∨ ∃ f, frames f ∧ Carries f r ∧ n.isMember f.frm = true ∧ n.nameOn r = some f.frm

variable (env : MeshEnv p G)

/-- **Only members count**, each under its own identity, in a run that starts after the freeze. -/
structure MembersCount (start : MeshNode p) (es : List Event) : Prop where
  strangers : ∀ before f after, es = before ++ .receive f :: after → start.isMember f.frm = false →
    SameCounts (run (next env) start before) (run (next env) start (before ++ [.receive f]))
  attributed : ∀ before, before <+: es → ∀ r, Holds (run (next env) start before) r →
    Holds start r ∨ Attributed start (fun f => .receive f ∈ before) r

/-- The condition of a step: a frame that is recorded is a member's, and speaks in the name of
its signer; a proof comes from a member or from a node without a report; the node's own share
is the one of its place. -/
def admitted (n : MeshNode p) : Event → Bool
  | .tick => true
  | .receive f =>
    n.rogue.isIsolated f.frm || f.frm = n.name ||
      match f.msg with
      | .driveReport _ | .proposal _ | .prepare _ | .commit _ | .accuse _ | .isolate _ =>
        n.isMember f.frm
      | .transcript t => n.isMember f.frm && t.witness = f.frm
      | .sealCommit c => n.isMember f.frm && n.shareIndexToNode c.signer = some f.frm
      | .sealShare s => n.isMember f.frm && n.shareIndexToNode s.frost.signer = some f.frm
      | .spotProof _ => n.isMember f.frm || n.gossip.reports.all fun r => r.node ≠ f.frm
      | _ => true
  | .act => n.state = .discovering || n.frostShare.all fun s => n.shareIndexToNode s.index = some n.name

/-! ## A stranger's frame -/

variable {env} {n₀ n : MeshNode p} {e : Event}

theorem SameCounts.refl (n : MeshNode p) : SameCounts n n := ⟨rfl, rfl, rfl, rfl, rfl, rfl⟩

/-- What a stranger may send: no kind of frame that is recorded. -/
def Harmless (n : MeshNode p) (f : MeshFrame) : Prop :=
  match f.msg with
  | .driveReport _ | .proposal _ | .prepare _ | .commit _ | .accuse _ | .isolate _
  | .transcript _ | .sealCommit _ | .sealShare _ => False
  | .spotProof _ => ∀ r ∈ n.gossip.reports, r.node ≠ f.frm
  | _ => True

theorem harmless_of_admitted {f : MeshFrame} (hadmitted : admitted n (.receive f) = true)
    (hlive : n.rogue.isIsolated f.frm = false) (hother : f.frm ≠ n.name)
    (hstranger : n.isMember f.frm = false) : Harmless n f := by
  unfold Harmless
  cases hmsg : f.msg with
  | spotProof proof => simpa [admitted, hlive, hother, hmsg, hstranger] using hadmitted
  | _ => first | trivial | simp [admitted, hlive, hother, hmsg, hstranger] at hadmitted

theorem not_judges {f : MeshFrame} (h : Harmless n₀ f) : ¬ Judges n₀ (.receive f) := by
  intro hjudges
  unfold Harmless at h
  simp only [Judges] at hjudges
  cases hmsg : f.msg with
  | spotProof proof =>
    rw [hmsg] at h hjudges
    obtain ⟨r, hr, hnode⟩ := hjudges
    exact h r hr hnode
  | _ => rw [hmsg] at h hjudges; first | exact h | exact hjudges

theorem not_calls {f : MeshFrame} (h : Harmless n₀ f) (call : Consensus.Call) :
    ¬ Calls n₀ (.receive f) call := by
  unfold Harmless at h
  rintro (⟨block, hmsg, -⟩ | ⟨vote, hmsg | hmsg, -⟩)
  all_goals
    rw [hmsg] at h
    exact h

/-- **A harmless frame counts for nothing**, whatever its handler does. -/
theorem Amid.sameCounts {f : MeshFrame} (hharmless : Harmless n₀ f)
    (h : Amid env n₀ (.receive f) n) : SameCounts n₀ n := by
  have hkind := hharmless
  unfold Harmless at hkind
  generalize he : Event.receive f = e at h
  induction h with
  | start => exact .refl n₀
  | quiet _ hsame ih =>
    exact
      { rogue := hsame.rogue.trans ih.rogue
        votes := hsame.consensus ▸ ih.votes
        gossip := hsame.gossip.trans ih.gossip
        transcripts := hsame.transcripts.trans ih.transcripts
        sealCommitments := hsame.sealCommitments.trans ih.sealCommitments
        sealShares := hsame.sealShares.trans ih.sealShares }
  | began _ hact => exact absurd (he.trans hact) nofun
  | accused _ hjudges => exact absurd (he ▸ hjudges) (not_judges hharmless)
  | isolated _ hjudges => exact absurd (he ▸ hjudges) (not_judges hharmless)
  | expired _ _ hact => exact absurd (he.trans hact) nofun
  | reportedOwn _ _ hact => exact absurd (he.trans hact) nofun
  | committedOwn _ _ hact => exact absurd (he.trans hact) nofun
  | sharedOwn _ _ hact => exact absurd (he.trans hact) nofun
  | called _ _ hcall => exact absurd (he ▸ hcall) (not_calls hharmless _)
  | witnessed _ hframe hmsg _ hget hnode _ _ _ =>
    obtain rfl := Event.receive.inj (he.trans hframe)
    rw [hmsg] at hkind
    exact absurd hnode (hkind _ (GossipStore.mem_of_get hget))
  | filed _ hframe hmsg _ _ | reported _ hframe hmsg _ _ | noted _ hframe hmsg _
  | received _ hframe hmsg _ | committed _ hframe hmsg _ | shared _ hframe hmsg _ =>
    obtain rfl := Event.receive.inj (he.trans hframe)
    rw [hmsg] at hkind
    exact hkind.elim
  | _ => rename_i ih; exact { ih with }

/-! ## What is the node's own -/

/-- The consensus and the signing session are the node's own. -/
structure Mine (n : MeshNode p) : Prop where
  consensus : ∀ c, n.consensus = some c → c.me = n.name
  session : ∀ s, n.sealSession = some s → n.frostShare = some s.secret

theorem mine_of_votes (hmine : Mine n) {step : Consensus → Consensus} {call : Consensus.Call}
    (hvotes : ∀ c, Consensus.Votes c call (step c)) :
    ∀ c, n.consensus.map step = some c → c.me = n.name := by
  intro c' hc'
  obtain ⟨c, hc, rfl⟩ := Option.map_eq_some_iff.mp hc'
  exact (hvotes c).me.trans (hmine.consensus c hc)

theorem Amid.mine (hmine : Mine n₀) (h : Amid env n₀ e n) : Mine n := by
  induction h with
  | start => exact hmine
  | quiet _ hsame ih =>
    constructor
    · rw [hsame.consensus, hsame.name]
      exact ih.consensus
    · intro s hs
      rw [hsame.frostShare]
      exact ih.session s (hsame.session s hs)
  | began _ _ _ _ ih => exact { ih with consensus := fun c hc => Option.some.inj hc ▸ rfl }
  | isolated _ _ _ ih =>
    exact { ih with consensus := mine_of_votes ih (fun _ => @Consensus.votes_applyIsolation _ .tick _) }
  | noted _ _ _ ih =>
    exact { ih with
      consensus := mine_of_votes ih (fun _ => @Consensus.votes_noteProposalDigest _ .tick _ _) }
  | called _ hc _ ih =>
    refine { ih with consensus := fun c' hc' => ?_ }
    rw [← Option.some.inj hc']
    exact (Consensus.votes_next _).me.trans (ih.consensus _ hc)
  | committedOwn hbefore _ _ hshare _ ih =>
    refine { ih with session := fun s hs => ?_ }
    rw [← Option.some.inj hs]
    exact hbefore.frostShare.trans hshare
  | _ => rename_i ih; exact { ih with }

/-! ## In whose name -/

/-- What the condition says of a frame that is taken, and of the node's own share. -/
structure Admits (n : MeshNode p) (e : Event) : Prop where
  vote : ∀ f vote, e = .receive f → (f.msg = .prepare vote ∨ f.msg = .commit vote) →
    n.isMember f.frm = true
  accusation : ∀ f wire, e = .receive f → f.msg = .accuse wire → n.isMember f.frm = true
  transcript : ∀ f t, e = .receive f → f.msg = .transcript t →
    n.isMember f.frm = true ∧ t.witness = f.frm
  commitment : ∀ f c, e = .receive f → f.msg = .sealCommit c →
    n.isMember f.frm = true ∧ n.shareIndexToNode c.signer = some f.frm
  share : ∀ f s, e = .receive f → f.msg = .sealShare s →
    n.isMember f.frm = true ∧ n.shareIndexToNode s.frost.signer = some f.frm
  own : e = .act → n.state ≠ .discovering → ∀ s, n.frostShare = some s →
    n.shareIndexToNode s.index = some n.name

theorem admits_of_admitted (hadmitted : admitted n e = true)
    (htaken : ∀ f, e = .receive f → n.rogue.isIsolated f.frm = false ∧ f.frm ≠ n.name) :
    Admits n e where
  vote := by
    rintro f vote rfl (hmsg | hmsg)
    all_goals
      obtain ⟨hlive, hother⟩ := htaken f rfl
      simpa [admitted, hlive, hother, hmsg] using hadmitted
  accusation := by
    rintro f wire rfl hmsg
    obtain ⟨hlive, hother⟩ := htaken f rfl
    simpa [admitted, hlive, hother, hmsg] using hadmitted
  transcript := by
    rintro f t rfl hmsg
    obtain ⟨hlive, hother⟩ := htaken f rfl
    simpa [admitted, hlive, hother, hmsg] using hadmitted
  commitment := by
    rintro f c rfl hmsg
    obtain ⟨hlive, hother⟩ := htaken f rfl
    simpa [admitted, hlive, hother, hmsg] using hadmitted
  share := by
    rintro f s rfl hmsg
    obtain ⟨hlive, hother⟩ := htaken f rfl
    simpa [admitted, hlive, hother, hmsg] using hadmitted
  own := by
    rintro rfl hstate s hs
    simpa [admitted, hstate, hs] using hadmitted

/-- A vote after a call of the event: it was there, it is the node's own, or the frame's. -/
theorem attributed_votes (hadmits : Admits n₀ e) {c c' : Consensus} (hme : c.me = n₀.name)
    {call : Consensus.Call} (hcall : call = .tick ∨ Calls n₀ e call)
    (hvotes : Consensus.Votes c call c') (hash node : String) :
    (node ∈ c'.prepareVotes hash → node ∈ c.prepareVotes hash
        ∨ Attributed n₀ (fun f => e = .receive f) (.prepare hash node))
      ∧ (node ∈ c'.commitVotes hash → node ∈ c.commitVotes hash
        ∨ Attributed n₀ (fun f => e = .receive f) (.commit hash node)) := by
  -- a vote that comes with a frame is the signer's
  have hframe : ∀ kind view, call = .vote kind node view hash →
      ∃ f vote, e = .receive f ∧ (f.msg = .prepare vote ∨ f.msg = .commit vote)
        ∧ vote.kind = kind ∧ vote.hash = hash ∧ f.frm = node := by
    rintro kind view rfl
    rcases hcall with hcall | hcall
    · exact absurd hcall nofun
    · cases e with
      | tick => exact hcall.elim
      | act =>
        rcases hcall.2 with hcall | ⟨block, hcall⟩
        · exact absurd hcall nofun
        · exact absurd hcall nofun
      | receive f =>
        rcases hcall with ⟨block, -, hcall⟩ | ⟨vote, hmsg, hcall⟩
        · exact absurd hcall nofun
        · obtain ⟨hkind, hfrm, -, hhash⟩ := Consensus.Call.vote.inj hcall
          exact ⟨f, vote, rfl, hmsg, hkind.symm, hhash.symm, hfrm.symm⟩
  constructor
  · intro hnode
    rcases hvotes.prepare hash node hnode with hkept | hself | ⟨view, hbrought⟩
    · exact .inl hkept
    · exact .inr (.inl (congrArg some (hself.trans hme)))
    · obtain ⟨f, vote, he, hmsg, hkind, hhash, hfrm⟩ := hframe _ _ hbrought
      exact .inr (.inr ⟨f, he, ⟨vote, hmsg, hkind, hhash⟩, hadmits.vote f vote he hmsg,
        congrArg some hfrm.symm⟩)
  · intro hnode
    rcases hvotes.commit hash node hnode with hkept | hself | ⟨view, hbrought⟩
    · exact .inl hkept
    · exact .inr (.inl (congrArg some (hself.trans hme)))
    · obtain ⟨f, vote, he, hmsg, hkind, hhash, hfrm⟩ := hframe _ _ hbrought
      exact .inr (.inr ⟨f, he, ⟨vote, hmsg, hkind, hhash⟩, hadmits.vote f vote he hmsg,
        congrArg some hfrm.symm⟩)

/-- The same for a change of the consensus that is no call of the event. -/
theorem attributed_map (hadmits : Admits n₀ e) (hmine : Mine n) (hname : n.name = n₀.name)
    {step : Consensus → Consensus} (hvotes : ∀ c, Consensus.Votes c .tick (step c))
    {hash node : String} :
    ((∃ c, n.consensus.map step = some c ∧ node ∈ c.prepareVotes hash) →
        Holds n (.prepare hash node)
          ∨ Attributed n₀ (fun f => e = .receive f) (.prepare hash node))
      ∧ ((∃ c, n.consensus.map step = some c ∧ node ∈ c.commitVotes hash) →
        Holds n (.commit hash node)
          ∨ Attributed n₀ (fun f => e = .receive f) (.commit hash node)) := by
  constructor
  · rintro ⟨c', hc', hnode⟩
    obtain ⟨c, hc, rfl⟩ := Option.map_eq_some_iff.mp hc'
    have hme := (hmine.consensus c hc).trans hname
    exact ((attributed_votes hadmits hme (.inl rfl) (hvotes c) hash node).1 hnode).imp_left
      fun hkept => ⟨c, hc, hkept⟩
  · rintro ⟨c', hc', hnode⟩
    obtain ⟨c, hc, rfl⟩ := Option.map_eq_some_iff.mp hc'
    have hme := (hmine.consensus c hc).trans hname
    exact ((attributed_votes hadmits hme (.inl rfl) (hvotes c) hash node).2 hnode).imp_left
      fun hkept => ⟨c, hc, hkept⟩

/-- A record of the ledger after an accusation of the node itself. -/
theorem attributed_accuse (hname : n.name = n₀.name) {accused evidence digest : String}
    {kind : RogueKind} {a : Accusation}
    (ha : a ∈ (n.rogue.accuse n.name accused kind evidence digest).2.accusations) :
    a ∈ n.rogue.accusations ∨ Attributed n₀ (fun f => e = .receive f) (.accusation a) := by
  rcases RogueLedger.mem_accusations_accuse ha with hkept | rfl
  · exact .inl hkept
  · exact .inr (.inl (congrArg some hname))

theorem mem_keepCommitment {c c' : RoundOneCommitment}
    (h : c' ∈ (keepCommitment c n).sealCommitments) : c' ∈ n.sealCommitments ∨ c' = c := by
  simp only [keepCommitment] at h
  split at h
  · exact .inl h
  · exact (List.mem_append.mp h).imp_right List.mem_singleton.mp

theorem mem_keepShare {s s' : SealShareWire} (h : s' ∈ (keepShare s n).sealShares) :
    s' ∈ n.sealShares ∨ s' = s := by
  simp only [keepShare] at h
  split at h
  · exact .inl h
  · exact (List.mem_append.mp h).imp_right List.mem_singleton.mp

/-- **What an event adds to the records** counts for the node itself or for the signer. -/
theorem Amid.attributed (hmine : Mine n₀) (hadmits : Admits n₀ e) (h : Amid env n₀ e n)
    {r : Record} (hr : Holds n r) :
    Holds n₀ r ∨ Attributed n₀ (fun f => e = .receive f) r := by
  induction h with
  | start => exact .inl hr
  | quiet _ hsame ih =>
    refine ih ?_
    cases r <;> unfold Holds at hr ⊢
    · exact hsame.rogue ▸ hr
    · exact hsame.consensus ▸ hr
    · exact hsame.consensus ▸ hr
    · exact hsame.transcripts ▸ hr
    · exact hsame.sealCommitments ▸ hr
    · exact hsame.sealShares ▸ hr
  | began _ _ _ _ ih =>
    cases r with
    | prepare hash node =>
      obtain ⟨c, hc, hnode⟩ := hr
      obtain rfl := Option.some.inj hc
      exact absurd hnode (Finset.notMem_empty _)
    | commit hash node =>
      obtain ⟨c, hc, hnode⟩ := hr
      obtain rfl := Option.some.inj hc
      exact absurd hnode (Finset.notMem_empty _)
    | _ => exact ih hr
  | accused hbefore _ _ _ _ ih =>
    cases r with
    | accusation a => exact (attributed_accuse hbefore.name hr).elim ih .inr
    | _ => exact ih hr
  | expired hbefore _ _ _ _ _ ih =>
    cases r with
    | accusation a => exact (attributed_accuse hbefore.name hr).elim ih .inr
    | _ => exact ih hr
  | @filed _ _ f he wire hmsg kind hkind ih =>
    cases r with
    | accusation a =>
      rcases RogueLedger.mem_accusations_accuse hr with hkept | rfl
      · exact ih hkept
      · refine .inr (.inr ⟨f, he, ⟨wire, hmsg, rfl, hkind, rfl, rfl⟩, ?_, rfl⟩)
        exact hadmits.accusation f wire he hmsg
    | _ => exact ih hr
  | isolated hbefore _ _ ih =>
    have hvotes : ∀ node (c : Consensus), Consensus.Votes c .tick (c.applyIsolation node) :=
      fun node _ => Consensus.votes_applyIsolation node
    have hmap := fun hash node' node => @attributed_map _ _ _ _ hadmits (hbefore.mine hmine)
      hbefore.name _ (hvotes node') hash node
    cases r with
    | accusation a =>
      unfold Holds at hr ih
      dsimp only at hr
      rw [RogueLedger.accusations_tryIsolate] at hr
      exact ih hr
    | prepare hash node => exact ((hmap hash _ node).1 hr).elim ih .inr
    | commit hash node => exact ((hmap hash _ node).2 hr).elim ih .inr
    | _ => exact ih hr
  | @noted _ hbefore f _ block _ ih =>
    have hvotes : ∀ c : Consensus,
        Consensus.Votes c .tick (c.noteProposalDigest f.frm (block.hash env.toCrypto)).2 :=
      fun _ => Consensus.votes_noteProposalDigest ..
    have hmap := fun hash node => @attributed_map _ _ _ _ hadmits (hbefore.mine hmine)
      hbefore.name _ hvotes hash node
    cases r with
    | prepare hash node => exact ((hmap hash node).1 hr).elim ih .inr
    | commit hash node => exact ((hmap hash node).2 hr).elim ih .inr
    | _ => exact ih hr
  | @called _ hbefore c hc call hcall ih =>
    have hme := ((hbefore.mine hmine).consensus c hc).trans hbefore.name
    have hvotes := attributed_votes hadmits hme (.inr hcall)
      (@Consensus.votes_next env.toCrypto c call)
    cases r with
    | prepare hash node =>
      obtain ⟨c', hc', hnode⟩ := hr
      rw [← Option.some.inj hc'] at hnode
      exact ((hvotes hash node).1 hnode).elim (fun hkept => ih ⟨c, hc, hkept⟩) .inr
    | commit hash node =>
      obtain ⟨c', hc', hnode⟩ := hr
      rw [← Option.some.inj hc'] at hnode
      exact ((hvotes hash node).2 hnode).elim (fun hkept => ih ⟨c, hc, hkept⟩) .inr
    | _ => exact ih hr
  | witnessed _ _ _ _ _ _ hverify _ ih =>
    cases r with
    | transcript t =>
      rcases List.mem_append.mp hr with hkept | hnew
      · exact ih hkept
      · rw [List.mem_singleton.mp hnew]
        exact .inr (.inl (congrArg some (SpotTranscript.verify_fields hverify).1))
    | _ => exact ih hr
  | @received _ _ f he t hmsg ih =>
    cases r with
    | transcript t' =>
      rcases List.mem_append.mp hr with hkept | hnew
      · exact ih hkept
      · rw [List.mem_singleton.mp hnew]
        obtain ⟨hmember, hwitness⟩ := hadmits.transcript f t he hmsg
        exact .inr (.inr ⟨f, he, hmsg, hmember, congrArg some hwitness⟩)
    | _ => exact ih hr
  | @committed _ _ f he c hmsg ih =>
    cases r with
    | commitment c' =>
      rcases mem_keepCommitment hr with hkept | rfl
      · exact ih hkept
      · obtain ⟨hmember, hplace⟩ := hadmits.commitment f c' he hmsg
        exact .inr (.inr ⟨f, he, hmsg, hmember, hplace⟩)
    | _ => exact ih hr
  | committedOwn _ hstate he hshare hsigner ih =>
    cases r with
    | commitment c' =>
      rcases mem_keepCommitment hr with hkept | rfl
      · exact ih hkept
      · refine .inr (.inl ?_)
        rw [nameOn, hsigner]
        exact hadmits.own he hstate _ hshare
    | _ => exact ih hr
  | @shared _ _ f he s hmsg ih =>
    cases r with
    | share s' =>
      rcases mem_keepShare hr with hkept | rfl
      · exact ih hkept
      · obtain ⟨hmember, hplace⟩ := hadmits.share f s' he hmsg
        exact .inr (.inr ⟨f, he, hmsg, hmember, hplace⟩)
    | _ => exact ih hr
  | sharedOwn _ hstate he hsession hsigner ih =>
    cases r with
    | share s' =>
      rcases mem_keepShare hr with hkept | rfl
      · exact ih hkept
      · refine .inr (.inl ?_)
        rw [nameOn, hsigner]
        refine hadmits.own he hstate _ ?_
        exact hsession.elim (hmine.session _) id
    | _ => exact ih hr
  | _ => rename_i ih; cases r <;> exact ih hr

/-! ## The runs -/

/-- What holds of every state of a run after the freeze. -/
structure Founded (start n : MeshNode p) : Prop where
  name : n.name = start.name
  frozen : n.discovery.frozen = start.discovery.frozen
  sound : n.gossip.Sound
  mine : Mine n

theorem mine_new (name : String) (ml : MlDsa44KeyPair) (mac : Mac)
    (frostPublic : ThresholdPublicKey) (frostShare : Option (ShareSecret p))
    (cfg : MeshNodeConfig) : Mine (new name ml mac frostPublic frostShare cfg) :=
  ⟨fun _ h => absurd h nofun, fun _ h => absurd h nofun⟩

/-- Every state a node reaches has a sound store and its own consensus and session. -/
theorem sound_and_mine_run (env : MeshEnv p G) {start : MeshNode p} (hsound : start.gossip.Sound)
    (hmine : Mine start) (es : List Event) :
    (run (next env) start es).gossip.Sound ∧ Mine (run (next env) start es) :=
  run_invariant (I := fun n => n.gossip.Sound ∧ Mine n)
    (fun _ e h => ⟨((next_amid e).grown h.1).sound, (next_amid e).mine h.2⟩) ⟨hsound, hmine⟩ es

theorem Founded.next {start : MeshNode p} (hfrozen : start.discovery.frozen.isSome = true)
    (h : Founded start n) (e : Event) : Founded start (next env n e) := by
  have hamid : Amid env n e (MeshNode.next env n e) := next_amid e
  have hgrown := hamid.grown h.sound
  obtain ⟨m, hm⟩ := Option.isSome_iff_exists.mp hfrozen
  refine ⟨hgrown.name.trans h.name, ?_, hgrown.sound, (next_amid e).mine h.mine⟩
  rw [hm]
  exact hgrown.frozen m (h.frozen.trans hm)

/-- Names and places are read off the membership. -/
theorem Founded.attributed {start : MeshNode p} (h : Founded start n) {frames : MeshFrame → Prop}
    {r : Record} (hr : Attributed n frames r) : Attributed start frames r := by
  have hplace : ∀ index, n.shareIndexToNode index = start.shareIndexToNode index := by
    intro index
    unfold shareIndexToNode Discovery.membership
    rw [h.frozen]
  have hname : n.nameOn r = start.nameOn r := by
    cases r with
    | commitment c => exact hplace c.signer
    | share s => exact hplace s.frost.signer
    | _ => rfl
  have hmember : ∀ node, n.isMember node = start.isMember node := by
    intro node
    unfold isMember
    rw [h.frozen]
  unfold Attributed at hr ⊢
  rw [hname, h.name] at hr
  simpa only [hmember] using hr

/-- Two members speak in their own names: an accusation, and a commitment under the third place. -/
def memberFrames : List Event :=
  [frameOf 2 (.accuse ⟨memberName 4, "timeout", "", "digest"⟩),
    frameOf 3 (.sealCommit ⟨3, "", ""⟩)]

/-- A key outside the membership accuses the second member. -/
def strangerFrame : MeshFrame :=
  ⟨repeated 9 32, broadcastMac, 1, .accuse ⟨memberName 2, "timeout", "", "digest"⟩⟩

/-- The fourth member commits under the place of the second. -/
def foreignPlace : Event := frameOf 4 (.sealCommit ⟨2, "", ""⟩)

end MeshNode

end DiscCleaner.Mesh
