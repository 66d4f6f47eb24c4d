import DiscCleaner.Mesh.Consensus
import Mathlib.Data.Finset.Lattice.Basic

/-!
# DiscCleaner — agreement of the swarm (`consensus.rs`)

The swarm is one `Consensus` for each honest member, the votes and proposals these have sent,
and an adversary that orders the calls and speaks for the Byzantine members. Two things let
honest members decide different blocks: a member that has committed may enter another view and
commit there again, and a quorum of `2f + 1` need not hold most of the honest members. A run
without either keeps agreement.
-/

namespace DiscCleaner.Mesh

open TransitionLib

/-- A frozen membership, its Byzantine members and the timeouts of the honest ones. -/
structure Setting where
  membership : Membership
  nodup : membership.nodes.Nodup
  byzantine : Finset String
  byzantine_subset : byzantine ⊆ membership.nodes.toFinset
  byzantine_card : byzantine.card ≤ byzantineTolerance membership.nodes.length
  viewTimeoutTicks : String → UInt32

def Setting.honest (setting : Setting) : Finset String :=
  setting.membership.nodes.toFinset \ setting.byzantine

/-- The honest machines, and what their owners have sent. -/
structure Swarm where
  node : String → Consensus
  sent : List (String × Consensus.VoteBody)
  proposed : List (String × Block)

/-- An honest member receives a call, or proposes as the speaker of its view. -/
inductive SwarmEvent where
  | deliver (node : String) (call : Consensus.Call)
  | propose (node : String) (reports : List DriveReport) (transcripts : List SpotTranscript)
      (rogueLedger : RogueLedger)

namespace Swarm

def start (setting : Setting) : Swarm where
  node a := .new a setting.membership (setting.viewTimeoutTicks a)
  sent := []
  proposed := []

/-- The votes a call directs go out to every member. -/
def next (cr : Crypto) (s : Swarm) : SwarmEvent → Swarm
  | .deliver a call =>
    { s with
      node := Function.update s.node a ((s.node a).next cr call)
      sent := s.sent ++ ((s.node a).directs cr call).map fun vote => (a, vote) }
  | .propose a reports transcripts rogueLedger =>
    { s with
      proposed :=
        s.proposed ++ [(a, (s.node a).buildProposal cr reports transcripts rogueLedger)] }

/-- A Byzantine member sends what it likes under its own name; an honest one what it sent. -/
def Authentic (setting : Setting) (s : Swarm) : Consensus.Call → Prop
  | .proposal frm block =>
    frm ∈ setting.membership.nodes ∧ (frm ∈ setting.byzantine ∨ (frm, block) ∈ s.proposed)
  | .vote kind frm view hash =>
    frm ∈ setting.membership.nodes
      ∧ (frm ∈ setting.byzantine ∨ (frm, ⟨kind, view, hash⟩) ∈ s.sent)
  | _ => True

/-- The events that can happen. -/
def Admitted (cr : Crypto) (setting : Setting) (s : Swarm) : SwarmEvent → Prop
  | .deliver a call => a ∈ setting.honest ∧ Authentic setting s call
  | .propose a _ _ _ =>
    a ∈ setting.honest ∧ (s.node a).amSpeaker cr ∧ (s.node a).decided = none
      ∧ (s.node a).proposal = none

/-- No two honest members have decided different blocks. -/
def Agreement (setting : Setting) (s : Swarm) : Prop :=
  ∀ a ∈ setting.honest, ∀ b ∈ setting.honest, ∀ hash hash',
    (s.node a).decided = some hash → (s.node b).decided = some hash' → hash = hash'

/-- A quorum of this node holds most of the honest members, whichever Byzantine members that
are not isolated vote in it. -/
def MajorityQuorum (setting : Setting) (c : Consensus) : Prop :=
  setting.honest.card + 2 * (setting.byzantine \ c.isolated).card < 2 * c.quorum

def IsCommitVote : Consensus.Call → Prop
  | .vote kind _ _ _ => kind = "commit"
  | _ => False

/-- A committing member stays in its view, and counts COMMIT votes against a quorum that holds
most of the honest members. -/
def Cautious (setting : Setting) (s : Swarm) : SwarmEvent → Prop
  | .deliver a call =>
    (s.node a).phase = .committing →
      (s.node a).enters call = none
        ∧ (IsCommitVote call → MajorityQuorum setting (s.node a))
  | .propose _ _ _ _ => True

instance (setting : Setting) (s : Swarm) (call : Consensus.Call) :
    Decidable (Authentic setting s call) :=
  match call with
  | .proposal _ _ => inferInstanceAs (Decidable (_ ∧ _))
  | .vote _ _ _ _ => inferInstanceAs (Decidable (_ ∧ _))
  | .changeView _ | .tick | .isolation _ => .isTrue trivial

instance (cr : Crypto) (setting : Setting) (s : Swarm) (e : SwarmEvent) :
    Decidable (Admitted cr setting s e) :=
  match e with
  | .deliver _ _ => inferInstanceAs (Decidable (_ ∧ _))
  | .propose _ _ _ _ => inferInstanceAs (Decidable (_ ∧ _ ∧ _ ∧ _))

instance (call : Consensus.Call) : Decidable (IsCommitVote call) :=
  match call with
  | .vote kind _ _ _ => inferInstanceAs (Decidable (kind = "commit"))
  | .proposal _ _ | .changeView _ | .tick | .isolation _ => .isFalse id

instance (setting : Setting) (c : Consensus) : Decidable (MajorityQuorum setting c) :=
  inferInstanceAs (Decidable (_ < _))

instance (setting : Setting) (s : Swarm) (e : SwarmEvent) : Decidable (Cautious setting s e) :=
  match e with
  | .deliver _ _ => inferInstanceAs (Decidable (_ → _ ∧ (_ → _)))
  | .propose _ _ _ _ => .isTrue trivial

/-! ## What an honest member has done -/

variable {cr : Crypto} {setting : Setting}

/-- A counted COMMIT: of a Byzantine member that is not isolated, or sent by an honest one. -/
def Counted (setting : Setting) (sent : List (String × Consensus.VoteBody)) (c : Consensus)
    (hash voter : String) : Prop :=
  (voter ∈ setting.byzantine \ c.isolated)
    ∨ (voter ∈ setting.honest ∧ (voter, ⟨"commit", c.view, hash⟩) ∈ sent)

/-- The honest members that sent a COMMIT for a block in a view. -/
def committersOf (setting : Setting) (sent : List (String × Consensus.VoteBody)) (view : UInt32)
    (hash : String) : Finset String :=
  setting.honest.filter fun x => (x, ⟨"commit", view, hash⟩) ∈ sent

/-- Most of the honest members committed to the block in one view. -/
def Backed (setting : Setting) (sent : List (String × Consensus.VoteBody)) (hash : String) :
    Prop :=
  ∃ view, setting.honest.card < 2 * (committersOf setting sent view hash).card

/-- What is true of an honest member: its tables hold votes that were sent, it is still in the
round of its COMMIT, or decided, and its decision has most honest members behind it. -/
structure MemberInv (setting : Setting) (sent : List (String × Consensus.VoteBody)) (a : String)
    (c : Consensus) : Prop where
  me : c.me = a
  proposal : c.phase = .prepared ∨ c.phase = .committing → c.proposal ≠ none
  counted : ∀ hash, ∀ voter ∈ c.commitVotes hash, Counted setting sent c hash voter
  spent : ∀ view hash, (a, ⟨"commit", view, hash⟩) ∈ sent →
    c.phase = .committing ∨ c.decided.isSome
  backed : ∀ hash, c.decided = some hash → Backed setting sent hash

theorem Counted.mono {sent sent' : List (String × Consensus.VoteBody)} {c : Consensus}
    {hash voter : String} (h : Counted setting sent c hash voter) (hsub : sent ⊆ sent') :
    Counted setting sent' c hash voter :=
  h.imp_right fun ⟨hhonest, hsent⟩ => ⟨hhonest, hsub hsent⟩

theorem Backed.mono {sent sent' : List (String × Consensus.VoteBody)} {hash : String}
    (h : Backed setting sent hash) (hsub : sent ⊆ sent') : Backed setting sent' hash := by
  obtain ⟨view, hcard⟩ := h
  refine ⟨view, hcard.trans_le (Nat.mul_le_mul_left 2 (Finset.card_le_card ?_))⟩
  exact Finset.monotone_filter_right _ fun x _ hx => hsub hx

/-- What others send changes nothing for a member. -/
theorem MemberInv.mono {sent sent' : List (String × Consensus.VoteBody)} {a : String}
    {c : Consensus} (h : MemberInv setting sent a c) (hsub : sent ⊆ sent')
    (hown : ∀ vote, (a, vote) ∈ sent' → (a, vote) ∈ sent) : MemberInv setting sent' a c where
  me := h.me
  proposal := h.proposal
  counted hash voter hvoter := (h.counted hash voter hvoter).mono hsub
  spent view hash hsent := h.spent view hash (hown _ hsent)
  backed hash hdecided := (h.backed hash hdecided).mono hsub

/-- Entering a view empties the tables; the member is not in the middle of a commitment. -/
theorem MemberInv.inView {sent : List (String × Consensus.VoteBody)} {a : String} {c : Consensus}
    {call : Consensus.Call} (h : MemberInv setting sent a c)
    (hstay : c.phase = .committing → c.enters call = none) :
    MemberInv setting sent a (c.inView call) := by
  cases hview : c.enters call with
  | none => rwa [Consensus.inView_of_enters_none hview]
  | some view =>
    obtain ⟨isolated, -, heq⟩ := Consensus.inView_of_enters_some hview
    rw [heq]
    refine ⟨h.me, fun hphase => ?_, nofun, ?_, h.backed⟩
    · rcases hphase with hphase | hphase
      · exact absurd hphase nofun
      · exact absurd hphase nofun
    intro view' hash hsent
    rcases h.spent view' hash hsent with hphase | hdecided
    · exact absurd ((hstay hphase).symm.trans hview) nofun
    · exact Or.inr hdecided

theorem Counted.congr {sent : List (String × Consensus.VoteBody)} {c c' : Consensus}
    {hash voter : String} (h : Counted setting sent c hash voter)
    (hisolated : c'.isolated = c.isolated) (hview : c'.view = c.view) :
    Counted setting sent c' hash voter := by
  unfold Counted at h ⊢
  rwa [hisolated, hview]

/-- A vote that joins a table is one that can be counted. -/
theorem counted_recordCommit {sent : List (String × Consensus.VoteBody)} {c : Consensus}
    {hash frm : String}
    (h : ∀ hash', ∀ voter ∈ c.commitVotes hash', Counted setting sent c hash' voter)
    (hfrm : Counted setting sent c hash frm) (hash' : String) :
    ∀ voter ∈ (c.recordCommit hash frm).commitVotes hash',
      Counted setting sent c hash' voter := by
  intro voter hvoter
  simp only [Consensus.recordCommit, Function.update_apply] at hvoter
  split at hvoter
  · next heq =>
    subst heq
    rcases Finset.mem_insert.mp hvoter with rfl | hold
    · exact hfrm
    · exact h hash' voter hold
  · exact h hash' voter hvoter

/-- A quorum of counted votes has most of the honest members in it. -/
theorem backed_of_quorum {sent : List (String × Consensus.VoteBody)} {c : Consensus}
    {hash : String} {voters : Finset String}
    (hvoters : ∀ voter ∈ voters, Counted setting sent c hash voter)
    (hquorum : c.quorum ≤ voters.card) (hmajority : MajorityQuorum setting c) :
    Backed setting sent hash := by
  refine ⟨c.view, ?_⟩
  have hsub : voters ⊆ (setting.byzantine \ c.isolated)
      ∪ committersOf setting sent c.view hash := by
    intro voter hvoter
    rw [Finset.mem_union]
    exact (hvoters voter hvoter).imp_right fun h => Finset.mem_filter.mpr h
  have hcard := (Finset.card_le_card hsub).trans (Finset.card_union_le _ _)
  unfold MajorityQuorum at hmajority
  omega

/-- **What one call leaves of a member**, in the view it works in. -/
theorem MemberInv.within {sent : List (String × Consensus.VoteBody)} {a : String}
    {c c' : Consensus} {call : Consensus.Call} {votes : List Consensus.VoteBody}
    (ha : a ∈ setting.honest) (h : MemberInv setting sent a c)
    (hauthentic : ∀ frm view hash, call = .vote "commit" frm view hash →
      frm ∈ setting.byzantine
        ∨ (frm ∈ setting.honest ∧ (frm, ⟨"commit", view, hash⟩) ∈ sent))
    (hmajority : c.phase = .committing → IsCommitVote call → MajorityQuorum setting c)
    (hstep : Consensus.Within cr c call votes c') :
    MemberInv setting (sent ++ votes.map fun vote => (a, vote)) a c' := by
  have hfrm {frm hash : String} (hcall : call = .vote "commit" frm c.view hash)
      (hlive : frm ∉ c.isolated) : Counted setting sent c hash frm := by
    rcases hauthentic _ _ _ hcall with hbyzantine | hhonest
    · exact Or.inl (Finset.mem_sdiff.mpr ⟨hbyzantine, hlive⟩)
    · exact Or.inr hhonest
  cases hstep with
  | quiet hsame =>
    rw [List.map_nil, List.append_nil]
    refine ⟨hsame.me.trans h.me, ?_, ?_, ?_, ?_⟩
    · rw [hsame.phase, hsame.proposal]
      exact h.proposal
    · intro hash voter hvoter
      rw [hsame.commitVotes] at hvoter
      exact (h.counted hash voter hvoter).congr hsame.isolated hsame.view
    · rw [hsame.phase, hsame.decided]
      exact h.spent
    · rw [hsame.decided]
      exact h.backed
  | accepted hdecided hview hfresh hsame =>
    -- nothing was proposed, so the member had not committed in this view
    have hnot : ∀ view hash, (a, ⟨"commit", view, hash⟩) ∉ sent := by
      intro view hash hsent
      rcases h.spent view hash hsent with hphase | hsome
      · exact h.proposal (Or.inr hphase) hfresh
      · rw [hdecided] at hsome
        exact absurd hsome nofun
    refine ⟨hsame.me.trans h.me, ?_, ?_, ?_, ?_⟩
    · rw [hsame.proposal]
      exact fun _ => nofun
    · intro hash voter hvoter
      rw [hsame.commitVotes] at hvoter
      exact ((h.counted hash voter hvoter).congr hsame.isolated hsame.view).mono
        (List.subset_append_left _ _)
    · intro view hash hsent
      rcases List.mem_append.mp hsent with hold | hnew
      · exact absurd hold (hnot view hash)
      · simp at hnew
    · intro hash hhash
      rw [hsame.decided] at hhash
      exact (h.backed hash hhash).mono (List.subset_append_left _ _)
  | @recorded frm hash _ hlive hsame =>
    rw [List.map_nil, List.append_nil]
    refine ⟨hsame.me.trans h.me, ?_, ?_, ?_, ?_⟩
    · rw [hsame.phase, hsame.proposal]
      exact h.proposal
    · intro hash' voter hvoter
      rw [hsame.commitVotes] at hvoter
      exact (counted_recordCommit h.counted (hfrm rfl hlive) hash' voter hvoter).congr
        hsame.isolated hsame.view
    · rw [hsame.phase, hsame.decided]
      exact h.spent
    · rw [hsame.decided]
      exact h.backed
  | @committed frm hash _ hdecided hphase hhash hsame =>
    have hsub : sent ⊆ sent ++ [(a, (⟨"commit", c.view, hash⟩ : Consensus.VoteBody))] :=
      List.subset_append_left _ _
    refine ⟨hsame.me.trans h.me, ?_, ?_, ?_, ?_⟩
    · rw [hsame.proposal]
      exact fun _ => h.proposal (Or.inl hphase)
    · intro hash' voter hvoter
      rw [hsame.commitVotes] at hvoter
      have hmine : Counted setting (sent ++ [(a, ⟨"commit", c.view, hash⟩)]) c hash c.me := by
        rw [h.me]
        exact Or.inr ⟨ha, by simp⟩
      exact (counted_recordCommit (fun hash voter hv => (h.counted hash voter hv).mono hsub)
        hmine hash' voter hvoter).congr hsame.isolated hsame.view
    · intro _ _ _
      exact Or.inl hsame.phase
    · intro hash' hhash'
      rw [hsame.decided] at hhash'
      exact (h.backed hash' hhash').mono hsub
  | @decides frm hash _ hlive hdecided hphase hhash hquorum hsame =>
    rw [List.map_nil, List.append_nil]
    have hvoters := counted_recordCommit h.counted (hfrm rfl hlive) hash
    refine ⟨hsame.me.trans h.me, ?_, ?_, ?_, ?_⟩
    · rw [hsame.phase]
      exact fun hp => by rcases hp with hp | hp <;> exact absurd hp nofun
    · intro hash' voter hvoter
      rw [hsame.commitVotes] at hvoter
      exact (counted_recordCommit h.counted (hfrm rfl hlive) hash' voter hvoter).congr
        hsame.isolated hsame.view
    · intro _ _ _
      rw [hsame.decided]
      exact Or.inr rfl
    · intro hash' hhash'
      rw [hsame.decided] at hhash'
      obtain rfl := Option.some.inj hhash'
      exact backed_of_quorum hvoters hquorum (hmajority hphase rfl)

/-- A call directs at most one COMMIT, and only of a member that has sent none. -/
theorem directed_commit {sent : List (String × Consensus.VoteBody)} {a : String}
    {c c' : Consensus} {call : Consensus.Call} {votes : List Consensus.VoteBody}
    (h : MemberInv setting sent a c) (hstep : Consensus.Within cr c call votes c')
    {view : UInt32} {hash : String} (hvote : ⟨"commit", view, hash⟩ ∈ votes) :
    votes = [⟨"commit", view, hash⟩] ∧ ∀ view' hash', (a, ⟨"commit", view', hash'⟩) ∉ sent := by
  cases hstep with
  | quiet => exact absurd hvote List.not_mem_nil
  | recorded => exact absurd hvote List.not_mem_nil
  | decides => exact absurd hvote List.not_mem_nil
  | accepted => simp at hvote
  | committed hdecided hphase =>
    rw [List.mem_singleton] at hvote
    rw [hvote]
    refine ⟨rfl, ?_⟩
    intro view' hash' hsent
    rcases h.spent view' hash' hsent with hcommitting | hsome
    · exact absurd (hphase.symm.trans hcommitting) nofun
    · rw [hdecided] at hsome
      exact absurd hsome nofun

/-- What is true of the swarm: of each honest member, and that it commits once. -/
structure SwarmInv (setting : Setting) (s : Swarm) : Prop where
  member : ∀ a ∈ setting.honest, MemberInv setting s.sent a (s.node a)
  once : ∀ a ∈ setting.honest, ∀ view hash view' hash', (a, ⟨"commit", view, hash⟩) ∈ s.sent →
    (a, ⟨"commit", view', hash'⟩) ∈ s.sent → hash = hash'

theorem swarmInv_start : SwarmInv setting (start setting) where
  member _ _ :=
    { me := rfl
      proposal := fun h => by rcases h with h | h <;> exact absurd h nofun
      counted := nofun
      spent := nofun
      backed := nofun }
  once := nofun

/-- What an authentic call says of the COMMIT it carries. -/
theorem authentic_commit {s : Swarm} {call : Consensus.Call} (h : Authentic setting s call)
    (frm : String) (view : UInt32) (hash : String) (hcall : call = .vote "commit" frm view hash) :
    frm ∈ setting.byzantine
      ∨ (frm ∈ setting.honest ∧ (frm, ⟨"commit", view, hash⟩) ∈ s.sent) := by
  subst hcall
  obtain ⟨hmember, hsender⟩ := h
  by_cases hbyzantine : frm ∈ setting.byzantine
  · exact Or.inl hbyzantine
  · exact Or.inr ⟨Finset.mem_sdiff.mpr ⟨List.mem_toFinset.mpr hmember, hbyzantine⟩,
      hsender.resolve_left hbyzantine⟩

/-- **One event** of a cautious run keeps what is true of the swarm. -/
theorem SwarmInv.next {s : Swarm} {e : SwarmEvent} (h : SwarmInv setting s)
    (hadmitted : Admitted cr setting s e) (hcautious : Cautious setting s e) :
    SwarmInv setting (s.next cr e) := by
  cases e with
  | propose => exact ⟨h.member, h.once⟩
  | deliver a call =>
    obtain ⟨ha, hauthentic⟩ := hadmitted
    have hin := (h.member a ha).inView fun hphase => (hcautious hphase).1
    have hstep := @Consensus.next_within cr (s.node a) call
    have hmajority : ((s.node a).inView call).phase = .committing → IsCommitVote call →
        MajorityQuorum setting ((s.node a).inView call) := by
      -- a member that enters a view is not committing in it
      cases hview : (s.node a).enters call with
      | none =>
        rw [Consensus.inView_of_enters_none hview]
        exact fun hphase => (hcautious hphase).2
      | some view =>
        obtain ⟨isolated, -, heq⟩ := Consensus.inView_of_enters_some hview
        rw [heq]
        exact nofun
    have hmember := hin.within ha (authentic_commit hauthentic) hmajority hstep
    constructor
    · intro b hb
      by_cases hba : b = a
      · subst hba
        simp only [Swarm.next, Function.update_self]
        exact hmember
      · simp only [Swarm.next, Function.update_of_ne hba]
        refine (h.member b hb).mono (List.subset_append_left _ _) ?_
        intro vote hvote
        rcases List.mem_append.mp hvote with hold | hnew
        · exact hold
        · obtain ⟨_, -, hmine⟩ := List.mem_map.mp hnew
          exact absurd (congrArg Prod.fst hmine).symm hba
    · intro b hb view hash view' hash' hvote hvote'
      simp only [Swarm.next] at hvote hvote'
      rcases List.mem_append.mp hvote with hold | hnew <;>
        rcases List.mem_append.mp hvote' with hold' | hnew'
      · exact h.once b hb view hash view' hash' hold hold'
      · obtain ⟨vote, hdirected, hmine⟩ := List.mem_map.mp hnew'
        obtain ⟨rfl, rfl⟩ := Prod.mk.inj hmine
        exact absurd hold ((directed_commit hin hstep hdirected).2 view hash)
      · obtain ⟨vote, hdirected, hmine⟩ := List.mem_map.mp hnew
        obtain ⟨rfl, rfl⟩ := Prod.mk.inj hmine
        exact absurd hold' ((directed_commit hin hstep hdirected).2 view' hash')
      · obtain ⟨vote, hdirected, hmine⟩ := List.mem_map.mp hnew
        obtain ⟨vote', hdirected', hmine'⟩ := List.mem_map.mp hnew'
        obtain ⟨rfl, rfl⟩ := Prod.mk.inj hmine
        obtain ⟨-, rfl⟩ := Prod.mk.inj hmine'
        rw [(directed_commit hin hstep hdirected).1, List.mem_singleton] at hdirected'
        exact congrArg Consensus.VoteBody.hash hdirected'.symm

/-! ## Agreement -/

/-- Two majorities of the honest members share one, and it committed once. -/
theorem SwarmInv.agreement {s : Swarm} (h : SwarmInv setting s) : Agreement setting s := by
  intro a ha b hb hash hash' hdecided hdecided'
  obtain ⟨view, hmost⟩ := (h.member a ha).backed hash hdecided
  obtain ⟨view', hmost'⟩ := (h.member b hb).backed hash' hdecided'
  obtain ⟨x, hx⟩ := Finset.inter_nonempty_of_card_lt_card_add_card
    (s := setting.honest) (Finset.filter_subset _ _) (Finset.filter_subset _ _)
    (show setting.honest.card < (committersOf setting s.sent view hash).card
      + (committersOf setting s.sent view' hash').card by omega)
  obtain ⟨hx₁, hx₂⟩ := Finset.mem_inter.mp hx
  obtain ⟨hhonest, hsent⟩ := Finset.mem_filter.mp hx₁
  exact h.once x hhonest view hash view' hash' hsent (Finset.mem_filter.mp hx₂).2

/-- **Agreement of cautious runs**: where no committing member enters another view and every
counted quorum holds most of the honest members, honest members decide one block. -/
theorem agreement_of_cautious (cr : Crypto) (setting : Setting) (events : List SwarmEvent)
    (hadmitted : Along (next cr) (Admitted cr setting) (start setting) events)
    (hcautious : Along (next cr) (Cautious setting) (start setting) events) :
    Agreement setting (run (next cr) (start setting) events) := by
  have hinv : SwarmInv setting (run (next cr) (start setting) events) :=
    Along.invariant (fun _ _ hI hP => hI.next hP.1 hP.2) swarmInv_start
      (along_and.mpr ⟨hadmitted, hcautious⟩)
  exact hinv.agreement

/-! ## Runs of four honest nodes -/

def fourHonest : Setting where
  membership := fourNodes
  nodup := by decide
  byzantine := ∅
  byzantine_subset := Finset.empty_subset _
  byzantine_card := Nat.zero_le _
  viewTimeoutTicks _ := 1

/-- The speaker's empty block reaches some nodes. -/
def proposes (speaker : String) (view : UInt32) (receivers : List String) : List SwarmEvent :=
  .propose speaker [] [] .new
    :: receivers.map fun a => .deliver a (.proposal speaker (emptyBlock view))

/-- One node counts the votes of others for the block of a view. -/
def counts (a kind : String) (view : UInt32) (voters : List String) : List SwarmEvent :=
  voters.map fun x => .deliver a (.vote kind x view ((emptyBlock view).hash checksumCrypto))

/-- Three nodes commit to the block of view 0, and `a` decides it. -/
def firstDecision : List SwarmEvent :=
  proposes "b" 0 ["a", "b", "c"]
    ++ counts "a" "prepare" 0 ["b", "c"] ++ counts "b" "prepare" 0 ["a", "c"]
    ++ counts "c" "prepare" 0 ["a", "b"] ++ counts "a" "commit" 0 ["b", "c"]

/-- The others time out; two of them have committed. They decide the block of view 1. -/
def secondDecision : List SwarmEvent :=
  ["b", "c", "d"].map (fun a => .deliver a .tick) ++ proposes "c" 1 ["b", "c", "d"]
    ++ counts "b" "prepare" 1 ["c", "d"] ++ counts "c" "prepare" 1 ["b", "d"]
    ++ counts "d" "prepare" 1 ["b", "c"] ++ counts "b" "commit" 1 ["c", "d"]

/-- Without the timeouts the swarm is cautious, and `b` decides as `a` did. -/
theorem agreement_first_decision :
    Agreement fourHonest (run (next checksumCrypto) (start fourHonest)
      (firstDecision ++ counts "b" "commit" 0 ["a", "c"]))
    ∧ ((run (next checksumCrypto) (start fourHonest)
      (firstDecision ++ counts "b" "commit" 0 ["a", "c"])).node "b").decided.isSome := by
  -- one evaluation of the run for all three facts
  have hrun : Along (next checksumCrypto) (Admitted checksumCrypto fourHonest) (start fourHonest)
        (firstDecision ++ counts "b" "commit" 0 ["a", "c"])
      ∧ Along (next checksumCrypto) (Cautious fourHonest) (start fourHonest)
        (firstDecision ++ counts "b" "commit" 0 ["a", "c"])
      ∧ ((run (next checksumCrypto) (start fourHonest)
        (firstDecision ++ counts "b" "commit" 0 ["a", "c"])).node "b").decided.isSome := by
    decide +kernel
  exact ⟨agreement_of_cautious checksumCrypto fourHonest _ hrun.1 hrun.2.1, hrun.2.2⟩

/-- **Four honest nodes decide two blocks.** -/
theorem agreement_broken_by_timeouts :
    Along (next checksumCrypto) (Admitted checksumCrypto fourHonest) (start fourHonest)
      (firstDecision ++ secondDecision)
    ∧ ¬ Agreement fourHonest (run (next checksumCrypto) (start fourHonest)
      (firstDecision ++ secondDecision)) := by
  have hrun : Along (next checksumCrypto) (Admitted checksumCrypto fourHonest) (start fourHonest)
        (firstDecision ++ secondDecision)
      ∧ ((run (next checksumCrypto) (start fourHonest)
        (firstDecision ++ secondDecision)).node "a").decided
          = some ((emptyBlock 0).hash checksumCrypto)
      ∧ ((run (next checksumCrypto) (start fourHonest)
        (firstDecision ++ secondDecision)).node "b").decided
          = some ((emptyBlock 1).hash checksumCrypto)
      ∧ (emptyBlock 0).hash checksumCrypto ≠ (emptyBlock 1).hash checksumCrypto := by
    decide +kernel
  obtain ⟨hadmitted, hfirst, hsecond, hne⟩ := hrun
  refine ⟨hadmitted, ?_⟩
  intro hagree
  exact hne (hagree "a" (by decide) "b" (by decide) _ _ hfirst hsecond)

end Swarm

end DiscCleaner.Mesh
