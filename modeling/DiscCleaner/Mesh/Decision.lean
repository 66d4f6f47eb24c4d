import DiscCleaner.Mesh.Consensus

/-!
# DiscCleaner — what happens to a decision (`consensus.rs`)

`enterView` drops the proposal and the vote tables and leaves `decided` as it is, and neither a
vote of a later view nor an isolation looks at `decided` before it enters a view. A run keeps
its decision, with its block, view and committers, exactly when no call enters a view once the
decision is made.
-/

namespace DiscCleaner.Mesh.Consensus

open TransitionLib

variable (cr : Crypto)

/-! ## Stable decisions -/

/-- `block()`. -/
def block (c : Consensus) : Option Block := c.proposal

/-- The decision of `c` survives in `c'`: the same hash, at least the same committers, and a
block with that hash in the view of the node. -/
structure DecisionKept (c c' : Consensus) : Prop where
  decision : ∃ hash committers committers', c.decision = some (hash, committers)
    ∧ c'.decision = some (hash, committers') ∧ committers ⊆ committers'
  block : ∃ b, c'.block = some b ∧ c'.decided = some (b.hash cr) ∧ c'.view = b.view

/-- Every decision of a run is kept by what follows it, with the quorum it was made by. -/
structure DecisionStable (start : Consensus) (calls : List Call) : Prop where
  kept : ∀ before after, before ++ after <+: calls →
    (run (next cr) start before).decided.isSome →
    DecisionKept cr (run (next cr) start before) (run (next cr) start (before ++ after))
  quorum : ∀ before call after, before ++ call :: after <+: calls →
    (run (next cr) start before).decided = none →
    (next cr (run (next cr) start before) call).decided.isSome →
    (run (next cr) start before).quorum
      ≤ (run (next cr) start (before ++ call :: after)).committers.card

/-- Once decided, the node stays in its view. -/
def StaysInView (c : Consensus) (call : Call) : Prop := c.decided.isSome → c.enters call = none

instance (c : Consensus) (call : Call) : Decidable (StaysInView c call) :=
  inferInstanceAs (Decidable (_ → _))

/-! ## The proposal of a reachable state -/

/-- The stored hash is the proposal's, and the proposal is of the node's view. -/
structure ProposalSound (c : Consensus) : Prop where
  hash : c.proposalHash = c.proposal.map (Block.hash cr)
  view : ∀ b, c.proposal = some b → b.view = c.view

variable {cr}

theorem ProposalSound.of_eq {c c' : Consensus} (hc : ProposalSound cr c)
    (hproposal : c'.proposal = c.proposal) (hhash : c'.proposalHash = c.proposalHash)
    (hview : c'.view = c.view) : ProposalSound cr c' where
  hash := by rw [hhash, hproposal, hc.hash]
  view b hb := by rw [hview]; exact hc.view b (hproposal ▸ hb)

theorem ProposalSound.inView {c : Consensus} (hc : ProposalSound cr c) (call : Call) :
    ProposalSound cr (c.inView call) := by
  cases h : c.enters call with
  | none => rwa [inView_of_enters_none h]
  | some view =>
    obtain ⟨isolated, -, heq⟩ := inView_of_enters_some h
    rw [heq]
    exact ⟨rfl, nofun⟩

theorem ProposalSound.next {c : Consensus} (hc : ProposalSound cr c) (call : Call) :
    ProposalSound cr (c.next cr call) := by
  have hin := hc.inView call
  have hstep := @next_within cr c call
  generalize c.inView call = c₁ at hin hstep
  generalize c.directs cr call = sent at hstep
  cases hstep with
  | quiet h => exact hin.of_eq h.proposal h.proposalHash h.view
  | recorded _ h => exact hin.of_eq h.proposal h.proposalHash h.view
  | committed _ _ _ h => exact hin.of_eq h.proposal h.proposalHash h.view
  | decides _ _ _ _ _ h => exact hin.of_eq h.proposal h.proposalHash h.view
  | accepted _ hview _ h =>
    refine ⟨by rw [h.proposalHash, h.proposal]; rfl, ?_⟩
    intro b hb
    rw [h.proposal] at hb
    obtain rfl := Option.some.inj hb
    rw [h.view]
    exact hview

/-! ## Calls on a decided node -/

/-- On a decided node a call that enters no view can only add a committer. -/
theorem next_of_decided {c : Consensus} {hash : String} {call : Call}
    (hdecided : c.decided = some hash) (hstay : c.enters call = none) :
    (c.next cr call).decided = some hash ∧ (c.next cr call).view = c.view
      ∧ (c.next cr call).proposal = c.proposal
      ∧ (c.next cr call).proposalHash = c.proposalHash
      ∧ c.commitVotes hash ⊆ (c.next cr call).commitVotes hash := by
  have hstep := @next_within cr c call
  rw [inView_of_enters_none hstay] at hstep
  generalize c.next cr call = c' at hstep
  generalize c.directs cr call = sent at hstep
  cases hstep with
  | quiet h =>
    exact ⟨h.decided.trans hdecided, h.view, h.proposal, h.proposalHash, by rw [h.commitVotes]⟩
  | recorded hfrm h =>
    refine ⟨h.decided.trans hdecided, h.view, h.proposal, h.proposalHash, ?_⟩
    rw [h.commitVotes]
    simp only [recordCommit, Function.update_apply]
    split
    · next heq => exact heq ▸ Finset.subset_insert _ _
    · exact subset_rfl
  | accepted hnone => exact absurd (hdecided.symm.trans hnone) (Option.some_ne_none hash)
  | committed hnone => exact absurd (hdecided.symm.trans hnone) (Option.some_ne_none hash)
  | decides _ hnone => exact absurd (hdecided.symm.trans hnone) (Option.some_ne_none hash)

/-- A call that enters a view leaves a decided node without a proposal. -/
theorem next_of_entered {c : Consensus} {call : Call} {view : UInt32}
    (hdecided : c.decided.isSome) (h : c.enters call = some view) :
    (c.next cr call).proposal = none := by
  obtain ⟨isolated, -, heq⟩ := inView_of_enters_some h
  have hstep := @next_within cr c call
  rw [heq] at hstep
  generalize c.next cr call = c' at hstep
  generalize c.directs cr call = sent at hstep
  cases hstep with
  | quiet h => exact h.proposal
  | recorded _ h => exact h.proposal
  | accepted hnone =>
    rw [show c.decided = none from hnone] at hdecided
    exact absurd hdecided nofun
  | committed hnone hphase => exact absurd hphase nofun
  | decides _ hnone hphase => exact absurd hphase nofun

/-- The call that decides: its quorum is on record, and the decision is the proposal. -/
theorem next_decides {c : Consensus} {call : Call} (hnone : c.decided = none)
    (hsome : (c.next cr call).decided.isSome) :
    (c.next cr call).proposalHash = (c.next cr call).decided
      ∧ c.quorum ≤ (c.next cr call).committers.card := by
  have hin : (c.inView call).decided = none ∧ ((c.inView call).phase = .committing →
      c.inView call = c) := by
    cases h : c.enters call with
    | none => rw [inView_of_enters_none h]; exact ⟨hnone, fun _ => rfl⟩
    | some view =>
      obtain ⟨isolated, -, heq⟩ := inView_of_enters_some h
      rw [heq]
      exact ⟨hnone, nofun⟩
  have hstep := @next_within cr c call
  generalize c.next cr call = c' at hstep hsome
  generalize c.inView call = c₁ at hin hstep
  generalize c.directs cr call = sent at hstep
  obtain ⟨hnone₁, hsame⟩ := hin
  have hundecided (h : c'.decided = c₁.decided) : False := by
    rw [h, hnone₁] at hsome
    exact absurd hsome nofun
  cases hstep with
  | quiet h => exact (hundecided h.decided).elim
  | accepted _ _ _ h => exact (hundecided h.decided).elim
  | recorded _ h => exact (hundecided h.decided).elim
  | committed _ _ _ h => exact (hundecided h.decided).elim
  | decides hfrm _ hphase hhash hquorum h =>
    -- a node that is committing has not just entered the view, so the quorum is the one of `c`
    obtain rfl := hsame hphase
    refine ⟨?_, ?_⟩
    · rw [h.proposalHash, h.decided]
      exact hhash
    · simp only [committers, h.decided, h.commitVotes]
      exact hquorum

/-! ## Runs that stay in the deciding view -/

/-- A sound proposal that is the decision, if there is one. -/
structure Settled (cr : Crypto) (c : Consensus) : Prop where
  sound : ProposalSound cr c
  decision : c.decided.isSome → c.proposalHash = c.decided

theorem settled_new (me : String) (membership : Membership) (viewTimeoutTicks : UInt32) :
    Settled cr (new me membership viewTimeoutTicks) :=
  ⟨⟨rfl, nofun⟩, nofun⟩

theorem Settled.next {c : Consensus} {call : Call} (hc : Settled cr c)
    (hstay : StaysInView c call) : Settled cr (c.next cr call) := by
  refine ⟨hc.sound.next call, ?_⟩
  intro hsome
  cases hdecided : c.decided with
  | none => exact (next_decides hdecided hsome).1
  | some hash =>
    have hisSome : c.decided.isSome := by rw [hdecided]; rfl
    obtain ⟨hkept, -, -, hhash, -⟩ :=
      @next_of_decided cr _ _ call hdecided (hstay hisSome)
    rw [hhash, hkept, hc.decision hisSome, hdecided]

/-- The proposal of a settled node that decided. -/
theorem Settled.block {c : Consensus} (hc : Settled cr c) {hash : String}
    (hdecided : c.decided = some hash) :
    ∃ b, c.block = some b ∧ b.hash cr = hash ∧ c.view = b.view := by
  have hhash := hc.decision (by rw [hdecided]; rfl)
  rw [hc.sound.hash, hdecided] at hhash
  obtain ⟨b, hb, hbhash⟩ := Option.map_eq_some_iff.mp hhash
  exact ⟨b, hb, hbhash, (hc.sound.view b hb).symm⟩

/-- What a run from a decided state keeps while it stays in the view. -/
theorem run_of_decided {c : Consensus} {hash : String} {calls : List Call}
    (hdecided : c.decided = some hash) (hstay : Along (next cr) StaysInView c calls) :
    (run (next cr) c calls).decided = some hash
      ∧ c.commitVotes hash ⊆ (run (next cr) c calls).commitVotes hash := by
  refine Along.invariant (I := fun c' => c'.decided = some hash
    ∧ c.commitVotes hash ⊆ c'.commitVotes hash) ?_ ⟨hdecided, subset_rfl⟩ hstay
  intro c' call hI hcall
  have hisSome : c'.decided.isSome := by rw [hI.1]; rfl
  obtain ⟨hkept, -, -, -, hgrow⟩ :=
    @next_of_decided cr _ _ call hI.1 (hcall hisSome)
  exact ⟨hkept, hI.2.trans hgrow⟩

theorem decisionKept_of_stays {c : Consensus} {calls : List Call} (hc : Settled cr c)
    (hdecided : c.decided.isSome) (hstay : Along (next cr) StaysInView c calls) :
    DecisionKept cr c (run (next cr) c calls) := by
  obtain ⟨hash, hhash⟩ := Option.isSome_iff_exists.mp hdecided
  obtain ⟨hkept, hgrow⟩ := run_of_decided hhash hstay
  have hend : Settled cr (run (next cr) c calls) :=
    Along.invariant (fun _ _ hI hcall => hI.next hcall) hc hstay
  obtain ⟨b, hb, hbhash, hview⟩ := hend.block hkept
  refine ⟨⟨hash, _, _, by rw [decision, hhash]; rfl, by rw [decision, hkept]; rfl, ?_⟩,
    b, hb, by rw [hkept, hbhash], hview⟩
  intro a ha
  exact (Finset.mem_sort _).mpr (hgrow ((Finset.mem_sort _).mp ha))

theorem committers_of_stays {c : Consensus} {calls : List Call} (hdecided : c.decided.isSome)
    (hstay : Along (next cr) StaysInView c calls) :
    c.committers.card ≤ (run (next cr) c calls).committers.card := by
  obtain ⟨hash, hhash⟩ := Option.isSome_iff_exists.mp hdecided
  obtain ⟨hkept, hgrow⟩ := run_of_decided hhash hstay
  simp only [committers, hhash, hkept]
  exact Finset.card_le_card hgrow

/-- The condition along a run holds along each of its beginnings. -/
theorem along_of_isPrefix {P : Consensus → Call → Prop} {c : Consensus} {calls all : List Call}
    (h : calls <+: all) (hall : Along (next cr) P c all) : Along (next cr) P c calls := by
  obtain ⟨rest, rfl⟩ := h
  exact (along_append.mp hall).1

theorem DecisionStable.of_stays {start : Consensus} {calls : List Call} (hc : Settled cr start)
    (hstay : Along (next cr) StaysInView start calls) : DecisionStable cr start calls where
  kept before after hcut hdecided := by
    obtain ⟨hbefore, hafter⟩ := along_append.mp (along_of_isPrefix hcut hstay)
    rw [run_append]
    exact decisionKept_of_stays
      (Along.invariant (fun _ _ hI hcall => hI.next hcall) hc hbefore) hdecided hafter
  quorum before call after hcut hnone hsome := by
    obtain ⟨-, -, hafter⟩ := along_append.mp (along_of_isPrefix hcut hstay)
    rw [run_append, run_cons]
    exact (next_decides hnone hsome).2.trans (committers_of_stays hsome hafter)

/-- **A decision is stable exactly in the runs that enter no view after it.** -/
theorem decisionStable_iff (cr : Crypto) (me : String) (membership : Membership)
    (viewTimeoutTicks : UInt32) (calls : List Call) :
    DecisionStable cr (new me membership viewTimeoutTicks) calls
      ↔ Along (next cr) StaysInView (new me membership viewTimeoutTicks) calls := by
  constructor
  · intro hstable
    rw [along_iff_split]
    intro before call after hcalls hdecided
    by_contra hentered
    obtain ⟨view, hview⟩ := Option.ne_none_iff_exists'.mp hentered
    -- the call that enters a view leaves no block behind
    have hkept := hstable.kept before [call] ⟨after, by rw [hcalls]; simp⟩ hdecided
    obtain ⟨b, hb, -⟩ := hkept.block
    rw [run_concat] at hb
    have hgone := @next_of_entered cr _ _ _ hdecided hview
    exact absurd (hb.symm.trans hgone) nofun
  · exact DecisionStable.of_stays (settled_new me membership viewTimeoutTicks)

/-- Two members vote with node `a` for the block of the first speaker, and `a` decides it. -/
def decidingCalls : List Call :=
  let hash := (emptyBlock 0).hash checksumCrypto
  [.proposal "b" (emptyBlock 0), .vote "prepare" "b" 0 hash, .vote "prepare" "c" 0 hash,
    .vote "commit" "b" 0 hash, .vote "commit" "c" 0 hash]

/-- A PREPARE of a member whose view timed out: it reaches `a` after the decision. -/
def lateVote : Call := .vote "prepare" "d" 1 ((emptyBlock 1).hash checksumCrypto)

/-- One late vote takes the block and the committers of a decision away. -/
theorem decision_lost_to_late_vote :
    ¬ DecisionStable checksumCrypto (new "a" fourNodes 10) (decidingCalls ++ [lateVote]) := by
  intro hstable
  have hdecided : (run (next checksumCrypto) (new "a" fourNodes 10) decidingCalls).decided.isSome :=
    by decide +kernel
  obtain ⟨b, hb, -⟩ :=
    (hstable.kept decidingCalls [lateVote] (List.prefix_refl _) hdecided).block
  have hgone : (run (next checksumCrypto) (new "a" fourNodes 10)
      (decidingCalls ++ [lateVote])).block = none := by decide +kernel
  exact absurd (hb.symm.trans hgone) nofun

end DiscCleaner.Mesh.Consensus
