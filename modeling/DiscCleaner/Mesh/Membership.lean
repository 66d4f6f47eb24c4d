import DiscCleaner.Mesh.Discovery
import DiscCleaner.Lib.Transition

/-!
# DiscCleaner — who is in the frozen membership (`discovery.rs`)

Frames with HELLOs and rounds come in any order. The first HELLO of a node registers it, with the
drives it announces then; the membership is the table at the freeze. `ingest` is not told who
signed the frame, so the table is as good as its signers: where every new node is announced in its
own name, every member has announced itself.

* **`ingest_moves`**, **`step_moves`** — what one call can do to the table.
* **`tracks_run`** — the table and the membership over a run.
* **`membership_authentic`** — the membership of a run in which nodes speak for themselves.
-/

namespace DiscCleaner.Mesh

open ByteLib TransitionLib

namespace Discovery

/-- A call: a HELLO in a frame that some key has signed, or a round. A body that is no HELLO is
`none`. -/
inductive Call where
  | ingest (signer : String) (srcMac : Mac) (body : Option HelloBody)
  | step
  deriving DecidableEq

def next (cr : Crypto) (d : Discovery) : Call → Discovery
  | .ingest _ srcMac (some hello) => (d.ingest cr srcMac hello).2
  | .ingest _ _ none => d
  | .step => (d.step cr).2

/-- The first HELLO that names a node. -/
def firstHello (calls : List Call) (node : String) : Option HelloBody :=
  calls.findSome? fun
    | .ingest _ _ (some hello) => if hello.node = node then some hello else none
    | _ => none

/-! ## The table -/

/-- What the membership depends on: each peer's node, drives, and whether it came late. -/
def table (d : Discovery) : List (String × UInt32 × Bool) :=
  d.peers.map fun p => (p.node, p.drives, p.late)

/-- The membership of a node and its peers. -/
def membershipOf (cr : Crypto) (me : HelloBody) (peers : List (String × UInt32 × Bool)) :
    Membership :=
  let nodes := (me.node :: peers.map Prod.fst).insertionSort (· ≤ ·)
  { nodes
    hash := hashOf cr nodes
    totalDrives := (peers.map fun p => p.2.1.toNat).sum + me.drives.toNat
    tolerance := byzantineTolerance nodes.length
    quorum := decisionQuorum nodes.length }

theorem roster_eq (cr : Crypto) (d : Discovery) : d.roster cr = membershipOf cr d.me d.table := by
  have hnodes : d.table.map Prod.fst = d.peers.map PeerInfo.node := by
    rw [table, List.map_map]
    rfl
  have hdrives : (d.table.map fun p => p.2.1.toNat) = d.peers.map fun p => p.drives.toNat := by
    rw [table, List.map_map]
    rfl
  rw [roster, membershipOf, hnodes, hdrives]

theorem peer_isSome_iff (d : Discovery) (node : String) :
    (d.peer node).isSome ↔ node ∈ d.table.map Prod.fst := by
  rw [peer, List.find?_isSome, table, List.map_map, List.mem_map]
  simp

/-- **What a call can do**: the table stays, or a new node is put in front; the membership stays, or
it freezes as the table is then. -/
structure Moves (cr : Crypto) (d : Discovery) (call : Call) (d' : Discovery) : Prop where
  me : d'.me = d.me
  frozen : d'.frozen = d.frozen ∨ d.frozen = none ∧ d'.frozen = some (d'.roster cr)
  table : d'.table = d.table ∨ ∃ signer srcMac hello, call = .ingest signer srcMac (some hello) ∧
    hello.node ≠ d.me.node ∧ d.peer hello.node = none ∧
    d'.table = (hello.node, hello.drives, d.frozen.isSome) :: d.table
  heard : ∀ signer srcMac hello, call = .ingest signer srcMac (some hello) →
    hello.node = d.me.node ∨ hello.node ∈ d'.table.map Prod.fst

variable {cr : Crypto} {d : Discovery}

theorem checkFreeze_frozen (cr : Crypto) (d : Discovery) :
    (d.checkFreeze cr).2.frozen = d.frozen ∨
      d.frozen = none ∧ (d.checkFreeze cr).2.frozen = some (d.roster cr) := by
  unfold checkFreeze
  split
  · exact .inl rfl
  · next hopen =>
    split
    · exact .inr ⟨by simpa using hopen, rfl⟩
    · exact .inl rfl

theorem checkFreeze_peers (cr : Crypto) (d : Discovery) :
    (d.checkFreeze cr).2.me = d.me ∧ (d.checkFreeze cr).2.peers = d.peers := by
  unfold checkFreeze
  split
  · exact ⟨rfl, rfl⟩
  · split <;> exact ⟨rfl, rfl⟩

/-- The membership of a table does not depend on the rest of the state. -/
theorem checkFreeze_moves (cr : Crypto) (d : Discovery) :
    (d.checkFreeze cr).2.frozen = d.frozen ∨
      d.frozen = none ∧ (d.checkFreeze cr).2.frozen = some ((d.checkFreeze cr).2.roster cr) := by
  obtain ⟨hme, hpeers⟩ := checkFreeze_peers cr d
  have hroster : (d.checkFreeze cr).2.roster cr = d.roster cr := by
    rw [roster_eq, roster_eq, table, table, hme, hpeers]
  rw [hroster]
  exact checkFreeze_frozen cr d

theorem table_congr {d' : Discovery} (h : d'.peers = d.peers) : d'.table = d.table := by
  rw [table, table, h]

theorem step_moves (cr : Crypto) (d : Discovery) : d.Moves cr .step (d.step cr).2 := by
  unfold step
  dsimp only
  split
  · exact ⟨rfl, .inl rfl, .inl rfl, nofun⟩
  · show d.Moves cr .step (checkFreeze cr _).2
    obtain ⟨hme, hpeers⟩ := checkFreeze_peers cr { d with
      tick := d.tick + 1
      ticksSinceNewPeer := d.ticksSinceNewPeer + 1
      helloSeq := d.helloSeq + 1 }
    exact ⟨hme, checkFreeze_moves cr _, .inl (table_congr hpeers), nofun⟩

theorem ingest_moves (cr : Crypto) (d : Discovery) (signer : String) (srcMac : Mac)
    (hello : HelloBody) :
    d.Moves cr (.ingest signer srcMac (some hello)) (d.ingest cr srcMac hello).2 := by
  unfold ingest
  split
  · next hself =>
    -- the echo of its own HELLO
    exact ⟨rfl, .inl rfl, .inl rfl, fun _ _ _ h => by cases h; exact .inl hself⟩
  · next hother =>
    split
    · next hknown =>
      -- a known peer is only seen again
      have htable : ({ d with peers := d.peers.map fun p =>
          if p.node = hello.node then { p with lastSeenTick := d.tick } else p } : Discovery).table
          = d.table := by
        rw [table, table, List.map_map]
        refine List.map_congr_left fun p _ => ?_
        dsimp only [Function.comp_apply]
        split <;> rfl
      refine ⟨rfl, .inl rfl, .inl htable, fun _ _ _ h => ?_⟩
      cases h
      rw [htable]
      exact .inr ((d.peer_isSome_iff _).mp hknown)
    · next hnew =>
      replace hnew : d.peer hello.node = none := by simpa using hnew
      dsimp only
      split
      · next hfrozen =>
        refine ⟨rfl, .inl rfl, .inr ⟨signer, srcMac, hello, rfl, hother, hnew, ?_⟩,
          fun _ _ _ h => ?_⟩
        · rw [hfrozen]
          rfl
        · cases h
          exact .inr List.mem_cons_self
      · next hopen =>
        replace hopen : d.frozen.isSome = false := by simpa using hopen
        show d.Moves cr _ (checkFreeze cr _).2
        obtain ⟨hme, hpeers⟩ := checkFreeze_peers cr { d with
          peers := ⟨hello.node, hello.mlDsaPk, srcMac, hello.drives, d.tick, false⟩ :: d.peers
          ticksSinceNewPeer := 0 }
        have htable := table_congr hpeers
        refine ⟨hme, checkFreeze_moves cr _,
          .inr ⟨signer, srcMac, hello, rfl, hother, hnew, ?_⟩, fun _ _ _ h => ?_⟩
        · rw [htable, hopen]
          rfl
        · cases h
          rw [htable]
          exact .inr List.mem_cons_self

theorem next_moves (cr : Crypto) (d : Discovery) (call : Call) :
    d.Moves cr call (d.next cr call) := by
  match call with
  | .ingest signer srcMac (some hello) => exact ingest_moves cr d signer srcMac hello
  | .ingest _ _ none => exact ⟨rfl, .inl rfl, .inl rfl, fun _ _ _ h => by cases h⟩
  | .step => exact step_moves cr d

/-! ## Runs -/

/-- The peers that came before the freeze. -/
def onTime (d : Discovery) : List (String × UInt32 × Bool) := d.table.filter fun p => !p.2.2

theorem mem_onTime {p : String × UInt32 × Bool} : p ∈ d.onTime ↔ p ∈ d.table ∧ p.2.2 = false := by
  rw [onTime, List.mem_filter, Bool.not_eq_true']

/-- A peer that comes before the freeze is on time. -/
theorem Moves.onTime_open {call : Call} {d' : Discovery} (h : d.Moves cr call d')
    (hopen : d.frozen = none) (hall : d.onTime = d.table) : d'.onTime = d'.table := by
  rcases h.table with htable | ⟨_, _, hello, -, -, -, htable⟩
  · rw [onTime, htable]
    exact hall
  · rw [onTime, htable, hopen]
    show _ :: d.onTime = _
    rw [hall]

/-- A peer that comes after the freeze is late. -/
theorem Moves.onTime_frozen {call : Call} {d' : Discovery} (h : d.Moves cr call d')
    (hfrozen : d.frozen.isSome) : d'.onTime = d.onTime := by
  rcases h.table with htable | ⟨_, _, hello, -, -, -, htable⟩
  · rw [onTime, htable, onTime]
  · rw [onTime, htable, hfrozen]
    exact List.filter_cons_of_neg (by simp)

theorem Moves.subset {call : Call} {d' : Discovery} (h : d.Moves cr call d') :
    d.table ⊆ d'.table := by
  rcases h.table with htable | ⟨_, _, hello, -, -, -, htable⟩
  · rw [htable]
    exact List.Subset.refl _
  · rw [htable]
    exact List.subset_cons_self _ _

/-- **The state after the calls of a run**: the table holds every node that was announced, with the
drives of its first HELLO, and the membership is that of the peers on time. -/
structure Tracks (cr : Crypto) (own : HelloBody) (calls : List Call) (d : Discovery) : Prop where
  me : d.me = own
  nodup : (own.node :: d.table.map Prod.fst).Nodup
  first : ∀ p ∈ d.table, (firstHello calls p.1).map HelloBody.drives = some p.2.1
  heard : ∀ node, (firstHello calls node).isSome → node = own.node ∨ node ∈ d.table.map Prod.fst
  unfrozen : d.frozen = none → d.onTime = d.table
  frozen : ∀ m, d.frozen = some m → m = membershipOf cr own d.onTime

theorem firstHello_concat (calls : List Call) (call : Call) (node : String) :
    firstHello (calls ++ [call]) node
      = (firstHello calls node).or (firstHello [call] node) := by
  rw [firstHello, List.findSome?_append]
  rfl

/-- A call that announces a node is a HELLO that names it. -/
theorem exists_hello {call : Call} {node : String} (h : (firstHello [call] node).isSome) :
    ∃ signer srcMac hello, call = .ingest signer srcMac (some hello) ∧ hello.node = node := by
  match call with
  | .ingest signer srcMac (some hello) =>
    refine ⟨signer, srcMac, hello, rfl, ?_⟩
    by_contra hne
    rw [firstHello, List.findSome?_singleton] at h
    dsimp only at h
    rw [if_neg hne] at h
    cases h
  | .ingest _ _ none => cases h
  | .step => cases h

theorem firstHello_self (signer : String) (srcMac : Mac) (hello : HelloBody) :
    firstHello [.ingest signer srcMac (some hello)] hello.node = some hello := by
  rw [firstHello, List.findSome?_singleton]
  exact if_pos rfl

/-- **Step lemma**. -/
theorem Tracks.next {own : HelloBody} {calls : List Call} (h : Tracks cr own calls d)
    (call : Call) : Tracks cr own (calls ++ [call]) (d.next cr call) := by
  have hmoves := next_moves cr d call
  generalize d.next cr call = d' at hmoves ⊢
  -- the first HELLO of a node in the table is not the new one
  have hfirst : ∀ p ∈ d.table,
      (firstHello (calls ++ [call]) p.1).map HelloBody.drives = some p.2.1 := by
    intro p hp
    obtain ⟨hello, hhello, hdrives⟩ := Option.map_eq_some_iff.mp (h.first p hp)
    rw [firstHello_concat, hhello, Option.some_or, Option.map_some, hdrives]
  refine ⟨hmoves.me.trans h.me, ?_, ?_, fun node hnode => ?_, fun hopen => ?_, fun m hm => ?_⟩
  · rcases hmoves.table with htable | ⟨_, _, hello, -, hother, hnew, htable⟩
    · rw [htable]
      exact h.nodup
    · have hnotin : hello.node ∉ d.table.map Prod.fst := fun hmem => by
        have hsome := (d.peer_isSome_iff hello.node).mpr hmem
        rw [hnew] at hsome
        cases hsome
      rw [h.me] at hother
      have hnodup := List.nodup_cons.mp h.nodup
      rw [htable, List.map_cons, List.nodup_cons, List.mem_cons, not_or, List.nodup_cons]
      exact ⟨⟨Ne.symm hother, hnodup.1⟩, hnotin, hnodup.2⟩
  · rcases hmoves.table with htable | ⟨signer, srcMac, hello, rfl, hother, hnew, htable⟩
    · rw [htable]
      exact hfirst
    · rw [htable, List.forall_mem_cons]
      refine ⟨?_, hfirst⟩
      -- a node that is new was not announced before
      have hnone : firstHello calls hello.node = none := by
        by_contra hsome
        rcases h.heard _ (Option.isSome_iff_ne_none.mpr hsome) with hself | hmem
        · exact hother (hself.trans (congrArg HelloBody.node h.me.symm))
        · rw [← d.peer_isSome_iff, hnew] at hmem
          cases hmem
      rw [firstHello_concat, hnone, Option.none_or, firstHello_self]
      rfl
  · rw [firstHello_concat, Option.isSome_or, Bool.or_eq_true] at hnode
    rcases hnode with hold | hcall
    · refine (h.heard node hold).imp_right fun hmem => ?_
      exact (List.map_subset _ hmoves.subset) hmem
    · obtain ⟨signer, srcMac, hello, rfl, rfl⟩ := exists_hello hcall
      rw [← h.me]
      exact hmoves.heard signer srcMac hello rfl
  · rcases hmoves.frozen with hsame | ⟨-, hfroze⟩
    · exact hmoves.onTime_open (hsame.symm.trans hopen) (h.unfrozen (hsame.symm.trans hopen))
    · rw [hopen] at hfroze
      cases hfroze
  · rcases hmoves.frozen with hsame | ⟨hopen, hfroze⟩
    · rw [hsame] at hm
      rw [hmoves.onTime_frozen (by rw [hm]; rfl)]
      exact h.frozen m hm
    · rw [hm] at hfroze
      rw [Option.some.inj hfroze, roster_eq, hmoves.me, h.me,
        hmoves.onTime_open hopen (h.unfrozen hopen)]

theorem tracks_run (cr : Crypto) (me : HelloBody) (myMac : Mac) (expectedNodes : Option Nat)
    (silenceTicks : UInt32) (calls : List Call) :
    Tracks cr me calls
      (run (Discovery.next cr) (new me myMac expectedNodes silenceTicks) calls) := by
  refine run_induction ?_ (fun _ _ call h => h.next call) calls
  exact {
    me := rfl
    nodup := List.nodup_singleton _
    first := fun _ h => absurd h List.not_mem_nil
    heard := fun _ h => by cases h
    unfrozen := fun _ => rfl
    frozen := fun _ h => by cases h }

/-- A membership stays as it froze. -/
theorem frozen_run (cr : Crypto) {m : Membership} (h : d.frozen = some m) (calls : List Call) :
    (run (Discovery.next cr) d calls).frozen = some m := by
  refine run_invariant (I := fun d : Discovery => d.frozen = some m) (fun d call hd => ?_) h calls
  rcases (next_moves cr d call).frozen with hsame | ⟨hopen, -⟩
  · exact hsame.trans hd
  · rw [hd] at hopen
    cases hopen

/-! ## Who has signed -/

/-- A call announces a new node before the freeze only in the name of the key that has signed. -/
def InOwnName (d : Discovery) : Call → Prop
  | .ingest signer _ (some hello) =>
    d.frozen = none → hello.node ≠ d.me.node → d.peer hello.node = none → signer = hello.node
  | _ => True

instance (d : Discovery) (call : Call) : Decidable (d.InOwnName call) :=
  match call with
  | .ingest signer _ (some hello) =>
    inferInstanceAs (Decidable (d.frozen = none → hello.node ≠ d.me.node →
      d.peer hello.node = none → signer = hello.node))
  | .ingest _ _ none => .isTrue trivial
  | .step => .isTrue trivial

/-- A node is announced by a frame that it has signed. -/
def Announced (calls : List Call) (node : String) : Prop :=
  ∃ srcMac hello, Call.ingest node srcMac (some hello) ∈ calls ∧ hello.node = node

theorem Announced.concat {calls : List Call} {node : String} (h : Announced calls node)
    (call : Call) : Announced (calls ++ [call]) node := by
  obtain ⟨srcMac, hello, hmem, hnode⟩ := h
  exact ⟨srcMac, hello, List.mem_append_left _ hmem, hnode⟩

/-- **In a run whose nodes speak for themselves, the peers on time have announced themselves.** -/
theorem announced_run (cr : Crypto) (own : HelloBody) (myMac : Mac) (expectedNodes : Option Nat)
    (silenceTicks : UInt32) {calls : List Call}
    (h : Along (Discovery.next cr) InOwnName (new own myMac expectedNodes silenceTicks) calls) :
    ∀ p ∈ (run (Discovery.next cr) (new own myMac expectedNodes silenceTicks) calls).onTime,
      Announced calls p.1 := by
  induction calls using List.reverseRecOn with
  | nil => exact fun p hp => absurd hp List.not_mem_nil
  | append_singleton calls call ih =>
    obtain ⟨hcalls, hcall, -⟩ := along_append.mp h
    replace ih := ih hcalls
    rw [run_concat]
    generalize run (Discovery.next cr) (new own myMac expectedNodes silenceTicks) calls = d
      at ih hcall ⊢
    have hmoves := next_moves cr d call
    generalize d.next cr call = d' at hmoves ⊢
    intro p hp
    obtain ⟨hmem, hlate⟩ := mem_onTime.mp hp
    rcases hmoves.table with htable | ⟨signer, srcMac, hello, rfl, hother, hnew, htable⟩
    · rw [htable] at hmem
      exact (ih p (mem_onTime.mpr ⟨hmem, hlate⟩)).concat call
    · rw [htable, List.mem_cons] at hmem
      rcases hmem with rfl | hmem
      · have hopen : d.frozen = none := by simpa using hlate
        have hsigner : signer = hello.node := hcall hopen hother hnew
        rw [hsigner]
        exact ⟨srcMac, hello, List.mem_append_right _ (List.mem_singleton_self _), rfl⟩
      · exact (ih p (mem_onTime.mpr ⟨hmem, hlate⟩)).concat _

/-- The drives that a node of a membership has announced first. -/
def announcedDrives (own : HelloBody) (calls : List Call) (node : String) : Nat :=
  if node = own.node then own.drives.toNat
  else ((firstHello calls node).map fun hello => hello.drives.toNat).getD 0

/-- **What a membership says**: sorted nodes, the node itself, every other node on its own word, and
the drives of just these. -/
structure Authentic (cr : Crypto) (own : HelloBody) (calls : List Call) (m : Membership) :
    Prop where
  sorted : m.nodes.Pairwise (· ≤ ·)
  nodup : m.nodes.Nodup
  self_mem : own.node ∈ m.nodes
  announced : ∀ node ∈ m.nodes, node ≠ own.node → Announced calls node
  drives : m.totalDrives = (m.nodes.map (announcedDrives own calls)).sum
  hash : m.hash = hashOf cr m.nodes
  tolerance : m.tolerance = byzantineTolerance m.nodes.length
  quorum : m.quorum = decisionQuorum m.nodes.length

theorem perm_nodes (cr : Crypto) (own : HelloBody) (peers : List (String × UInt32 × Bool)) :
    (membershipOf cr own peers).nodes.Perm (own.node :: peers.map Prod.fst) :=
  List.perm_insertionSort _ _

theorem sorted_nodes (cr : Crypto) (own : HelloBody) (peers : List (String × UInt32 × Bool)) :
    (membershipOf cr own peers).nodes.Pairwise (· ≤ ·) := by
  have : Std.Total fun a b : String => a ≤ b := ⟨le_total⟩
  have : IsTrans String (· ≤ ·) := ⟨fun _ _ _ hab hbc => hab.trans hbc⟩
  exact List.pairwise_insertionSort _ _

/-- The drives of the peers on time are those of their first HELLOs. -/
theorem Tracks.announcedDrives_eq {own : HelloBody} {calls : List Call}
    (h : Tracks cr own calls d) {p : String × UInt32 × Bool} (hp : p ∈ d.onTime) :
    announcedDrives own calls p.1 = p.2.1.toNat := by
  have hmem := (mem_onTime.mp hp).1
  have hother : p.1 ≠ own.node := fun heq =>
    (List.nodup_cons.mp h.nodup).1 (heq ▸ List.mem_map_of_mem hmem)
  obtain ⟨hello, hhello, hdrives⟩ := Option.map_eq_some_iff.mp (h.first p hmem)
  rw [announcedDrives, if_neg hother, hhello, Option.map_some, Option.getD_some, hdrives]

/-- **The membership of a run whose nodes speak for themselves**: it never changes again, it has no
late peer, and every node in it but the node itself has announced itself. -/
theorem membership_authentic (cr : Crypto) (own : HelloBody) (myMac : Mac)
    (expectedNodes : Option Nat) (silenceTicks : UInt32) {calls : List Call}
    (h : Along (Discovery.next cr) InOwnName (new own myMac expectedNodes silenceTicks) calls)
    {m : Membership}
    (hm : (run (Discovery.next cr) (new own myMac expectedNodes silenceTicks) calls).frozen
      = some m)
    (more : List Call) :
    Authentic cr own calls m ∧
    (run (Discovery.next cr) (new own myMac expectedNodes silenceTicks) (calls ++ more)).frozen
      = some m ∧
    ∀ p ∈ (run (Discovery.next cr) (new own myMac expectedNodes silenceTicks)
      (calls ++ more)).peers, p.late = true → p.node ∉ m.nodes := by
  have htracks := tracks_run cr own myMac expectedNodes silenceTicks calls
  have hlater := tracks_run cr own myMac expectedNodes silenceTicks (calls ++ more)
  have hannounced := announced_run cr own myMac expectedNodes silenceTicks h
  have hstays : (run (Discovery.next cr) (new own myMac expectedNodes silenceTicks)
      (calls ++ more)).frozen = some m := by
    rw [run_append]
    exact frozen_run cr hm more
  generalize run (Discovery.next cr) (new own myMac expectedNodes silenceTicks) calls = d
    at hm htracks hannounced
  generalize run (Discovery.next cr) (new own myMac expectedNodes silenceTicks) (calls ++ more) = d'
    at hstays hlater ⊢
  obtain rfl := htracks.frozen m hm
  have hperm := perm_nodes cr own d.onTime
  have hsub : (own.node :: d.onTime.map Prod.fst).Sublist (own.node :: d.table.map Prod.fst) :=
    (List.filter_sublist.map _).cons_cons _
  refine ⟨?_, hstays, fun p hp hlate hmem => ?_⟩
  · exact {
      sorted := sorted_nodes cr own d.onTime
      nodup := hperm.nodup_iff.mpr (htracks.nodup.sublist hsub)
      self_mem := hperm.mem_iff.mpr List.mem_cons_self
      announced := fun node hnode hother => by
        rcases List.mem_cons.mp (hperm.mem_iff.mp hnode) with hself | hmem
        · exact absurd hself hother
        · obtain ⟨p, hp, rfl⟩ := List.mem_map.mp hmem
          exact hannounced p hp
      drives := by
        rw [(hperm.map _).sum_nat, List.map_cons, List.sum_cons, List.map_map, announcedDrives,
          if_pos rfl, Nat.add_comm]
        refine congrArg (· + own.drives.toNat) (congrArg List.sum ?_)
        exact List.map_congr_left fun p hp => (htracks.announcedDrives_eq hp).symm
      hash := rfl
      tolerance := rfl
      quorum := rfl }
  · -- the members are the peers on time of the later state too
    rw [hlater.frozen _ hstays] at hmem
    have hentry : (p.node, p.drives, p.late) ∈ d'.table := List.mem_map_of_mem hp
    rcases List.mem_cons.mp ((perm_nodes cr own d'.onTime).mem_iff.mp hmem) with hself | hname
    · refine (List.nodup_cons.mp hlater.nodup).1 ?_
      rw [← hself]
      exact List.mem_map_of_mem hentry
    · obtain ⟨q, hq, hname⟩ := List.mem_map.mp hname
      obtain ⟨hq, hqtime⟩ := mem_onTime.mp hq
      have hsame : q = (p.node, p.drives, p.late) :=
        List.inj_on_of_nodup_map (List.nodup_cons.mp hlater.nodup).2 hq hentry hname
      rw [hsame] at hqtime
      rw [hlate] at hqtime
      cases hqtime

/-- The HELLO of a node with some drives. -/
def sampleHello (node : String) (drives : UInt32) : HelloBody := ⟨node, node ++ "-pq", drives, 0⟩

/-- The digest of the names of four nodes. -/
def fourCrypto : Crypto :=
  tableCrypto (Block.ofNat 32 0)
    [(utf8 "abcd",
      Block.ofNat 32 0x8c9c9881805d1a847102d7a42e58b990d088dd88a84f7314d71c838107571f2b)] []

/-- Three nodes announce themselves, one of them twice. -/
def ownNameCalls : List Call :=
  [.ingest "d" broadcastMac (some (sampleHello "d" 1)), .step,
    .ingest "b" broadcastMac (some (sampleHello "b" 3)),
    .ingest "b" broadcastMac (some (sampleHello "b" 9)),
    .ingest "c" broadcastMac (some (sampleHello "c" 4))]

theorem membership_authentic_four :
    ∃ m, (run (Discovery.next fourCrypto) (new (sampleHello "a" 2) broadcastMac (some 4) 3)
        (ownNameCalls ++ [.step])).frozen = some m ∧
      Authentic fourCrypto (sampleHello "a" 2) ownNameCalls m := by
  have hm : (run (Discovery.next fourCrypto) (new (sampleHello "a" 2) broadcastMac (some 4) 3)
      ownNameCalls).frozen
      = some (membershipOf fourCrypto (sampleHello "a" 2)
        [("c", 4, false), ("b", 3, false), ("d", 1, false)]) := by
    decide +kernel
  obtain ⟨hauthentic, hstays, -⟩ := membership_authentic fourCrypto (sampleHello "a" 2)
    broadcastMac (some 4) 3 (by decide +kernel) hm [.step]
  exact ⟨_, hstays, hauthentic⟩

/-- One key announces three nodes. -/
def strangerCalls : List Call :=
  ["b", "c", "d"].map fun node => .ingest "x" broadcastMac (some (sampleHello node 1))

/-- **Nodes that never signed anything are members**, on the word of a key that is none. -/
theorem stranger_freezes_membership :
    ∃ m, (run (Discovery.next fourCrypto) (new (sampleHello "a" 2) broadcastMac (some 4) 3)
        strangerCalls).frozen = some m ∧
      ¬ Authentic fourCrypto (sampleHello "a" 2) strangerCalls m := by
  refine ⟨membershipOf fourCrypto (sampleHello "a" 2)
    [("d", 1, false), ("c", 1, false), ("b", 1, false)], by decide +kernel, fun hauthentic => ?_⟩
  obtain ⟨srcMac, hello, hmem, -⟩ := hauthentic.announced "b" (by decide +kernel) (by decide)
  obtain ⟨node, -, hcall⟩ := List.mem_map.mp hmem
  injection hcall with hsigner
  exact absurd hsigner (by decide)

end Discovery

end DiscCleaner.Mesh
