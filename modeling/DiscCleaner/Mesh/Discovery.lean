import DiscCleaner.Mesh.Consensus

/-!
# DiscCleaner — discovery and the membership freeze (`discovery.rs`)

Peers announce themselves with a `HelloBody`. The first time enough of them are known, or none
has appeared for long enough, the membership freezes; peers that appear later are recorded as
late.
-/

namespace DiscCleaner.Mesh

open ByteLib

/-- An Ethernet address. -/
abbrev Mac : Type := ByteLib.Block 6

def broadcastMac : Mac := ⟨List.replicate 6 0xFF, rfl⟩

def minByzCluster : Nat := 4

structure HelloBody where
  node : String
  mlDsaPk : String
  drives : UInt32
  seq : UInt32
  deriving DecidableEq

structure PeerInfo where
  node : String
  mlDsaPk : String
  mac : Mac
  drives : UInt32
  lastSeenTick : Nat
  late : Bool
  deriving DecidableEq

/-- The peers are those of a hash map keyed by their node. -/
structure Discovery where
  me : HelloBody
  myMac : Mac
  peers : List PeerInfo
  tick : Nat
  helloSeq : UInt32
  expectedNodes : Option Nat
  silenceTicks : UInt32
  ticksSinceNewPeer : UInt32
  frozen : Option Membership
  deriving DecidableEq

namespace Discovery

def new (me : HelloBody) (myMac : Mac) (expectedNodes : Option Nat) (silenceTicks : UInt32) :
    Discovery where
  me
  myMac
  peers := []
  tick := 0
  helloSeq := 0
  expectedNodes
  silenceTicks
  ticksSinceNewPeer := 0
  frozen := none

variable (cr : Crypto) (d : Discovery)

def membership : Option Membership := d.frozen

def peer (node : String) : Option PeerInfo := d.peers.find? fun p => p.node = node

/-- The drives a peer announced; none for a node that is no peer. -/
def drivesOf (node : String) : Nat := ((d.peer node).map fun p => p.drives.toNat).getD 0

def routeTo (node : String) : Mac := ((d.peer node).map PeerInfo.mac).getD broadcastMac

/-- BLAKE3 over the node ids. -/
def hashOf (nodes : List String) : String := cr.blake3Hex (nodes.flatMap utf8)

/-- The membership of this moment: the peers and the node itself. -/
def roster : Membership :=
  let nodes := (d.me.node :: d.peers.map PeerInfo.node).insertionSort (· ≤ ·)
  { nodes
    hash := hashOf cr nodes
    totalDrives := (d.peers.map fun p => p.drives.toNat).sum + d.me.drives.toNat
    tolerance := byzantineTolerance nodes.length
    quorum := decisionQuorum nodes.length }

/-- Enough peers, or long enough without a new one. -/
def expected : Bool :=
  match d.expectedNodes with
  | some e => e ≤ d.peers.length + 1
  | none => d.silenceTicks ≤ d.ticksSinceNewPeer

/-- Returns whether the membership is frozen now. -/
def checkFreeze : Bool × Discovery :=
  if d.frozen.isSome then (true, d)
  else if d.expected ∧ minByzCluster ≤ d.peers.length + 1 then
    (true, { d with frozen := some (d.roster cr) })
  else (false, d)

/-- One round: a HELLO until the freeze, and whether the membership is frozen. -/
def step : (Option HelloBody × Bool) × Discovery :=
  let d := { d with tick := d.tick + 1 }
  if d.frozen.isSome then ((none, true), d)
  else
    let d := { d with
      ticksSinceNewPeer := d.ticksSinceNewPeer + 1
      helloSeq := d.helloSeq + 1 }
    let (froze, d') := d.checkFreeze cr
    ((some { d.me with seq := d.helloSeq }, froze), d')

/-- Take a HELLO in; returns whether a new peer appeared before the freeze. -/
def ingest (srcMac : Mac) (hello : HelloBody) : Bool × Discovery :=
  if hello.node = d.me.node then (false, d)
  else if (d.peer hello.node).isSome then
    (false,
      { d with
        peers := d.peers.map fun p =>
          if p.node = hello.node then { p with lastSeenTick := d.tick } else p })
  else
    let info (late : Bool) : PeerInfo :=
      ⟨hello.node, hello.mlDsaPk, srcMac, hello.drives, d.tick, late⟩
    if d.frozen.isSome then (false, { d with peers := info true :: d.peers })
    else
      (true,
        ({ d with
          peers := info false :: d.peers
          ticksSinceNewPeer := 0 }.checkFreeze cr).2)

def helloAckBody : HelloBody := { d.me with seq := d.helloSeq }

/-! ## The freeze -/

variable {cr d}

/-- The node stays who it is, a membership stays as it froze, and a new one has the node. -/
structure Grows (d d' : Discovery) : Prop where
  me : d'.me = d.me
  keep : ∀ m, d.frozen = some m → d'.frozen = some m
  new : ∀ m, d'.frozen = some m → d.frozen = some m ∨ d.me.node ∈ m.nodes

theorem Grows.of_eq {d' : Discovery} (hme : d'.me = d.me) (hfrozen : d'.frozen = d.frozen) :
    d.Grows d' :=
  ⟨hme, fun _ h => hfrozen.trans h, fun _ h => .inl (hfrozen.symm.trans h)⟩

theorem Grows.trans {d' d'' : Discovery} (h : d.Grows d') (h' : d'.Grows d'') : d.Grows d'' where
  me := h'.me.trans h.me
  keep m hm := h'.keep m (h.keep m hm)
  new m hm := by
    rcases h'.new m hm with hm | hm
    · exact h.new m hm
    · exact .inr (h.me ▸ hm)

theorem mem_roster : d.me.node ∈ (d.roster cr).nodes :=
  (List.perm_insertionSort _ _).mem_iff.mpr List.mem_cons_self

theorem grows_checkFreeze : d.Grows (d.checkFreeze cr).2 := by
  unfold checkFreeze
  split
  · exact .of_eq rfl rfl
  · next hopen =>
    split
    · refine ⟨rfl, fun m hm => absurd (hm ▸ rfl) hopen, fun m hm => .inr ?_⟩
      obtain rfl := Option.some.inj hm
      exact mem_roster
    · exact .of_eq rfl rfl

theorem grows_step : d.Grows (d.step cr).2 := by
  unfold step
  dsimp only
  split
  · exact .of_eq rfl rfl
  · show d.Grows (checkFreeze cr _).2
    refine .trans ?_ grows_checkFreeze
    exact .of_eq rfl rfl

theorem grows_ingest {srcMac : Mac} {hello : HelloBody} : d.Grows (d.ingest cr srcMac hello).2 := by
  unfold ingest
  split
  · exact .of_eq rfl rfl
  · split
    · exact .of_eq rfl rfl
    · dsimp only
      split
      · exact .of_eq rfl rfl
      · show d.Grows (checkFreeze cr _).2
        refine .trans ?_ grows_checkFreeze
        exact .of_eq rfl rfl

end Discovery

end DiscCleaner.Mesh
