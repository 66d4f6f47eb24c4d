import DiscCleaner.Lib.Bfs
import Mathlib.Data.List.Flatten

/-!
# DiscCleaner — the upward walk over the holders (`graph.rs`)

The devices that sit on a target are found over its holders and the holders of these. The walk has
a visited set and a depth limit; the tree may have cycles, and a holder need not be in the tree.
A name counts as reached either way.

* **`walk_ends`** — a run ends at the depth limit, or after the turn of every reachable name.
* **`liveDangers_exact`** — what the three outcomes say of the tree.
-/

namespace DiscCleaner

open BfsLib

/-- The fields of a device that the walk reads. -/
structure DeviceNode where
  name : String
  mounts : List String
  holders : List String
  swapActive : Bool
  activeLvm : Bool
  activeCrypt : Bool
  deriving DecidableEq

/-- The devices by name. -/
structure BlockTree where
  nodes : List (String × DeviceNode)
  nodup : (nodes.map Prod.fst).Nodup

structure DangerHop where
  devName : String
  edgeType : String
  dmType : Option String
  deriving DecidableEq

structure DangerPath where
  hops : List DangerHop
  terminalClass : String
  terminalDetail : String
  deriving DecidableEq

inductive WalkOutcome where
  | clean
  | danger (dangers : List DangerPath)
  | depthExceeded (at_ : List String)
  deriving DecidableEq

/-- The names at the ends of the paths. -/
def WalkOutcome.liveNodes : WalkOutcome → List String
  | .danger dangers => dangers.filterMap fun path => path.hops.getLast?.map DangerHop.devName
  | _ => []

namespace DeviceNode

/-- The hop from a device to one of its holders: the mapping is that of the device below. -/
def hop (node : DeviceNode) (holder : String) : DangerHop where
  devName := holder
  edgeType := "holder"
  dmType := if node.activeCrypt then some "crypt" else if node.activeLvm then some "lvm" else none

/-- What makes a device live, at the end of a path. -/
def terminals (node : DeviceNode) (path : List DangerHop) : List DangerPath :=
  (if node.mounts.isEmpty then [] else [⟨path, "MOUNTED", ", ".intercalate node.mounts⟩]) ++
    if node.swapActive then [⟨path, "SWAP", "Active swap on " ++ node.name⟩] else []

/-- A holder is queued when it is met the first time. -/
def pushHolder (node : DeviceNode) (current : Entry String DangerHop)
    (s : Search String DangerHop) (holder : String) : Search String DangerHop :=
  if holder ∈ s.visited then s
  else ⟨holder :: s.visited, s.queue ++ [⟨holder, current.path ++ [node.hop holder]⟩]⟩

/-- `for holder in &node.holders`. -/
def pushHolders (node : DeviceNode) (current : Entry String DangerHop)
    (s : Search String DangerHop) : Search String DangerHop :=
  node.holders.foldl (node.pushHolder current) s

end DeviceNode

namespace BlockTree

def get (tree : BlockTree) (name : String) : Option DeviceNode := tree.nodes.lookup name

/-- All the names that hold a device of the tree. -/
def holderNames (tree : BlockTree) : List String := tree.nodes.flatMap fun entry => entry.2.holders

/-- The holders of a name, none when it is not in the tree. -/
def holdersOf (tree : BlockTree) (name : String) : List String :=
  match tree.get name with
  | none => []
  | some node => node.holders

/-- The hop between two names. -/
def hopOf (tree : BlockTree) (name holder : String) : DangerHop :=
  match tree.get name with
  | none => ⟨holder, "holder", none⟩
  | some node => node.hop holder

theorem mem_of_lookup {l : List (String × DeviceNode)} {name : String} {node : DeviceNode}
    (h : l.lookup name = some node) : (name, node) ∈ l := by
  induction l with
  | nil => cases h
  | cons entry l ih =>
    rw [List.lookup_cons] at h
    split at h
    · next heq =>
      cases h
      rw [eq_of_beq heq]
      exact List.mem_cons_self
    · exact List.mem_cons_of_mem _ (ih h)

theorem holders_subset {tree : BlockTree} {name : String} {node : DeviceNode}
    (h : tree.get name = some node) : node.holders ⊆ tree.holderNames := fun _ hmem =>
  List.mem_flatMap.mpr ⟨(name, node), mem_of_lookup h, hmem⟩

theorem holdersOf_some {tree : BlockTree} {name : String} {node : DeviceNode}
    (h : tree.get name = some node) : tree.holdersOf name = node.holders := by
  rw [holdersOf, h]

theorem holdersOf_none {tree : BlockTree} {name : String} (h : tree.get name = none) :
    tree.holdersOf name = [] := by
  rw [holdersOf, h]

/-- The loop over the holders is a turn of the search. -/
theorem pushHolders_eq {tree : BlockTree} {current : Entry String DangerHop} {node : DeviceNode}
    (h : tree.get current.vertex = some node) (s : Search String DangerHop) :
    node.pushHolders current s = s.expand tree.holdersOf tree.hopOf current := by
  have hpush : node.pushHolder current = Search.push tree.hopOf current := by
    funext s holder
    rw [DeviceNode.pushHolder, Search.push, Entry.extend, hopOf, h]
  rw [DeviceNode.pushHolders, Search.expand, holdersOf_some h, hpush]

/-- The same for a name that is not in the tree. -/
theorem expand_absent {tree : BlockTree} {current : Entry String DangerHop}
    (h : tree.get current.vertex = none) (s : Search String DangerHop) :
    s.expand tree.holdersOf tree.hopOf current = s := by
  rw [Search.expand, holdersOf_none h, List.foldl_nil]

/-- `while let Some((current_name, path)) = queue.pop_front()`. -/
def walk (tree : BlockTree) (maxDepth : Nat) (visited : List String) :
    List (Entry String DangerHop) → List DangerPath → WalkOutcome
  | [], dangers => if dangers.isEmpty then .clean else .danger dangers
  | current :: queue, dangers =>
    if maxDepth ≤ current.path.length then .depthExceeded [current.vertex]
    else
      match _hget : tree.get current.vertex with
      | none => walk tree maxDepth visited queue dangers
      | some node =>
        walk tree maxDepth (node.pushHolders current ⟨visited, queue⟩).visited
          (node.pushHolders current ⟨visited, queue⟩).queue
          (if current.path.isEmpty then dangers else dangers ++ node.terminals current.path)
termination_by queue => Search.turnsLeft tree.holderNames ⟨visited, queue⟩
decreasing_by
  · have hturn := Search.turnsLeft_expand tree.holdersOf tree.hopOf
      (show tree.holdersOf current.vertex ⊆ tree.holderNames by
        rw [holdersOf_none _hget]; exact List.nil_subset _) visited queue
    rwa [expand_absent _hget] at hturn
  · have hturn := Search.turnsLeft_expand tree.holdersOf tree.hopOf
      (show tree.holdersOf current.vertex ⊆ tree.holderNames by
        rw [holdersOf_some _hget]; exact holders_subset _hget) visited queue
    rwa [← pushHolders_eq _hget] at hturn

def liveDangers (tree : BlockTree) (targetName : String) (maxDepth : Nat) : WalkOutcome :=
  tree.walk maxDepth [targetName] [⟨targetName, []⟩] []

/-! ## What the walk is about -/

/-- The hops lead from the target to a name, each from a device to one of its holders. -/
abbrev Chain (tree : BlockTree) (target : String) : List DangerHop → String → Prop :=
  Trail tree.holdersOf tree.hopOf target

/-- A name over one holder or more. -/
def Reachable (tree : BlockTree) (target name : String) : Prop :=
  ∃ hops, hops ≠ [] ∧ tree.Chain target hops name

/-- A name at a distance below a depth. -/
def Within (tree : BlockTree) (target : String) (depth : Nat) (name : String) : Prop :=
  ∃ hops, hops.length < depth ∧ tree.Chain target hops name

/-- A device of the tree that is mounted or swapping. -/
def Live (tree : BlockTree) (name : String) : Prop :=
  ∃ node, tree.get name = some node ∧ (node.mounts ≠ [] ∨ node.swapActive = true)

/-- A chain to a live device, with what makes it live. -/
def RealPath (tree : BlockTree) (target : String) (path : DangerPath) : Prop :=
  ∃ name node, tree.Chain target path.hops name ∧
    path.hops.getLast?.map DangerHop.devName = some name ∧ tree.get name = some node ∧
    (path.terminalClass = "MOUNTED" ∧ node.mounts ≠ [] ∧
        path.terminalDetail = ", ".intercalate node.mounts ∨
      path.terminalClass = "SWAP" ∧ node.swapActive = true ∧
        path.terminalDetail = "Active swap on " ++ node.name)

/-- What an entry adds to the dangers at its turn. -/
def terminalsAt (tree : BlockTree) (current : Entry String DangerHop) : List DangerPath :=
  match tree.get current.vertex with
  | none => []
  | some node => if current.path.isEmpty then [] else node.terminals current.path

/-- **How a run ends**: at a name that is too far away, or after the turn of every reachable name
at a depth below the limit. -/
inductive Ends (tree : BlockTree) (target : String) (maxDepth : Nat) : WalkOutcome → Prop
  | depth (far : Entry String DangerHop) (hchain : tree.Chain target far.path far.vertex)
      (hdepth : maxDepth ≤ far.level)
      (hshortest : ∀ hops, tree.Chain target hops far.vertex → far.level ≤ hops.length) :
      Ends tree target maxDepth (.depthExceeded [far.vertex])
  | turns (taken : List (Entry String DangerHop))
      (hchain : ∀ e ∈ taken, tree.Chain target e.path e.vertex)
      (hdepth : ∀ e ∈ taken, e.level < maxDepth)
      (hshortest : ∀ e ∈ taken, ∀ hops, tree.Chain target hops e.vertex → e.level ≤ hops.length)
      (hall : ∀ hops name, tree.Chain target hops name → ∃ e ∈ taken, e.vertex = name) :
      Ends tree target maxDepth
        (if (taken.flatMap tree.terminalsAt).isEmpty then .clean
          else .danger (taken.flatMap tree.terminalsAt))

/-- An empty queue: the invariants say that nothing is left out. -/
theorem ends_of_inv {tree : BlockTree} {target : String} {maxDepth d : Nat} {visited : List String}
    {taken : List (Entry String DangerHop)}
    (hinv : Search.Inv tree.holdersOf tree.hopOf target d taken ⟨visited, []⟩)
    (hdepth : ∀ e ∈ taken, e.level < maxDepth) :
    Ends tree target maxDepth
      (if (taken.flatMap tree.terminalsAt).isEmpty then .clean
        else .danger (taken.flatMap tree.terminalsAt)) := by
  refine .turns taken (fun e he => hinv.trail e (List.mem_append_left _ he)) hdepth ?_ ?_
  · intro e he hops hchain
    obtain ⟨e', he', hvertex, hlevel⟩ := hinv.complete hchain
    rwa [hinv.entry_unique (List.mem_append_left _ he') (List.mem_append_left _ he) hvertex]
      at hlevel
  · intro hops name hchain
    obtain ⟨e, he, hvertex, -⟩ := hinv.complete hchain
    exact ⟨e, he, hvertex⟩

/-- **Run lemma**, by the turns of the walk. -/
theorem walk_ends {tree : BlockTree} {target : String} {maxDepth d : Nat} {visited : List String}
    {queue taken : List (Entry String DangerHop)} {dangers : List DangerPath}
    (hinv : Search.Inv tree.holdersOf tree.hopOf target d taken ⟨visited, queue⟩)
    (hdepth : ∀ e ∈ taken, e.level < maxDepth)
    (hdangers : dangers = taken.flatMap tree.terminalsAt) :
    Ends tree target maxDepth (tree.walk maxDepth visited queue dangers) := by
  fun_induction walk tree maxDepth visited queue dangers generalizing d taken with
  | case1 visited dangers hempty =>
    have hend := ends_of_inv hinv hdepth
    rwa [← hdangers, if_pos hempty] at hend
  | case2 visited dangers hne =>
    have hend := ends_of_inv hinv hdepth
    rwa [← hdangers, if_neg hne] at hend
  | case3 visited current queue dangers hfar =>
    have hmem : current ∈ taken ++ current :: queue :=
      List.mem_append_right _ List.mem_cons_self
    exact .depth current (hinv.trail current hmem) hfar fun hops hchain => hinv.shortest hchain
  | case4 visited current queue dangers hnear hget ih =>
    have hturn := hinv.expand
    rw [expand_absent hget] at hturn
    refine ih hturn (fun e he => ?_) ?_
    · rcases List.mem_append.mp he with he | he
      · exact hdepth e he
      · rw [List.mem_singleton.mp he]
        exact Nat.lt_of_not_le hnear
    · -- a name outside the tree is not live
      rw [List.flatMap_append, List.flatMap_singleton, terminalsAt, hget, List.append_nil]
      exact hdangers
  | case5 visited current queue dangers hnear node hget ih =>
    have hturn := hinv.expand
    rw [← pushHolders_eq hget] at hturn
    refine ih hturn (fun e he => ?_) ?_
    · rcases List.mem_append.mp he with he | he
      · exact hdepth e he
      · rw [List.mem_singleton.mp he]
        exact Nat.lt_of_not_le hnear
    · rw [List.flatMap_append, List.flatMap_singleton, terminalsAt, hget, ← hdangers]
      show (if _ then _ else _) = _
      split
      · rw [List.append_nil]
      · rfl

theorem liveDangers_ends (tree : BlockTree) (target : String) (maxDepth : Nat) :
    Ends tree target maxDepth (tree.liveDangers target maxDepth) :=
  walk_ends Search.inv_start (fun _ he => absurd he List.not_mem_nil) rfl

/-! ## What the outcomes say -/

variable {tree : BlockTree} {target : String} {maxDepth : Nat}

theorem hopOf_devName (tree : BlockTree) (name holder : String) :
    (tree.hopOf name holder).devName = holder := by
  rw [hopOf]
  split <;> rfl

/-- Only the target is at the end of no hop. -/
theorem eq_target_of_chain {name : String} (h : tree.Chain target [] name) : name = target := by
  generalize hnil : ([] : List DangerHop) = hops at h
  cases h with
  | nil => rfl
  | snoc h hmem =>
    exact absurd hnil.symm (List.append_ne_nil_of_right_ne_nil _ (List.cons_ne_nil _ _))

/-- The last hop of a chain names its end. -/
theorem last_of_chain {hops : List DangerHop} {name : String} (h : tree.Chain target hops name)
    (hne : hops ≠ []) : hops.getLast?.map DangerHop.devName = some name := by
  cases h with
  | nil => exact absurd rfl hne
  | snoc h hmem => rw [List.getLast?_concat, Option.map_some, hopOf_devName]

theorem mem_terminals {node : DeviceNode} {hops : List DangerHop} {path : DangerPath} :
    path ∈ node.terminals hops ↔ path.hops = hops ∧
      (path.terminalClass = "MOUNTED" ∧ node.mounts ≠ [] ∧
          path.terminalDetail = ", ".intercalate node.mounts ∨
        path.terminalClass = "SWAP" ∧ node.swapActive = true ∧
          path.terminalDetail = "Active swap on " ++ node.name) := by
  obtain ⟨hops', cls, detail⟩ := path
  rw [DeviceNode.terminals, List.mem_append]
  cases hm : node.mounts <;> cases hs : node.swapActive <;> (simp; try tauto)

/-- **Soundness of a danger**: its path is real. -/
theorem realPath_of_mem {e : Entry String DangerHop} (hchain : tree.Chain target e.path e.vertex)
    {path : DangerPath} (h : path ∈ tree.terminalsAt e) :
    path.hops = e.path ∧ e.path ≠ [] ∧ tree.RealPath target path := by
  rw [terminalsAt] at h
  split at h
  · -- a name that is not in the tree ends no path
    cases h
  next node hget =>
    split at h
    · cases h
    next hne =>
      rw [List.isEmpty_iff] at hne
      obtain ⟨hops, hlive⟩ := mem_terminals.mp h
      rw [RealPath, hops]
      exact ⟨rfl, hne, e.vertex, node, hchain, last_of_chain hchain hne, hget, hlive⟩

/-- **Completeness of the dangers**: a live device is at the end of a path. -/
theorem exists_mem_of_live {e : Entry String DangerHop} (hlive : tree.Live e.vertex)
    (hne : e.path ≠ []) : ∃ path ∈ tree.terminalsAt e, path.hops = e.path := by
  obtain ⟨node, hget, hmounted | hswap⟩ := hlive
  · refine ⟨⟨e.path, "MOUNTED", ", ".intercalate node.mounts⟩, ?_, rfl⟩
    rw [terminalsAt, hget]
    show _ ∈ if _ then _ else _
    rw [if_neg (by rwa [List.isEmpty_iff])]
    exact mem_terminals.mpr ⟨rfl, .inl ⟨rfl, hmounted, rfl⟩⟩
  · refine ⟨⟨e.path, "SWAP", "Active swap on " ++ node.name⟩, ?_, rfl⟩
    rw [terminalsAt, hget]
    show _ ∈ if _ then _ else _
    rw [if_neg (by rwa [List.isEmpty_iff])]
    exact mem_terminals.mpr ⟨rfl, .inr ⟨rfl, hswap, rfl⟩⟩

/-- The live names of a walk that took every turn. -/
theorem mem_liveNodes_iff {taken : List (Entry String DangerHop)}
    (hchain : ∀ e ∈ taken, tree.Chain target e.path e.vertex)
    (hshortest : ∀ e ∈ taken, ∀ hops, tree.Chain target hops e.vertex → e.level ≤ hops.length)
    (hall : ∀ hops name, tree.Chain target hops name → ∃ e ∈ taken, e.vertex = name)
    (name : String) :
    name ∈ (WalkOutcome.danger (taken.flatMap tree.terminalsAt)).liveNodes ↔
      tree.Reachable target name ∧ name ≠ target ∧ tree.Live name := by
  rw [WalkOutcome.liveNodes, List.mem_filterMap]
  constructor
  · rintro ⟨path, hpath, hname⟩
    obtain ⟨e, he, hmem⟩ := List.mem_flatMap.mp hpath
    obtain ⟨hops, hne, name', node, hend, hlast, hget, hlive⟩ := realPath_of_mem (hchain e he) hmem
    have hsame : name = name' := Option.some.inj (hname.symm.trans hlast)
    have hvertex : e.vertex = name := by
      have hlast' := last_of_chain (hchain e he) hne
      rw [← hops, hname] at hlast'
      exact (Option.some.inj hlast').symm
    refine ⟨⟨e.path, hne, hvertex ▸ hchain e he⟩, ?_, node, hsame ▸ hget, ?_⟩
    · -- the target had its turn with the empty path
      rintro rfl
      have hle := hshortest e he [] (by rw [hvertex]; exact .nil)
      exact hne (List.length_eq_zero_iff.mp (Nat.le_zero.mp hle))
    · exact hlive.imp (fun h => h.2.1) fun h => h.2.1
  · -- a reachable name had its turn, and not with the empty path
    rintro ⟨⟨hops, -, hreach⟩, hother, hlive⟩
    obtain ⟨e, he, rfl⟩ := hall hops name hreach
    have hne : e.path ≠ [] := fun hnil => hother (eq_target_of_chain (hnil ▸ hchain e he))
    obtain ⟨path, hmem, hpath⟩ := exists_mem_of_live hlive hne
    refine ⟨path, List.mem_flatMap.mpr ⟨e, he, hmem⟩, ?_⟩
    rw [hpath]
    exact last_of_chain (hchain e he) hne

theorem mem_liveNodes_clean {dangers : List DangerPath} (name : String) :
    name ∈ (if dangers.isEmpty then WalkOutcome.clean else .danger dangers).liveNodes ↔
      name ∈ (WalkOutcome.danger dangers).liveNodes := by
  cases dangers with
  | nil => rfl
  | cons path dangers => rfl

/-- **The walk stops at the depth limit exactly when a name is too far away**, in the tree or
not. -/
theorem liveDangers_depthExceeded_iff (tree : BlockTree) (target : String) (maxDepth : Nat) :
    (∃ names, tree.liveDangers target maxDepth = .depthExceeded names) ↔
      ∃ hops name, tree.Chain target hops name ∧ ¬ tree.Within target maxDepth name := by
  have hends := liveDangers_ends tree target maxDepth
  generalize tree.liveDangers target maxDepth = outcome at hends ⊢
  cases hends with
  | depth far hchain hdepth hshortest =>
    refine iff_of_true ⟨_, rfl⟩ ⟨far.path, far.vertex, hchain, ?_⟩
    rintro ⟨hops, hlt, hnear⟩
    exact absurd (hshortest hops hnear) (by omega)
  | turns taken hchain hdepth hshortest hall =>
    refine iff_of_false ?_ ?_
    · rintro ⟨names, heq⟩
      split at heq <;> cases heq
    · rintro ⟨hops, name, hreach, hfar⟩
      obtain ⟨e, he, rfl⟩ := hall hops name hreach
      exact hfar ⟨e.path, hdepth e he, hchain e he⟩

/-- **The outcomes are exact**: a clean target has no live device above it; every danger is a chain
of holders to a live device; and when no name is too far away, the live devices above the target
are those reported. -/
theorem liveDangers_exact (tree : BlockTree) (target : String) (maxDepth : Nat) :
    (tree.liveDangers target maxDepth = .clean →
      ∀ name, tree.Reachable target name → name ≠ target → ¬ tree.Live name) ∧
    (∀ dangers, tree.liveDangers target maxDepth = .danger dangers →
      dangers ≠ [] ∧ ∀ path ∈ dangers, tree.RealPath target path) ∧
    ((∀ name, tree.Reachable target name → tree.Within target maxDepth name) →
      ∀ name, name ∈ (tree.liveDangers target maxDepth).liveNodes ↔
        tree.Reachable target name ∧ name ≠ target ∧ tree.Live name) := by
  have hends := liveDangers_ends tree target maxDepth
  generalize tree.liveDangers target maxDepth = outcome at hends ⊢
  cases hends with
  | depth far hchain hdepth hshortest =>
    refine ⟨nofun, nofun, fun hnear name => ?_⟩
    refine iff_of_false List.not_mem_nil ?_
    rintro ⟨hreach, -, -⟩
    by_cases hnil : far.path = []
    · -- the target itself is too far away: the limit is zero
      obtain ⟨hops, hlt, -⟩ := hnear name hreach
      rw [Entry.level, hnil, List.length_nil] at hdepth
      omega
    · -- a shortest path is no longer than the one within the limit
      obtain ⟨hops, hlt, hclose⟩ := hnear far.vertex ⟨far.path, hnil, hchain⟩
      exact absurd (hshortest hops hclose) (by omega)
  | turns taken hchain hdepth hshortest hall =>
    have hlive := mem_liveNodes_iff hchain hshortest hall
    refine ⟨fun h name hreach hother hname => ?_, fun dangers h => ?_, fun _ name => ?_⟩
    · split at h
      · next hempty =>
        have hmem := (hlive name).mpr ⟨hreach, hother, hname⟩
        rw [List.isEmpty_iff.mp hempty] at hmem
        exact List.not_mem_nil hmem
      · cases h
    · split at h
      · cases h
      · next hne =>
        cases h
        refine ⟨fun hnil => hne (List.isEmpty_iff.mpr hnil), fun path hpath => ?_⟩
        obtain ⟨e, he, hmem⟩ := List.mem_flatMap.mp hpath
        exact (realPath_of_mem (hchain e he) hmem).2.2
    · rw [mem_liveNodes_clean]
      exact hlive name

/-- A disk with a mapping on it that is mounted, and that names the disk again. -/
def mountedTree : BlockTree where
  nodes := [("sda", ⟨"sda", [], ["dm-0"], false, false, true⟩),
    ("dm-0", ⟨"dm-0", ["/srv"], ["sda", "ghost"], false, false, false⟩)]
  nodup := by decide

theorem liveDangers_exact_mounted : mountedTree.liveDangers "sda" 16 ≠ .clean := by
  intro hclean
  have hheld : "dm-0" ∈ mountedTree.holdersOf "sda" := by decide
  have hreach : mountedTree.Reachable "sda" "dm-0" :=
    ⟨_, List.append_ne_nil_of_right_ne_nil _ (List.cons_ne_nil _ _), .snoc .nil hheld⟩
  refine (liveDangers_exact mountedTree "sda" 16).1 hclean "dm-0" hreach (by decide) ?_
  exact ⟨⟨"dm-0", ["/srv"], ["sda", "ghost"], false, false, false⟩, by decide, .inl (by decide)⟩

end BlockTree

end DiscCleaner
