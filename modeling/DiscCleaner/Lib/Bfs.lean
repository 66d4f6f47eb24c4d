import Mathlib.Data.List.Nodup
import Mathlib.Data.List.Dedup
import Mathlib.Data.List.Induction

/-!
# Breadth-first search with labelled paths

A search over a graph that is given by the successors of each vertex. A vertex is queued with the
path that found it, once, and it is expanded when its turn comes. The vertices that have had their
turn are no part of the search itself; the invariants are about them and the queue together.

* **`Search.Inv.expand`** — one turn keeps the invariants.
* **`Search.Inv.shortest`** — a vertex has its turn with a path of least length.
* **`Search.Inv.complete`** — at the end every reachable vertex has had its turn.
-/

namespace BfsLib

variable {α β : Type} (next : α → List α) (label : α → α → β) (root : α)

/-- A path from the root, the labels of its edges in order. -/
inductive Trail : List β → α → Prop
  | nil : Trail [] root
  | snoc {p : List β} {u v : α} : Trail p u → v ∈ next u → Trail (p ++ [label u v]) v

/-- A vertex and the path that found it. -/
structure Entry (α β : Type) where
  vertex : α
  path : List β

namespace Entry

def level (e : Entry α β) : Nat := e.path.length

/-- The entry of a successor. -/
def extend (e : Entry α β) (v : α) : Entry α β := ⟨v, e.path ++ [label e.vertex v]⟩

@[simp] theorem extend_vertex (e : Entry α β) (v : α) : (e.extend label v).vertex = v := rfl

@[simp] theorem extend_level (e : Entry α β) (v : α) : (e.extend label v).level = e.level + 1 := by
  rw [level, extend, List.length_append, List.length_singleton, level]

end Entry

/-- The vertices that have been found, and the entries that wait. -/
structure Search (α β : Type) where
  visited : List α
  queue : List (Entry α β)

namespace Search

/-- A successor is queued when it is found the first time. -/
def push [DecidableEq α] (e : Entry α β) (s : Search α β) (v : α) : Search α β :=
  if v ∈ s.visited then s else ⟨v :: s.visited, s.queue ++ [e.extend label v]⟩

/-- The turn of an entry. -/
def expand [DecidableEq α] (e : Entry α β) (s : Search α β) : Search α β :=
  (next e.vertex).foldl (push label e) s

def start : Search α β := ⟨[root], [⟨root, []⟩]⟩

/-! ## Termination -/

/-- The turns that are left when the vertices are among `vertices`. -/
def turnsLeft [DecidableEq α] (vertices : List α) (s : Search α β) : Nat :=
  (vertices.dedup.filter fun v => v ∉ s.visited).length + s.queue.length

theorem turnsLeft_push [DecidableEq α] (vertices : List α) (e : Entry α β) (s : Search α β) {v : α}
    (hv : v ∈ vertices) : turnsLeft vertices (push label e s v) = turnsLeft vertices s := by
  unfold push
  split
  · rfl
  · next hnew =>
    -- the vertex leaves the ones not found and joins the queue
    have hmem : v ∈ vertices.dedup.filter fun w => w ∉ s.visited := by
      rw [List.mem_filter, List.mem_dedup, decide_eq_true_iff]
      exact ⟨hv, hnew⟩
    have hsame : (vertices.dedup.filter fun w => w ∉ v :: s.visited)
        = (vertices.dedup.filter fun w => w ∉ s.visited).erase v := by
      rw [((List.nodup_dedup vertices).filter _).erase_eq_filter, List.filter_filter]
      refine List.filter_congr fun w _ => ?_
      rw [Bool.eq_iff_iff]
      simp only [decide_eq_true_iff, Bool.and_eq_true, bne_iff_ne, List.mem_cons, not_or]
    have hlen := List.length_erase_of_mem hmem
    have hpos := List.length_pos_of_mem hmem
    unfold turnsLeft
    rw [hsame, hlen, List.length_append, List.length_singleton]
    omega

theorem turnsLeft_foldl [DecidableEq α] (vertices : List α) (e : Entry α β) {vs : List α}
    (hvs : vs ⊆ vertices) (s : Search α β) :
    turnsLeft vertices (vs.foldl (push label e) s) = turnsLeft vertices s := by
  induction vs generalizing s with
  | nil => rfl
  | cons v vs ih =>
    rw [List.cons_subset] at hvs
    rw [List.foldl_cons, ih hvs.2, turnsLeft_push label vertices e s hvs.1]

/-- **A turn leaves one turn fewer.** -/
theorem turnsLeft_expand [DecidableEq α] {vertices : List α} {e : Entry α β}
    (h : next e.vertex ⊆ vertices) (visited : List α) (rest : List (Entry α β)) :
    turnsLeft vertices (expand next label e ⟨visited, rest⟩)
      < turnsLeft vertices ⟨visited, e :: rest⟩ := by
  rw [expand, turnsLeft_foldl label vertices e h]
  show _ + rest.length < _ + (rest.length + 1)
  exact Nat.lt_succ_self _

/-! ## The layers -/

/-- The entries by level: those that have had their turn are at level `d` at most, and those that
wait are in order at `d` and `d + 1`. -/
structure Frontier (d : Nat) (taken : List (Entry α β)) (s : Search α β) : Prop where
  trail : ∀ e ∈ taken ++ s.queue, Trail next label root e.path e.vertex
  root_mem : ⟨root, []⟩ ∈ taken ++ s.queue
  found : ∀ v, v ∈ s.visited ↔ ∃ e ∈ taken ++ s.queue, e.vertex = v
  nodup : ((taken ++ s.queue).map Entry.vertex).Nodup
  sorted : s.queue.Pairwise fun a b => a.level ≤ b.level
  taken_le : ∀ e ∈ taken, e.level ≤ d
  le_queue : ∀ e ∈ s.queue, d ≤ e.level
  queue_le : ∀ e ∈ s.queue, e.level ≤ d + 1

/-- What holds between two turns. -/
structure Inv (d : Nat) (taken : List (Entry α β)) (s : Search α β) : Prop
    extends Frontier next label root d taken s where
  closed : ∀ e ∈ taken, ∀ v ∈ next e.vertex,
    ∃ e' ∈ taken ++ s.queue, e'.vertex = v ∧ e'.level ≤ e.level + 1

variable {next label root} {d : Nat} {taken : List (Entry α β)} {s : Search α β}

theorem inv_start : Inv next label root 0 [] (start root) where
  trail e he := by
    rw [List.mem_singleton.mp he]
    exact .nil
  root_mem := List.mem_singleton_self _
  found v := by simp [start, eq_comm]
  nodup := List.nodup_singleton _
  sorted := List.pairwise_singleton _ _
  taken_le _ he := absurd he List.not_mem_nil
  le_queue _ _ := Nat.zero_le _
  queue_le e he := by
    rw [List.mem_singleton.mp he]
    exact Nat.zero_le _
  closed _ he := absurd he List.not_mem_nil

namespace Frontier

/-- The next entry has its turn: the layers move on to its level. -/
theorem pop {e : Entry α β} {visited : List α} {rest : List (Entry α β)}
    (h : Frontier next label root d taken ⟨visited, e :: rest⟩) :
    Frontier next label root e.level (taken ++ [e]) ⟨visited, rest⟩ := by
  have hsame : taken ++ [e] ++ rest = taken ++ e :: rest := List.append_cons _ _ _ |>.symm
  have hsorted := List.pairwise_cons.mp h.sorted
  have hd : d ≤ e.level := h.le_queue e List.mem_cons_self
  exact {
    trail := by
      show ∀ a ∈ taken ++ [e] ++ rest, _
      rw [hsame]
      exact h.trail
    root_mem := by
      show _ ∈ taken ++ [e] ++ rest
      rw [hsame]
      exact h.root_mem
    found := by
      show ∀ v, v ∈ visited ↔ ∃ a ∈ taken ++ [e] ++ rest, _
      rw [hsame]
      exact h.found
    nodup := by
      show ((taken ++ [e] ++ rest).map _).Nodup
      rw [hsame]
      exact h.nodup
    sorted := hsorted.2
    taken_le := fun a ha => by
      rcases List.mem_append.mp ha with ha | ha
      · exact Nat.le_trans (h.taken_le a ha) hd
      · exact Nat.le_of_eq (congrArg Entry.level (List.mem_singleton.mp ha))
    le_queue := hsorted.1
    queue_le := fun b hb =>
      Nat.le_trans (h.queue_le b (List.mem_cons_of_mem _ hb)) (Nat.succ_le_succ hd) }

/-- **Step lemma**: a successor of an entry at the level of the layers is queued at the end. -/
theorem push [DecidableEq α] (h : Frontier next label root d taken s) {e : Entry α β}
    (he : e ∈ taken) (hlevel : e.level = d) {v : α} (hv : v ∈ next e.vertex) :
    Frontier next label root d taken (Search.push label e s v) := by
  unfold Search.push
  split
  · exact h
  next hnew =>
  have hassoc : taken ++ (s.queue ++ [e.extend label v])
      = taken ++ s.queue ++ [e.extend label v] := (List.append_assoc _ _ _).symm
  have hlast : (e.extend label v).level = d + 1 := by rw [Entry.extend_level, hlevel]
  exact {
    trail := by
      show ∀ a ∈ taken ++ (s.queue ++ [e.extend label v]), _
      rw [hassoc]
      intro a ha
      rcases List.mem_append.mp ha with ha | ha
      · exact h.trail a ha
      · rw [List.mem_singleton.mp ha]
        exact .snoc (h.trail e (List.mem_append_left _ he)) hv
    root_mem := by
      show _ ∈ taken ++ (s.queue ++ [e.extend label v])
      rw [hassoc]
      exact List.mem_append_left _ h.root_mem
    found := fun w => by
      show w ∈ v :: s.visited ↔ ∃ a ∈ taken ++ (s.queue ++ [e.extend label v]), _
      rw [hassoc, List.mem_cons, h.found w]
      constructor
      · rintro (rfl | ⟨a, ha, hvertex⟩)
        · exact ⟨_, List.mem_append_right _ (List.mem_singleton_self _), rfl⟩
        · exact ⟨a, List.mem_append_left _ ha, hvertex⟩
      · rintro ⟨a, ha, hvertex⟩
        rcases List.mem_append.mp ha with ha | ha
        · exact .inr ⟨a, ha, hvertex⟩
        · rw [List.mem_singleton.mp ha, Entry.extend_vertex] at hvertex
          exact .inl hvertex.symm
    nodup := by
      show ((taken ++ (s.queue ++ [e.extend label v])).map _).Nodup
      rw [hassoc, List.map_append, List.map_singleton, Entry.extend_vertex,
        ← List.concat_eq_append, List.nodup_concat]
      refine ⟨fun hmem => hnew ?_, h.nodup⟩
      rw [h.found]
      exact List.mem_map.mp hmem
    sorted := by
      refine List.pairwise_append.mpr ⟨h.sorted, List.pairwise_singleton _ _, fun a ha b hb => ?_⟩
      rw [List.mem_singleton.mp hb, hlast]
      exact h.queue_le a ha
    taken_le := h.taken_le
    le_queue := fun a ha => by
      rcases List.mem_append.mp ha with ha | ha
      · exact h.le_queue a ha
      · rw [List.mem_singleton.mp ha, hlast]
        exact Nat.le_succ d
    queue_le := fun a ha => by
      rcases List.mem_append.mp ha with ha | ha
      · exact h.queue_le a ha
      · rw [List.mem_singleton.mp ha]
        exact Nat.le_of_eq hlast }

/-- Every entry is at most one level behind the layers. -/
theorem level_le (h : Frontier next label root d taken s) {e : Entry α β}
    (he : e ∈ taken ++ s.queue) : e.level ≤ d + 1 := by
  rcases List.mem_append.mp he with he | he
  · exact Nat.le_succ_of_le (h.taken_le e he)
  · exact h.queue_le e he

/-- **Run lemma**: all the successors are queued, and nothing is lost. -/
theorem foldl [DecidableEq α] {e : Entry α β} (he : e ∈ taken) (hlevel : e.level = d) {vs : List α}
    (hvs : vs ⊆ next e.vertex) (h : Frontier next label root d taken s) :
    Frontier next label root d taken (vs.foldl (Search.push label e) s) ∧
      s.queue ⊆ (vs.foldl (Search.push label e) s).queue ∧
      ∀ v ∈ vs, v ∈ (vs.foldl (Search.push label e) s).visited := by
  induction vs using List.reverseRecOn with
  | nil => exact ⟨h, List.Subset.refl _, fun v hv => absurd hv List.not_mem_nil⟩
  | append_singleton vs w ih =>
    rw [List.append_subset, List.cons_subset] at hvs
    obtain ⟨hfrontier, hqueue, hvisited⟩ := ih hvs.1
    rw [List.foldl_append, List.foldl_cons, List.foldl_nil]
    refine ⟨hfrontier.push he hlevel hvs.2.1, ?_, fun v hv => ?_⟩
    · unfold Search.push
      split
      · exact hqueue
      · exact fun a ha => List.mem_append_left _ (hqueue ha)
    · have hold (hmem : v ∈ vs) :
          v ∈ (Search.push label e (vs.foldl (Search.push label e) s) w).visited := by
        unfold Search.push
        split
        · exact hvisited v hmem
        · exact List.mem_cons_of_mem _ (hvisited v hmem)
      rcases List.mem_append.mp hv with hv | hv
      · exact hold hv
      · rw [List.mem_singleton.mp hv]
        unfold Search.push
        split
        · next hmem => exact hmem
        · exact List.mem_cons_self

end Frontier

namespace Inv

/-- **Step lemma**: one turn keeps the invariants. -/
theorem expand [DecidableEq α] {e : Entry α β} {visited : List α} {rest : List (Entry α β)}
    (h : Inv next label root d taken ⟨visited, e :: rest⟩) :
    Inv next label root e.level (taken ++ [e]) (expand next label e ⟨visited, rest⟩) := by
  have he : e ∈ taken ++ [e] := List.mem_append_right _ (List.mem_singleton_self _)
  obtain ⟨hfrontier, hqueue, hvisited⟩ :=
    h.toFrontier.pop.foldl he rfl (List.Subset.refl (next e.vertex))
  refine ⟨hfrontier, fun a ha v hv => ?_⟩
  rcases List.mem_append.mp ha with ha | ha
  · obtain ⟨b, hb, hvertex, hlevel⟩ := h.closed a ha v hv
    refine ⟨b, ?_, hvertex, hlevel⟩
    rw [List.mem_append, List.mem_cons] at hb
    rcases hb with hb | rfl | hb
    · exact List.mem_append_left _ (List.mem_append_left _ hb)
    · exact List.mem_append_left _ he
    · exact List.mem_append_right _ (hqueue hb)
  · rw [List.mem_singleton.mp ha] at hv ⊢
    obtain ⟨b, hb, hvertex⟩ := (hfrontier.found v).mp (hvisited v hv)
    exact ⟨b, hb, hvertex, hfrontier.level_le hb⟩

/-- A path that is no longer than the level of the layers ends at an entry no farther away. -/
theorem exists_entry (h : Inv next label root d taken s) {p : List β} {v : α}
    (hp : Trail next label root p v) (hlen : p.length ≤ d ∨ s.queue = []) :
    ∃ e ∈ taken ++ s.queue, e.vertex = v ∧ e.level ≤ p.length := by
  induction hp with
  | nil => exact ⟨_, h.root_mem, rfl, Nat.le_refl _⟩
  | @snoc p u v hp hv ih =>
    rw [List.length_append, List.length_singleton] at hlen ⊢
    obtain ⟨e, he, hvertex, hlevel⟩ := ih (hlen.imp_left Nat.le_of_succ_le)
    -- an entry this near has had its turn
    have htaken : e ∈ taken := by
      rcases List.mem_append.mp he with he | he
      · exact he
      · rcases hlen with hlen | hempty
        · exact absurd (h.le_queue e he) (by omega)
        · rw [hempty] at he
          exact absurd he List.not_mem_nil
    obtain ⟨b, hb, hend, hstep⟩ := h.closed e htaken v (by rwa [hvertex])
    exact ⟨b, hb, hend, by omega⟩

/-- Two entries of one vertex are one. -/
theorem entry_unique (h : Inv next label root d taken s) {a b : Entry α β}
    (ha : a ∈ taken ++ s.queue) (hb : b ∈ taken ++ s.queue) (hvertex : a.vertex = b.vertex) :
    a = b :=
  List.inj_on_of_nodup_map h.nodup ha hb hvertex

/-- **The entry whose turn it is has a path of least length.** -/
theorem shortest {e : Entry α β} {visited : List α} {rest : List (Entry α β)}
    (h : Inv next label root d taken ⟨visited, e :: rest⟩) {p : List β}
    (hp : Trail next label root p e.vertex) : e.level ≤ p.length := by
  by_contra hlt
  have he : e ∈ taken ++ e :: rest := List.mem_append_right _ List.mem_cons_self
  have hle := h.toFrontier.level_le he
  obtain ⟨a, ha, hvertex, hlevel⟩ := h.exists_entry hp (.inl (by omega))
  rw [h.entry_unique ha he hvertex] at hlevel
  exact hlt hlevel

/-- **At the end every reachable vertex has had its turn**, with a path of least length. -/
theorem complete {visited : List α} (h : Inv next label root d taken ⟨visited, []⟩) {p : List β}
    {v : α} (hp : Trail next label root p v) :
    ∃ e ∈ taken, e.vertex = v ∧ e.level ≤ p.length := by
  obtain ⟨e, he, hentry⟩ := h.exists_entry hp (.inr rfl)
  rw [List.append_nil] at he
  exact ⟨e, he, hentry⟩

end Inv

end Search

end BfsLib
