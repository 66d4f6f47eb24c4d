import Mathlib.Algebra.Ring.Parity
import Mathlib.Data.List.Basic
import Mathlib.Data.Nat.Bitwise

/-!
# Merkle trees over a list of leaves

A level joins its neighbours, an odd last node with itself, until one node is left. The path of a
leaf holds the sibling at each level and the side it stands on; climbing the path leads to the root.
-/

namespace MerkleLib

variable {α : Type*} (node : α → α → α)

/-! ## Levels -/

/-- The level above: neighbours are joined, and an odd last node is joined with itself. -/
def pairUp : List α → List α
  | [] => []
  | [a] => [node a a]
  | a :: b :: rest => node a b :: pairUp rest

theorem length_pairUp (level : List α) : (pairUp node level).length = (level.length + 1) / 2 := by
  induction level using pairUp.induct with
  | case1 => simp [pairUp]
  | case2 a => simp [pairUp]
  | case3 a b rest ih =>
    rw [pairUp, List.length_cons, ih, List.length_cons, List.length_cons]
    omega

/-- A node above is made from the node at the doubled position and the one behind it. -/
theorem getElem?_pairUp (level : List α) (k : Nat) :
    (pairUp node level)[k]? = level[2 * k]?.map fun a => node a (level[2 * k + 1]?.getD a) := by
  induction level using pairUp.induct generalizing k with
  | case1 => rfl
  | case2 a => cases k with
    | zero => rfl
    | succ k => rfl
  | case3 a b rest ih => cases k with
    | zero => rfl
    | succ k =>
      rw [pairUp, List.getElem?_cons_succ, ih]
      rfl

theorem length_pairUp_lt {level : List α} (h : 1 < level.length) :
    (pairUp node level).length < level.length := by
  rw [length_pairUp]
  omega

/-- The one node that is left at the top; nothing over no leaves. -/
def root? (level : List α) : Option α :=
  if 1 < level.length then root? (pairUp node level) else level.head?
termination_by level.length
decreasing_by exact length_pairUp_lt node ‹_›

/-! ## Paths -/

/-- The position of the sibling: the neighbour, or the node itself where no neighbour is. -/
def siblingIndex (len i : Nat) : Nat := if i ^^^ 1 < len then i ^^^ 1 else i

/-- The siblings on the way up, each with whether it stands on the right. A position outside the
level has none. -/
def path? (level : List α) (i : Nat) : Option (List (α × Bool)) :=
  if 1 < level.length then do
    let sibling ← level[siblingIndex level.length i]?
    let above ← path? (pairUp node level) (i / 2)
    some ((sibling, i % 2 == 0) :: above)
  else some []
termination_by level.length
decreasing_by exact length_pairUp_lt node ‹_›

/-- Join the way up from a leaf. -/
def climb (leaf : α) (path : List (α × Bool)) : α :=
  path.foldl (fun cur step => if step.2 then node cur step.1 else node step.1 cur) leaf

@[simp] theorem climb_nil (leaf : α) : climb node leaf [] = leaf := rfl

@[simp] theorem climb_cons (leaf sibling : α) (right : Bool) (path : List (α × Bool)) :
    climb node leaf ((sibling, right) :: path) =
      climb node (if right then node leaf sibling else node sibling leaf) path := rfl

/-- One step up: the sibling is there, and joining it on its side gives the node above. -/
theorem step_up {level : List α} {i : Nat} {leaf : α} (h : level[i]? = some leaf) :
    ∃ sibling, level[siblingIndex level.length i]? = some sibling ∧
      (pairUp node level)[i / 2]? =
        some (if i % 2 == 0 then node leaf sibling else node sibling leaf) := by
  have hlt : i < level.length := (List.getElem?_eq_some_iff.mp h).1
  rcases Nat.even_or_odd' i with ⟨k, rfl | rfl⟩
  · -- a left node: its neighbour is behind it, or it stands for its own neighbour
    have hxor : (2 * k) ^^^ 1 = 2 * k + 1 := Nat.xor_one_of_even (by simp)
    have hdiv : 2 * k / 2 = k := by omega
    have heven : (2 * k % 2 == 0) = true := by simp
    rw [siblingIndex, hxor, hdiv, getElem?_pairUp, h, heven]
    split
    · next hin =>
      rw [List.getElem?_eq_getElem hin]
      exact ⟨_, rfl, rfl⟩
    · next hout =>
      rw [List.getElem?_eq_none (Nat.le_of_not_lt hout)]
      exact ⟨leaf, h, rfl⟩
  · -- a right node: its neighbour is in front of it
    have hxor : (2 * k + 1) ^^^ 1 = 2 * k := Nat.xor_one_of_odd (by simp)
    have hdiv : (2 * k + 1) / 2 = k := by omega
    have hodd : ((2 * k + 1) % 2 == 0) = false := by simp
    have hin : 2 * k < level.length := by omega
    rw [siblingIndex, hxor, if_pos hin, hdiv, getElem?_pairUp, h, hodd,
      List.getElem?_eq_getElem hin]
    exact ⟨_, rfl, rfl⟩

/-- **Completeness**: every leaf has a path, and climbing it ends at the root. -/
theorem climb_path? {level : List α} {i : Nat} {leaf : α} (h : level[i]? = some leaf) :
    ∃ path, path? node level i = some path ∧ root? node level = some (climb node leaf path) := by
  induction level, i using path?.induct node generalizing leaf with
  | case1 level i hlen ih =>
    obtain ⟨sibling, hsibling, habove⟩ := step_up node h
    obtain ⟨path, hpath, hroot⟩ := ih habove
    refine ⟨(sibling, i % 2 == 0) :: path, ?_, ?_⟩
    · rw [path?, if_pos hlen, hsibling, hpath]
      rfl
    · rw [root?, if_pos hlen, hroot, climb_cons]
  | case2 level i hlen =>
    -- a single leaf is the root itself
    have hi : i = 0 := by
      have hlt : i < level.length := (List.getElem?_eq_some_iff.mp h).1
      omega
    subst hi
    refine ⟨[], ?_, ?_⟩
    · rw [path?, if_neg hlen]
    · rw [root?, if_neg hlen, List.head?_eq_getElem?, h, climb_nil]

end MerkleLib
