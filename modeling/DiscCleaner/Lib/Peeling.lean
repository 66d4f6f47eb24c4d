import DiscCleaner.Lib.Bytes
import Mathlib.Data.Set.Basic
import Mathlib.Data.List.Perm.Basic

/-!
# Peeling of XOR sums

A symbol is the XOR of the blocks it refers to. From a set of symbols, the blocks that can be
recovered by peeling are those some symbol refers to with all its other blocks recovered
before. `Peelable` is that closure, `xorAll` the value of a symbol.
-/

namespace PeelingLib

open ByteLib

/-! ## The closure -/

/-- The blocks recovered from a set of symbols, `ns id` being the blocks symbol `id` refers
to. -/
inductive Peelable {ι β : Type} (ns : ι → List β) (fed : Set ι) : β → Prop
  | peel {id : ι} {n : β} (hid : id ∈ fed) (hn : n ∈ ns id)
    (hrest : ∀ m ∈ ns id, m ≠ n → Peelable ns fed m) : Peelable ns fed n

namespace Peelable

variable {ι β : Type} {ns : ι → List β} {fed more : Set ι} {n : β}

theorem mono (h : Peelable ns fed n) (hsub : fed ⊆ more) : Peelable ns more n := by
  induction h with
  | peel hid hn _ ih => exact .peel (hsub hid) hn ih

/-- **The closure is the least closed set**: a set from which no symbol can be peeled any
further holds every recovered block. -/
theorem mem_of_closed {D : Set β} (h : Peelable ns fed n)
    (hclosed : ∀ id ∈ fed, ∀ m ∈ ns id, (∀ l ∈ ns id, l ≠ m → l ∈ D) → m ∈ D) : n ∈ D := by
  induction h with
  | peel hid hn _ ih => exact hclosed _ hid _ hn ih

end Peelable

/-! ## XOR of byte strings -/

/-- `for (o, b) in out.iter_mut().zip(d) { *o ^= b }`: the length stays that of `out`. -/
def xorInto : Bytes → Bytes → Bytes
  | o :: os, b :: bs => (o ^^^ b) :: xorInto os bs
  | os, [] => os
  | [], _ => []

@[simp] theorem xorInto_nil (a : Bytes) : xorInto a [] = a := by
  cases a <;> rfl

@[simp] theorem xorInto_length (a b : Bytes) : (xorInto a b).length = a.length := by
  induction a generalizing b with
  | nil => cases b <;> rfl
  | cons o os ih =>
    cases b with
    | nil => rfl
    | cons x xs => rw [xorInto, List.length_cons, List.length_cons, ih]

theorem xorInto_right_comm (a b c : Bytes) :
    xorInto (xorInto a b) c = xorInto (xorInto a c) b := by
  induction a generalizing b c with
  | nil => cases b <;> cases c <;> rfl
  | cons o os ih =>
    cases b with
    | nil => rw [xorInto_nil, xorInto_nil]
    | cons x xs =>
      cases c with
      | nil => rw [xorInto_nil, xorInto_nil]
      | cons y ys =>
        rw [xorInto, xorInto, xorInto, xorInto, ih, UInt8.xor_assoc, UInt8.xor_comm x y,
          UInt8.xor_assoc]

/-- XOR twice is nothing. -/
theorem xorInto_cancel (a b : Bytes) : xorInto (xorInto a b) b = a := by
  induction a generalizing b with
  | nil => cases b <;> rfl
  | cons o os ih =>
    cases b with
    | nil => rfl
    | cons x xs => rw [xorInto, xorInto, ih, UInt8.xor_assoc, UInt8.xor_self, UInt8.xor_zero]

theorem xorInto_zeros (b : Bytes) : xorInto (List.replicate b.length 0) b = b := by
  induction b with
  | nil => rfl
  | cons x xs ih =>
    rw [List.length_cons, List.replicate_succ, xorInto, ih, UInt8.zero_xor]

/-- The XOR of the listed blocks, each of `size` bytes. -/
def xorAll (block : Nat → Bytes) (size : Nat) (l : List Nat) : Bytes :=
  l.foldl (fun out n => xorInto out (block n)) (List.replicate size 0)

theorem foldl_xorInto_perm {block : Nat → Bytes} {l l' : List Nat} (h : l.Perm l') (init : Bytes) :
    l.foldl (fun out n => xorInto out (block n)) init
      = l'.foldl (fun out n => xorInto out (block n)) init :=
  h.foldl_eq' (fun _ _ _ _ _ => xorInto_right_comm _ _ _) init

/-- The order of the blocks does not matter. -/
theorem xorAll_perm {block : Nat → Bytes} {size : Nat} {l l' : List Nat} (h : l.Perm l') :
    xorAll block size l = xorAll block size l' :=
  foldl_xorInto_perm h _

theorem foldl_xorInto_xorInto (block : Nat → Bytes) (l : List Nat) (init b : Bytes) :
    l.foldl (fun out n => xorInto out (block n)) (xorInto init b)
      = xorInto (l.foldl (fun out n => xorInto out (block n)) init) b := by
  induction l generalizing init with
  | nil => rfl
  | cons n l ih => rw [List.foldl_cons, List.foldl_cons, xorInto_right_comm, ih]

theorem xorAll_cons (block : Nat → Bytes) (size n : Nat) (l : List Nat) :
    xorAll block size (n :: l) = xorInto (xorAll block size l) (block n) := by
  rw [xorAll, List.foldl_cons, foldl_xorInto_xorInto]
  rfl

/-- Folding a block out of a symbol that refers to it. -/
theorem xorInto_xorAll {block : Nat → Bytes} {size n : Nat} {l l' : List Nat}
    (h : l.Perm (n :: l')) : xorInto (xorAll block size l) (block n) = xorAll block size l' := by
  rw [xorAll_perm h, xorAll_cons, xorInto_cancel]

/-- Folding several blocks out. -/
theorem foldl_xorInto_xorAll {block : Nat → Bytes} {size : Nat} {l out rest : List Nat}
    (h : l.Perm (out ++ rest)) :
    out.foldl (fun v n => xorInto v (block n)) (xorAll block size l) = xorAll block size rest := by
  induction out generalizing l with
  | nil => exact xorAll_perm h
  | cons n out ih =>
    rw [List.foldl_cons, xorInto_xorAll h]
    exact ih (List.Perm.refl _)

/-- A symbol that refers to one block is that block. -/
theorem xorAll_singleton {block : Nat → Bytes} {size n : Nat} (h : (block n).length = size) :
    xorAll block size [n] = block n := by
  rw [xorAll, List.foldl_cons, List.foldl_nil, ← h, xorInto_zeros]

theorem xorAll_length (block : Nat → Bytes) (size : Nat) (l : List Nat) :
    (xorAll block size l).length = size := by
  induction l with
  | nil => exact List.length_replicate
  | cons n l ih => rw [xorAll_cons, xorInto_length, ih]

/-! ## Removal by swapping -/

/-- `Vec::swap_remove`: the last element takes the place of the removed one. -/
def swapRemove {α : Type} (l : List α) (pos : Nat) : List α :=
  match l.getLast? with
  | none => []
  | some last => (l.set pos last).dropLast

theorem swapRemove_perm {α : Type} {l : List α} {pos : Nat} (h : pos < l.length) :
    l.Perm (l[pos] :: swapRemove l pos) := by
  have hne : l ≠ [] := List.ne_nil_of_length_pos (Nat.zero_lt_of_lt h)
  obtain ⟨front, last, rfl⟩ := (List.eq_nil_or_concat' l).resolve_left hne
  rw [List.length_append, List.length_singleton] at h
  unfold swapRemove
  rw [List.getLast?_concat]
  by_cases hlast : pos = front.length
  · subst hlast
    simp
  · have hpos : pos < front.length := by omega
    dsimp only
    rw [List.set_append_left _ _ hpos, List.dropLast_concat, List.getElem_append_left hpos]
    -- The removed element and the last one trade places.
    have hfront : front.Perm (front[pos] :: front.eraseIdx pos) :=
      (List.getElem_cons_eraseIdx_perm hpos).symm
    have hset : (front.set pos last).Perm (last :: front.eraseIdx pos) :=
      List.set_perm_cons_eraseIdx hpos last
    have hswap := List.Perm.swap front[pos] last (front.eraseIdx pos)
    exact (List.perm_append_singleton last front).trans
      ((hfront.cons last).trans (hswap.trans (hset.symm.cons front[pos])))

end PeelingLib
