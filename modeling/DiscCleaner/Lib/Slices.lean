import DiscCleaner.Lib.BigEndian
import Mathlib.Data.List.Basic
import Mathlib.Data.List.GetD

/-!
# Slices and byte-addressed memory

Indexing a list by a range of positions, the way a bounds-checked language does it: a range that is
out of order or ends behind the list has no value, and the access unwinds. Inside the list it is
what is left after dropping and taking.
-/

namespace SliceLib

variable {α : Type*}

/-- The items from position `a` to position `b`; nothing when the list does not reach there. -/
def range? (l : List α) (a b : Nat) : Option (List α) :=
  if a ≤ b ∧ b ≤ l.length then some ((l.drop a).take (b - a)) else none

theorem range?_eq {l : List α} {a b : Nat} (hab : a ≤ b) (hb : b ≤ l.length) :
    range? l a b = some ((l.drop a).take (b - a)) := if_pos ⟨hab, hb⟩

theorem range?_eq_some {l r : List α} {a b : Nat} :
    range? l a b = some r ↔ a ≤ b ∧ b ≤ l.length ∧ r = (l.drop a).take (b - a) := by
  unfold range?
  split
  · next h =>
    rw [Option.some.injEq, eq_comm (a := (l.drop a).take (b - a))]
    exact ⟨fun hr => ⟨h.1, h.2, hr⟩, fun hr => hr.2.2⟩
  · next h => exact iff_of_false (by simp) fun hr => h ⟨hr.1, hr.2.1⟩

theorem range?_eq_none {l : List α} {a b : Nat} :
    range? l a b = none ↔ ¬ (a ≤ b ∧ b ≤ l.length) := by
  unfold range?
  split
  · next h => simp [h]
  · next h => simp [h]

/-- A prefix. -/
theorem range?_zero {l : List α} {b : Nat} (hb : b ≤ l.length) :
    range? l 0 b = some (l.take b) := by
  rw [range?_eq (Nat.zero_le b) hb, List.drop_zero, Nat.sub_zero]

/-- The middle of three parts. -/
theorem range?_append {p m s : List α} {a b : Nat} (ha : p.length = a) (hb : a + m.length = b) :
    range? (p ++ (m ++ s)) a b = some m := by
  subst ha hb
  rw [range?_eq (Nat.le_add_right _ _) (by simp), List.drop_left, Nat.add_sub_cancel_left,
    List.take_left]

/-- A suffix. -/
theorem range?_length {l : List α} {a : Nat} (ha : a ≤ l.length) :
    range? l a l.length = some (l.drop a) := by
  rw [range?_eq ha (Nat.le_refl _), List.take_of_length_le (Nat.le_of_eq List.length_drop)]

theorem length_range {l : List α} {a b : Nat} (hb : b ≤ l.length) :
    ((l.drop a).take (b - a)).length = b - a := by
  rw [List.length_take, List.length_drop]
  omega

end SliceLib

/-!
# Byte-addressed memory

Memory as a function of the address, with a byte string written at an address and the bytes read
from one. What is read after a write is the string, what was there before, or a mixture of both.
-/

namespace ByteLib

abbrev Memory := Nat → UInt8

namespace Memory

/-- The memory with a byte string from address `a`. -/
def write (m : Memory) (a : Nat) (bs : Bytes) : Memory := fun i =>
  if a ≤ i ∧ i < a + bs.length then bs.getD (i - a) 0 else m i

/-- The `n` bytes from address `a`. -/
def read (m : Memory) (a n : Nat) : Bytes := (List.range n).map fun i => m (a + i)

variable {m : Memory} {a b n : Nat} {bs : Bytes}

@[simp] theorem read_length (m : Memory) (a n : Nat) : (m.read a n).length = n := by simp [read]

theorem write_inside {i : Nat} (h : i < bs.length) : m.write a bs (a + i) = bs.getD i 0 := by
  rw [write, if_pos (by omega), Nat.add_sub_cancel_left]

theorem write_outside {i : Nat} (h : i < a ∨ a + bs.length ≤ i) : m.write a bs i = m i := by
  rw [write, if_neg (by omega)]

/-- What is read is a byte string exactly when each byte is. -/
theorem read_eq_iff : m.read a bs.length = bs ↔ ∀ i < bs.length, m (a + i) = bs.getD i 0 := by
  constructor
  · intro h i hi
    have hbyte : (m.read a bs.length).getD i 0 = m (a + i) := by
      simp [read, hi]
    rw [← hbyte, h]
  · intro h
    refine List.ext_getElem (by simp) fun i hi hi' => ?_
    have hbyte := h i hi'
    rw [List.getD_eq_getElem bs 0 hi'] at hbyte
    simpa [read] using hbyte

/-- The string that was written, read from its start on. -/
theorem read_write_self : (m.write a bs).read a bs.length = bs :=
  read_eq_iff.mpr fun _ hi => write_inside hi

/-- A part of the string that was written. -/
theorem read_write_slice {i : Nat} (h : i + n ≤ bs.length) :
    (m.write a bs).read (a + i) n = slice bs i n := by
  refine List.ext_getElem (by simp [slice]; omega) fun j hj hj' => ?_
  rw [read_length] at hj
  have hlt : i + j < bs.length := by omega
  have hbyte : m.write a bs (a + (i + j)) = bs.getD (i + j) 0 := write_inside hlt
  rw [List.getD_eq_getElem bs 0 hlt, ← Nat.add_assoc] at hbyte
  simpa [read, slice] using hbyte

/-- A write elsewhere is not seen. -/
theorem read_write_apart (h : a + n ≤ b ∨ b + bs.length ≤ a) :
    (m.write b bs).read a n = m.read a n := by
  refine List.map_congr_left fun i hi => ?_
  rw [List.mem_range] at hi
  exact write_outside (by omega)

end Memory

end ByteLib
