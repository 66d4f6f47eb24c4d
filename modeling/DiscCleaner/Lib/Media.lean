import DiscCleaner.Lib.Bytes
import Mathlib.Order.Interval.Set.Basic

/-!
# Media and the writes made to it

A medium maps byte addresses to bytes. What a program does to it is a trace of events: ranges
it wrote, and ranges a failed operation left in any state. `Covered` says an address was
written by the trace; `Overwrites` says what the medium holds afterwards.
-/

namespace MediaLib

open ByteLib

abbrev Media := Nat → UInt8

/-- A change to a range of addresses. The content is indexed from the start of the range; a
`scrambled` range may hold anything and does not count as written. -/
inductive Event where
  | wrote (offset length : Nat) (content : Nat → UInt8)
  | scrambled (offset length : Nat) (content : Nat → UInt8)

abbrev Trace := List Event

def Event.apply : Event → Media → Media
  | wrote offset length content, m | scrambled offset length content, m =>
    fun a => if offset ≤ a ∧ a < offset + length then content (a - offset) else m a

def applyTrace (trace : Trace) (m : Media) : Media := trace.foldl (fun m e => e.apply m) m

/-- Some event of the trace wrote the address. -/
def Covered (trace : Trace) (a : Nat) : Prop :=
  ∃ offset length content, Event.wrote offset length content ∈ trace
    ∧ offset ≤ a ∧ a < offset + length

@[simp] theorem not_covered_nil (a : Nat) : ¬ Covered [] a := by simp [Covered]

/-- What is covered stays covered. -/
theorem Covered.append {trace : Trace} {a : Nat} (h : Covered trace a) (more : Trace) :
    Covered (trace ++ more) a := by
  obtain ⟨offset, length, content, hmem, hrange⟩ := h
  exact ⟨offset, length, content, List.mem_append_left more hmem, hrange⟩

@[simp] theorem covered_concat_wrote {trace : Trace} {offset length a : Nat}
    {content : Nat → UInt8} :
    Covered (trace ++ [.wrote offset length content]) a
      ↔ Covered trace a ∨ offset ≤ a ∧ a < offset + length := by
  constructor
  · rintro ⟨o, l, c, hmem, hrange⟩
    rcases List.mem_append.mp hmem with hold | hnew
    · exact Or.inl ⟨o, l, c, hold, hrange⟩
    · rw [List.mem_singleton, Event.wrote.injEq] at hnew
      exact Or.inr (by rw [← hnew.1, ← hnew.2.1]; exact hrange)
  · rintro (hold | hrange)
    · exact hold.append _
    · exact ⟨offset, length, content, by simp, hrange⟩

@[simp] theorem covered_concat_scrambled {trace : Trace} {offset length a : Nat}
    {content : Nat → UInt8} :
    Covered (trace ++ [.scrambled offset length content]) a ↔ Covered trace a := by
  constructor
  · rintro ⟨o, l, c, hmem, hrange⟩
    rcases List.mem_append.mp hmem with hold | hnew
    · exact ⟨o, l, c, hold, hrange⟩
    · simp at hnew
  · intro h
    exact h.append _

/-! ## What the medium holds afterwards -/

@[simp] theorem applyTrace_nil (m : Media) : applyTrace [] m = m := rfl

@[simp] theorem applyTrace_concat (trace : Trace) (e : Event) (m : Media) :
    applyTrace (trace ++ [e]) m = e.apply (applyTrace trace m) := by
  rw [applyTrace, List.foldl_append]
  rfl

/-- The second medium holds `f` on `s` and the bytes of the first elsewhere. -/
structure Overwrites (s : Set Nat) (f m m' : Media) : Prop where
  inside : ∀ a ∈ s, m' a = f a
  outside : ∀ a ∉ s, m' a = m a

namespace Overwrites

variable {s t : Set Nat} {f g m m' m'' : Media}

theorem refl (f m : Media) : Overwrites ∅ f m m :=
  ⟨fun _ ha => absurd ha (Set.notMem_empty _), fun _ _ => rfl⟩

/-- Only the content inside the set matters. -/
theorem congr (h : Overwrites s f m m') (hfg : ∀ a ∈ s, f a = g a) : Overwrites s g m m' :=
  ⟨fun a ha => (h.inside a ha).trans (hfg a ha), h.outside⟩

/-- Two writes of one content in a row. -/
theorem union (h : Overwrites s f m m') (h' : Overwrites t f m' m'') :
    Overwrites (s ∪ t) f m m'' := by
  constructor
  · intro a ha
    by_cases hnew : a ∈ t
    · exact h'.inside a hnew
    · rw [h'.outside a hnew]
      exact h.inside a (ha.resolve_right hnew)
  · intro a ha
    rw [Set.mem_union, not_or] at ha
    rw [h'.outside a ha.2, h.outside a ha.1]

end Overwrites

theorem Event.wrote_overwrites (offset length : Nat) (content : Nat → UInt8) (m : Media) :
    Overwrites (Set.Ico offset (offset + length)) (fun a => content (a - offset)) m
      ((Event.wrote offset length content).apply m) :=
  ⟨fun _ ha => if_pos ha, fun _ ha => if_neg ha⟩

theorem Event.scrambled_outside {offset length a : Nat} (content : Nat → UInt8) (m : Media)
    (ha : a ∉ Set.Ico offset (offset + length)) :
    (Event.scrambled offset length content).apply m a = m a :=
  if_neg ha

/-- A stretch of the medium, as a read returns it. -/
def Media.slice (m : Media) (offset length : Nat) : Bytes :=
  (List.range length).map fun i => m (offset + i)

@[simp] theorem Media.slice_length (m : Media) (offset length : Nat) :
    (m.slice offset length).length = length := by
  rw [Media.slice, List.length_map, List.length_range]

theorem Media.slice_append (m : Media) (offset length more : Nat) :
    m.slice offset length ++ m.slice (offset + length) more
      = m.slice offset (length + more) := by
  unfold Media.slice
  rw [List.range_add, List.map_append, List.map_map]
  congr 2
  funext i
  exact congrArg m (Nat.add_assoc offset length i)

/-- A slice is a given list when every byte agrees. -/
theorem Media.slice_eq_iff {m : Media} {offset : Nat} {data : Bytes} :
    m.slice offset data.length = data ↔ ∀ i < data.length, m (offset + i) = data.getD i 0 := by
  constructor
  · intro h i hi
    have hget := congrArg (fun l => l.getD i 0) h
    simpa [Media.slice, hi] using hget
  · intro h
    apply List.ext_getElem (m.slice_length offset data.length)
    intro i hi hi'
    have hbyte := h i hi'
    simp only [Media.slice, List.getElem_map, List.getElem_range]
    simpa [hi'] using hbyte

end MediaLib
