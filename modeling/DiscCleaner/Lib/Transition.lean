import Mathlib.Data.List.Induction
import Mathlib.Data.List.Basic

/-!
# Transition systems driven by a list of events

A system is a function that takes a state and an event to the next state. A run is a list of
events; `Along P` says that every event of a run meets `P` in the state it arrives in.

* **`Along.invariant`** — what every admitted event keeps, holds at the end of the run.
* **`along_iff_split`** — the same condition read at each cut of the run.
-/

namespace TransitionLib

variable {S E : Type*} (next : S → E → S)

/-- The state after a list of events. -/
def run (s : S) (es : List E) : S := es.foldl next s

@[simp] theorem run_nil (s : S) : run next s [] = s := rfl

@[simp] theorem run_cons (s : S) (e : E) (es : List E) :
    run next s (e :: es) = run next (next s e) es := rfl

@[simp] theorem run_append (s : S) (es es' : List E) :
    run next s (es ++ es') = run next (run next s es) es' := List.foldl_append

theorem run_concat (s : S) (es : List E) (e : E) :
    run next s (es ++ [e]) = next (run next s es) e := by simp

/-- Every event meets `P` in the state it arrives in. -/
def Along (P : S → E → Prop) : S → List E → Prop
  | _, [] => True
  | s, e :: es => P s e ∧ Along P (next s e) es

variable {next} {P Q : S → E → Prop}

instance Along.decidable [∀ s e, Decidable (P s e)] (s : S) (es : List E) :
    Decidable (Along next P s es) :=
  match es with
  | [] => .isTrue trivial
  | e :: es =>
    have := Along.decidable (next s e) es
    inferInstanceAs (Decidable (P s e ∧ Along next P (next s e) es))

theorem along_append {s : S} {es es' : List E} :
    Along next P s (es ++ es') ↔ Along next P s es ∧ Along next P (run next s es) es' := by
  induction es generalizing s with
  | nil => simp [Along]
  | cons e es ih => simp only [List.cons_append, Along, ih, run_cons, and_assoc]

theorem along_and {s : S} {es : List E} :
    Along next (fun s e => P s e ∧ Q s e) s es ↔ Along next P s es ∧ Along next Q s es := by
  induction es generalizing s with
  | nil => simp [Along]
  | cons e es ih => simp only [Along, ih, and_and_and_comm]

/-- **Invariant rule**: what an admitted event keeps, the run keeps. -/
theorem Along.invariant {I : S → Prop} (hstep : ∀ s e, I s → P s e → I (next s e))
    {s : S} {es : List E} (hs : I s) (hP : Along next P s es) : I (run next s es) := by
  induction es generalizing s with
  | nil => exact hs
  | cons e es ih => exact ih (hstep s e hs hP.1) hP.2

/-- What every event keeps, every run keeps. -/
theorem run_invariant {I : S → Prop} (hstep : ∀ s e, I s → I (next s e)) {s : S} (hs : I s)
    (es : List E) : I (run next s es) := by
  induction es generalizing s with
  | nil => exact hs
  | cons e es ih => exact ih (hstep s e hs)

/-- **Run rule**: a fact about the events so far and the state, kept by one more event. -/
theorem run_induction {s : S} {I : List E → S → Prop} (hstart : I [] s)
    (hnext : ∀ es t e, I es t → I (es ++ [e]) (next t e)) (es : List E) :
    I es (run next s es) := by
  induction es using List.reverseRecOn with
  | nil => exact hstart
  | append_singleton es e ih =>
    rw [run_concat]
    exact hnext es _ e ih

/-- The condition of a run, read at each of its cuts. -/
theorem along_iff_split {s : S} {es : List E} :
    Along next P s es ↔
      ∀ before e after, es = before ++ e :: after → P (run next s before) e := by
  constructor
  · rintro h before e after rfl
    exact (along_append.mp h).2.1
  · intro h
    induction es generalizing s with
    | nil => trivial
    | cons e es ih =>
      refine ⟨h [] e es rfl, ih ?_⟩
      intro before e' after hes
      exact h (e :: before) e' after (by rw [hes, List.cons_append])

end TransitionLib

/-!
# Monitors over logs

A monitor reads a log from its start, one entry at a time, and ends in a state. Some states
are bad for good: a log that has gone wrong stays wrong whatever follows, so a log that has not
gone wrong has not gone wrong in any prefix.
-/

namespace MonitorLib

structure Monitor (α S : Type) where
  start : S
  next : S → α → S
  bad : S → Prop
  bad_next : ∀ s a, bad s → bad (next s a)

namespace Monitor

variable {α S : Type} (m : Monitor α S)

/-- The state after a log. -/
def run (log : List α) : S := log.foldl m.next m.start

@[simp] theorem run_nil : m.run [] = m.start := rfl

@[simp] theorem run_concat (log : List α) (a : α) : m.run (log ++ [a]) = m.next (m.run log) a := by
  simp [run]

/-- **Run rule**: what holds of the empty log at the start, and is kept by every entry, holds
of every log at its state. -/
theorem run_induction {P : List α → S → Prop} (hstart : P [] m.start)
    (hnext : ∀ log s a, P log s → P (log ++ [a]) (m.next s a)) (log : List α) :
    P log (m.run log) := by
  induction log using List.reverseRecOn with
  | nil => exact hstart
  | append_singleton log a ih =>
    rw [run_concat]
    exact hnext log (m.run log) a ih

theorem bad_append {log : List α} (h : m.bad (m.run log)) (more : List α) :
    m.bad (m.run (log ++ more)) := by
  induction more using List.reverseRecOn with
  | nil => rwa [List.append_nil]
  | append_singleton more a ih =>
    rw [← List.append_assoc, run_concat]
    exact m.bad_next _ a ih

/-- A log that has not gone wrong has not gone wrong in any prefix. -/
theorem not_bad_of_extension {pre log : List α} (h : pre <+: log) (hlog : ¬ m.bad (m.run log)) :
    ¬ m.bad (m.run pre) := by
  obtain ⟨more, rfl⟩ := h
  intro hpre
  exact hlog (m.bad_append hpre more)

end Monitor

end MonitorLib

/-!
# Resources that are given out and taken back

Over a list of events, some of which give out a resource and some of which release one: `Settled`
lists are those in which every resource that is given out is released afterwards.
-/

namespace CustodyLib

variable {E H : Type} (gives frees : E → Option H)

/-- Everything that is given out is released afterwards. -/
def Settled : List E → Prop
  | [] => True
  | e :: es => (∀ h, gives e = some h → ∃ f ∈ es, frees f = some h) ∧ Settled es

/-- No event gives anything out. -/
def Idle (es : List E) : Prop := ∀ e ∈ es, gives e = none

variable {gives frees}

theorem settled_cons {e : E} {es : List E} : Settled gives frees (e :: es) ↔
    (∀ h, gives e = some h → ∃ f ∈ es, frees f = some h) ∧ Settled gives frees es := Iff.rfl

/-- An event that gives nothing out does not matter. -/
theorem settled_cons_of_idle {e : E} {es : List E} (he : gives e = none) :
    Settled gives frees (e :: es) ↔ Settled gives frees es := by
  rw [settled_cons]
  exact and_iff_right fun h hh => absurd (he.symm.trans hh) nofun

theorem Idle.settled {es : List E} (h : Idle gives es) : Settled gives frees es := by
  induction es with
  | nil => trivial
  | cons e es ih =>
    rw [settled_cons_of_idle (h e List.mem_cons_self)]
    exact ih fun f hf => h f (List.mem_cons_of_mem e hf)

theorem settled_append {es fs : List E} (hes : Idle gives es) :
    Settled gives frees (es ++ fs) ↔ Settled gives frees fs := by
  induction es with
  | nil => rfl
  | cons e es ih =>
    rw [List.cons_append, settled_cons_of_idle (hes e List.mem_cons_self)]
    exact ih fun f hf => hes f (List.mem_cons_of_mem e hf)

/-- Releases are not lost when events follow, and what follows settles itself. -/
theorem Settled.append {es fs : List E} (hes : Settled gives frees es)
    (hfs : Settled gives frees fs) : Settled gives frees (es ++ fs) := by
  induction es with
  | nil => exact hfs
  | cons e es ih =>
    obtain ⟨hreleased, hrest⟩ := hes
    refine ⟨fun h hh => ?_, ih hrest⟩
    obtain ⟨f, hf, hfree⟩ := hreleased h hh
    exact ⟨f, List.mem_append_left fs hf, hfree⟩

/-- What was given out and is nowhere released afterwards. -/
theorem not_settled {es fs : List E} {e : E} {h : H} (he : gives e = some h)
    (hfs : ∀ f ∈ fs, frees f ≠ some h) : ¬ Settled gives frees (es ++ e :: fs) := by
  induction es with
  | nil =>
    intro hsettled
    obtain ⟨f, hf, hfree⟩ := hsettled.1 h he
    exact hfs f hf hfree
  | cons e' es ih => exact fun hsettled => ih hsettled.2

end CustodyLib
