import Mathlib.Logic.Basic

/-!
# Dialogues

A client asks requests one at a time, sees each reply before the next, and ends with a result.
Who replies may look at everything asked so far, so a device with any state is one. What can be
said of a client whatever it is told is said of the ways its dialogue can go (`Ends`); running
it against a responder is one of them.
-/

namespace DialogueLib

/-- A request and what was replied. -/
structure Exchange (Q R : Type) where
  request : Q
  reply : R
  deriving DecidableEq

inductive Dialogue (Q R α : Type) where
  | done (a : α)
  | ask (q : Q) (next : R → Dialogue Q R α)

/-- A reply to each request, in view of the exchanges before it. -/
abbrev Responder (Q R : Type) : Type := List (Exchange Q R) → Q → R

namespace Dialogue

variable {Q R α β : Type}

/-- Go on with the result of a dialogue. -/
def andThen : Dialogue Q R α → (α → Dialogue Q R β) → Dialogue Q R β
  | done a, f => f a
  | ask q next, f => ask q fun r => (next r).andThen f

/-- The result against a responder, and the exchanges it leaves. -/
def run (respond : Responder Q R) : Dialogue Q R α → List (Exchange Q R) → α × List (Exchange Q R)
  | done a, h => (a, h)
  | ask q next, h => (next (respond h q)).run respond (h ++ [⟨q, respond h q⟩])

/-! ## The ways a dialogue can go -/

/-- `d.Ends es a`: with the exchanges `es`, and no others, `d` ends with `a`. -/
inductive Ends : Dialogue Q R α → List (Exchange Q R) → α → Prop
  | done (a : α) : Ends (.done a) [] a
  | ask {q : Q} {next : R → Dialogue Q R α} {r : R} {es : List (Exchange Q R)} {a : α}
      (h : Ends (next r) es a) : Ends (.ask q next) (⟨q, r⟩ :: es) a

@[simp] theorem ends_done {a b : α} {es : List (Exchange Q R)} :
    Ends (.done a) es b ↔ es = [] ∧ b = a := by
  constructor
  · intro h
    cases h
    exact ⟨rfl, rfl⟩
  · rintro ⟨rfl, rfl⟩
    exact .done b

theorem ends_ask {q : Q} {next : R → Dialogue Q R α} {es : List (Exchange Q R)} {a : α} :
    Ends (.ask q next) es a ↔ ∃ r es', es = ⟨q, r⟩ :: es' ∧ Ends (next r) es' a := by
  constructor
  · intro h
    cases h with
    | ask h => exact ⟨_, _, rfl, h⟩
  · rintro ⟨r, es', rfl, h⟩
    exact .ask h

/-- A dialogue that goes on has the exchanges of its first part, then those of the rest. -/
theorem ends_andThen {d : Dialogue Q R α} {f : α → Dialogue Q R β} {es : List (Exchange Q R)}
    {b : β} :
    Ends (d.andThen f) es b ↔ ∃ es₁ a es₂, es = es₁ ++ es₂ ∧ Ends d es₁ a ∧ Ends (f a) es₂ b := by
  induction d generalizing es with
  | done a =>
    rw [andThen]
    constructor
    · intro h
      exact ⟨[], a, es, rfl, .done a, h⟩
    · rintro ⟨es₁, a', es₂, rfl, hd, hf⟩
      obtain ⟨rfl, rfl⟩ := ends_done.mp hd
      exact hf
  | ask q next ih =>
    rw [andThen, ends_ask]
    constructor
    · rintro ⟨r, es', rfl, h⟩
      obtain ⟨es₁, a, es₂, rfl, hd, hf⟩ := (ih r).mp h
      exact ⟨⟨q, r⟩ :: es₁, a, es₂, rfl, .ask hd, hf⟩
    · rintro ⟨es₁, a, es₂, rfl, hd, hf⟩
      obtain ⟨r, es', rfl, hnext⟩ := ends_ask.mp hd
      exact ⟨r, es' ++ es₂, rfl, (ih r).mpr ⟨es', a, es₂, rfl, hnext, hf⟩⟩

/-- **A run is one of the ways**: it adds its exchanges to those before it, each answered as the
responder does. -/
theorem run_ends (respond : Responder Q R) (d : Dialogue Q R α) (h : List (Exchange Q R)) :
    ∃ es, (d.run respond h).2 = h ++ es ∧ d.Ends es (d.run respond h).1
      ∧ ∀ e ∈ es, ∃ h', e.reply = respond h' e.request := by
  induction d generalizing h with
  | done a => exact ⟨[], (List.append_nil h).symm, .done a, fun e he => by cases he⟩
  | ask q next ih =>
    obtain ⟨es, hlog, hends, hreplies⟩ := ih (respond h q) (h ++ [⟨q, respond h q⟩])
    refine ⟨⟨q, respond h q⟩ :: es, ?_, .ask hends, ?_⟩
    · rw [run, hlog, List.append_assoc, List.singleton_append]
    · intro e he
      rcases List.mem_cons.mp he with rfl | he
      · exact ⟨h, rfl⟩
      · exact hreplies e he

/-- A run that asks starts with that question and its answer. -/
theorem run_ask (respond : Responder Q R) (q : Q) (next : R → Dialogue Q R α) :
    ∃ es, (run respond (ask q next) []).2 = ⟨q, respond [] q⟩ :: es := by
  obtain ⟨es, hlog, -, -⟩ := run_ends respond (next (respond [] q)) [⟨q, respond [] q⟩]
  exact ⟨es, hlog⟩

/-- A run from the start leaves exactly its own exchanges. -/
theorem ends_run (respond : Responder Q R) (d : Dialogue Q R α) :
    d.Ends (d.run respond []).2 (d.run respond []).1 := by
  obtain ⟨es, hlog, hends, -⟩ := run_ends respond d []
  rw [List.nil_append] at hlog
  rw [hlog]
  exact hends

theorem reply_run (respond : Responder Q R) (d : Dialogue Q R α) :
    ∀ e ∈ (d.run respond []).2, ∃ h, e.reply = respond h e.request := by
  obtain ⟨es, hlog, -, hreplies⟩ := run_ends respond d []
  rw [List.nil_append] at hlog
  rw [hlog]
  exact hreplies

end Dialogue

end DialogueLib
