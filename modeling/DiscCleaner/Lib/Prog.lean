import Mathlib.Logic.Basic

/-!
# Programs with state and failure, and their triples

A program takes a state and ends with an outcome and the state it leaves: a value, an error
that propagates, an unwinding, or no return at all. Every way of ending leaves a state, so a
triple has two postconditions: one for values, one for everything else.
-/

namespace ProgLib

/-- How a call ends. `blocked` is a call that has not returned. -/
inductive Outcome (ε α : Type) where
  | ok (a : α)
  | err (e : ε)
  | panic
  | blocked
  deriving DecidableEq

/-- A program on states `σ` with errors `ε`. -/
def Prog (σ ε α : Type) : Type := σ → Outcome ε α × σ

namespace Prog

variable {σ ε α β : Type}

def ret (a : α) : Prog σ ε α := fun s => (.ok a, s)

/-- Run `m`, and `f` on its value; any other end of `m` is the end of both. -/
def andThen (m : Prog σ ε α) (f : α → Prog σ ε β) : Prog σ ε β := fun s =>
  match m s with
  | (.ok a, s) => f a s
  | (.err e, s) => (.err e, s)
  | (.panic, s) => (.panic, s)
  | (.blocked, s) => (.blocked, s)

instance : Monad (Prog σ ε) where
  pure := ret
  bind := andThen

def fail (e : ε) : Prog σ ε α := fun s => (.err e, s)

/-- Unwind, as an `unwrap` on nothing does. -/
def unwind : Prog σ ε α := fun s => (.panic, s)

def get : Prog σ ε σ := fun s => (.ok s, s)

def update (f : σ → σ) : Prog σ ε Unit := fun s => (.ok (), f s)

def ofExcept : Except ε α → Prog σ ε α
  | .ok a => ret a
  | .error e => fail e

/-- Fail when there is an error to fail with. -/
def failIf : Option ε → Prog σ ε Unit
  | none => ret ()
  | some e => fail e

/-- Catch the error of a call, for a caller that looks at it. -/
def attempt (m : Prog σ ε α) : Prog σ ε (Except ε α) := fun s =>
  match m s with
  | (.ok a, s) => (.ok (.ok a), s)
  | (.err e, s) => (.ok (.error e), s)
  | (.panic, s) => (.panic, s)
  | (.blocked, s) => (.blocked, s)

/-- Run for the effect only; an error is dropped. -/
def ignore (m : Prog σ ε Unit) : Prog σ ε Unit := do
  let _ ← attempt m
  pure ()

/-! ## Running -/

@[simp] theorem pure_run (a : α) (s : σ) : (pure a : Prog σ ε α) s = (.ok a, s) := rfl

theorem bind_run (m : Prog σ ε α) (f : α → Prog σ ε β) (s : σ) :
    (m >>= f) s = andThen m f s := rfl

/-- A step that returns a value hands it on. -/
theorem bind_run_ok {m : Prog σ ε α} {f : α → Prog σ ε β} {s s' : σ} {a : α}
    (h : m s = (.ok a, s')) : (m >>= f) s = f a s' := by
  show andThen m f s = f a s'
  rw [andThen, h]

/-- A step that fails ends the program. -/
theorem bind_run_err {m : Prog σ ε α} {f : α → Prog σ ε β} {s s' : σ} {e : ε}
    (h : m s = (.err e, s')) : (m >>= f) s = (.err e, s') := by
  show andThen m f s = (.err e, s')
  rw [andThen, h]

/-- **Inversion.** A sequence that ends with a value ran both its parts. -/
theorem bind_eq_ok {m : Prog σ ε α} {f : α → Prog σ ε β} {s s' : σ} {b : β} :
    (m >>= f) s = (.ok b, s') ↔ ∃ a s₁, m s = (.ok a, s₁) ∧ f a s₁ = (.ok b, s') := by
  constructor
  · intro h
    rw [bind_run, andThen] at h
    cases hm : m s with
    | mk outcome s₁ =>
      rw [hm] at h
      cases outcome with
      | ok a => exact ⟨a, s₁, rfl, h⟩
      | _ => exact absurd (Prod.mk.inj h).1 nofun
  · rintro ⟨a, s₁, hm, hf⟩
    rw [bind_run_ok hm, hf]

/-! ## Triples -/

/-- From a state with `P`, `m` ends with a value and `Q`, or without one and with `E`. -/
def Triple (P : σ → Prop) (m : Prog σ ε α) (Q : α → σ → Prop) (E : σ → Prop) : Prop :=
  ∀ s, P s → (∀ a s', m s = (.ok a, s') → Q a s') ∧
    ((∀ a, (m s).1 ≠ .ok a) → E (m s).2)

variable {P P' : σ → Prop} {Q Q' : α → σ → Prop} {R : β → σ → Prop} {E E' : σ → Prop}

namespace Triple

theorem consequence {m : Prog σ ε α} (h : Triple P m Q E) (hP : ∀ s, P' s → P s)
    (hQ : ∀ a s, Q a s → Q' a s) (hE : ∀ s, E s → E' s) : Triple P' m Q' E' := by
  intro s hs
  obtain ⟨hok, herr⟩ := h s (hP s hs)
  exact ⟨fun a s' hrun => hQ a s' (hok a s' hrun), fun hno => hE _ (herr hno)⟩

theorem weaken_pre {m : Prog σ ε α} (h : Triple P m Q E) (hP : ∀ s, P' s → P s) :
    Triple P' m Q E := h.consequence hP (fun _ _ => id) fun _ => id

theorem strengthen_post {m : Prog σ ε α} (h : Triple P m Q E)
    (hQ : ∀ a s, Q a s → Q' a s) : Triple P m Q' E := h.consequence (fun _ => id) hQ fun _ => id

/-- However a program with one postcondition ends, it ends with it. -/
theorem always {m : Prog σ ε α} {I : σ → Prop} (h : Triple P m (fun _ => I) I) {s : σ}
    (hs : P s) : I (m s).2 := by
  obtain ⟨hok, hno⟩ := h s hs
  cases hrun : m s with
  | mk outcome s' =>
    rw [hrun] at hno
    cases outcome with
    | ok a => exact hok a s' hrun
    | _ => exact hno (by simp)

/-- A fact that is not about the state may be used as a hypothesis. -/
theorem of_fact {m : Prog σ ε α} {p : Prop} (h : p → Triple P m Q E) :
    Triple (fun s => p ∧ P s) m Q E := fun s hs => h hs.1 s hs.2

theorem of_exists {m : Prog σ ε α} {ι : Type} {P : ι → σ → Prop}
    (h : ∀ x, Triple (P x) m Q E) : Triple (fun s => ∃ x, P x s) m Q E := by
  rintro s ⟨x, hs⟩
  exact h x s hs

/-- A program that ends with a value. -/
theorem of_run {m : Prog σ ε α} (h : ∀ s, P s → ∃ a s', m s = (.ok a, s') ∧ Q a s') :
    Triple P m Q E := by
  intro s hs
  obtain ⟨a, s', hrun, hQ⟩ := h s hs
  rw [hrun]
  refine ⟨fun b s'' heq => ?_, fun hno => absurd rfl (hno a)⟩
  simp only [Prod.mk.injEq, Outcome.ok.injEq] at heq
  rw [← heq.1, ← heq.2]
  exact hQ

/-- A triple whose second postcondition is empty makes the program end with a value. -/
theorem run_of_total {m : Prog σ ε α} (h : Triple P m Q fun _ => False) {s : σ} (hs : P s) :
    ∃ a s', m s = (.ok a, s') ∧ Q a s' := by
  obtain ⟨hok, hno⟩ := h s hs
  cases hrun : m s with
  | mk outcome s' =>
    rw [hrun] at hno
    cases outcome with
    | ok a => exact ⟨a, s', rfl, hok a s' hrun⟩
    | _ => exact (hno (by simp)).elim

/-- Two triples of one program hold together. -/
theorem conj {m : Prog σ ε α} (h : Triple P m Q E) (h' : Triple P' m Q' E') :
    Triple (fun s => P s ∧ P' s) m (fun a s => Q a s ∧ Q' a s) (fun s => E s ∧ E' s) := by
  intro s hs
  obtain ⟨hok, herr⟩ := h s hs.1
  obtain ⟨hok', herr'⟩ := h' s hs.2
  exact ⟨fun a s' hrun => ⟨hok a s' hrun, hok' a s' hrun⟩, fun hno => ⟨herr hno, herr' hno⟩⟩

theorem ret (a : α) (h : ∀ s, P s → Q a s) : Triple (ε := ε) P (pure a) Q E := by
  intro s hs
  refine ⟨fun b s' hrun => ?_, fun hno => absurd rfl (hno a)⟩
  rw [pure_run, Prod.mk.injEq, Outcome.ok.injEq] at hrun
  rw [← hrun.1, ← hrun.2]
  exact h s hs

/-- **Sequencing.** The first part's postcondition is the second's precondition. -/
theorem bind {m : Prog σ ε α} {f : α → Prog σ ε β} (hm : Triple P m Q E)
    (hf : ∀ a, Triple (Q a) (f a) R E) : Triple P (m >>= f) R E := by
  intro s hs
  obtain ⟨hok, herr⟩ := hm s hs
  show (∀ b s', andThen m f s = (.ok b, s') → R b s') ∧
    ((∀ b, (andThen m f s).1 ≠ .ok b) → E (andThen m f s).2)
  unfold andThen
  cases hrun : m s with
  | mk outcome s₁ =>
    rw [hrun] at herr
    cases outcome with
    | ok a => exact hf a s₁ (hok a s₁ hrun)
    | err e => exact ⟨fun b s' h => by simp at h, fun _ => herr (by simp)⟩
    | panic => exact ⟨fun b s' h => by simp at h, fun _ => herr (by simp)⟩
    | blocked => exact ⟨fun b s' h => by simp at h, fun _ => herr (by simp)⟩

theorem fail {e : ε} (h : ∀ s, P s → E s) : Triple (α := α) P (Prog.fail e) Q E := by
  intro s hs
  exact ⟨fun a s' hrun => by simp [Prog.fail] at hrun, fun _ => h s hs⟩

theorem get : Triple (ε := ε) P Prog.get (fun a s => a = s ∧ P s) E := by
  intro s hs
  refine ⟨fun a s' hrun => ?_, fun hno => absurd rfl (hno s)⟩
  simp only [Prog.get, Prod.mk.injEq, Outcome.ok.injEq] at hrun
  rw [← hrun.1, ← hrun.2]
  exact ⟨rfl, hs⟩

/-- Catching an error turns the second postcondition of errors into a first one. -/
theorem attempt {m : Prog σ ε α} (h : Triple P m Q E) :
    Triple P (Prog.attempt m)
      (fun r s => match r with | .ok a => Q a s | .error _ => E s) E := by
  intro s hs
  obtain ⟨hok, herr⟩ := h s hs
  unfold Prog.attempt
  cases hrun : m s with
  | mk outcome s₁ =>
    rw [hrun] at herr
    cases outcome with
    | ok a =>
      refine ⟨fun r s' h => ?_, fun hno => absurd rfl (hno (.ok a))⟩
      simp only [Prod.mk.injEq, Outcome.ok.injEq] at h
      rw [← h.1, ← h.2]
      exact hok a s₁ hrun
    | err e =>
      refine ⟨fun r s' h => ?_, fun hno => absurd rfl (hno (.error e))⟩
      simp only [Prod.mk.injEq, Outcome.ok.injEq] at h
      rw [← h.1, ← h.2]
      exact herr (by simp)
    | panic => exact ⟨fun b s' h => by simp at h, fun _ => herr (by simp)⟩
    | blocked => exact ⟨fun b s' h => by simp at h, fun _ => herr (by simp)⟩

/-- Nothing is asked of the program and nothing is said of it. -/
theorem trivial (m : Prog σ ε α) :
    Triple (fun _ => True) m (fun _ _ => True) fun _ => True := fun _ _ =>
  ⟨fun _ _ _ => True.intro, fun _ => True.intro⟩

end Triple

/-! ## What a program leaves alone -/

/-- However it ends, the program leaves `f` of the state as it was. -/
def Keeps {γ : Type} (f : σ → γ) (m : Prog σ ε α) : Prop := ∀ s, f (m s).2 = f s

namespace Keeps

variable {γ : Type} {f : σ → γ}

/-- **Frame rule**: what is said of `f` of the state stays true. -/
theorem triple {m : Prog σ ε α} (h : Keeps f m) (I : γ → Prop) :
    Triple (fun s => I (f s)) m (fun _ s => I (f s)) fun s => I (f s) := by
  intro s hs
  have hafter : I (f (m s).2) := by
    rw [h s]
    exact hs
  refine ⟨fun a s' hrun => ?_, fun _ => hafter⟩
  rw [hrun] at hafter
  exact hafter

theorem ret (a : α) : Keeps f (pure a : Prog σ ε α) := fun _ => rfl

theorem fail (e : ε) : Keeps f (Prog.fail e : Prog σ ε α) := fun _ => rfl

theorem unwind : Keeps f (Prog.unwind : Prog σ ε α) := fun _ => rfl

theorem get : Keeps f (Prog.get : Prog σ ε σ) := fun _ => rfl

theorem ofExcept (x : Except ε α) : Keeps f (Prog.ofExcept x : Prog σ ε α) := by
  cases x with
  | ok a => exact ret a
  | error e => exact fail e

theorem failIf (e : Option ε) : Keeps f (Prog.failIf e : Prog σ ε Unit) := by
  cases e with
  | none => exact ret ()
  | some e => exact fail e

theorem bind {m : Prog σ ε α} {k : α → Prog σ ε β} (hm : Keeps f m)
    (hk : ∀ a, Keeps f (k a)) : Keeps f (m >>= k) := by
  intro s
  show f (andThen m k s).2 = f s
  have hfirst := hm s
  unfold andThen
  cases hrun : m s with
  | mk outcome s₁ =>
    rw [hrun] at hfirst
    cases outcome with
    | ok a => exact (hk a s₁).trans hfirst
    | err e => exact hfirst
    | panic => exact hfirst
    | blocked => exact hfirst

theorem ite {c : Prop} [Decidable c] {m m' : Prog σ ε α} (hm : Keeps f m) (hm' : Keeps f m') :
    Keeps f (if c then m else m') := by
  by_cases hc : c
  · rwa [if_pos hc]
  · rwa [if_neg hc]

theorem attempt {m : Prog σ ε α} (hm : Keeps f m) : Keeps f (Prog.attempt m) := by
  intro s
  have hfirst := hm s
  unfold Prog.attempt
  cases hrun : m s with
  | mk outcome s₁ =>
    rw [hrun] at hfirst
    cases outcome <;> exact hfirst

end Keeps

/-! ## Invariants of a program -/

/-- However it ends, from a state with `I` the program leaves one with `I`. -/
def Preserves (I : σ → Prop) (m : Prog σ ε α) : Prop := ∀ s, I s → I (m s).2

namespace Preserves

variable {I : σ → Prop}

theorem ret (a : α) : Preserves I (pure a : Prog σ ε α) := fun _ h => h

theorem bind {m : Prog σ ε α} {k : α → Prog σ ε β} (hm : Preserves I m)
    (hk : ∀ a, Preserves I (k a)) : Preserves I (m >>= k) := by
  intro s hs
  show I (andThen m k s).2
  have hfirst := hm s hs
  unfold andThen
  cases hrun : m s with
  | mk outcome s₁ =>
    rw [hrun] at hfirst
    cases outcome with
    | ok a => exact hk a s₁ hfirst
    | err e => exact hfirst
    | panic => exact hfirst
    | blocked => exact hfirst

theorem ite {c : Prop} [Decidable c] {m m' : Prog σ ε α} (hm : Preserves I m)
    (hm' : Preserves I m') : Preserves I (if c then m else m') := by
  by_cases hc : c
  · rwa [if_pos hc]
  · rwa [if_neg hc]

end Preserves

/-! ## What a program leaves from one state -/

/-- However it ends from the state, the program leaves one with `I`. -/
def Leaves (m : Prog σ ε α) (I : σ → Prop) (s : σ) : Prop := I (m s).2

namespace Leaves

variable {I : σ → Prop} {s : σ}

theorem ret {a : α} (h : I s) : Leaves (pure a : Prog σ ε α) I s := h

theorem fail {e : ε} (h : I s) : Leaves (Prog.fail e : Prog σ ε α) I s := h

theorem unwind (h : I s) : Leaves (Prog.unwind : Prog σ ε α) I s := h

theorem update {f : σ → σ} (h : I (f s)) : Leaves (Prog.update f : Prog σ ε Unit) I s := h

theorem failIf {e : Option ε} (h : I s) : Leaves (Prog.failIf e : Prog σ ε Unit) I s := by
  cases e with
  | none => exact h
  | some e => exact h

/-- What is read is the state. -/
theorem get_bind {k : σ → Prog σ ε α} (h : Leaves (k s) I s) : Leaves (Prog.get >>= k) I s := h

theorem update_bind {f : σ → σ} {k : Unit → Prog σ ε α} (h : Leaves (k ()) I (f s)) :
    Leaves (Prog.update f >>= k) I s := h

theorem ofExcept_bind {x : Except ε β} {k : β → Prog σ ε α} (herror : I s)
    (hok : ∀ b, x = .ok b → Leaves (k b) I s) : Leaves (Prog.ofExcept x >>= k) I s := by
  cases x with
  | ok b => exact hok b rfl
  | error e => exact herror

/-- **Sequencing**, from the state the first part leaves. -/
theorem bind {m : Prog σ ε β} {k : β → Prog σ ε α} (hm : Leaves m I s)
    (hk : ∀ b s', m s = (.ok b, s') → I s' → Leaves (k b) I s') : Leaves (m >>= k) I s := by
  show I (andThen m k s).2
  unfold Leaves at hm
  unfold andThen
  cases hrun : m s with
  | mk outcome s₁ =>
    rw [hrun] at hm
    cases outcome with
    | ok b => exact hk b s₁ hrun hm
    | err e => exact hm
    | panic => exact hm
    | blocked => exact hm

/-- A loop keeps what each of its turns keeps. -/
theorem forM {l : List β} {f : β → Prog σ ε PUnit}
    (hf : ∀ b ∈ l, ∀ s, I s → Leaves (f b) I s) (h : I s) : Leaves (l.forM f) I s := by
  induction l generalizing s with
  | nil => exact h
  | cons b l ih =>
    refine bind (hf b List.mem_cons_self s h) fun _ s' _ hs' => ?_
    exact ih (fun b' hb' => hf b' (List.mem_cons_of_mem b hb')) hs'

end Leaves

/-! ## Programs that return -/

/-- The program ends with a value from the state. -/
def Finishes (m : Prog σ ε α) (s : σ) : Prop := ∃ a s', m s = (.ok a, s')

namespace Finishes

variable {s s' : σ}

theorem ret (a : α) : Finishes (pure a : Prog σ ε α) s := ⟨a, s, rfl⟩

theorem update (f : σ → σ) : Finishes (Prog.update f : Prog σ ε Unit) s := ⟨(), f s, rfl⟩

theorem not_fail (e : ε) : ¬ Finishes (Prog.fail e : Prog σ ε α) s := by
  rintro ⟨a, s', h⟩
  exact absurd (Prod.mk.inj h).1 nofun

theorem not_unwind : ¬ Finishes (Prog.unwind : Prog σ ε α) s := by
  rintro ⟨a, s', h⟩
  exact absurd (Prod.mk.inj h).1 nofun

theorem get_bind {k : σ → Prog σ ε α} : Finishes (Prog.get >>= k) s ↔ Finishes (k s) s := .rfl

theorem update_bind {f : σ → σ} {k : Unit → Prog σ ε α} :
    Finishes (Prog.update f >>= k) s ↔ Finishes (k ()) (f s) := .rfl

/-- After a part that is known to return, the rest decides. -/
theorem bind_of_run {m : Prog σ ε β} {k : β → Prog σ ε α} {b : β} (h : m s = (.ok b, s')) :
    Finishes (m >>= k) s ↔ Finishes (k b) s' := by
  unfold Finishes
  rw [bind_run_ok h]

theorem bind {m : Prog σ ε β} {k : β → Prog σ ε α} (hm : Finishes m s)
    (hk : ∀ b s', Finishes (k b) s') : Finishes (m >>= k) s := by
  obtain ⟨b, s', hrun⟩ := hm
  exact (bind_of_run hrun).mpr (hk b s')

/-- A sequence returns only if its first part does. -/
theorem of_bind {m : Prog σ ε β} {k : β → Prog σ ε α} (h : Finishes (m >>= k) s) :
    Finishes m s := by
  obtain ⟨a, s', hrun⟩ := h
  rw [bind_run, andThen] at hrun
  cases hm : m s with
  | mk outcome s₁ =>
    rw [hm] at hrun
    cases outcome with
    | ok b => exact ⟨b, s₁, hm⟩
    | _ => exact absurd (Prod.mk.inj hrun).1 nofun

theorem ofExcept_bind {x : Except ε β} {k : β → Prog σ ε α} :
    Finishes (Prog.ofExcept x >>= k) s ↔ ∃ b, x = .ok b ∧ Finishes (k b) s := by
  cases x with
  | ok b => exact ⟨fun h => ⟨b, rfl, h⟩, fun ⟨_, hb, h⟩ => Except.ok.inj hb ▸ h⟩
  | error e => exact ⟨fun h => absurd h.of_bind (not_fail e), fun ⟨_, hb, _⟩ => absurd hb nofun⟩

theorem forM {l : List β} {f : β → Prog σ ε PUnit} (hf : ∀ b s, Finishes (f b) s) :
    Finishes (l.forM f) s := by
  induction l generalizing s with
  | nil => exact ret _
  | cons b l ih => exact bind (hf b s) fun _ _ => ih

end Finishes

/-! ## Loops with a number of turns -/

/-- From some number of turns on the loop returns the outcome; with fewer it has not returned. -/
def Returns (loop : Nat → Prog σ ε α) (s : σ) (outcome : Outcome ε α) : Prop :=
  ∃ enough, ∀ turns, (loop turns s).1 = if enough ≤ turns then outcome else .blocked

namespace Returns

variable {loop : Nat → Prog σ ε α} {s : σ}

theorem unique {a b : Outcome ε α} (ha : Returns loop s a) (hb : Returns loop s b) : a = b := by
  obtain ⟨m, hm⟩ := ha
  obtain ⟨n, hn⟩ := hb
  have ha' := hm (max m n)
  have hb' := hn (max m n)
  rw [if_pos (Nat.le_max_left m n)] at ha'
  rw [if_pos (Nat.le_max_right m n)] at hb'
  exact ha'.symm.trans hb'

/-- What the loop returns with some number of turns, it returns. -/
theorem of_run {a b : Outcome ε α} {turns : Nat} (h : Returns loop s a)
    (hrun : (loop turns s).1 = b) (hb : b ≠ .blocked) : b = a := by
  obtain ⟨enough, hloop⟩ := h
  rw [hloop turns] at hrun
  by_cases henough : enough ≤ turns
  · rw [if_pos henough] at hrun
    exact hrun.symm
  · rw [if_neg henough] at hrun
    exact absurd hrun.symm hb

/-- One turn of the loop, and then the rest of it. -/
theorem of_turn {loop' : Nat → Prog σ ε α} {s' : σ} {a : Outcome ε α}
    (hzero : (loop 0 s).1 = .blocked) (hturn : ∀ turns, (loop (turns + 1) s).1 = (loop' turns s').1)
    (h : Returns loop' s' a) : Returns loop s a := by
  obtain ⟨enough, hrest⟩ := h
  refine ⟨enough + 1, fun turns => ?_⟩
  cases turns with
  | zero => rw [hzero, if_neg (by omega)]
  | succ turns =>
    rw [hturn turns, hrest turns]
    simp only [Nat.add_le_add_iff_right]

/-- The loop ends in its first turn. -/
theorem of_end {a : Outcome ε α} (hzero : (loop 0 s).1 = .blocked)
    (hend : ∀ turns, (loop (turns + 1) s).1 = a) : Returns loop s a := by
  refine ⟨1, fun turns => ?_⟩
  cases turns with
  | zero => rw [hzero, if_neg (by omega)]
  | succ turns => rw [hend turns, if_pos (by omega)]

end Returns

end Prog

end ProgLib
