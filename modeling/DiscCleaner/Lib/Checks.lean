import Mathlib.Logic.Basic

/-!
# Sequences of checks

A function that makes one check after another and returns at the first that fails, as an
`Except` computation. The lemmas turn "it succeeded" into the conjunction of what each check
asked, so a caller never unfolds the sequence twice.
-/

namespace Checks

universe u v

variable {ε : Type v} {α β : Type u}

/-- A sequence succeeds when its first part does and the rest does on its result. -/
theorem bind_eq_ok {x : Except ε α} {f : α → Except ε β} {b : β} :
    (x >>= f) = .ok b ↔ ∃ a, x = .ok a ∧ f a = .ok b := by
  cases x with
  | error e => simp [bind, Except.bind]
  | ok a => simp [bind, Except.bind]

/-- Past an early return. -/
theorem ite_error_eq_ok {c : Prop} [Decidable c] {e : ε} {x : Except ε α} {a : α} :
    (if c then .error e else x) = .ok a ↔ ¬ c ∧ x = .ok a := by
  by_cases h : c
  · simp [h]
  · simp [h]

/-- A check on a condition. -/
theorem ite_ok_eq_ok {c : Prop} [Decidable c] {e : ε} {a b : α} :
    (if c then .ok a else .error e : Except ε α) = .ok b ↔ c ∧ a = b := by
  by_cases h : c
  · simp [h]
  · simp [h]

/-- Checking every element of a list succeeds when each check does. -/
theorem forM_eq_ok {l : List α} {f : α → Except ε Unit} {u : Unit} :
    l.forM f = .ok u ↔ ∀ a ∈ l, f a = .ok () := by
  induction l with
  | nil => exact ⟨fun _ => by simp, fun _ => rfl⟩
  | cons a l ih =>
    show (f a >>= fun _ => l.forM f) = .ok u ↔ _
    rw [bind_eq_ok]
    constructor
    · rintro ⟨⟨⟩, ha, hl⟩ b hb
      rcases List.mem_cons.mp hb with rfl | hb
      · exact ha
      · exact ih.mp hl b hb
    · intro h
      exact ⟨(), h a List.mem_cons_self, ih.mpr fun b hb => h b (List.mem_cons_of_mem a hb)⟩

/-! ## When a sequence fails -/

/-- Some check of the computation failed. -/
def Refused (x : Except ε α) : Prop := ∃ e, x = .error e

theorem refused_error (e : ε) : Refused (.error e : Except ε α) := ⟨e, rfl⟩

theorem not_refused_ok (a : α) : ¬Refused (.ok a : Except ε α) := fun ⟨_, h⟩ => by cases h

/-- A sequence fails where its first part does, or else where the rest does. -/
theorem refused_bind {x : Except ε α} {f : α → Except ε β} {p : Prop}
    (h : ∀ a, Refused (f a) ↔ p) : Refused (x >>= f) ↔ Refused x ∨ p := by
  cases x with
  | error e => exact iff_of_true (refused_error e) (.inl (refused_error e))
  | ok a => exact (h a).trans (or_iff_right (not_refused_ok a)).symm

theorem refused_ite {c : Prop} [Decidable c] {e : ε} {x : Except ε α} :
    Refused (if c then .error e else x) ↔ c ∨ Refused x := by
  by_cases hc : c
  · simp [hc, refused_error]
  · simp [hc]

/-- Whatever the computation fails with satisfies `p`. -/
def FailsIn (p : ε → Prop) (x : Except ε α) : Prop := ∀ e, x = .error e → p e

theorem failsIn_ok (p : ε → Prop) (a : α) : FailsIn p (.ok a : Except ε α) := fun _ h => by cases h

theorem FailsIn.bind {p : ε → Prop} {x : Except ε α} {f : α → Except ε β} (hx : FailsIn p x)
    (hf : ∀ a, FailsIn p (f a)) : FailsIn p (x >>= f) := by
  cases x with
  | error e => exact fun e' h => hx e' (by cases h; rfl)
  | ok a => exact hf a

theorem FailsIn.ite {p : ε → Prop} {c : Prop} [Decidable c] {e : ε} {x : Except ε α} (he : p e)
    (hx : FailsIn p x) : FailsIn p (if c then .error e else x) := by
  by_cases hc : c
  · rw [if_pos hc]
    exact fun e' h => by cases h; exact he
  · rwa [if_neg hc]

/-- Rewording the error of a sequence rewords that of its parts. -/
theorem mapError_bind {ε' : Type v} (g : ε → ε') (x : Except ε α) (f : α → Except ε β) :
    (x >>= f).mapError g = x.mapError g >>= fun a => (f a).mapError g := by
  cases x <;> rfl

end Checks
