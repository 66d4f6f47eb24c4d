import Mathlib.Data.Nat.Digits.Lemmas
import Mathlib.Tactic.LinearCombination
import Mathlib.Tactic.Ring

/-!
# Rows of machine words

Multi-word arithmetic as a program does it: lists of 64-bit words, lowest first, sums held in 128
bits, carries passed from word to word. A step whose sum does not fit its word is `none`.
-/

namespace WordLib

/-- A sum held in 128 bits. -/
def fit128 (v : Nat) : Option Nat := if v < 2 ^ 128 then some v else none

/-- A sum held in 64 bits. -/
def fit64 (v : Nat) : Option Nat := if v < 2 ^ 64 then some v else none

theorem fit128_eq {v : Nat} (h : v < 2 ^ 128) : fit128 v = some v := if_pos h

theorem fit64_eq {v : Nat} (h : v < 2 ^ 64) : fit64 v = some v := if_pos h

/-- Every word is one of 64 bits. -/
def Words (ws : List Nat) : Prop := ∀ w ∈ ws, w < 2 ^ 64

/-- The value of words, lowest first. -/
abbrev value (ws : List Nat) : Nat := Nat.ofDigits (2 ^ 64) ws

/-- One row of a product: `ts + w * bs + carry`, word by word, and the carry out of it. -/
def mulAddRow (w : Nat) : List Nat → List Nat → Nat → Option (List Nat × Nat)
  | t :: ts, b :: bs, carry => do
    let acc ← fit128 (t + w * b + carry)
    let (out, carry) ← mulAddRow w ts bs (acc / 2 ^ 64)
    some (acc % 2 ^ 64 :: out, carry)
  | _, _, carry => some ([], carry)

/-! ## Values -/

theorem Words.head {t : Nat} {ts : List Nat} (h : Words (t :: ts)) : t < 2 ^ 64 :=
  h t List.mem_cons_self

theorem Words.tail {t : Nat} {ts : List Nat} (h : Words (t :: ts)) : Words ts := fun w hw =>
  h w (List.mem_cons_of_mem t hw)

theorem Words.cons {t : Nat} {ts : List Nat} (ht : t < 2 ^ 64) (h : Words ts) : Words (t :: ts) :=
  List.forall_mem_cons.mpr ⟨ht, h⟩

theorem Words.append {xs ys : List Nat} (hx : Words xs) (hy : Words ys) : Words (xs ++ ys) :=
  List.forall_mem_append.mpr ⟨hx, hy⟩

theorem value_cons (t : Nat) (ts : List Nat) : value (t :: ts) = t + 2 ^ 64 * value ts :=
  Nat.ofDigits_cons

theorem value_append (xs ys : List Nat) :
    value (xs ++ ys) = value xs + (2 ^ 64) ^ xs.length * value ys := Nat.ofDigits_append

theorem value_lt {ws : List Nat} (h : Words ws) : value ws < (2 ^ 64) ^ ws.length :=
  Nat.ofDigits_lt_base_pow_length (by decide) h

/-- The lowest word is the value modulo the base. -/
theorem value_mod {t : Nat} {ts : List Nat} (h : t < 2 ^ 64) : value (t :: ts) % 2 ^ 64 = t := by
  rw [value_cons, Nat.add_mul_mod_self_left, Nat.mod_eq_of_lt h]

/-! ## Rows -/

/-- A product of words with two words added is a double word. -/
theorem mul_add_lt {t w b carry : Nat} (ht : t < 2 ^ 64) (hw : w < 2 ^ 64) (hb : b < 2 ^ 64)
    (hc : carry < 2 ^ 64) : t + w * b + carry < 2 ^ 128 := by
  have hwb : w * b ≤ (2 ^ 64 - 1) * (2 ^ 64 - 1) := Nat.mul_le_mul (by omega) (by omega)
  omega

/-- **A row never overflows**, and its words and its carry are the value of the sum. -/
theorem mulAddRow_spec {w : Nat} (hw : w < 2 ^ 64) {ts bs : List Nat} (hlen : ts.length = bs.length)
    (hts : Words ts) (hbs : Words bs) {carry : Nat} (hc : carry < 2 ^ 64) :
    ∃ out c, mulAddRow w ts bs carry = some (out, c) ∧ out.length = ts.length ∧ Words out ∧
      c < 2 ^ 64 ∧ value out + (2 ^ 64) ^ ts.length * c = value ts + w * value bs + carry := by
  induction ts generalizing bs carry with
  | nil =>
    obtain rfl : bs = [] := List.length_eq_zero_iff.mp hlen.symm
    exact ⟨[], carry, rfl, rfl, fun _ h => absurd h List.not_mem_nil, hc, by simp [value]⟩
  | cons t ts ih =>
    cases bs with
    | nil => exact absurd hlen (by simp)
    | cons b bs =>
      have hacc := mul_add_lt hts.head hw hbs.head hc
      set acc := t + w * b + carry with hdef
      obtain ⟨out, c, hrow, hout, hwords, hcarry, hval⟩ := ih (by simpa using hlen) hts.tail hbs.tail
        (show acc / 2 ^ 64 < 2 ^ 64 by omega)
      refine ⟨acc % 2 ^ 64 :: out, c, ?_, by simp [hout], hwords.cons (Nat.mod_lt _ (by decide)),
        hcarry, ?_⟩
      · rw [mulAddRow, ← hdef, fit128_eq hacc, Option.bind_eq_bind, Option.bind_some, hrow]
        rfl
      · have hsplit : acc % 2 ^ 64 + 2 ^ 64 * (acc / 2 ^ 64) = acc := Nat.mod_add_div _ _
        rw [value_cons, value_cons, value_cons, List.length_cons, pow_succ' (2 ^ 64) ts.length]
        linear_combination 2 ^ 64 * hval + hsplit + hdef

end WordLib
