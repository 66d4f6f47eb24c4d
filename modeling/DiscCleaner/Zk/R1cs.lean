import DiscCleaner.Zk.Field

/-!
# DiscCleaner — rank-one constraint systems (`r1cs.rs`)

Sparse linear combinations, constraints and the full check of a witness. A column past the
witness stops the program, so evaluation is partial.

* **`isSatisfiedBy_iff`** — what a passed check has established.
* **`dot_addTerm`**, **`dot_add`** — linear combinations are built as sums.
-/

namespace DiscCleaner.Zk

/-! ## Linear combinations -/

/-- A sparse linear combination: columns in order, each with its coefficient. -/
abbrev Row := List (Nat × Fr)

def LinComb.empty : Row := []

def LinComb.var (idx : Nat) (coeff : Fr) : Row := [(idx, coeff)]

/-- The constant 1, which is variable 0. -/
def LinComb.one : Row := LinComb.var 0 1

/-- Add to one coefficient; a coefficient that becomes zero is removed. -/
def addTerm : Row → Nat → Fr → Row
  | [], idx, coeff => if coeff = 0 then [] else [(idx, coeff)]
  | (i, c) :: rest, idx, coeff =>
    if idx < i then (if coeff = 0 then (i, c) :: rest else (idx, coeff) :: (i, c) :: rest)
    else if idx = i then (if c + coeff = 0 then rest else (i, c + coeff) :: rest)
    else (i, c) :: addTerm rest idx coeff

def LinComb.add (lhs rhs : Row) : Row := rhs.foldl (fun out t => addTerm out t.1 t.2) lhs

/-- The value under an assignment of every column. -/
def dot (row : Row) (v : Nat → Fr) : Fr := (row.map fun t => t.2 * v t.1).sum

@[simp] theorem dot_nil (v : Nat → Fr) : dot [] v = 0 := rfl

@[simp] theorem dot_cons (t : Nat × Fr) (row : Row) (v : Nat → Fr) :
    dot (t :: row) v = t.2 * v t.1 + dot row v := by
  rw [dot, dot, List.map_cons, List.sum_cons]

@[simp] theorem dot_empty (v : Nat → Fr) : dot LinComb.empty v = 0 := rfl

@[simp] theorem dot_var (idx : Nat) (coeff : Fr) (v : Nat → Fr) :
    dot (LinComb.var idx coeff) v = coeff * v idx := by
  rw [LinComb.var, dot_cons, dot_nil, add_zero]

@[simp] theorem dot_one (v : Nat → Fr) : dot LinComb.one v = v 0 := by
  rw [LinComb.one, dot_var, one_mul]

/-- **One more term adds its value**, wherever it lands and even where it cancels. -/
@[simp] theorem dot_addTerm (row : Row) (idx : Nat) (coeff : Fr) (v : Nat → Fr) :
    dot (addTerm row idx coeff) v = dot row v + coeff * v idx := by
  induction row with
  | nil =>
    rw [addTerm]
    split_ifs with h
    · rw [h, zero_mul, add_zero]
    · rw [dot_cons, dot_nil, add_zero, zero_add]
  | cons t rest ih =>
    obtain ⟨i, c⟩ := t
    rw [addTerm]
    split_ifs with hlt hzero heq hcancel
    · rw [hzero, zero_mul, add_zero]
    · rw [dot_cons, add_comm]
    · rw [dot_cons, heq, add_right_comm, ← add_mul, hcancel, zero_mul, zero_add]
    · simp only [dot_cons, heq]
      ring
    · rw [dot_cons, dot_cons, ih, add_assoc]

@[simp] theorem dot_add (lhs rhs : Row) (v : Nat → Fr) :
    dot (LinComb.add lhs rhs) v = dot lhs v + dot rhs v := by
  induction rhs generalizing lhs with
  | nil => rw [LinComb.add, List.foldl_nil, dot_nil, add_zero]
  | cons t rest ih =>
    rw [LinComb.add, List.foldl_cons, ← LinComb.add, ih, dot_addTerm, dot_cons, add_assoc]

/-- The columns stay below a bound. -/
def Below (n : Nat) (row : Row) : Prop := ∀ t ∈ row, t.1 < n

theorem Below.mono {m n : Nat} {row : Row} (h : Below m row) (hmn : m ≤ n) : Below n row :=
  fun t ht => (h t ht).trans_le hmn

theorem below_empty (n : Nat) : Below n LinComb.empty := fun _ ht => absurd ht List.not_mem_nil

theorem below_var {n idx : Nat} (h : idx < n) (coeff : Fr) : Below n (LinComb.var idx coeff) := by
  intro t ht
  rw [List.mem_singleton.mp ht]
  exact h

theorem below_one {n : Nat} (h : 0 < n) : Below n LinComb.one := below_var h 1

theorem Below.addTerm {n idx : Nat} {row : Row} (h : Below n row) (hidx : idx < n) (coeff : Fr) :
    Below n (addTerm row idx coeff) := by
  induction row with
  | nil =>
    rw [Zk.addTerm]
    split_ifs
    · exact h
    · exact below_var hidx coeff
  | cons t rest ih =>
    have ht : t.1 < n := h t List.mem_cons_self
    have hrest : Below n rest := fun s hs => h s (List.mem_cons_of_mem t hs)
    rw [Zk.addTerm]
    split_ifs
    · exact h
    · exact List.forall_mem_cons.mpr ⟨hidx, h⟩
    · exact hrest
    · exact List.forall_mem_cons.mpr ⟨ht, hrest⟩
    · exact List.forall_mem_cons.mpr ⟨ht, ih hrest⟩

theorem Below.add {n : Nat} {lhs rhs : Row} (hl : Below n lhs) (hr : Below n rhs) :
    Below n (LinComb.add lhs rhs) := by
  induction rhs generalizing lhs with
  | nil => exact hl
  | cons t rest ih =>
    obtain ⟨ht, hrest⟩ := List.forall_mem_cons.mp hr
    rw [LinComb.add, List.foldl_cons, ← LinComb.add]
    exact ih (hl.addTerm ht t.2) hrest

/-! ## Systems -/

/-- `a · b = c`. -/
structure Constraint where
  a : Row
  b : Row
  c : Row
  deriving DecidableEq

/-- A system: its variables, how many of them after the constant are public, its constraints. -/
structure R1cs where
  numVars : Nat
  numPublic : Nat
  constraints : List Constraint

def R1cs.new (numVars numPublic : Nat) : R1cs := ⟨numVars, numPublic, []⟩

def R1cs.constrain (cs : R1cs) (a b c : Row) : R1cs :=
  { cs with constraints := cs.constraints ++ [⟨a, b, c⟩] }

def R1cs.numConstraints (cs : R1cs) : Nat := cs.constraints.length

/-- One term; a column past the end of the witness stops the program. -/
def addProduct (witness : List Fr) (acc : Fr) (t : Nat × Fr) : Option Fr := do
  some (acc + t.2 * (← witness[t.1]?))

/-- The value under a witness. -/
def evalSparse (row : Row) (witness : List Fr) : Option Fr := row.foldlM (addProduct witness) 0

/-- The constraints in order, up to the first that fails. -/
def checkConstraints (witness : List Fr) : List Constraint → Option Bool
  | [] => some true
  | k :: rest => do
    let av ← evalSparse k.a witness
    let bv ← evalSparse k.b witness
    let cv ← evalSparse k.c witness
    if av * bv ≠ cv then some false else checkConstraints witness rest

def R1cs.isSatisfiedBy (cs : R1cs) (witness : List Fr) : Option Bool :=
  if witness.length ≠ cs.numVars then some false
  else if witness.head? ≠ some 1 then some false
  else checkConstraints witness cs.constraints

/-! ## What the check establishes -/

/-- A witness as an assignment of every column. -/
def assignment (witness : List Fr) : Nat → Fr := fun i => witness.getD i 0

/-- The constraint holds under an assignment. -/
def Constraint.Holds (k : Constraint) (v : Nat → Fr) : Prop := dot k.a v * dot k.b v = dot k.c v

/-- The columns of the constraint stay below a bound. -/
def Constraint.Below (n : Nat) (k : Constraint) : Prop :=
  Zk.Below n k.a ∧ Zk.Below n k.b ∧ Zk.Below n k.c

theorem evalSparse_eq (row : Row) (witness : List Fr) :
    evalSparse row witness
      = if ∀ t ∈ row, t.1 < witness.length then some (dot row (assignment witness)) else none := by
  have hfold : ∀ (row : Row) (acc : Fr), row.foldlM (addProduct witness) acc
      = if ∀ t ∈ row, t.1 < witness.length then some (acc + dot row (assignment witness))
        else none := by
    intro row
    induction row with
    | nil => simp
    | cons t rest ih =>
      intro acc
      rw [List.foldlM_cons, addProduct]
      by_cases ht : t.1 < witness.length
      · have hget : witness[t.1]? = some (assignment witness t.1) := by
          rw [assignment, List.getD_eq_getElem _ _ ht, List.getElem?_eq_getElem ht]
        simp only [hget, Option.bind_eq_bind, Option.bind_some]
        rw [ih]
        simp only [List.forall_mem_cons, ht, true_and, dot_cons, add_assoc]
      · simp only [List.getElem?_eq_none (not_lt.mp ht), Option.bind_eq_bind, Option.bind_none,
          List.forall_mem_cons, ht, false_and, if_false]
  have h := hfold row 0
  rw [zero_add] at h
  exact h

theorem evalSparse_of_below {row : Row} {witness : List Fr} (h : Below witness.length row) :
    evalSparse row witness = some (dot row (assignment witness)) :=
  (evalSparse_eq row witness).trans (if_pos h)

theorem evalSparse_of_not_below {row : Row} {witness : List Fr} (h : ¬Below witness.length row) :
    evalSparse row witness = none :=
  (evalSparse_eq row witness).trans (if_neg h)

theorem checkConstraints_iff (witness : List Fr) (ks : List Constraint) :
    checkConstraints witness ks = some true ↔
      ∀ k ∈ ks, k.Below witness.length ∧ k.Holds (assignment witness) := by
  induction ks with
  | nil => simp [checkConstraints]
  | cons k rest ih =>
    rw [checkConstraints, List.forall_mem_cons, ← ih]
    by_cases ha : Below witness.length k.a
    · by_cases hb : Below witness.length k.b
      · by_cases hc : Below witness.length k.c
        · simp only [evalSparse_of_below ha, evalSparse_of_below hb, evalSparse_of_below hc,
            Option.bind_eq_bind, Option.bind_some, ne_eq, ite_not]
          by_cases hholds : dot k.a (assignment witness) * dot k.b (assignment witness)
              = dot k.c (assignment witness)
          · rw [if_pos hholds]
            exact ⟨fun h => ⟨⟨⟨ha, hb, hc⟩, hholds⟩, h⟩, fun h => h.2⟩
          · rw [if_neg hholds]
            exact ⟨fun h => (by cases h), fun h => absurd h.1.2 hholds⟩
        · simp only [evalSparse_of_below ha, evalSparse_of_below hb, evalSparse_of_not_below hc,
            Option.bind_eq_bind, Option.bind_some, Option.bind_none]
          exact ⟨fun h => (by cases h), fun h => absurd h.1.1.2.2 hc⟩
      · simp only [evalSparse_of_below ha, evalSparse_of_not_below hb, Option.bind_eq_bind,
          Option.bind_some, Option.bind_none]
        exact ⟨fun h => (by cases h), fun h => absurd h.1.1.2.1 hb⟩
    · simp only [evalSparse_of_not_below ha, Option.bind_eq_bind, Option.bind_none]
      exact ⟨fun h => (by cases h), fun h => absurd h.1.1.1 ha⟩

/-- **A passed check**: the witness has its length and its constant, every column lies inside it,
and every constraint holds. -/
theorem isSatisfiedBy_iff {cs : R1cs} {witness : List Fr} :
    cs.isSatisfiedBy witness = some true ↔
      witness.length = cs.numVars ∧ witness.head? = some 1 ∧
        ∀ k ∈ cs.constraints, k.Below cs.numVars ∧ k.Holds (assignment witness) := by
  rw [R1cs.isSatisfiedBy]
  split_ifs with hlen hone
  · exact ⟨fun h => (by cases h), fun h => absurd h.1 hlen⟩
  · exact ⟨fun h => (by cases h), fun h => absurd h.2.1 hone⟩
  · rw [checkConstraints_iff]
    rw [not_not] at hlen hone
    rw [hlen]
    exact ⟨fun h => ⟨rfl, hone, h⟩, fun h => h.2.2⟩

end DiscCleaner.Zk
