import DiscCleaner.Zk.R1cs

/-!
# DiscCleaner — synthesis of a circuit and its witness

The builders of `circuit.rs` and `poseidon.rs` extend a system and its witness side by side: a new
variable is the next index, and its value is pushed. `Gadget` is what one piece of synthesis is
for: what its constraints force on every assignment, and when they hold of the witness it built.

* **`Gadget.comp`** — pieces compose; a later piece may use what an earlier one forces.
* **`gadget_define`** — a variable with its defining constraint.
* **`Shape`** — constraints and indices do not depend on the values.
-/

namespace DiscCleaner.Zk

/-- The system, the next free variable and the values so far. -/
structure Synth where
  cs : R1cs
  nextVar : Nat
  witness : List Fr

namespace Synth

/-- A new variable with its value. -/
def push (st : Synth) (val : Fr) : Synth :=
  { st with nextVar := st.nextVar + 1, witness := st.witness ++ [val] }

/-- A new variable that the system counts. -/
def alloc (st : Synth) (val : Fr) : Synth :=
  { st.push val with cs := { st.cs with numVars := max st.cs.numVars (st.nextVar + 1) } }

def constrain (st : Synth) (a b c : Row) : Synth := { st with cs := st.cs.constrain a b c }

/-- The value of a variable. -/
def value (st : Synth) (idx : Nat) : Fr := assignment st.witness idx

/-- Every variable has a value. -/
def Ok (st : Synth) : Prop := st.witness.length = st.nextVar

end Synth

/-- A variable together with its value. -/
abbrev Wire := Nat × Fr

/-- The wire carries the value of its variable. -/
def Wire.Ok (x : Wire) (st : Synth) : Prop := x.1 < st.nextVar ∧ st.value x.1 = x.2

/-- The assignment has the values of a witness. -/
def Agrees (v : Nat → Fr) (witness : List Fr) : Prop :=
  ∀ i < witness.length, v i = assignment witness i

theorem Agrees.of_append {v : Nat → Fr} {ws more : List Fr} (h : Agrees v (ws ++ more)) :
    Agrees v ws := by
  intro i hi
  rw [h i (by rw [List.length_append]; omega), assignment, assignment, List.getD_append _ _ _ _ hi]

theorem agrees_assignment (witness : List Fr) : Agrees (assignment witness) witness :=
  fun _ _ => rfl

/-! ## Gadgets -/

/-- From `st` to `st'`: new constraints over the variables of `st'`, values pushed behind those of
`st`. Under every assignment the constraints force `P`; under one that agrees with the values they
hold as soon as `Q` does. -/
structure Gadget (st st' : Synth) (P Q : (Nat → Fr) → Prop) : Prop where
  ok : st'.Ok
  nextVar_le : st.nextVar ≤ st'.nextVar
  extends_witness : ∃ pushed, st'.witness = st.witness ++ pushed
  extends_constraints : ∃ new, st'.cs.constraints = st.cs.constraints ++ new ∧
    (∀ k ∈ new, k.Below st'.nextVar) ∧
    (∀ v, v 0 = 1 → (∀ k ∈ new, k.Holds v) → P v) ∧
    (∀ v, v 0 = 1 → Agrees v st'.witness → Q v → ∀ k ∈ new, k.Holds v)

theorem Constraint.Below.mono {m n : Nat} {k : Constraint} (h : k.Below m) (hmn : m ≤ n) :
    k.Below n :=
  ⟨h.1.mono hmn, h.2.1.mono hmn, h.2.2.mono hmn⟩

namespace Gadget

variable {st st₁ st₂ : Synth} {P P₁ P₂ Q Q₁ Q₂ : (Nat → Fr) → Prop}

theorem refl (h : st.Ok) : Gadget st st (fun _ => True) fun _ => True where
  ok := h
  nextVar_le := le_refl _
  extends_witness := ⟨[], (List.append_nil _).symm⟩
  extends_constraints := ⟨[], (List.append_nil _).symm, by simp, by simp, by simp⟩

/-- One piece after another. -/
theorem comp (h₁ : Gadget st st₁ P₁ Q₁) (h₂ : Gadget st₁ st₂ P₂ Q₂) :
    Gadget st st₂ (fun v => P₁ v ∧ P₂ v) fun v => Q₁ v ∧ (P₁ v → Q₂ v) := by
  obtain ⟨pushed₁, hw₁⟩ := h₁.extends_witness
  obtain ⟨pushed₂, hw₂⟩ := h₂.extends_witness
  obtain ⟨new₁, hcs₁, hbelow₁, hsound₁, hcomplete₁⟩ := h₁.extends_constraints
  obtain ⟨new₂, hcs₂, hbelow₂, hsound₂, hcomplete₂⟩ := h₂.extends_constraints
  refine ⟨h₂.ok, h₁.nextVar_le.trans h₂.nextVar_le,
    ⟨pushed₁ ++ pushed₂, by rw [hw₂, hw₁, List.append_assoc]⟩,
    ⟨new₁ ++ new₂, by rw [hcs₂, hcs₁, List.append_assoc], ?_, ?_, ?_⟩⟩
  · intro k hk
    rcases List.mem_append.mp hk with hk | hk
    · exact (hbelow₁ k hk).mono h₂.nextVar_le
    · exact hbelow₂ k hk
  · intro v hv hall
    exact ⟨hsound₁ v hv fun k hk => hall k (List.mem_append_left _ hk),
      hsound₂ v hv fun k hk => hall k (List.mem_append_right _ hk)⟩
  · -- the second piece's condition may rest on what the first, which holds, forces
    intro v hv hagree hq
    have hagree₁ : Agrees v st₁.witness := by
      rw [hw₂] at hagree
      exact hagree.of_append
    have hall₁ := hcomplete₁ v hv hagree₁ hq.1
    have hall₂ := hcomplete₂ v hv hagree (hq.2 (hsound₁ v hv hall₁))
    intro k hk
    rcases List.mem_append.mp hk with hk | hk
    · exact hall₁ k hk
    · exact hall₂ k hk

/-- Both conditions may rest on the constant, and the second on the values. -/
theorem weaken_of_agrees (h : Gadget st st₁ P Q) {P' Q' : (Nat → Fr) → Prop}
    (hP : ∀ v, v 0 = 1 → P v → P' v)
    (hQ : ∀ v, v 0 = 1 → Agrees v st₁.witness → Q' v → Q v) : Gadget st st₁ P' Q' := by
  obtain ⟨new, hcs, hbelow, hsound, hcomplete⟩ := h.extends_constraints
  exact ⟨h.ok, h.nextVar_le, h.extends_witness, ⟨new, hcs, hbelow,
    fun v hv hall => hP v hv (hsound v hv hall),
    fun v hv hagree hq => hcomplete v hv hagree (hQ v hv hagree hq)⟩⟩

theorem weaken (h : Gadget st st₁ P Q) {P' Q' : (Nat → Fr) → Prop} (hP : ∀ v, P v → P' v)
    (hQ : ∀ v, Q' v → Q v) : Gadget st st₁ P' Q' :=
  h.weaken_of_agrees (fun v _ => hP v) fun v _ _ => hQ v

/-- Pieces that never fail make one that never fails. -/
theorem comp_true (h₁ : Gadget st st₁ P₁ fun _ => True) (h₂ : Gadget st₁ st₂ P₂ fun _ => True) :
    Gadget st st₂ (fun v => P₁ v ∧ P₂ v) fun _ => True :=
  (h₁.comp h₂).weaken (fun _ h => h) fun _ _ => ⟨trivial, fun _ => trivial⟩

/-- A wire keeps its value. -/
theorem wire {x : Wire} (h : Gadget st st₁ P Q) (hst : st.Ok) (hx : x.Ok st) : x.Ok st₁ := by
  obtain ⟨pushed, hw⟩ := h.extends_witness
  refine ⟨hx.1.trans_le h.nextVar_le, ?_⟩
  have hlt : x.1 < st.witness.length := by
    rw [hst]
    exact hx.1
  rw [Synth.value, hw, assignment, List.getD_append _ _ _ _ hlt]
  exact hx.2

end Gadget

/-! ## Single constraints -/

theorem Synth.Ok.push {st : Synth} (h : st.Ok) (val : Fr) : (st.push val).Ok := by
  rw [Synth.Ok, Synth.push, List.length_append, h]
  rfl

/-- The new variable is the wire of its value. -/
theorem wire_push {st : Synth} (h : st.Ok) (val : Fr) :
    Wire.Ok (st.nextVar, val) (st.push val) := by
  refine ⟨Nat.lt_succ_self _, ?_⟩
  simp only [Synth.value, Synth.push, assignment]
  rw [List.getD_append_right _ _ _ _ h.le, h, Nat.sub_self, List.getD_cons_zero]

/-- An assignment that agrees with the values agrees on a wire. -/
theorem Wire.Ok.agrees {x : Wire} {st : Synth} (h : x.Ok st) (hst : st.Ok) {v : Nat → Fr}
    (hv : Agrees v st.witness) : v x.1 = x.2 := by
  rw [hv x.1 (by rw [hst]; exact h.1)]
  exact h.2

/-- An assertion over variables that exist. -/
theorem gadget_constrain {st : Synth} (h : st.Ok) {a b c : Row} (ha : Below st.nextVar a)
    (hb : Below st.nextVar b) (hc : Below st.nextVar c) :
    Gadget st (st.constrain a b c) (fun v => dot a v * dot b v = dot c v)
      fun v => dot a v * dot b v = dot c v where
  ok := h
  nextVar_le := le_refl _
  extends_witness := ⟨[], (List.append_nil _).symm⟩
  extends_constraints := by
    refine ⟨[⟨a, b, c⟩], rfl, ?_, ?_, ?_⟩
    · intro k hk
      rw [List.mem_singleton.mp hk]
      exact ⟨ha, hb, hc⟩
    · intro v _ hall
      exact hall _ (List.mem_singleton.mpr rfl)
    · intro v _ _ hq k hk
      rw [List.mem_singleton.mp hk]
      exact hq

/-- An assertion that two combinations are equal. -/
theorem gadget_assert {st : Synth} (h : st.Ok) (hpos : 0 < st.nextVar) {a c : Row}
    (ha : Below st.nextVar a) (hc : Below st.nextVar c) :
    Gadget st (st.constrain a LinComb.one c) (fun v => dot a v = dot c v)
      fun v => dot a v = dot c v := by
  refine (gadget_constrain h ha (below_one hpos) hc).weaken_of_agrees (fun v hv hP => ?_)
    fun v hv _ hQ => ?_
  · rw [dot_one, hv, mul_one] at hP
    exact hP
  · rw [dot_one, hv, mul_one]
    exact hQ

/-- A variable without a constraint. -/
theorem gadget_push {st : Synth} (h : st.Ok) (val : Fr) :
    Gadget st (st.push val) (fun _ => True) fun _ => True where
  ok := h.push val
  nextVar_le := Nat.le_succ _
  extends_witness := ⟨[val], rfl⟩
  extends_constraints := ⟨[], (List.append_nil _).symm, by simp, by simp, by simp⟩

/-- **A variable and its defining constraint** never fail: the value pushed is the value forced. -/
theorem gadget_define {st st' : Synth} (h : st.Ok) {val : Fr} {a b c : Row} {f : (Nat → Fr) → Fr}
    (hst' : st' = (st.alloc val).constrain a b c ∨ st' = (st.push val).constrain a b c)
    (ha : Below (st.nextVar + 1) a) (hb : Below (st.nextVar + 1) b)
    (hc : Below (st.nextVar + 1) c)
    (hdef : ∀ v, v 0 = 1 → (dot a v * dot b v = dot c v ↔ v st.nextVar = f v))
    (hval : ∀ v, v 0 = 1 → Agrees v st.witness → f v = val) :
    Gadget st st' (fun v => v st.nextVar = f v) fun _ => True := by
  have hwitness : st'.witness = st.witness ++ [val] := by
    rcases hst' with rfl | rfl <;> rfl
  have hnext : st'.nextVar = st.nextVar + 1 := by
    rcases hst' with rfl | rfl <;> rfl
  have hcs : st'.cs.constraints = st.cs.constraints ++ [⟨a, b, c⟩] := by
    rcases hst' with rfl | rfl <;> rfl
  have hok : st'.Ok := by
    rw [Synth.Ok, hwitness, hnext, List.length_append, h]
    rfl
  refine ⟨hok, by omega, ⟨[val], hwitness⟩, ⟨[⟨a, b, c⟩], hcs, ?_, ?_, ?_⟩⟩
  · intro k hk
    rw [List.mem_singleton.mp hk, hnext]
    exact ⟨ha, hb, hc⟩
  · intro v hv hall
    exact (hdef v hv).mp (hall _ (List.mem_singleton.mpr rfl))
  · intro v hv hagree _ k hk
    rw [List.mem_singleton.mp hk]
    rw [hwitness] at hagree
    refine (hdef v hv).mpr ?_
    rw [hval v hv hagree.of_append,
      hagree st.nextVar (by rw [List.length_append, h]; exact Nat.lt_succ_self _), assignment,
      List.getD_append_right _ _ _ _ h.le, h, Nat.sub_self, List.getD_cons_zero]

/-! ## Shape -/

/-- The same constraints and the same next variable. -/
def Shape (st₁ st₂ : Synth) : Prop := st₁.cs = st₂.cs ∧ st₁.nextVar = st₂.nextVar

theorem Shape.push {st₁ st₂ : Synth} (h : Shape st₁ st₂) (x y : Fr) :
    Shape (st₁.push x) (st₂.push y) :=
  ⟨h.1, congrArg (· + 1) h.2⟩

theorem Shape.alloc {st₁ st₂ : Synth} (h : Shape st₁ st₂) (x y : Fr) :
    Shape (st₁.alloc x) (st₂.alloc y) := by
  refine ⟨?_, congrArg (· + 1) h.2⟩
  rw [Synth.alloc, Synth.alloc, h.1, h.2]

theorem Shape.constrain {st₁ st₂ : Synth} (h : Shape st₁ st₂) {a a' b b' c c' : Row}
    (ha : a = a') (hb : b = b') (hc : c = c') :
    Shape (st₁.constrain a b c) (st₂.constrain a' b' c') := by
  refine ⟨?_, h.2⟩
  rw [Synth.constrain, Synth.constrain, h.1, ha, hb, hc]

end DiscCleaner.Zk
