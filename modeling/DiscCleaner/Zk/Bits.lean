import DiscCleaner.Zk.Synth
import Mathlib.Algebra.BigOperators.Fin
import Mathlib.Algebra.GroupWithZero.Idempotent

/-!
# DiscCleaner — range checks (`circuit.rs`)

The bit decomposition of a variable and the test that one of its bits is set.

* **`bitDecompose_gadget`** — the constraints force a value of that many bits, and hold of every
  such value.
* **`constrainAtLeastOne_gadget`** — the product of the complements vanishes when a bit is set.
-/

namespace DiscCleaner.Zk

/-! ## Bits of a number -/

/-- The variables from `base` on are bits, and `x` is the number they spell. -/
def Spells (v : Nat → Fr) (base n : Nat) (x : Fr) : Prop :=
  (∀ i < n, v (base + i) = 0 ∨ v (base + i) = 1) ∧
    ∑ i ∈ Finset.range n, 2 ^ i * v (base + i) = x

/-- The number that the bits spell in the integers. -/
def bitsVal (v : Nat → Fr) (base n : Nat) : Nat :=
  ∑ i ∈ Finset.range n, 2 ^ i * (v (base + i)).val

theorem cast_bitsVal (v : Nat → Fr) (base n : Nat) :
    ((bitsVal v base n : Nat) : Fr) = ∑ i ∈ Finset.range n, 2 ^ i * v (base + i) := by
  rw [bitsVal, Nat.cast_sum]
  refine Finset.sum_congr rfl fun i _ => ?_
  rw [Nat.cast_mul, Nat.cast_pow, Nat.cast_ofNat, ZMod.natCast_zmod_val]

theorem bitsVal_lt {v : Nat → Fr} {base n : Nat}
    (h : ∀ i < n, v (base + i) = 0 ∨ v (base + i) = 1) : bitsVal v base n < 2 ^ n := by
  induction n with
  | zero => exact Nat.one_pos
  | succ n ih =>
    have hprev := ih fun i hi => h i (hi.trans (Nat.lt_succ_self n))
    have hbit : (v (base + n)).val ≤ 1 := by
      rcases h n (Nat.lt_succ_self n) with hv | hv
      · rw [hv, ZMod.val_zero]
        exact Nat.zero_le 1
      · rw [hv, ZMod.val_one]
    have htop : 2 ^ n * (v (base + n)).val ≤ 2 ^ n * 1 := Nat.mul_le_mul_left _ hbit
    rw [bitsVal, Finset.sum_range_succ, ← bitsVal, pow_succ]
    omega

/-- The widths in use fit the field. -/
theorem two_pow_lt_modulus {n : Nat} (hn : n ≤ 128) : 2 ^ n < MODULUS :=
  (Nat.pow_le_pow_right Nat.two_pos hn).trans_lt (by decide)

namespace Spells

variable {v : Nat → Fr} {base n : Nat} {x : Fr}

/-- The value read as an integer is the integer of its bits. -/
theorem val_eq (h : Spells v base n x) (hn : n ≤ 128) : x.val = bitsVal v base n := by
  rw [← h.2, ← cast_bitsVal,
    ZMod.val_natCast_of_lt ((bitsVal_lt h.1).trans (two_pow_lt_modulus hn))]

theorem val_lt (h : Spells v base n x) (hn : n ≤ 128) : x.val < 2 ^ n := by
  rw [h.val_eq hn]
  exact bitsVal_lt h.1

/-- A value is not zero when one of its bits is set. -/
theorem ne_zero_iff (h : Spells v base n x) (hn : n ≤ 128) :
    x ≠ 0 ↔ ∃ i < n, v (base + i) = 1 := by
  rw [← not_iff_not, not_not]
  constructor
  · rintro hx ⟨i, hi, hone⟩
    have hsum : bitsVal v base n = 0 := by rw [← h.val_eq hn, hx, ZMod.val_zero]
    have hterm := (Finset.sum_eq_zero_iff.mp hsum) i (Finset.mem_range.mpr hi)
    rw [hone, ZMod.val_one, mul_one] at hterm
    exact absurd hterm (by positivity)
  · intro hnone
    rw [← h.2]
    refine Finset.sum_eq_zero fun i hi => ?_
    rcases h.1 i (Finset.mem_range.mp hi) with hv | hv
    · rw [hv, mul_zero]
    · exact absurd ⟨i, Finset.mem_range.mp hi, hv⟩ hnone

end Spells

/-! ## Decomposition -/

/-- `2^i`, by doubling. -/
def doubled (i : Nat) : Fr := (List.range i).foldl (fun coeff _ => coeff + coeff) 1

theorem doubled_eq (i : Nat) : doubled i = 2 ^ i := by
  induction i with
  | zero => rfl
  | succ i ih =>
    rw [doubled, List.range_succ, List.foldl_concat, ← doubled, ih, pow_succ, mul_two]

/-- The loop of the decomposition: the system, the sum so far, the bit variables. -/
structure BitLoop where
  st : Synth
  recon : Row
  bitVars : List Nat

/-- The value of bit `i`. -/
def bitOf (value : Fr) (i : Nat) : Fr := if value.val.testBit i then 1 else 0

/-- One more bit: `b b = b`, and `2^i b` in the sum. -/
def bitStep (value : Fr) (acc : BitLoop) (i : Nat) : BitLoop :=
  let v := acc.st.nextVar
  let st := (acc.st.push (bitOf value i)).constrain (LinComb.var v 1) (LinComb.var v 1)
    (LinComb.var v 1)
  ⟨st, addTerm acc.recon v (doubled i), acc.bitVars ++ [v]⟩

def bitLoop (st : Synth) (value : Fr) (nbits : Nat) : BitLoop :=
  (List.range nbits).foldl (bitStep value) ⟨st, LinComb.empty, []⟩

/-- The bits of a variable, and their sum equal to it. -/
def bitDecompose (st : Synth) (value : Wire) (nbits : Nat) : Synth × List Nat :=
  let acc := bitLoop st value.2 nbits
  (acc.st.constrain acc.recon LinComb.one (LinComb.var value.1 1), acc.bitVars)

theorem bitLoop_succ (st : Synth) (value : Fr) (n : Nat) :
    bitLoop st value (n + 1) = bitStep value (bitLoop st value n) n := by
  rw [bitLoop, List.range_succ, List.foldl_concat, ← bitLoop]

theorem bitOf_boolean (value : Fr) (i : Nat) : bitOf value i = 0 ∨ bitOf value i = 1 := by
  rw [bitOf]
  split_ifs
  · exact Or.inr rfl
  · exact Or.inl rfl

/-- The low bits of a value sum to its remainder. -/
theorem sum_bitOf (value : Fr) (n : Nat) :
    ∑ i ∈ Finset.range n, 2 ^ i * bitOf value i = ((value.val % 2 ^ n : Nat) : Fr) := by
  induction n with
  | zero => rw [Finset.sum_range_zero, pow_zero, Nat.mod_one, Nat.cast_zero]
  | succ n ih =>
    have hbit : bitOf value n = ((value.val.testBit n).toNat : Fr) := by
      rw [bitOf]
      cases value.val.testBit n <;> simp
    have hmod : value.val % 2 ^ (n + 1)
        = value.val % 2 ^ n + 2 ^ n * (value.val.testBit n).toNat := by
      rw [Nat.mod_pow_succ, Nat.toNat_testBit]
    rw [Finset.sum_range_succ, ih, hbit, hmod]
    push_cast
    ring

/-- What the loop has emitted after `n` bits. -/
structure BitLoop.After (st : Synth) (value : Fr) (n : Nat) (acc : BitLoop) : Prop where
  nextVar : acc.st.nextVar = st.nextVar + n
  bitVars : acc.bitVars = (List.range n).map (st.nextVar + ·)
  wires : ∀ i < n, Wire.Ok (st.nextVar + i, bitOf value i) acc.st
  below : Below acc.st.nextVar acc.recon
  recon : ∀ v, dot acc.recon v = ∑ i ∈ Finset.range n, 2 ^ i * v (st.nextVar + i)
  gadget : Gadget st acc.st
    (fun v => ∀ i < n, v (st.nextVar + i) = 0 ∨ v (st.nextVar + i) = 1) fun _ => True

/-- A boolean variable: its constraint holds of the value pushed. -/
theorem gadget_boolean {st : Synth} (h : st.Ok) {b : Fr} (hb : b = 0 ∨ b = 1) :
    Gadget st ((st.push b).constrain (LinComb.var st.nextVar 1) (LinComb.var st.nextVar 1)
      (LinComb.var st.nextVar 1)) (fun v => v st.nextVar = 0 ∨ v st.nextVar = 1) fun _ => True := by
  have hbelow := below_var (Nat.lt_succ_self st.nextVar) (1 : Fr)
  have hpush := (gadget_push h b).comp (gadget_constrain (h.push b) hbelow hbelow hbelow)
  have hbool : ∀ x : Fr, x * x = x ↔ x = 0 ∨ x = 1 := fun x =>
    IsIdempotentElem.iff_eq_zero_or_one
  refine hpush.weaken_of_agrees (fun v _ hv => ?_) fun v _ hagree _ => ⟨trivial, fun _ => ?_⟩
  · have hsquare := hv.2
    simp only [dot_var, one_mul] at hsquare
    exact (hbool _).mp hsquare
  · have hvalue := (wire_push h b).agrees (h.push b) hagree
    simp only [dot_var, one_mul, hvalue]
    exact (hbool b).mpr hb

theorem bitLoop_after {st : Synth} (h : st.Ok) (value : Fr) (n : Nat) :
    (bitLoop st value n).After st value n := by
  induction n with
  | zero =>
    exact ⟨rfl, rfl, fun i hi => absurd hi (Nat.not_lt_zero i), below_empty _, fun v => rfl,
      (Gadget.refl h).weaken (fun v _ i hi => absurd hi (Nat.not_lt_zero i)) fun _ _ => trivial⟩
  | succ n ih =>
    rw [bitLoop_succ]
    generalize bitLoop st value n = acc at ih
    have hok := ih.gadget.ok
    have hstep := gadget_boolean hok (bitOf_boolean value n)
    have hnew := wire_push hok (bitOf value n)
    rw [ih.nextVar] at hnew
    refine ⟨congrArg (· + 1) ih.nextVar, ?_, ?_, ?_, ?_, ?_⟩
    · rw [List.range_succ, List.map_append, ← ih.bitVars, List.map_singleton, ← ih.nextVar]
      rfl
    · -- the wires so far keep their values, and the new one is the last
      intro i hi
      rcases Nat.lt_succ_iff_lt_or_eq.mp hi with hlt | heq
      · exact hstep.wire hok (ih.wires i hlt)
      · rw [heq]
        exact hnew
    · exact (ih.below.mono (Nat.le_succ _)).addTerm (Nat.lt_succ_self _) _
    · intro v
      rw [Finset.sum_range_succ, ← ih.recon v, ← ih.nextVar]
      simp only [bitStep, dot_addTerm, doubled_eq]
    · refine (ih.gadget.comp_true hstep).weaken (fun v hv i hi => ?_) fun _ _ => trivial
      rcases Nat.lt_succ_iff_lt_or_eq.mp hi with hlt | heq
      · exact hv.1 i hlt
      · rw [heq, ← ih.nextVar]
        exact hv.2

/-- **A decomposition forces a value of `n` bits**, and holds of every value that has so few. -/
theorem bitDecompose_gadget {st : Synth} (h : st.Ok) {value : Wire} (hvalue : value.Ok st)
    (n : Nat) : Gadget st (bitDecompose st value n).1
      (fun v => Spells v st.nextVar n (v value.1)) fun v => (v value.1).val < 2 ^ n := by
  have hloop := bitLoop_after h value.2 n
  have hwire := hloop.gadget.wire h hvalue
  have hsum := gadget_assert hloop.gadget.ok (Nat.zero_lt_of_lt hwire.1) hloop.below
    (below_var hwire.1 1)
  refine (hloop.gadget.comp hsum).weaken_of_agrees (fun v _ hP => ⟨hP.1, ?_⟩)
    fun v _ hagree hlt => ⟨trivial, fun _ => ?_⟩
  · have hrecon := hP.2
    rw [hloop.recon, dot_var, one_mul] at hrecon
    exact hrecon
  · -- the bits pushed are those of the value, which has no others
    have hbits : ∀ i < n, v (st.nextVar + i) = bitOf value.2 i := fun i hi =>
      (hloop.wires i hi).agrees hloop.gadget.ok hagree
    have hval : v value.1 = value.2 := hwire.agrees hloop.gadget.ok hagree
    have hsums : ∑ i ∈ Finset.range n, 2 ^ i * v (st.nextVar + i)
        = ∑ i ∈ Finset.range n, 2 ^ i * bitOf value.2 i :=
      Finset.sum_congr rfl fun i hi => by rw [hbits i (Finset.mem_range.mp hi)]
    rw [hval] at hlt
    rw [hloop.recon, dot_var, one_mul, hsums, sum_bitOf, Nat.mod_eq_of_lt hlt, hval,
      ZMod.natCast_zmod_val]

/-- The bit variables are consecutive and exist. -/
theorem bitDecompose_bitVars {st : Synth} (h : st.Ok) (value : Wire) (n : Nat) :
    (bitDecompose st value n).2 = (List.range n).map (st.nextVar + ·) ∧
      ∀ i < n, st.nextVar + i < (bitDecompose st value n).1.nextVar :=
  ⟨(bitLoop_after h value.2 n).bitVars, fun i hi => ((bitLoop_after h value.2 n).wires i hi).1⟩

/-! ## At least one bit -/

/-- `z = 1 - b`, multiplied into the product so far. -/
def complementStep (acc : Synth × Option Wire) (b : Nat) : Synth × Option Wire :=
  let z : Wire := (acc.1.nextVar, 1 - acc.1.value b)
  let st := (acc.1.push z.2).constrain (LinComb.var z.1 1) LinComb.one
    (LinComb.add (LinComb.var 0 1) (LinComb.var b (-1)))
  match acc.2 with
  | none => (st, some z)
  | some prev =>
    let p : Wire := (st.nextVar, prev.2 * z.2)
    ((st.push p.2).constrain (LinComb.var prev.1 1) (LinComb.var z.1 1) (LinComb.var p.1 1), some p)

/-- The product of the complements is zero. -/
def constrainAtLeastOne (st : Synth) (bits : List Nat) : Synth :=
  let acc := bits.foldl complementStep (st, none)
  match acc.2 with
  | none => acc.1
  | some p => acc.1.constrain (LinComb.var p.1 1) LinComb.one LinComb.empty

/-- The product of the complements of the bits. -/
def complements (v : Nat → Fr) (bits : List Nat) : Fr := (bits.map fun b => 1 - v b).prod

theorem complements_eq_zero_iff (v : Nat → Fr) (bits : List Nat) :
    complements v bits = 0 ↔ ∃ b ∈ bits, v b = 1 := by
  rw [complements, List.prod_eq_zero_iff, List.mem_map]
  simp only [sub_eq_zero, eq_comm (a := (1 : Fr))]

/-- The product as far as the loop has come. -/
structure ProductAfter (st : Synth) (bits : List Nat) (acc : Synth × Option Wire) : Prop where
  gadget : Gadget st acc.1 (fun v => ∀ p, acc.2 = some p → v p.1 = complements v bits)
    fun _ => True
  none_iff : acc.2 = none ↔ bits = []
  wire : ∀ p, acc.2 = some p → p.Ok acc.1

/-- The variable of the complement. -/
theorem gadget_complement {st : Synth} (h : st.Ok) {b : Nat} (hb : b < st.nextVar) :
    Gadget st ((st.push (1 - st.value b)).constrain (LinComb.var st.nextVar 1) LinComb.one
      (LinComb.add (LinComb.var 0 1) (LinComb.var b (-1)))) (fun v => v st.nextVar = 1 - v b)
      fun _ => True := by
  refine gadget_define h (Or.inr rfl) (below_var (Nat.lt_succ_self _) 1) (below_one (Nat.succ_pos _))
    ((below_var (Nat.succ_pos _) 1).add (below_var (hb.trans (Nat.lt_succ_self _)) _))
    (fun v hv => ?_) fun v _ hagree => ?_
  · simp only [dot_add, dot_var, dot_one, hv, one_mul, mul_one, neg_mul]
    rw [← sub_eq_add_neg]
  · rw [hagree b (by rw [h]; exact hb)]
    rfl

/-- The variable of a product. -/
theorem gadget_product {st : Synth} (h : st.Ok) {a b : Wire} (ha : a.Ok st) (hb : b.Ok st) :
    Gadget st ((st.push (a.2 * b.2)).constrain (LinComb.var a.1 1) (LinComb.var b.1 1)
      (LinComb.var st.nextVar 1)) (fun v => v st.nextVar = v a.1 * v b.1) fun _ => True := by
  refine gadget_define h (Or.inr rfl) (below_var (ha.1.trans (Nat.lt_succ_self _)) 1)
    (below_var (hb.1.trans (Nat.lt_succ_self _)) 1) (below_var (Nat.lt_succ_self _) 1)
    (fun v _ => ?_) fun v _ hagree => ?_
  · simp only [dot_var, one_mul]
    exact eq_comm
  · rw [ha.agrees h hagree, hb.agrees h hagree]

theorem complements_concat (v : Nat → Fr) (bits : List Nat) (b : Nat) :
    complements v (bits ++ [b]) = complements v bits * (1 - v b) := by
  rw [complements, List.map_append, List.prod_append, ← complements, List.map_singleton,
    List.prod_singleton]

theorem complementStep_after {st : Synth} {bits : List Nat} {acc : Synth × Option Wire}
    (h : ProductAfter st bits acc) {b : Nat} (hb : b < st.nextVar) :
    ProductAfter st (bits ++ [b]) (complementStep acc b) := by
  have hok := h.gadget.ok
  have hz := gadget_complement hok (hb.trans_le h.gadget.nextVar_le)
  have hzwire := wire_push hok (1 - acc.1.value b)
  obtain ⟨acc₁, prev⟩ := acc
  cases prev with
  | none =>
    have hbits : bits = [] := h.none_iff.mp rfl
    refine ⟨(h.gadget.comp_true hz).weaken (fun v hv p hp => ?_) fun _ _ => trivial,
      ⟨fun hn => (by cases hn), fun hn => absurd hn (by simp)⟩, fun p hp => ?_⟩
    · cases hp
      rw [hv.2, hbits, complements]
      simp
    · cases hp
      exact hzwire
  | some prev =>
    have hprev := hz.wire hok (h.wire prev rfl)
    have hp := gadget_product hz.ok hprev hzwire
    refine ⟨((h.gadget.comp_true hz).comp_true hp).weaken (fun v hv p hp => ?_) fun _ _ => trivial,
      ⟨fun hn => (by cases hn), fun hn => absurd hn (by simp)⟩, fun p hp => ?_⟩
    · cases hp
      rw [complements_concat, ← hv.1.1 prev rfl, ← hv.1.2]
      exact hv.2
    · cases hp
      exact wire_push hz.ok _

theorem complements_after {st : Synth} (h : st.Ok) {bits : List Nat}
    (hbits : ∀ b ∈ bits, b < st.nextVar) :
    ProductAfter st bits (bits.foldl complementStep (st, none)) := by
  induction bits using List.reverseRecOn with
  | nil =>
    exact ⟨(Gadget.refl h).weaken (fun _ _ p hp => (by cases hp)) fun _ _ => trivial,
      ⟨fun _ => rfl, fun _ => rfl⟩, fun p hp => (by cases hp)⟩
  | append_singleton bits b ih =>
    have hprev := ih fun c hc => hbits c (List.mem_append_left _ hc)
    rw [List.foldl_concat]
    exact complementStep_after hprev (hbits b (List.mem_append_right _ (List.mem_singleton.mpr rfl)))

/-- **One of the bits is set**: the constraints say so and no more. -/
theorem constrainAtLeastOne_gadget {st : Synth} (h : st.Ok) {bits : List Nat} (hne : bits ≠ [])
    (hbits : ∀ b ∈ bits, b < st.nextVar) : Gadget st (constrainAtLeastOne st bits)
      (fun v => ∃ b ∈ bits, v b = 1) fun v => ∃ b ∈ bits, v b = 1 := by
  have hafter := complements_after h hbits
  rw [constrainAtLeastOne]
  generalize bits.foldl complementStep (st, none) = acc at hafter
  obtain ⟨acc, prod⟩ := acc
  cases prod with
  | none => exact absurd (hafter.none_iff.mp rfl) hne
  | some p =>
    have hwire := hafter.wire p rfl
    have hzero := gadget_assert hafter.gadget.ok (Nat.zero_lt_of_lt hwire.1) (below_var hwire.1 1)
      (below_empty _)
    refine (hafter.gadget.comp hzero).weaken (fun v hv => ?_) fun v hv =>
      ⟨trivial, fun hprod => ?_⟩
    · have hp := hv.2
      rw [dot_var, one_mul, dot_empty, hv.1 p rfl] at hp
      exact (complements_eq_zero_iff v bits).mp hp
    · rw [dot_var, one_mul, dot_empty, hprod p rfl]
      exact (complements_eq_zero_iff v bits).mpr hv

/-! ## Shape -/

theorem bitDecompose_shape {st₁ st₂ : Synth} (h : Shape st₁ st₂) {value₁ value₂ : Wire}
    (hvalue : value₁.1 = value₂.1) (n : Nat) :
    Shape (bitDecompose st₁ value₁ n).1 (bitDecompose st₂ value₂ n).1 ∧
      (bitDecompose st₁ value₁ n).2 = (bitDecompose st₂ value₂ n).2 := by
  have hloop : Shape (bitLoop st₁ value₁.2 n).st (bitLoop st₂ value₂.2 n).st ∧
      (bitLoop st₁ value₁.2 n).recon = (bitLoop st₂ value₂.2 n).recon ∧
      (bitLoop st₁ value₁.2 n).bitVars = (bitLoop st₂ value₂.2 n).bitVars := by
    induction n with
    | zero => exact ⟨h, rfl, rfl⟩
    | succ n ih =>
      obtain ⟨hst, hrecon, hvars⟩ := ih
      rw [bitLoop_succ, bitLoop_succ]
      have hvar := congrArg (LinComb.var · 1) hst.2
      refine ⟨(hst.push _ _).constrain hvar hvar hvar, ?_, ?_⟩
      · rw [bitStep, bitStep, hrecon, hst.2]
      · rw [bitStep, bitStep, hvars, hst.2]
  exact ⟨hloop.1.constrain hloop.2.1 rfl (by rw [hvalue]), hloop.2.2⟩

/-- Steps that emit the same constraints and the same product variable. -/
theorem complementStep_shape {acc₁ acc₂ : Synth × Option Wire} (h : Shape acc₁.1 acc₂.1)
    (hprod : acc₁.2.map (·.1) = acc₂.2.map (·.1)) (b : Nat) :
    Shape (complementStep acc₁ b).1 (complementStep acc₂ b).1 ∧
      (complementStep acc₁ b).2.map (·.1) = (complementStep acc₂ b).2.map (·.1) := by
  obtain ⟨st₁, prod₁⟩ := acc₁
  obtain ⟨st₂, prod₂⟩ := acc₂
  have hz : Shape ((st₁.push (1 - st₁.value b)).constrain (LinComb.var st₁.nextVar 1) LinComb.one
        (LinComb.add (LinComb.var 0 1) (LinComb.var b (-1))))
      ((st₂.push (1 - st₂.value b)).constrain (LinComb.var st₂.nextVar 1) LinComb.one
        (LinComb.add (LinComb.var 0 1) (LinComb.var b (-1)))) :=
    (h.push _ _).constrain (congrArg (LinComb.var · 1) h.2) rfl rfl
  cases prod₁ with
  | none =>
    cases prod₂ with
    | none => exact ⟨hz, congrArg some h.2⟩
    | some p₂ => cases hprod
  | some p₁ =>
    cases prod₂ with
    | none => cases hprod
    | some p₂ =>
      have hp : p₁.1 = p₂.1 := Option.some.inj hprod
      exact ⟨(hz.push _ _).constrain (congrArg (LinComb.var · 1) hp) (congrArg (LinComb.var · 1) h.2)
        (congrArg (LinComb.var · 1) hz.2), congrArg some hz.2⟩

theorem constrainAtLeastOne_shape {st₁ st₂ : Synth} (h : Shape st₁ st₂) (bits : List Nat) :
    Shape (constrainAtLeastOne st₁ bits) (constrainAtLeastOne st₂ bits) := by
  have hfold : ∀ (bits : List Nat) {acc₁ acc₂ : Synth × Option Wire}, Shape acc₁.1 acc₂.1 →
      acc₁.2.map (·.1) = acc₂.2.map (·.1) →
      Shape (bits.foldl complementStep acc₁).1 (bits.foldl complementStep acc₂).1 ∧
        (bits.foldl complementStep acc₁).2.map (·.1)
          = (bits.foldl complementStep acc₂).2.map (·.1) := by
    intro bits
    induction bits with
    | nil => exact fun h hprod => ⟨h, hprod⟩
    | cons b rest ih =>
      intro acc₁ acc₂ h hprod
      have hstep := complementStep_shape h hprod b
      exact ih hstep.1 hstep.2
  have hall := @hfold bits (st₁, none) (st₂, none) h rfl
  rw [constrainAtLeastOne, constrainAtLeastOne]
  generalize bits.foldl complementStep (st₁, none) = acc₁ at hall
  generalize bits.foldl complementStep (st₂, none) = acc₂ at hall
  obtain ⟨acc₁, prod₁⟩ := acc₁
  obtain ⟨acc₂, prod₂⟩ := acc₂
  cases prod₁ with
  | none =>
    cases prod₂ with
    | none => exact hall.1
    | some p₂ => cases hall.2
  | some p₁ =>
    cases prod₂ with
    | none => cases hall.2
    | some p₂ =>
      have hp : p₁.1 = p₂.1 := Option.some.inj hall.2
      exact hall.1.constrain (congrArg (LinComb.var · 1) hp) rfl rfl

end DiscCleaner.Zk
