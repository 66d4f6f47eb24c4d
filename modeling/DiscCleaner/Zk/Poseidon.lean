import DiscCleaner.Zk.Synth
import Mathlib.Data.Fin.VecNotation

/-!
# DiscCleaner — the Poseidon sponge (`poseidon.rs`)

The permutation of three lanes and the sponge over it, computed on values and synthesized as
constraints from the same table. SHA-256, which derives the table, is a parameter.

* **`synthPermutation_computes`** — the synthesized permutation forces the computed one.
* **`synthSponge_computes`** — and so does the sponge, for any assignment.
* **`synthSponge_shape`** — its constraints do not depend on the values.
-/

namespace DiscCleaner.Zk

open ByteLib

def FULL_ROUNDS : Nat := 8
def PARTIAL_ROUNDS : Nat := 57
def TOTAL_ROUNDS : Nat := FULL_ROUNDS + PARTIAL_ROUNDS

/-- The three lanes of the state. -/
abbrev Lanes (α : Type) := Fin 3 → α

/-- A domain separates the instances. -/
structure PoseidonConfig where
  domain : Bytes

/-- `x^5`. -/
def sbox (x : Fr) : Fr := x * x * (x * x) * x

/-- Whether every lane passes the S-box in a round, or the first only. -/
def fullRound (r : Nat) : Bool :=
  !(decide (FULL_ROUNDS / 2 ≤ r) && decide (r < FULL_ROUNDS / 2 + PARTIAL_ROUNDS))

/-- The Cauchy matrix of `x = (1, 2, 3)` and `y = (4, 5, 6)`; its sums are units. -/
def mds (i j : Fin 3) : Fr := (fromU64 ((i + 1) + (j + 4)))⁻¹

/-- One row of the matrix times the lanes. -/
def mixLane (s : Lanes Fr) (i : Fin 3) : Fr :=
  0 + mds i 0 * s 0 + mds i 1 * s 1 + mds i 2 * s 2

namespace PoseidonConfig

variable (sha256 : Bytes → Bytes) (cfg : PoseidonConfig)

/-- The capacity lane at the start. -/
def capacity : Fr := fromBeBytesReduced (sha256 cfg.domain)

/-- The constant of a round and lane. -/
def arc (r : Nat) (i : Fin 3) : Fr :=
  fromBeBytesReduced (sha256 (utf8 "dc-zk/poseidon/arc/v1" ++ cfg.domain
    ++ (Block.ofNat 4 r).bytes ++ (Block.ofNat 4 i).bytes))

/-! ## On values -/

def round (r : Nat) (s : Lanes Fr) : Lanes Fr :=
  let z := fun i => s i + arc sha256 cfg r i
  mixLane fun i => if fullRound r = true ∨ i = 0 then sbox (z i) else z i

@[irreducible] def permute (s : Lanes Fr) : Lanes Fr :=
  (List.range TOTAL_ROUNDS).foldl (fun s r => round sha256 cfg r s) s

/-- Two elements at a time replace the rate lanes; a missing one is zero. -/
def absorb (s : Lanes Fr) : List Fr → Lanes Fr
  | [] => s
  | [a] => permute sha256 cfg ![s 0, a, 0]
  | a :: b :: rest => absorb (permute sha256 cfg ![s 0, a, b]) rest

theorem absorb_single (s : Lanes Fr) (a : Fr) :
    absorb sha256 cfg s [a] = permute sha256 cfg ![s 0, a, 0] := by
  rw [absorb]

theorem absorb_pair (s : Lanes Fr) (a b : Fr) (rest : List Fr) :
    absorb sha256 cfg s (a :: b :: rest) = absorb sha256 cfg (permute sha256 cfg ![s 0, a, b]) rest := by
  rw [absorb]

/-- The rate lanes of the start are never read. -/
theorem absorb_congr {s s' : Lanes Fr} (h : s 0 = s' 0) {elems : List Fr} (hne : elems ≠ []) :
    absorb sha256 cfg s elems = absorb sha256 cfg s' elems := by
  match elems, hne with
  | [a], _ => rw [absorb_single, absorb_single, h]
  | a :: b :: rest, _ => rw [absorb_pair, absorb_pair, h]

def sponge (elems : List Fr) : Fr := absorb sha256 cfg ![capacity sha256 cfg, 0, 0] elems 1

/-! ## As constraints -/

/-- `(z - x - c) * 1 = 0`. -/
def synthArc (r : Nat) (st : Synth) (x : Wire) (i : Fin 3) : Synth × Wire :=
  let val := x.2 + arc sha256 cfg r i
  let lc := addTerm (addTerm (LinComb.var st.nextVar 1) x.1 (-1)) 0 (-arc sha256 cfg r i)
  ((st.alloc val).constrain lc LinComb.one LinComb.empty, (st.nextVar, val))

end PoseidonConfig

/-- Three products: `t = z z`, `u = t t`, `y = u z`. -/
def synthSbox (st : Synth) (z : Wire) : Synth × Wire :=
  let t : Wire := (st.nextVar, z.2 * z.2)
  let u : Wire := (st.nextVar + 1, t.2 * t.2)
  let y : Wire := (st.nextVar + 2, u.2 * z.2)
  let st := ((st.alloc t.2).alloc u.2).alloc y.2
  let st := st.constrain (LinComb.var z.1 1) (LinComb.var z.1 1) (LinComb.var t.1 1)
  let st := st.constrain (LinComb.var t.1 1) (LinComb.var t.1 1) (LinComb.var u.1 1)
  (st.constrain (LinComb.var u.1 1) (LinComb.var z.1 1) (LinComb.var y.1 1), y)

/-- One row of the matrix. -/
def synthMix (st : Synth) (z : Lanes Wire) (i : Fin 3) : Synth × Wire :=
  let val := mixLane (fun j => (z j).2) i
  let lc := addTerm (addTerm (addTerm (LinComb.var st.nextVar 1) (z 0).1 (-mds i 0))
    (z 1).1 (-mds i 1)) (z 2).1 (-mds i 2)
  ((st.alloc val).constrain lc LinComb.one LinComb.empty, (st.nextVar, val))

/-- A step for each lane in turn. -/
def forLanes (st : Synth) (step : Synth → Fin 3 → Synth × Wire) : Synth × Lanes Wire :=
  let p := step st 0
  let q := step p.1 1
  let r := step q.1 2
  (r.1, ![p.2, q.2, r.2])

/-- The S-boxes of a round. -/
def synthSboxes (r : Nat) (st : Synth) (z : Lanes Wire) : Synth × Lanes Wire :=
  if fullRound r = true then forLanes st fun st i => synthSbox st (z i)
  else
    let y := synthSbox st (z 0)
    (y.1, ![y.2, z 1, z 2])

namespace PoseidonConfig

variable (sha256 : Bytes → Bytes) (cfg : PoseidonConfig)

def synthRound (st : Synth × Lanes Wire) (r : Nat) : Synth × Lanes Wire :=
  let z := forLanes st.1 fun s i => synthArc sha256 cfg r s (st.2 i) i
  let y := synthSboxes r z.1 z.2
  forLanes y.1 fun s i => synthMix s y.2 i

@[irreducible] def synthPermutation (st : Synth) (state : Lanes Wire) : Synth × Lanes Wire :=
  (List.range TOTAL_ROUNDS).foldl (synthRound sha256 cfg) (st, state)

/-- A variable pinned to zero. -/
def synthZero (st : Synth) : Synth × Wire :=
  ((st.alloc 0).constrain (LinComb.var st.nextVar 1) LinComb.one LinComb.empty, (st.nextVar, 0))

/-- The second element of a pair; a missing one, or the constant's index, is a pinned zero. -/
def synthSecond (st : Synth) (b : Option Wire) : Synth × Wire :=
  match b with
  | none => synthZero st
  | some w => if w.1 = 0 then synthZero st else (st, w)

def synthAbsorb (st : Synth) (state : Lanes Wire) : List Wire → Synth × Lanes Wire
  | [] => (st, state)
  | [a] =>
    let b := synthSecond st none
    synthPermutation sha256 cfg b.1 ![state 0, a, b.2]
  | a :: b :: rest =>
    let b := synthSecond st (some b)
    let next := synthPermutation sha256 cfg b.1 ![state 0, a, b.2]
    synthAbsorb next.1 next.2 rest

/-- The capacity is pinned, then the inputs are absorbed. -/
def synthSponge (st : Synth) (inputs : List Wire) : Synth × Wire :=
  let cap := capacity sha256 cfg
  let st' := (st.alloc cap).constrain (LinComb.var st.nextVar 1) LinComb.one (LinComb.var 0 cap)
  let out := synthAbsorb sha256 cfg st' ![(st.nextVar, cap), (0, 0), (0, 0)] inputs
  (out.1, out.2 1)

end PoseidonConfig

/-! ## What a step computes -/

/-- The step ends in a wire that every assignment forces to be `f`. -/
structure Computes (st : Synth) (res : Synth × Wire) (f : (Nat → Fr) → Fr) : Prop where
  gadget : Gadget st res.1 (fun v => v res.2.1 = f v) fun _ => True
  wire : res.2.Ok res.1

/-- The lanes end in wires that every assignment forces to be `f`. -/
structure ComputesLanes (st : Synth) (res : Synth × Lanes Wire) (f : (Nat → Fr) → Lanes Fr) :
    Prop where
  gadget : Gadget st res.1 (fun v => ∀ i, v (res.2 i).1 = f v i) fun _ => True
  wire : ∀ i, (res.2 i).Ok res.1

/-- The values an assignment gives to wires. -/
def laneValues (v : Nat → Fr) (x : Lanes Wire) : Lanes Fr := fun i => v (x i).1

/-- The product of two wires, as a variable of its own. -/
def mulWire (st : Synth) (a b : Wire) : Synth × Wire :=
  ((st.alloc (a.2 * b.2)).constrain (LinComb.var a.1 1) (LinComb.var b.1 1)
    (LinComb.var st.nextVar 1), (st.nextVar, a.2 * b.2))

theorem mulWire_computes {st : Synth} (hst : st.Ok) {a b : Wire} (ha : a.Ok st) (hb : b.Ok st) :
    Computes st (mulWire st a b) fun v => v a.1 * v b.1 where
  gadget := by
    refine gadget_define hst (Or.inl rfl) (below_var (ha.1.trans (Nat.lt_succ_self _)) 1)
      (below_var (hb.1.trans (Nat.lt_succ_self _)) 1) (below_var (Nat.lt_succ_self _) 1)
      (fun v _ => ?_) fun v _ hagree => ?_
    · simp only [dot_var, one_mul]
      exact eq_comm
    · rw [ha.agrees hst hagree, hb.agrees hst hagree]
  wire := wire_push hst _

theorem synthArc_computes (sha256 : Bytes → Bytes) (cfg : PoseidonConfig) {st : Synth} (hst : st.Ok)
    {x : Wire} (hx : x.Ok st) (r : Nat) (i : Fin 3) :
    Computes st (cfg.synthArc sha256 r st x i) fun v => v x.1 + cfg.arc sha256 r i where
  gadget := by
    refine gadget_define hst (Or.inl rfl)
      (((below_var (Nat.lt_succ_self _) 1).addTerm (hx.1.trans (Nat.lt_succ_self _)) _).addTerm
        (Nat.succ_pos _) _)
      (below_var (Nat.succ_pos _) 1) (below_empty _) (fun v hv => ?_) fun v _ hagree => ?_
    · simp only [dot_addTerm, dot_var, dot_one, dot_empty, hv, one_mul, mul_one, neg_mul]
      rw [← sub_eq_add_neg, ← sub_eq_add_neg, sub_sub, sub_eq_zero]
    · rw [hx.agrees hst hagree]
  wire := wire_push hst _

theorem synthMix_computes {st : Synth} (hst : st.Ok) {z : Lanes Wire} (hz : ∀ i, (z i).Ok st)
    (i : Fin 3) : Computes st (synthMix st z i) fun v => mixLane (laneValues v z) i where
  gadget := by
    have hlt : ∀ j, (z j).1 < st.nextVar + 1 := fun j => (hz j).1.trans (Nat.lt_succ_self _)
    refine gadget_define hst (Or.inl rfl)
      ((((below_var (Nat.lt_succ_self _) 1).addTerm (hlt 0) _).addTerm (hlt 1) _).addTerm (hlt 2) _)
      (below_var (Nat.succ_pos _) 1) (below_empty _) (fun v hv => ?_) fun v _ hagree => ?_
    · simp only [dot_addTerm, dot_var, dot_one, dot_empty, hv, one_mul, mul_one, neg_mul, mixLane,
        laneValues, zero_add]
      rw [← sub_eq_add_neg, ← sub_eq_add_neg, ← sub_eq_add_neg, sub_sub, sub_sub, sub_eq_zero]
      rw [add_assoc]
    · have hvalues : laneValues v z = fun j => (z j).2 :=
        funext fun j => (hz j).agrees hst hagree
      rw [hvalues]
  wire := wire_push hst _

/-- One computed wire after another. -/
theorem Computes.comp {st : Synth} {res : Synth × Wire} {f : (Nat → Fr) → Fr} (h : Computes st res f)
    {res' : Synth × Wire} {g : (Nat → Fr) → Fr} (h' : Computes res.1 res' g)
    {k : (Nat → Fr) → Fr} (hk : ∀ v, v res.2.1 = f v → g v = k v) : Computes st res' k where
  gadget := (h.gadget.comp_true h'.gadget).weaken
    (fun v hv => hv.2.trans (hk v hv.1)) fun _ _ => trivial
  wire := h'.wire

/-- The three products of the S-box, one after the other. -/
theorem synthSbox_computes {st : Synth} (hst : st.Ok) {z : Wire} (hz : z.Ok st) :
    Computes st (synthSbox st z) fun v => sbox (v z.1) := by
  have ht := mulWire_computes hst hz hz
  have hz₁ := ht.gadget.wire hst hz
  have hu := mulWire_computes ht.gadget.ok ht.wire ht.wire
  have hz₂ := hu.gadget.wire ht.gadget.ok hz₁
  have hy := mulWire_computes hu.gadget.ok hu.wire hz₂
  have hsquares := ht.comp hu (k := fun v => v z.1 * v z.1 * (v z.1 * v z.1)) fun v hv => by
    rw [hv]
  exact hsquares.comp hy fun v hv => by rw [hv, sbox]

/-- A step for each lane, where a step keeps what the next one needs. -/
theorem forLanes_computes {st : Synth} (hst : st.Ok) {step : Synth → Fin 3 → Synth × Wire}
    {f : Fin 3 → (Nat → Fr) → Fr} {x : Lanes Wire} (hx : ∀ j, (x j).Ok st)
    (hstep : ∀ st' i, st'.Ok → (∀ j, (x j).Ok st') → Computes st' (step st' i) (f i)) :
    ComputesLanes st (forLanes st step) fun v i => f i v := by
  have h0 := hstep st 0 hst hx
  have hx₁ : ∀ j, (x j).Ok (step st 0).1 := fun j => h0.gadget.wire hst (hx j)
  have h1 := hstep (step st 0).1 1 h0.gadget.ok hx₁
  have hx₂ : ∀ j, (x j).Ok (step (step st 0).1 1).1 := fun j => h1.gadget.wire h0.gadget.ok (hx₁ j)
  have h2 := hstep (step (step st 0).1 1).1 2 h1.gadget.ok hx₂
  refine ⟨((h0.gadget.comp_true h1.gadget).comp_true h2.gadget).weaken ?_ fun _ _ => trivial, ?_⟩
  · rintro v ⟨⟨hv0, hv1⟩, hv2⟩ i
    fin_cases i
    · exact hv0
    · exact hv1
    · exact hv2
  · intro i
    fin_cases i
    · exact h2.gadget.wire h1.gadget.ok (h1.gadget.wire h0.gadget.ok h0.wire)
    · exact h2.gadget.wire h1.gadget.ok h1.wire
    · exact h2.wire

theorem synthSboxes_computes {st : Synth} (hst : st.Ok) {z : Lanes Wire} (hz : ∀ i, (z i).Ok st)
    (r : Nat) : ComputesLanes st (synthSboxes r st z) fun v i =>
      if fullRound r = true ∨ i = 0 then sbox (v (z i).1) else v (z i).1 := by
  by_cases hfull : fullRound r = true
  · rw [synthSboxes, if_pos hfull]
    simp only [hfull, true_or, if_true]
    exact forLanes_computes hst hz fun st' i hst' hz' => synthSbox_computes hst' (hz' i)
  · rw [synthSboxes, if_neg hfull]
    have h := synthSbox_computes hst (hz 0)
    refine ⟨h.gadget.weaken ?_ fun _ _ => trivial, ?_⟩
    · intro v hv i
      fin_cases i
      · simpa using hv
      · simp [hfull]
      · simp [hfull]
    · intro i
      fin_cases i
      · exact h.wire
      · exact h.gadget.wire hst (hz 1)
      · exact h.gadget.wire hst (hz 2)

theorem ComputesLanes.comp {st : Synth} {res : Synth × Lanes Wire} {f : (Nat → Fr) → Lanes Fr}
    (h : ComputesLanes st res f) {res' : Synth × Lanes Wire} {g k : (Nat → Fr) → Lanes Fr}
    (h' : ComputesLanes res.1 res' g) (hk : ∀ v, laneValues v res.2 = f v → g v = k v) :
    ComputesLanes st res' k where
  gadget := (h.gadget.comp_true h'.gadget).weaken
    (fun v hv i => (hv.2 i).trans (congrFun (hk v (funext hv.1)) i)) fun _ _ => trivial
  wire := h'.wire

section

variable (sha256 : Bytes → Bytes) (cfg : PoseidonConfig)

theorem synthRound_computes {st : Synth} (hst : st.Ok) {x : Lanes Wire} (hx : ∀ i, (x i).Ok st)
    (r : Nat) : ComputesLanes st (cfg.synthRound sha256 (st, x) r)
      fun v => cfg.round sha256 r (laneValues v x) := by
  have hz := forLanes_computes hst hx fun st' i hst' hx' =>
    synthArc_computes sha256 cfg hst' (hx' i) r i
  have hy := synthSboxes_computes hz.gadget.ok hz.wire r
  have hw := forLanes_computes hy.gadget.ok hy.wire fun st' i hst' hy' => synthMix_computes hst' hy' i
  have hzy := hz.comp hy (k := fun v i => if fullRound r = true ∨ i = 0
      then sbox (v (x i).1 + cfg.arc sha256 r i) else v (x i).1 + cfg.arc sha256 r i) fun v hv => by
    funext i
    have hi : v ((forLanes st fun s i => cfg.synthArc sha256 r s (x i) i).2 i).1
        = v (x i).1 + cfg.arc sha256 r i := congrFun hv i
    rw [hi]
  refine hzy.comp hw fun v hv => ?_
  rw [hv]
  rfl

/-- **The synthesized permutation forces the computed one**, round by round. -/
theorem synthPermutation_computes {st : Synth} (hst : st.Ok) {x : Lanes Wire}
    (hx : ∀ i, (x i).Ok st) : ComputesLanes st (cfg.synthPermutation sha256 st x)
      fun v => cfg.permute sha256 (laneValues v x) := by
  have hrounds : ∀ (rs : List Nat) {st : Synth} {x : Lanes Wire}, st.Ok → (∀ i, (x i).Ok st) →
      ComputesLanes st (rs.foldl (cfg.synthRound sha256) (st, x))
        fun v => rs.foldl (fun s r => cfg.round sha256 r s) (laneValues v x) := by
    intro rs
    induction rs with
    | nil =>
      intro st x hst hx
      exact ⟨(Gadget.refl hst).weaken (fun v _ i => rfl) fun _ _ => trivial, hx⟩
    | cons r rest ih =>
      intro st x hst hx
      have hround := synthRound_computes sha256 cfg hst hx r
      have hrest := ih hround.gadget.ok hround.wire
      exact hround.comp hrest fun v hv => by rw [hv, List.foldl_cons]
  unfold PoseidonConfig.synthPermutation PoseidonConfig.permute
  generalize List.range TOTAL_ROUNDS = rs
  exact hrounds rs hst hx

/-! ## The sponge -/

theorem synthZero_computes {st : Synth} (hst : st.Ok) :
    Computes st (PoseidonConfig.synthZero st) fun _ => 0 where
  gadget := by
    refine gadget_define hst (Or.inl rfl) (below_var (Nat.lt_succ_self _) 1)
      (below_var (Nat.succ_pos _) 1) (below_empty _) (fun v hv => ?_) fun _ _ _ => rfl
    simp only [dot_var, dot_one, dot_empty, hv, one_mul, mul_one]
  wire := wire_push hst _

/-- An input that is not the constant's index is used as it is. -/
theorem synthSecond_computes {st : Synth} (hst : st.Ok) {w : Wire} (hw : w.Ok st) (h0 : w.1 ≠ 0) :
    Computes st (PoseidonConfig.synthSecond st (some w)) fun v => v w.1 := by
  rw [PoseidonConfig.synthSecond, if_neg h0]
  exact ⟨(Gadget.refl hst).weaken (fun _ _ => rfl) fun _ _ => trivial, hw⟩

/-- The lanes that enter a permutation. -/
theorem laneValues_cons (v : Nat → Fr) (x y z : Wire) :
    laneValues v ![x, y, z] = ![v x.1, v y.1, v z.1] := by
  funext i
  fin_cases i <;> rfl

/-- A wire, then the permutation of lanes that hold it. -/
theorem permutation_after {st : Synth} {cap a : Wire} (hst : st.Ok) (hcap : cap.Ok st) (ha : a.Ok st)
    {b : Synth × Wire} {f : (Nat → Fr) → Fr} (hb : Computes st b f) :
    ComputesLanes st (cfg.synthPermutation sha256 b.1 ![cap, a, b.2])
      fun v => cfg.permute sha256 ![v cap.1, v a.1, f v] := by
  have hlanes : ∀ i, ((![cap, a, b.2] : Lanes Wire) i).Ok b.1 := by
    intro i
    fin_cases i
    · exact hb.gadget.wire hst hcap
    · exact hb.gadget.wire hst ha
    · exact hb.wire
  have hperm := synthPermutation_computes sha256 cfg hb.gadget.ok hlanes
  refine ⟨(hb.gadget.comp_true hperm.gadget).weaken (fun v hv i => ?_) fun _ _ => trivial, hperm.wire⟩
  rw [hv.2 i, laneValues_cons, hv.1]

/-- Absorbing forces the absorbed state, whatever the rate lanes held before. -/
theorem synthAbsorb_computes : ∀ (inputs : List Wire) {st : Synth} (state : Lanes Wire), st.Ok →
    (state 0).Ok st → (inputs = [] → ∀ i, (state i).Ok st) → (∀ w ∈ inputs, w.Ok st ∧ w.1 ≠ 0) →
    ComputesLanes st (cfg.synthAbsorb sha256 st state inputs)
      fun v => cfg.absorb sha256 (laneValues v state) (inputs.map fun w => v w.1)
  | [], _, _, hst, _, hstate, _ =>
    ⟨(Gadget.refl hst).weaken (fun _ _ _ => rfl) fun _ _ => trivial, hstate rfl⟩
  | [a], _, _, hst, hcap, _, hinputs =>
    permutation_after sha256 cfg hst hcap (hinputs a List.mem_cons_self).1 (synthZero_computes hst)
  | a :: b :: rest, st, state, hst, hcap, _, hinputs => by
    obtain ⟨ha, hbrest⟩ := List.forall_mem_cons.mp hinputs
    obtain ⟨hb, hrest⟩ := List.forall_mem_cons.mp hbrest
    have hsecond := synthSecond_computes hst hb.1 hb.2
    have hperm := permutation_after sha256 cfg hst hcap ha.1 hsecond
    have htail := synthAbsorb_computes rest _ hperm.gadget.ok (hperm.wire 0) (fun _ => hperm.wire)
      fun w hw => ⟨hperm.gadget.wire hst (hrest w hw).1, (hrest w hw).2⟩
    exact hperm.comp htail fun v hv => by
      rw [hv, List.map_cons, List.map_cons, PoseidonConfig.absorb_pair]
      rfl

/-- **The synthesized sponge forces the computed one**, for any assignment of its inputs. -/
theorem synthSponge_computes {st : Synth} (hst : st.Ok) {inputs : List Wire} (hne : inputs ≠ [])
    (hinputs : ∀ w ∈ inputs, w.Ok st ∧ w.1 ≠ 0) :
    Computes st (cfg.synthSponge sha256 st inputs)
      fun v => cfg.sponge sha256 (inputs.map fun w => v w.1) := by
  have hcap : Computes st ((st.alloc (cfg.capacity sha256)).constrain (LinComb.var st.nextVar 1)
      LinComb.one (LinComb.var 0 (cfg.capacity sha256)), (st.nextVar, cfg.capacity sha256))
      fun _ => cfg.capacity sha256 := by
    refine ⟨gadget_define hst (Or.inl rfl) (below_var (Nat.lt_succ_self _) 1)
      (below_var (Nat.succ_pos _) 1) (below_var (Nat.succ_pos _) _) (fun v hv => ?_)
      fun _ _ _ => rfl, wire_push hst _⟩
    simp only [dot_var, dot_one, hv, one_mul, mul_one]
  have habsorb := synthAbsorb_computes sha256 cfg inputs
    ![(st.nextVar, cfg.capacity sha256), (0, 0), (0, 0)] hcap.gadget.ok hcap.wire
    (fun h => absurd h hne) fun w hw =>
      ⟨hcap.gadget.wire hst (hinputs w hw).1, (hinputs w hw).2⟩
  refine ⟨(hcap.gadget.comp_true habsorb.gadget).weaken (fun v hv => ?_) fun _ _ => trivial,
    habsorb.wire 1⟩
  have hcapacity : laneValues v ![(st.nextVar, cfg.capacity sha256), (0, 0), (0, 0)] 0
      = (![cfg.capacity sha256, 0, 0] : Lanes Fr) 0 := hv.1
  have hstart := cfg.absorb_congr sha256 hcapacity
    (fun h => hne (List.map_eq_nil_iff.mp h) : inputs.map (fun w => v w.1) ≠ [])
  exact (hv.2 1).trans (congrFun hstart 1)

/-! ## Shape -/

/-- Steps that emit the same constraints and end in the same variable. -/
def SameWire (res₁ res₂ : Synth × Wire) : Prop := Shape res₁.1 res₂.1 ∧ res₁.2.1 = res₂.2.1

def SameLanes (res₁ res₂ : Synth × Lanes Wire) : Prop :=
  Shape res₁.1 res₂.1 ∧ ∀ i, (res₁.2 i).1 = (res₂.2 i).1

theorem synthArc_shape {st₁ st₂ : Synth} (h : Shape st₁ st₂) {x₁ x₂ : Wire} (hx : x₁.1 = x₂.1)
    (r : Nat) (i : Fin 3) :
    SameWire (cfg.synthArc sha256 r st₁ x₁ i) (cfg.synthArc sha256 r st₂ x₂ i) := by
  refine ⟨(h.alloc _ _).constrain ?_ rfl rfl, h.2⟩
  rw [hx, h.2]

theorem synthSbox_shape {st₁ st₂ : Synth} (h : Shape st₁ st₂) {z₁ z₂ : Wire} (hz : z₁.1 = z₂.1) :
    SameWire (synthSbox st₁ z₁) (synthSbox st₂ z₂) := by
  have hnext := h.2
  refine ⟨((((((h.alloc _ _).alloc _ _).alloc _ _).constrain ?_ ?_ ?_).constrain ?_ ?_ ?_).constrain
    ?_ ?_ ?_), by simp only [synthSbox, hnext]⟩
  all_goals first | rw [hz] | rw [hnext]

theorem synthMix_shape {st₁ st₂ : Synth} (h : Shape st₁ st₂) {z₁ z₂ : Lanes Wire}
    (hz : ∀ i, (z₁ i).1 = (z₂ i).1) (i : Fin 3) :
    SameWire (synthMix st₁ z₁ i) (synthMix st₂ z₂ i) := by
  refine ⟨(h.alloc _ _).constrain ?_ rfl rfl, h.2⟩
  rw [hz 0, hz 1, hz 2, h.2]

theorem forLanes_shape {st₁ st₂ : Synth} (h : Shape st₁ st₂)
    {step₁ step₂ : Synth → Fin 3 → Synth × Wire}
    (hstep : ∀ s₁ s₂ i, Shape s₁ s₂ → SameWire (step₁ s₁ i) (step₂ s₂ i)) :
    SameLanes (forLanes st₁ step₁) (forLanes st₂ step₂) := by
  have h0 := hstep st₁ st₂ 0 h
  have h1 := hstep _ _ 1 h0.1
  have h2 := hstep _ _ 2 h1.1
  refine ⟨h2.1, fun i => ?_⟩
  fin_cases i
  · exact h0.2
  · exact h1.2
  · exact h2.2

theorem synthSboxes_shape {st₁ st₂ : Synth} (h : Shape st₁ st₂) {z₁ z₂ : Lanes Wire}
    (hz : ∀ i, (z₁ i).1 = (z₂ i).1) (r : Nat) :
    SameLanes (synthSboxes r st₁ z₁) (synthSboxes r st₂ z₂) := by
  by_cases hfull : fullRound r = true
  · rw [synthSboxes, synthSboxes, if_pos hfull, if_pos hfull]
    exact forLanes_shape h fun s₁ s₂ i hs => synthSbox_shape hs (hz i)
  · rw [synthSboxes, synthSboxes, if_neg hfull, if_neg hfull]
    have h0 := synthSbox_shape h (hz 0)
    refine ⟨h0.1, fun i => ?_⟩
    fin_cases i
    · exact h0.2
    · exact hz 1
    · exact hz 2

theorem synthRound_shape {res₁ res₂ : Synth × Lanes Wire} (h : SameLanes res₁ res₂) (r : Nat) :
    SameLanes (cfg.synthRound sha256 res₁ r) (cfg.synthRound sha256 res₂ r) := by
  have hz := forLanes_shape h.1 fun s₁ s₂ i hs => synthArc_shape sha256 cfg hs (h.2 i) r i
  have hy := synthSboxes_shape hz.1 hz.2 r
  exact forLanes_shape hy.1 fun s₁ s₂ i hs => synthMix_shape hs hy.2 i

theorem synthPermutation_shape {st₁ st₂ : Synth} (h : Shape st₁ st₂) {x₁ x₂ : Lanes Wire}
    (hx : ∀ i, (x₁ i).1 = (x₂ i).1) :
    SameLanes (cfg.synthPermutation sha256 st₁ x₁) (cfg.synthPermutation sha256 st₂ x₂) := by
  have hrounds : ∀ (rs : List Nat) {res₁ res₂ : Synth × Lanes Wire}, SameLanes res₁ res₂ →
      SameLanes (rs.foldl (cfg.synthRound sha256) res₁) (rs.foldl (cfg.synthRound sha256) res₂) := by
    intro rs
    induction rs with
    | nil => exact fun h => h
    | cons r rest ih => exact fun h => ih (synthRound_shape sha256 cfg h r)
  unfold PoseidonConfig.synthPermutation
  generalize List.range TOTAL_ROUNDS = rs
  exact hrounds rs ⟨h, hx⟩

theorem synthZero_shape {st₁ st₂ : Synth} (h : Shape st₁ st₂) :
    SameWire (PoseidonConfig.synthZero st₁) (PoseidonConfig.synthZero st₂) := by
  refine ⟨(h.alloc _ _).constrain ?_ rfl rfl, h.2⟩
  rw [h.2]

theorem synthSecond_shape {st₁ st₂ : Synth} (h : Shape st₁ st₂) {w₁ w₂ : Wire} (hw : w₁.1 = w₂.1) :
    SameWire (PoseidonConfig.synthSecond st₁ (some w₁)) (PoseidonConfig.synthSecond st₂ (some w₂)) := by
  simp only [PoseidonConfig.synthSecond, hw]
  split_ifs
  · exact synthZero_shape h
  · exact ⟨h, hw⟩

theorem permutation_shape {b₁ b₂ : Synth × Wire} (hb : SameWire b₁ b₂) {cap₁ cap₂ a₁ a₂ : Wire}
    (hcap : cap₁.1 = cap₂.1) (ha : a₁.1 = a₂.1) :
    SameLanes (cfg.synthPermutation sha256 b₁.1 ![cap₁, a₁, b₁.2])
      (cfg.synthPermutation sha256 b₂.1 ![cap₂, a₂, b₂.2]) := by
  refine synthPermutation_shape sha256 cfg hb.1 fun i => ?_
  fin_cases i
  · exact hcap
  · exact ha
  · exact hb.2

theorem synthAbsorb_shape : ∀ (inputs₁ inputs₂ : List Wire) {st₁ st₂ : Synth}
    (state₁ state₂ : Lanes Wire), Shape st₁ st₂ → (∀ i, (state₁ i).1 = (state₂ i).1) →
    inputs₁.map (·.1) = inputs₂.map (·.1) →
    SameLanes (cfg.synthAbsorb sha256 st₁ state₁ inputs₁) (cfg.synthAbsorb sha256 st₂ state₂ inputs₂)
  | [], [], _, _, _, _, h, hstate, _ => ⟨h, hstate⟩
  | [a₁], [a₂], _, _, _, _, h, hstate, hin =>
    permutation_shape sha256 cfg (synthZero_shape h) (hstate 0) (List.head_eq_of_cons_eq hin)
  | a₁ :: b₁ :: rest₁, a₂ :: b₂ :: rest₂, _, _, _, _, h, hstate, hin => by
    have htail := List.tail_eq_of_cons_eq hin
    have hperm := permutation_shape sha256 cfg
      (synthSecond_shape h (List.head_eq_of_cons_eq htail : b₁.1 = b₂.1)) (hstate 0)
      (List.head_eq_of_cons_eq hin)
    exact synthAbsorb_shape rest₁ rest₂ _ _ hperm.1 hperm.2 (List.tail_eq_of_cons_eq htail)
  | [], _ :: _, _, _, _, _, _, _, hin => by cases hin
  | _ :: _, [], _, _, _, _, _, _, hin => by cases hin
  | [_], _ :: _ :: _, _, _, _, _, _, _, hin => absurd (congrArg List.length hin) (by simp)
  | _ :: _ :: _, [_], _, _, _, _, _, _, hin => absurd (congrArg List.length hin) (by simp)

/-- **The constraints of a sponge do not depend on the values** of its inputs. -/
theorem synthSponge_shape {st₁ st₂ : Synth} (h : Shape st₁ st₂) {inputs₁ inputs₂ : List Wire}
    (hin : inputs₁.map (·.1) = inputs₂.map (·.1)) :
    SameWire (cfg.synthSponge sha256 st₁ inputs₁) (cfg.synthSponge sha256 st₂ inputs₂) := by
  have hcap : Shape
      ((st₁.alloc (cfg.capacity sha256)).constrain (LinComb.var st₁.nextVar 1) LinComb.one
        (LinComb.var 0 (cfg.capacity sha256)))
      ((st₂.alloc (cfg.capacity sha256)).constrain (LinComb.var st₂.nextVar 1) LinComb.one
        (LinComb.var 0 (cfg.capacity sha256))) :=
    (h.alloc _ _).constrain (by rw [h.2]) rfl rfl
  have habsorb := synthAbsorb_shape sha256 cfg inputs₁ inputs₂
    ![(st₁.nextVar, cfg.capacity sha256), (0, 0), (0, 0)]
    ![(st₂.nextVar, cfg.capacity sha256), (0, 0), (0, 0)] hcap (fun i => by
      fin_cases i
      · exact h.2
      · rfl
      · rfl) hin
  exact ⟨habsorb.1, habsorb.2 1⟩

end

end DiscCleaner.Zk
