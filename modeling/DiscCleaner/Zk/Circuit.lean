import DiscCleaner.Zk.Bits
import DiscCleaner.Zk.Poseidon

/-!
# DiscCleaner — the compliance circuit (`circuit.rs`)

The statement, the private witness and the builder that emits the constraints and the witness in
one pass.

* **`buildConstraints_gadget`** — the constraints force the policy, and hold as soon as it does.
* **`buildConstraints_shape`** — they do not depend on the statement and witness.
* **`compliance_circuit_is_policy`** — satisfying assignments and built witnesses.
-/

namespace DiscCleaner.Zk

open ByteLib Vdf

def CIRCUIT_ID : String := "dc-zk/compliance/v1"

/-- Public inputs besides the constant. -/
def NUM_PUBLIC : Nat := 5

/-! ## Variables -/

def V_ONE : Nat := 0
def V_PROFILE : Nat := 1
def V_TENANT : Nat := 2
def V_TS : Nat := 3
def V_VK : Nat := 4
def V_ROOT : Nat := 5
def V_SERIAL : Nat := 6
def V_BLOCKROOT : Nat := 7
def V_PASSES : Nat := 8
def V_VERIFIED : Nat := 9
def V_TOTAL : Nat := 10
def V_SUCCESS : Nat := 11
def V_OPSECRET : Nat := 12
def V_NONCE : Nat := 13

/-! ## Statement and witness -/

/-- What the verifier sees. -/
structure ComplianceStatement where
  profileHash : Fr
  tenantId : Fr
  ts : Fr
  vkCommitment : Fr
  auditRoot : Fr
  deriving DecidableEq

/-- The order matches the verifying key's inputs. -/
def ComplianceStatement.toPublicList (s : ComplianceStatement) : List Fr :=
  [s.profileHash, s.tenantId, s.ts, s.vkCommitment, s.auditRoot]

/-- What stays hidden. -/
structure ComplianceWitness where
  serial : Block 16
  blockRoot : Fr
  passes : UInt8
  verifiedBlocks : UInt32
  totalBlocks : UInt32
  sanitizeSuccess : Bool
  operatorSecret : Fr
  nonce : Fr

def serialToFr (serial : Block 16) : Fr := fromBeBytesReduced serial.bytes

/-- A flag as a field element. -/
def flagToFr (flag : Bool) : Fr := if flag then 1 else 0

/-- The eleven fields under the audit root. -/
def absorbElements (w : ComplianceWitness) (stmt : ComplianceStatement) : List Fr :=
  [serialToFr w.serial, w.blockRoot, fromU64 w.passes.toNat, fromU64 w.verifiedBlocks.toNat,
    fromU64 w.totalBlocks.toNat, flagToFr w.sanitizeSuccess, w.operatorSecret, w.nonce,
    stmt.profileHash, stmt.tenantId, stmt.ts]

def auditRootConfig : PoseidonConfig := ⟨utf8 "dc-zk/audit-root/v1"⟩

def vkCommitConfig : PoseidonConfig := ⟨utf8 "dc-zk/vk-commit/v1"⟩

/-! ## The builder -/

/-- A value at its index; the witness grows with zeros up to it. -/
def setSlot (witness : List Fr) (slot : Wire) : List Fr :=
  (witness ++ List.replicate (slot.1 + 1 - witness.length) 0).set slot.1 slot.2

/-- A fixed slot. -/
def Synth.seed (st : Synth) (slot : Wire) : Synth :=
  { st with cs := { st.cs with numVars := max st.cs.numVars (slot.1 + 1) }
            witness := setSlot st.witness slot }

/-- The fixed slots with their values. -/
def baseSlots (stmt : ComplianceStatement) (w : ComplianceWitness) : List Wire :=
  [(V_ONE, 1), (V_PROFILE, stmt.profileHash), (V_TENANT, stmt.tenantId), (V_TS, stmt.ts),
    (V_VK, stmt.vkCommitment), (V_ROOT, stmt.auditRoot), (V_SERIAL, serialToFr w.serial),
    (V_BLOCKROOT, w.blockRoot), (V_PASSES, fromU64 w.passes.toNat),
    (V_VERIFIED, fromU64 w.verifiedBlocks.toNat), (V_TOTAL, fromU64 w.totalBlocks.toNat),
    (V_SUCCESS, flagToFr w.sanitizeSuccess), (V_OPSECRET, w.operatorSecret), (V_NONCE, w.nonce)]

/-- A variable with the value it has. -/
def Synth.wire (st : Synth) (idx : Nat) : Wire := (idx, st.value idx)

/-- Two variables are equal. -/
def constrainEqual (st : Synth) (x y : Nat) : Synth :=
  st.constrain (addTerm (LinComb.var x 1) y (-1)) LinComb.one LinComb.empty

/-- The bit decompositions; the bits of the pass count are used again. -/
def rangeChecks (st : Synth) : Synth × List Nat :=
  let serialBits := bitDecompose st (st.wire V_SERIAL) 128
  let passBits := bitDecompose serialBits.1 (serialBits.1.wire V_PASSES) 8
  let verifiedBits := bitDecompose passBits.1 (passBits.1.wire V_VERIFIED) 32
  let totalBits := bitDecompose verifiedBits.1 (verifiedBits.1.wire V_TOTAL) 32
  (totalBits.1, passBits.2)

/-- Every block verified, the purge successful, at least one pass. -/
def constrainPolicy (st : Synth) (passBits : List Nat) : Synth :=
  let st := constrainEqual st V_VERIFIED V_TOTAL
  let st := st.constrain (LinComb.var V_SUCCESS 1) LinComb.one (LinComb.var 0 1)
  let st := st.constrain (LinComb.var V_SUCCESS 1) (LinComb.var V_SUCCESS 1)
    (LinComb.var V_SUCCESS 1)
  constrainAtLeastOne st passBits

/-- The fields under the audit root, as variables. -/
def rootInputs : List Nat :=
  [V_SERIAL, V_BLOCKROOT, V_PASSES, V_VERIFIED, V_TOTAL, V_SUCCESS, V_OPSECRET, V_NONCE, V_PROFILE,
    V_TENANT, V_TS]

/-- The fields under the operator's commitment. -/
def vkInputs : List Nat := [V_OPSECRET, V_NONCE]

section

variable (sha256 : Bytes → Bytes)

def auditRootOf (w : ComplianceWitness) (stmt : ComplianceStatement) : Fr :=
  auditRootConfig.sponge sha256 (absorbElements w stmt)

def vkCommitmentOf (operatorSecret nonce : Fr) : Fr :=
  vkCommitConfig.sponge sha256 [operatorSecret, nonce]

/-- Equal roots of the fields and of the operator's credential. -/
def constrainCommitments (st : Synth) : Synth :=
  let root := auditRootConfig.synthSponge sha256 st (rootInputs.map st.wire)
  let st := constrainEqual root.1 root.2.1 V_ROOT
  let vk := vkCommitConfig.synthSponge sha256 st (vkInputs.map st.wire)
  constrainEqual vk.1 vk.2.1 V_VK

/-- The fixed slots, then all constraints in order. -/
def buildConstraints (st : Synth) (stmt : ComplianceStatement) (w : ComplianceWitness) : Synth :=
  let bits := rangeChecks ((baseSlots stmt w).foldl Synth.seed st)
  constrainCommitments sha256 (constrainPolicy bits.1 bits.2)

def Synth.new : Synth := ⟨R1cs.new (V_NONCE + 1) NUM_PUBLIC, V_NONCE + 1, []⟩

def dummyWitness : ComplianceWitness where
  serial := Block.ofNat 16 0
  blockRoot := 0
  passes := 1
  verifiedBlocks := 1
  totalBlocks := 1
  sanitizeSuccess := true
  operatorSecret := fromBeBytesReduced (List.replicate 31 0x42)
  nonce := fromBeBytesReduced (List.replicate 31 0x24)

def placeholderStmt : ComplianceStatement where
  profileHash := fromBeBytesReduced [1]
  tenantId := fromBeBytesReduced [2]
  ts := fromBeBytesReduced [3]
  vkCommitment := 0
  auditRoot := 0

/-- The circuit, from a dry run. -/
def complianceCircuit : R1cs :=
  let stmt := { placeholderStmt with
    vkCommitment := vkCommitmentOf sha256 dummyWitness.operatorSecret dummyWitness.nonce
    auditRoot := auditRootOf sha256 dummyWitness placeholderStmt }
  let st := buildConstraints sha256 Synth.new stmt dummyWitness
  { st.cs with numVars := st.nextVar }

def buildWitness (stmt : ComplianceStatement) (w : ComplianceWitness) : List Fr :=
  let st := buildConstraints sha256 Synth.new stmt w
  st.witness.take st.nextVar

/-! ## The policy -/

/-- What the circuit is for, under an assignment of its variables. -/
structure Policy (v : Nat → Fr) : Prop where
  serial : (v V_SERIAL).val < 2 ^ 128
  passes : 1 ≤ (v V_PASSES).val ∧ (v V_PASSES).val ≤ 255
  verified : v V_VERIFIED = v V_TOTAL ∧ (v V_TOTAL).val < 2 ^ 32
  success : v V_SUCCESS = 1
  auditRoot : v V_ROOT = auditRootConfig.sponge sha256 (rootInputs.map v)
  vkCommitment : v V_VK = vkCommitConfig.sponge sha256 (vkInputs.map v)

/-- A witness that meets the policy of a statement. -/
structure Compliant (stmt : ComplianceStatement) (w : ComplianceWitness) : Prop where
  passes : 1 ≤ w.passes.toNat
  verified : w.verifiedBlocks = w.totalBlocks
  success : w.sanitizeSuccess = true
  auditRoot : stmt.auditRoot = auditRootOf sha256 w stmt
  vkCommitment : stmt.vkCommitment = vkCommitmentOf sha256 w.operatorSecret w.nonce

end

/-! ## The fixed slots -/

/-- The next slot is appended. -/
theorem setSlot_length (witness : List Fr) (val : Fr) :
    setSlot witness (witness.length, val) = witness ++ [val] := by
  rw [setSlot, Nat.add_sub_cancel_left, List.set_append_right _ _ (le_refl _), Nat.sub_self]
  rfl

/-- Slots in order fill the witness. -/
theorem foldl_seed (slots : List Wire) (st : Synth)
    (hidx : slots.map (·.1) = List.range' st.witness.length slots.length)
    (hvars : ∀ slot ∈ slots, slot.1 < st.cs.numVars) :
    slots.foldl Synth.seed st = { st with witness := st.witness ++ slots.map (·.2) } := by
  induction slots generalizing st with
  | nil => rw [List.foldl_nil, List.map_nil, List.append_nil]
  | cons slot rest ih =>
    obtain ⟨idx, val⟩ := slot
    obtain ⟨hslot, hrest⟩ := List.forall_mem_cons.mp hvars
    rw [List.map_cons, List.length_cons, List.range'_succ] at hidx
    have hhead : idx = st.witness.length := List.head_eq_of_cons_eq hidx
    have hseed : st.seed (idx, val) = { st with witness := st.witness ++ [val] } := by
      rw [Synth.seed, max_eq_left hslot, hhead, setSlot_length]
    rw [List.foldl_cons, hseed, ih { st with witness := st.witness ++ [val] } ?_ hrest,
      List.map_cons, List.append_assoc]
    · rfl
    · rw [List.tail_eq_of_cons_eq hidx, List.length_append]
      rfl

/-- The state after the fixed slots. -/
def Synth.seeded (stmt : ComplianceStatement) (w : ComplianceWitness) : Synth :=
  { Synth.new with witness := (baseSlots stmt w).map (·.2) }

theorem foldl_baseSlots (stmt : ComplianceStatement) (w : ComplianceWitness) :
    (baseSlots stmt w).foldl Synth.seed Synth.new = Synth.seeded stmt w := by
  rw [foldl_seed _ _ rfl ?_]
  · rfl
  · have hmap : ∀ idx ∈ (baseSlots stmt w).map (·.1), idx < Synth.new.cs.numVars := by
      have hidx : (baseSlots stmt w).map (·.1) = List.range 14 := rfl
      rw [hidx]
      exact fun idx h => List.mem_range.mp h
    exact fun slot h => hmap slot.1 (List.mem_map_of_mem h)

theorem seeded_ok (stmt : ComplianceStatement) (w : ComplianceWitness) :
    (Synth.seeded stmt w).Ok := rfl

/-! ## The constraints -/

theorem constrainEqual_gadget {st : Synth} (h : st.Ok) {x y : Nat} (hx : x < st.nextVar)
    (hy : y < st.nextVar) : Gadget st (constrainEqual st x y) (fun v => v x = v y)
      fun v => v x = v y := by
  refine (gadget_assert h (Nat.zero_lt_of_lt hx) ((below_var hx 1).addTerm hy _)
    (below_empty _)).weaken (fun v hv => ?_) fun v hv => ?_
  · simp only [dot_addTerm, dot_var, dot_empty, one_mul, neg_mul] at hv
    rw [← sub_eq_add_neg, sub_eq_zero] at hv
    exact hv
  · simp only [dot_addTerm, dot_var, dot_empty, one_mul, neg_mul]
    rw [← sub_eq_add_neg, sub_eq_zero]
    exact hv

theorem wire_ok {st : Synth} {idx : Nat} (h : idx < st.nextVar) : (st.wire idx).Ok st := ⟨h, rfl⟩

/-- A commitment over variables, equal to a variable. -/
theorem commitment_gadget (sha256 : Bytes → Bytes) (cfg : PoseidonConfig) {st : Synth} (h : st.Ok)
    {inputs : List Nat} (hne : inputs ≠ []) (hinputs : ∀ i ∈ inputs, i < st.nextVar ∧ i ≠ 0)
    {root : Nat} (hroot : root < st.nextVar) :
    Gadget st (constrainEqual (cfg.synthSponge sha256 st (inputs.map st.wire)).1
        (cfg.synthSponge sha256 st (inputs.map st.wire)).2.1 root)
      (fun v => v root = cfg.sponge sha256 (inputs.map v))
      fun v => v root = cfg.sponge sha256 (inputs.map v) := by
  have hwires : ∀ w ∈ inputs.map st.wire, w.Ok st ∧ w.1 ≠ 0 := by
    intro w hw
    obtain ⟨i, hi, rfl⟩ := List.mem_map.mp hw
    exact ⟨wire_ok (hinputs i hi).1, (hinputs i hi).2⟩
  have hsponge := synthSponge_computes sha256 cfg h
    (fun hnil => hne (List.map_eq_nil_iff.mp hnil)) hwires
  have hequal := constrainEqual_gadget hsponge.gadget.ok hsponge.wire.1
    (hroot.trans_le hsponge.gadget.nextVar_le)
  have hvalues : ∀ v : Nat → Fr, (inputs.map st.wire).map (fun w => v w.1) = inputs.map v := by
    intro v
    rw [List.map_map]
    rfl
  refine (hsponge.gadget.comp hequal).weaken (fun v hv => ?_) fun v hv => ⟨trivial, fun hout => ?_⟩
  · rw [← hv.2, hv.1, hvalues]
  · rw [hout, hvalues, hv]

/-- The bits of a variable and, later, one of them set: the variable is not zero. -/
theorem exists_bit_iff {v : Nat → Fr} {base n : Nat} {x : Fr} (h : Spells v base n x)
    (hn : n ≤ 128) : (∃ b ∈ (List.range n).map (base + ·), v b = 1) ↔ 1 ≤ x.val := by
  rw [Nat.one_le_iff_ne_zero, Ne, ZMod.val_eq_zero, ← Ne, h.ne_zero_iff hn]
  simp only [List.mem_map, List.mem_range, exists_exists_and_eq_and]

/-- What the four decompositions establish. -/
structure Ranges (v : Nat → Fr) : Prop where
  serial : (v V_SERIAL).val < 2 ^ 128
  passes : (v V_PASSES).val < 2 ^ 8
  verified : (v V_VERIFIED).val < 2 ^ 32
  total : (v V_TOTAL).val < 2 ^ 32

/-- The fixed slots exist. -/
def Slots (st : Synth) : Prop := ∀ i < V_NONCE + 1, i < st.nextVar

theorem Slots.mono {st st' : Synth} {P Q : (Nat → Fr) → Prop} (h : Slots st)
    (hg : Gadget st st' P Q) : Slots st' :=
  fun i hi => (h i hi).trans_le hg.nextVar_le

/-- The range checks, and what the bits of the pass count say. -/
theorem rangeChecks_gadget {st : Synth} (h : st.Ok) (hslots : Slots st) :
    Gadget st (rangeChecks st).1
      (fun v => Ranges v ∧ ((∃ b ∈ (rangeChecks st).2, v b = 1) ↔ 1 ≤ (v V_PASSES).val)) Ranges ∧
      (rangeChecks st).2 ≠ [] ∧ ∀ b ∈ (rangeChecks st).2, b < (rangeChecks st).1.nextVar := by
  simp only [rangeChecks]
  have hserial := bitDecompose_gadget h (wire_ok (hslots V_SERIAL (by decide))) 128
  generalize bitDecompose st (st.wire V_SERIAL) 128 = serialBits at hserial ⊢
  have hslots₁ := hslots.mono hserial
  have hpasses := bitDecompose_gadget hserial.ok (wire_ok (hslots₁ V_PASSES (by decide))) 8
  have hvars := bitDecompose_bitVars hserial.ok (serialBits.1.wire V_PASSES) 8
  generalize bitDecompose serialBits.1 (serialBits.1.wire V_PASSES) 8 = passBits at hpasses hvars ⊢
  have hslots₂ := hslots₁.mono hpasses
  have hverified := bitDecompose_gadget hpasses.ok (wire_ok (hslots₂ V_VERIFIED (by decide))) 32
  generalize bitDecompose passBits.1 (passBits.1.wire V_VERIFIED) 32 = verifiedBits at hverified ⊢
  have hslots₃ := hslots₂.mono hverified
  have htotal := bitDecompose_gadget hverified.ok (wire_ok (hslots₃ V_TOTAL (by decide))) 32
  generalize bitDecompose verifiedBits.1 (verifiedBits.1.wire V_TOTAL) 32 = totalBits at htotal ⊢
  refine ⟨(((hserial.comp hpasses).comp hverified).comp htotal).weaken (fun v hv => ?_) fun v hv =>
    ⟨⟨⟨hv.serial, fun _ => hv.passes⟩, fun _ => hv.verified⟩, fun _ => hv.total⟩, ?_, ?_⟩
  · obtain ⟨⟨⟨hs, hp⟩, hv⟩, ht⟩ := hv
    refine ⟨⟨hs.val_lt (by decide), hp.val_lt (by decide), hv.val_lt (by decide),
      ht.val_lt (by decide)⟩, ?_⟩
    rw [hvars.1]
    exact exists_bit_iff hp (by decide)
  · rw [hvars.1]
    simp
  · intro b hb
    rw [hvars.1] at hb
    obtain ⟨i, hi, rfl⟩ := List.mem_map.mp hb
    exact ((hvars.2 i (List.mem_range.mp hi)).trans_le hverified.nextVar_le).trans_le
      htotal.nextVar_le

/-- The assertions over the fixed slots and the pass bits. -/
theorem constrainPolicy_gadget {st : Synth} (h : st.Ok) (hslots : Slots st) {passBits : List Nat}
    (hne : passBits ≠ []) (hbits : ∀ b ∈ passBits, b < st.nextVar) :
    Gadget st (constrainPolicy st passBits)
      (fun v => v V_VERIFIED = v V_TOTAL ∧ v V_SUCCESS = 1 ∧ ∃ b ∈ passBits, v b = 1)
      fun v => v V_VERIFIED = v V_TOTAL ∧ v V_SUCCESS = 1 ∧ ∃ b ∈ passBits, v b = 1 := by
  have hequal := constrainEqual_gadget h (hslots V_VERIFIED (by decide)) (hslots V_TOTAL (by decide))
  have hvar := below_var (hslots V_SUCCESS (by decide)) (1 : Fr)
  have hzero := hslots 0 (by decide)
  have hsuccess := gadget_assert hequal.ok hzero hvar (below_var hzero 1)
  have hboolean := gadget_constrain hsuccess.ok hvar hvar hvar
  have hone := constrainAtLeastOne_gadget hboolean.ok hne hbits
  refine (((hequal.comp hsuccess).comp hboolean).comp hone).weaken_of_agrees (fun v hv hP => ?_)
    fun v hv _ hQ => ?_
  · obtain ⟨⟨⟨heq, hsucc⟩, -⟩, hbit⟩ := hP
    simp only [dot_var, one_mul, hv] at hsucc
    exact ⟨heq, hsucc, hbit⟩
  · obtain ⟨heq, hsucc, hbit⟩ := hQ
    refine ⟨⟨⟨heq, fun _ => ?_⟩, fun _ => ?_⟩, fun _ => hbit⟩
    · simp only [dot_var, one_mul, hv, hsucc]
    · simp only [dot_var, one_mul, hsucc]

theorem constrainCommitments_gadget (sha256 : Bytes → Bytes) {st : Synth} (h : st.Ok)
    (hslots : Slots st) : Gadget st (constrainCommitments sha256 st)
      (fun v => v V_ROOT = auditRootConfig.sponge sha256 (rootInputs.map v) ∧
        v V_VK = vkCommitConfig.sponge sha256 (vkInputs.map v))
      fun v => v V_ROOT = auditRootConfig.sponge sha256 (rootInputs.map v) ∧
        v V_VK = vkCommitConfig.sponge sha256 (vkInputs.map v) := by
  have hrootInputs : ∀ i ∈ rootInputs, i < V_NONCE + 1 ∧ i ≠ 0 := by decide
  have hvkInputs : ∀ i ∈ vkInputs, i < V_NONCE + 1 ∧ i ≠ 0 := by decide
  have hroot := commitment_gadget sha256 auditRootConfig h (by decide)
    (fun i hi => ⟨hslots i (hrootInputs i hi).1, (hrootInputs i hi).2⟩) (hslots V_ROOT (by decide))
  have hslots' := hslots.mono hroot
  have hvk := commitment_gadget sha256 vkCommitConfig hroot.ok (by decide)
    (fun i hi => ⟨hslots' i (hvkInputs i hi).1, (hvkInputs i hi).2⟩) (hslots' V_VK (by decide))
  exact (hroot.comp hvk).weaken (fun v hv => hv) fun v hv => ⟨hv.1, fun _ => hv.2⟩

/-- **The circuit is the policy**: its constraints force the policy on every assignment, and hold
of the witness built along with them as soon as it meets the policy. -/
theorem buildConstraints_gadget (sha256 : Bytes → Bytes) (stmt : ComplianceStatement)
    (w : ComplianceWitness) : Gadget (Synth.seeded stmt w)
      (buildConstraints sha256 Synth.new stmt w) (Policy sha256) (Policy sha256) := by
  have hslots : Slots (Synth.seeded stmt w) := fun i hi => hi
  obtain ⟨hranges, hne, hbits⟩ := rangeChecks_gadget (seeded_ok stmt w) hslots
  have hpolicy := constrainPolicy_gadget hranges.ok (hslots.mono hranges) hne hbits
  have hcommit := constrainCommitments_gadget sha256 hpolicy.ok
    ((hslots.mono hranges).mono hpolicy)
  rw [buildConstraints, foldl_baseSlots]
  refine ((hranges.comp hpolicy).comp hcommit).weaken (fun v hv => ?_) fun v hv => ?_
  · obtain ⟨⟨⟨hr, hbit⟩, heq, hsucc, hone⟩, hroot, hvk⟩ := hv
    exact ⟨hr.serial, ⟨hbit.mp hone, Nat.le_of_lt_succ hr.passes⟩, ⟨heq, hr.total⟩, hsucc, hroot, hvk⟩
  · have hr : Ranges v := ⟨hv.serial, Nat.lt_succ_of_le hv.passes.2, hv.verified.1 ▸ hv.verified.2,
      hv.verified.2⟩
    exact ⟨⟨hr, fun hP => ⟨hv.verified.1, hv.success, hP.2.mpr hv.passes.1⟩⟩,
      fun _ => ⟨hv.auditRoot, hv.vkCommitment⟩⟩

/-! ## Shape -/

theorem wire_map_fst (st : Synth) (inputs : List Nat) : (inputs.map st.wire).map (·.1) = inputs := by
  rw [List.map_map]
  exact List.map_id inputs

theorem constrainEqual_shape {st₁ st₂ : Synth} (h : Shape st₁ st₂) {x₁ x₂ : Nat} (hx : x₁ = x₂)
    (y : Nat) : Shape (constrainEqual st₁ x₁ y) (constrainEqual st₂ x₂ y) :=
  h.constrain (by rw [hx]) rfl rfl

theorem wire_decompose_shape {st₁ st₂ : Synth} (h : Shape st₁ st₂) (idx n : Nat) :
    Shape (bitDecompose st₁ (st₁.wire idx) n).1 (bitDecompose st₂ (st₂.wire idx) n).1 ∧
      (bitDecompose st₁ (st₁.wire idx) n).2 = (bitDecompose st₂ (st₂.wire idx) n).2 :=
  @bitDecompose_shape _ _ h (st₁.wire idx) (st₂.wire idx) rfl n

theorem rangeChecks_shape {st₁ st₂ : Synth} (h : Shape st₁ st₂) :
    Shape (rangeChecks st₁).1 (rangeChecks st₂).1 ∧ (rangeChecks st₁).2 = (rangeChecks st₂).2 := by
  have hserial := wire_decompose_shape h V_SERIAL 128
  have hpasses := wire_decompose_shape hserial.1 V_PASSES 8
  have hverified := wire_decompose_shape hpasses.1 V_VERIFIED 32
  have htotal := wire_decompose_shape hverified.1 V_TOTAL 32
  exact ⟨htotal.1, hpasses.2⟩

theorem constrainPolicy_shape {st₁ st₂ : Synth} (h : Shape st₁ st₂) (passBits : List Nat) :
    Shape (constrainPolicy st₁ passBits) (constrainPolicy st₂ passBits) :=
  constrainAtLeastOne_shape
    (((constrainEqual_shape h rfl V_TOTAL).constrain rfl rfl rfl).constrain rfl rfl rfl) passBits

theorem commitment_shape (sha256 : Bytes → Bytes) (cfg : PoseidonConfig) {st₁ st₂ : Synth}
    (h : Shape st₁ st₂) (inputs : List Nat) (root : Nat) :
    Shape (constrainEqual (cfg.synthSponge sha256 st₁ (inputs.map st₁.wire)).1
        (cfg.synthSponge sha256 st₁ (inputs.map st₁.wire)).2.1 root)
      (constrainEqual (cfg.synthSponge sha256 st₂ (inputs.map st₂.wire)).1
        (cfg.synthSponge sha256 st₂ (inputs.map st₂.wire)).2.1 root) := by
  have hinputs : (inputs.map st₁.wire).map (·.1) = (inputs.map st₂.wire).map (·.1) := by
    rw [wire_map_fst, wire_map_fst]
  have hsponge := synthSponge_shape sha256 cfg h hinputs
  exact constrainEqual_shape hsponge.1 hsponge.2 root

theorem constrainCommitments_shape (sha256 : Bytes → Bytes) {st₁ st₂ : Synth} (h : Shape st₁ st₂) :
    Shape (constrainCommitments sha256 st₁) (constrainCommitments sha256 st₂) :=
  commitment_shape sha256 vkCommitConfig (commitment_shape sha256 auditRootConfig h rootInputs V_ROOT)
    vkInputs V_VK

/-- **The constraints do not depend on what they are built from.** -/
theorem buildConstraints_shape (sha256 : Bytes → Bytes) (stmt₁ stmt₂ : ComplianceStatement)
    (w₁ w₂ : ComplianceWitness) : Shape (buildConstraints sha256 Synth.new stmt₁ w₁)
      (buildConstraints sha256 Synth.new stmt₂ w₂) := by
  rw [buildConstraints, buildConstraints, foldl_baseSlots, foldl_baseSlots]
  have hranges := rangeChecks_shape
    (⟨rfl, rfl⟩ : Shape (Synth.seeded stmt₁ w₁) (Synth.seeded stmt₂ w₂))
  rw [hranges.2]
  exact constrainCommitments_shape sha256 (constrainPolicy_shape hranges.1 _)

/-! ## Satisfaction -/

section

variable (sha256 : Bytes → Bytes)

/-- The circuit is the system built from any statement and witness. -/
theorem complianceCircuit_eq (stmt : ComplianceStatement) (w : ComplianceWitness) :
    complianceCircuit sha256 = { (buildConstraints sha256 Synth.new stmt w).cs with
      numVars := (buildConstraints sha256 Synth.new stmt w).nextVar } := by
  rw [complianceCircuit]
  generalize { placeholderStmt with
    vkCommitment := vkCommitmentOf sha256 dummyWitness.operatorSecret dummyWitness.nonce
    auditRoot := auditRootOf sha256 dummyWitness placeholderStmt } = dummyStmt
  have hshape := buildConstraints_shape sha256 dummyStmt stmt dummyWitness w
  simp only [hshape.1, hshape.2]

/-- **Every satisfying assignment meets the policy.** -/
theorem policy_of_satisfied {witness : List Fr}
    (h : (complianceCircuit sha256).isSatisfiedBy witness = some true) :
    Policy sha256 (assignment witness) := by
  obtain ⟨-, hone, hall⟩ := isSatisfiedBy_iff.mp h
  have hgadget := buildConstraints_gadget sha256 placeholderStmt dummyWitness
  obtain ⟨new, hcs, -, hsound, -⟩ := hgadget.extends_constraints
  rw [complianceCircuit_eq sha256 placeholderStmt dummyWitness] at hall
  have hv : assignment witness 0 = 1 := by
    rw [assignment, List.getD_eq_getElem?_getD, ← List.head?_eq_getElem?, hone]
    rfl
  refine hsound _ hv fun k hk => (hall k ?_).2
  rw [hcs]
  exact List.mem_append_right _ hk

theorem buildWitness_eq (stmt : ComplianceStatement) (w : ComplianceWitness) :
    buildWitness sha256 stmt w = (buildConstraints sha256 Synth.new stmt w).witness := by
  have hok : (buildConstraints sha256 Synth.new stmt w).witness.length = _ :=
    (buildConstraints_gadget sha256 stmt w).ok
  rw [buildWitness, ← hok, List.take_length]

/-- The built witness starts with the fixed slots. -/
theorem buildWitness_slots (stmt : ComplianceStatement) (w : ComplianceWitness) :
    ∃ pushed, buildWitness sha256 stmt w = (baseSlots stmt w).map (·.2) ++ pushed := by
  rw [buildWitness_eq]
  exact (buildConstraints_gadget sha256 stmt w).extends_witness

theorem length_buildWitness (stmt : ComplianceStatement) (w : ComplianceWitness) :
    (buildWitness sha256 stmt w).length = (complianceCircuit sha256).numVars := by
  rw [buildWitness_eq, complianceCircuit_eq sha256 stmt w]
  exact (buildConstraints_gadget sha256 stmt w).ok

/-- A built witness satisfies the circuit when its assignment meets the policy. -/
theorem satisfied_of_policy {stmt : ComplianceStatement} {w : ComplianceWitness}
    (h : Policy sha256 (assignment (buildWitness sha256 stmt w))) :
    (complianceCircuit sha256).isSatisfiedBy (buildWitness sha256 stmt w) = some true := by
  obtain ⟨pushed, hslots⟩ := buildWitness_slots sha256 stmt w
  have hgadget := buildConstraints_gadget sha256 stmt w
  obtain ⟨new, hcs, hbelow, -, hcomplete⟩ := hgadget.extends_constraints
  refine isSatisfiedBy_iff.mpr ⟨length_buildWitness sha256 stmt w, ?_, ?_⟩
  · rw [hslots]
    rfl
  · have hv : assignment (buildWitness sha256 stmt w) 0 = 1 := by
      rw [hslots]
      rfl
    have hagree : Agrees (assignment (buildWitness sha256 stmt w))
        (buildConstraints sha256 Synth.new stmt w).witness := by
      rw [buildWitness_eq]
      exact agrees_assignment _
    have hall := hcomplete _ hv hagree h
    rw [complianceCircuit_eq sha256 stmt w]
    intro k hk
    rw [hcs] at hk
    rcases List.mem_append.mp hk with hk | hk
    · exact absurd hk List.not_mem_nil
    · exact ⟨hbelow k hk, hall k hk⟩

/-- A serial number has 128 bits. -/
theorem val_serialToFr (serial : Block 16) : (serialToFr serial).val < 2 ^ 128 := by
  have hlt := BigUint.ofBytes_lt serial.bytes
  rw [serial.size] at hlt
  rw [serialToFr, fromBeBytesReduced_eq, ZMod.val_natCast_of_lt (hlt.trans (by decide))]
  exact hlt

/-- A word is its own representative. -/
theorem val_fromU64 {n : Nat} (h : n < 2 ^ 64) : (fromU64 n).val = n := by
  rw [fromU64_eq h, ZMod.val_natCast_of_lt (h.trans (by decide))]

theorem flagToFr_eq_one (flag : Bool) : flagToFr flag = 1 ↔ flag = true := by
  cases flag <;> simp [flagToFr]

/-- Words are told apart by their field elements. -/
theorem fromU64_inj {m n : Nat} (hm : m < 2 ^ 64) (hn : n < 2 ^ 64) :
    fromU64 m = fromU64 n ↔ m = n := by
  refine ⟨fun h => ?_, fun h => congrArg fromU64 h⟩
  rw [← val_fromU64 hm, h, val_fromU64 hn]

/-- An assignment with the values of the fixed slots meets the policy when they do. -/
theorem policy_iff_compliant {stmt : ComplianceStatement} {w : ComplianceWitness} {v : Nat → Fr}
    (hv : ∀ slot ∈ baseSlots stmt w, v slot.1 = slot.2) :
    Policy sha256 v ↔ Compliant sha256 stmt w := by
  simp only [baseSlots, List.forall_mem_cons, List.not_mem_nil, false_imp_iff, implies_true,
    and_true] at hv
  obtain ⟨-, hprofile, htenant, hts, hvk, hroot, hserial, hblockRoot, hpasses, hverified, htotal,
    hsuccess, hopsecret, hnonce⟩ := hv
  have hpassesLt : w.passes.toNat < 2 ^ 8 := w.passes.toNat_lt
  have hverifiedLt : w.verifiedBlocks.toNat < 2 ^ 32 := w.verifiedBlocks.toNat_lt
  have htotalLt : w.totalBlocks.toNat < 2 ^ 32 := w.totalBlocks.toNat_lt
  have hpassesVal : (v V_PASSES).val = w.passes.toNat := by
    rw [hpasses, val_fromU64 (hpassesLt.trans (by decide))]
  have htotalVal : (v V_TOTAL).val = w.totalBlocks.toNat := by
    rw [htotal, val_fromU64 (htotalLt.trans (by decide))]
  have hblocks : v V_VERIFIED = v V_TOTAL ↔ w.verifiedBlocks = w.totalBlocks := by
    rw [hverified, htotal, fromU64_inj (hverifiedLt.trans (by decide)) (htotalLt.trans (by decide))]
    exact UInt32.toNat_inj
  have hflag : v V_SUCCESS = 1 ↔ w.sanitizeSuccess = true := by
    rw [hsuccess, flagToFr_eq_one]
  have hrootInputs : rootInputs.map v = absorbElements w stmt := by
    simp only [rootInputs, List.map_cons, List.map_nil, absorbElements, hprofile, htenant, hts,
      hserial, hblockRoot, hpasses, hverified, htotal, hsuccess, hopsecret, hnonce]
  have hvkInputs : vkInputs.map v = [w.operatorSecret, w.nonce] := by
    simp only [vkInputs, List.map_cons, List.map_nil, hopsecret, hnonce]
  constructor
  · intro h
    have hr := h.auditRoot
    have hk := h.vkCommitment
    rw [hroot, hrootInputs] at hr
    rw [hvk, hvkInputs] at hk
    exact ⟨hpassesVal ▸ h.passes.1, hblocks.mp h.verified.1, hflag.mp h.success, hr, hk⟩
  · intro h
    refine ⟨?_, ⟨?_, ?_⟩, ⟨hblocks.mpr h.verified, ?_⟩, hflag.mpr h.success, ?_, ?_⟩
    · rw [hserial]
      exact val_serialToFr w.serial
    · rw [hpassesVal]
      exact h.passes
    · rw [hpassesVal]
      exact Nat.le_of_lt_succ hpassesLt
    · rw [htotalVal]
      exact htotalLt
    · rw [hroot, hrootInputs, h.auditRoot, auditRootOf]
    · rw [hvk, hvkInputs, h.vkCommitment, vkCommitmentOf]

/-- The slots of a built witness have their values. -/
theorem assignment_buildWitness (stmt : ComplianceStatement) (w : ComplianceWitness) :
    ∀ slot ∈ baseSlots stmt w, assignment (buildWitness sha256 stmt w) slot.1 = slot.2 := by
  obtain ⟨pushed, hslots⟩ := buildWitness_slots sha256 stmt w
  have hidx : (baseSlots stmt w).map (·.1) = List.range 14 := rfl
  intro slot hslot
  obtain ⟨i, hi, hget⟩ := List.getElem_of_mem hslot
  have hfst : slot.1 = i := by
    have hmap : ((baseSlots stmt w).map (·.1))[i]? = some slot.1 := by
      rw [List.getElem?_map, List.getElem?_eq_getElem hi, hget]
      rfl
    have hi' : i < 14 := hi
    rw [hidx, List.getElem?_range hi'] at hmap
    exact (Option.some.inj hmap).symm
  rw [hslots, hfst, assignment, List.getD_append _ _ _ _ (by rw [List.length_map]; exact hi),
    List.getD_eq_getElem?_getD, List.getElem?_map, List.getElem?_eq_getElem hi, hget]
  rfl

/-- **The compliance circuit states exactly its policy**: satisfying assignments meet it, and a
built witness has the circuit's size and satisfies it exactly when statement and witness comply. -/
theorem compliance_circuit_is_policy :
    (∀ witness, (complianceCircuit sha256).isSatisfiedBy witness = some true →
      Policy sha256 (assignment witness)) ∧
    (∀ stmt w, (buildWitness sha256 stmt w).length = (complianceCircuit sha256).numVars ∧
      ((complianceCircuit sha256).isSatisfiedBy (buildWitness sha256 stmt w) = some true ↔
        Compliant sha256 stmt w)) ∧
    ∀ stmt w, (buildConstraints sha256 Synth.new stmt w).cs.constraints
      = (complianceCircuit sha256).constraints := by
  refine ⟨fun witness => policy_of_satisfied sha256, fun stmt w =>
    ⟨length_buildWitness sha256 stmt w, ?_⟩, fun stmt w => ?_⟩
  · rw [← policy_iff_compliant sha256 (assignment_buildWitness sha256 stmt w)]
    exact ⟨policy_of_satisfied sha256, satisfied_of_policy sha256⟩
  · rw [complianceCircuit_eq sha256 stmt w]

end

end DiscCleaner.Zk
