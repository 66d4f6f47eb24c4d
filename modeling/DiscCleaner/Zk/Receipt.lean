import DiscCleaner.Zk.Circuit
import DiscCleaner.Zk.Completeness

/-!
# DiscCleaner — audit receipts (`receipt.rs`)

The portable receipt and its verification. The canonical JSON of a key and BLAKE3 are parameters.

* **`isValid_iff`** — what a valid verdict has established.
* **`receipts_bound`** — what two valid receipts with one proof share, and which fields stay free.
-/

namespace DiscCleaner.Zk

open ByteLib

/-! ## Receipts -/

/-- The public statement as text. -/
structure PublicStatementHex where
  profileHash : String
  tenantId : String
  ts : String
  vkCommitment : String
  auditRoot : String
  deriving DecidableEq

/-- A field element from its text. -/
def frOfHex (s : String) : Option Fr := (hexDecode s).map fromBeBytesReduced

namespace PublicStatementHex

def fromStatement (s : ComplianceStatement) : PublicStatementHex where
  profileHash := hexEncode (toBeBytes s.profileHash)
  tenantId := hexEncode (toBeBytes s.tenantId)
  ts := hexEncode (toBeBytes s.ts)
  vkCommitment := hexEncode (toBeBytes s.vkCommitment)
  auditRoot := hexEncode (toBeBytes s.auditRoot)

def toStatement (h : PublicStatementHex) : Option ComplianceStatement := do
  some {
    profileHash := ← frOfHex h.profileHash
    tenantId := ← frOfHex h.tenantId
    ts := ← frOfHex h.ts
    vkCommitment := ← frOfHex h.vkCommitment
    auditRoot := ← frOfHex h.auditRoot }

end PublicStatementHex

/-- The canonical text of an element is read back. -/
theorem frOfHex_canonical (a : Fr) : frOfHex (hexEncode (toBeBytes a)) = some a := by
  rw [frOfHex, hexDecode_hexEncode, Option.map_some, fromBeBytesReduced_toBeBytes]

/-- **A statement survives its text.** -/
theorem toStatement_fromStatement (s : ComplianceStatement) :
    (PublicStatementHex.fromStatement s).toStatement = some s := by
  simp only [PublicStatementHex.toStatement, PublicStatementHex.fromStatement, frOfHex_canonical,
    Option.bind_eq_bind, Option.bind_some]

structure ZkReceipt (G1 G2 : Type) where
  schema : String
  circuitId : String
  scheme : String
  proof : Proof G1 G2
  statement : PublicStatementHex
  vkFingerprint : String
  certificateHash : Option String
  auditLogHash : Option String
  generatedAtUnix : UInt64

structure ReceiptVerification where
  isValid : Bool
  circuitId : String
  scheme : String
  proofVerified : Bool
  vkFingerprintMatches : Bool
  statement : Option ComplianceStatement
  generatedAtUnix : UInt64
  error : Option String

/-- The text of an error. -/
def ZkError.toText : ZkError → String
  | .unsatisfied reason => s!"witness does not satisfy the circuit: {reason}"
  | .verificationFailed reason => s!"verification failed: {reason}"
  | .malformedKeys reason => s!"malformed key material: {reason}"

/-- What identifies a key: its canonical JSON and a hash. -/
structure KeyHash (G1 G2 : Type) where
  toJson : VerifyingKey G1 G2 → String
  blake3 : Bytes → Bytes

section

variable {G1 G2 GT : Type}

def vkFingerprint (keyHash : KeyHash G1 G2) (vk : VerifyingKey G1 G2) : String :=
  hexEncode (keyHash.blake3 (utf8 (keyHash.toJson vk) ++ utf8 vk.circuitId))

/-- The verdict with a result of the proof check. -/
def receiptVerdict (keyHash : KeyHash G1 G2) (vk : VerifyingKey G1 G2)
    (receipt : ZkReceipt G1 G2) (proofVerified : Bool) (error : Option String) :
    ReceiptVerification where
  isValid := proofVerified && error.isNone
  circuitId := receipt.circuitId
  scheme := receipt.scheme
  proofVerified := proofVerified
  vkFingerprintMatches := decide (receipt.vkFingerprint = vkFingerprint keyHash vk)
  statement := receipt.statement.toStatement
  generatedAtUnix := receipt.generatedAtUnix
  error := error

variable [DecidableEq GT] (curve : Curve G1 G2 GT) (keyHash : KeyHash G1 G2)

/-- `none` where the check of the proof stops the program. -/
def verifyReceipt (vk : VerifyingKey G1 G2) (receipt : ZkReceipt G1 G2) :
    Option ReceiptVerification :=
  let mk := receiptVerdict keyHash vk receipt
  if receipt.circuitId ≠ vk.circuitId then
    some (mk false (some
      s!"circuit id mismatch: receipt {receipt.circuitId} vs key {vk.circuitId}"))
  else if receipt.vkFingerprint ≠ vkFingerprint keyHash vk then
    some (mk false (some "verifying key fingerprint mismatch"))
  else match receipt.statement.toStatement with
    | none => some (mk false (some "malformed public statement"))
    | some stmt => do
      match ← verify curve vk stmt.toPublicList receipt.proof with
      | .ok () => some (mk true none)
      | .error e => some (mk false (some e.toText))

/-- The verdict is valid. -/
def IsValid (vk : VerifyingKey G1 G2) (receipt : ZkReceipt G1 G2) : Prop :=
  ∃ verdict, verifyReceipt curve keyHash vk receipt = some verdict ∧ verdict.isValid = true

/-- Every field a relying party reads is determined by the proof. -/
def ReceiptsBound (vk : VerifyingKey G1 G2) : Prop :=
  ∀ r₁ r₂ : ZkReceipt G1 G2, r₁.proof = r₂.proof → IsValid curve keyHash vk r₁ →
    IsValid curve keyHash vk r₂ →
      r₁.statement = r₂.statement ∧ r₁.certificateHash = r₂.certificateHash ∧
        r₁.auditLogHash = r₂.auditLogHash ∧ r₁.scheme = r₂.scheme ∧ r₁.schema = r₂.schema ∧
        r₁.generatedAtUnix = r₂.generatedAtUnix

/-! ## What a verdict establishes -/

/-- **A valid verdict**: the key's circuit and fingerprint, a statement that decodes, and a proof
that verifies for it. The other fields take no part. -/
theorem isValid_iff {vk : VerifyingKey G1 G2} {receipt : ZkReceipt G1 G2} :
    IsValid curve keyHash vk receipt ↔
      receipt.circuitId = vk.circuitId ∧ receipt.vkFingerprint = vkFingerprint keyHash vk ∧
        ∃ stmt, receipt.statement.toStatement = some stmt ∧
          verify curve vk stmt.toPublicList receipt.proof = some (.ok ()) := by
  rw [IsValid, verifyReceipt]
  by_cases hid : receipt.circuitId = vk.circuitId
  · by_cases hfp : receipt.vkFingerprint = vkFingerprint keyHash vk
    · simp only [hid, hfp, ne_eq, not_true_eq_false, if_false, true_and]
      cases hstmt : receipt.statement.toStatement with
      | none => simp [receiptVerdict]
      | some stmt =>
        simp only [Option.some.injEq, exists_eq_left']
        cases hverify : verify curve vk stmt.toPublicList receipt.proof with
        | none => simp
        | some res =>
          cases res with
          | error e => simp [receiptVerdict]
          | ok _ => simp [receiptVerdict]
    · simp [hid, hfp, receiptVerdict]
  · simp [hid, receiptVerdict]

/-- The element of the public inputs. -/
def publicElement (vk : VerifyingKey G1 G2) (publicInputs : List Fr) : Option G1 := do
  let ic0 ← vk.ic[0]?
  publicInputs.zipIdx.foldlM (addPublic curve.g1 vk.ic) ic0

/-- The right-hand side of the verification equation. -/
def balance (vk : VerifyingKey G1 G2) (proof : Proof G1 G2) (element : G1) : GT :=
  curve.multiPairing [(vk.alphaG1, vk.betaG2), (element, vk.gammaG2), (proof.c, vk.deltaG2)]

/-- **A verified proof balances its public inputs.** -/
theorem balance_of_verify {vk : VerifyingKey G1 G2} {publicInputs : List Fr} {proof : Proof G1 G2}
    (h : verify curve vk publicInputs proof = some (.ok ())) :
    publicInputs.length = vk.numPublic ∧ ∃ element, publicElement curve vk publicInputs = some element ∧
      curve.multiPairing [(proof.a, proof.b)] = balance curve vk proof element := by
  rw [verify] at h
  split_ifs at h with hlen hA hB hC
  · cases h
  · cases h
  · cases h
  · cases h
  refine ⟨not_not.mp hlen, ?_⟩
  rw [publicElement]
  cases hic : vk.ic[0]? with
  | none =>
    rw [hic] at h
    cases h
  | some ic0 =>
    simp only [hic, Option.bind_eq_bind, Option.bind_some] at h ⊢
    cases hsum : publicInputs.zipIdx.foldlM (addPublic curve.g1 vk.ic) ic0 with
    | none =>
      rw [hsum] at h
      cases h
    | some element =>
      rw [hsum, Option.bind_some] at h
      split_ifs at h with hpair
      · cases h
      · exact ⟨element, rfl, not_not.mp hpair⟩

/-- The exponents of a key over correct groups. -/
structure KeyPoints (vk : VerifyingKey G1 G2) where
  alpha : Fr
  beta : Fr
  gamma : Fr
  delta : Fr
  ic : List Fr
  alpha_eq : vk.alphaG1 = curve.g1.point alpha
  beta_eq : vk.betaG2 = curve.g2.point beta
  gamma_eq : vk.gammaG2 = curve.g2.point gamma
  delta_eq : vk.deltaG2 = curve.g2.point delta
  ic_eq : vk.ic = ic.map curve.g1.point
  gamma_ne_zero : gamma ≠ 0

/-- The public inputs weighed by the key. -/
def KeyPoints.weight {vk : VerifyingKey G1 G2} (k : KeyPoints curve vk) (publicInputs : List Fr) :
    Fr :=
  weigh 0 publicInputs fun i => k.ic.getD (i + 1) 0

/-- A sum that is formed finds an element for every input. -/
theorem length_of_foldlM_addPublic {o : Ops G1} {ic : List G1} (xs : List Fr) (start : Nat)
    (acc : G1) {element : G1} (hstart : start + 1 ≤ ic.length)
    (h : (xs.zipIdx start).foldlM (addPublic o ic) acc = some element) :
    start + xs.length + 1 ≤ ic.length := by
  induction xs generalizing start acc with
  | nil => exact hstart
  | cons x rest ih =>
    rw [List.zipIdx_cons, List.foldlM_cons, addPublic] at h
    cases hget : ic[start + 1]? with
    | none =>
      rw [hget] at h
      cases h
    | some e =>
      simp only [hget, Option.bind_eq_bind, Option.bind_some] at h
      have hlt : start + 1 < ic.length := (List.getElem?_eq_some_iff.mp hget).1
      have hrest := ih (start + 1) _ hlt h
      rw [List.length_cons]
      omega

/-- What receipts share, and that the remaining fields of the first can be replaced. -/
structure BoundTogether (vk : VerifyingKey G1 G2) (r₁ r₂ : ZkReceipt G1 G2) : Prop where
  circuitId : r₁.circuitId = r₂.circuitId
  vkFingerprint : r₁.vkFingerprint = r₂.vkFingerprint
  statements : ∃ s₁ s₂ e₁ e₂, r₁.statement.toStatement = some s₁ ∧
    r₂.statement.toStatement = some s₂ ∧ publicElement curve vk s₁.toPublicList = some e₁ ∧
    publicElement curve vk s₂.toPublicList = some e₂ ∧
    balance curve vk r₁.proof e₁ = balance curve vk r₁.proof e₂ ∧
    (curve.Lawful → ∀ (k : KeyPoints curve vk) (z : Fr), r₁.proof.c = curve.g1.point z →
      k.weight curve s₁.toPublicList = k.weight curve s₂.toPublicList)
  others : ∀ schema scheme certificateHash auditLogHash generatedAtUnix,
    IsValid curve keyHash vk { r₁ with
      schema := schema
      scheme := scheme
      certificateHash := certificateHash
      auditLogHash := auditLogHash
      generatedAtUnix := generatedAtUnix }

omit [DecidableEq GT] in
/-- Over correct groups the element of the inputs is the point of their weight. -/
theorem publicElement_eq (hcurve : curve.Lawful) {vk : VerifyingKey G1 G2} (k : KeyPoints curve vk)
    {publicInputs : List Fr} {element : G1} (h : publicElement curve vk publicInputs = some element) :
    element = curve.g1.point (k.ic.getD 0 0 + k.weight curve publicInputs) := by
  rw [publicElement] at h
  cases hic : vk.ic[0]? with
  | none =>
    rw [hic] at h
    cases h
  | some ic0 =>
    simp only [hic, Option.bind_eq_bind, Option.bind_some] at h
    have hpos : 0 + 1 ≤ vk.ic.length := (List.getElem?_eq_some_iff.mp hic).1
    have hlen := length_of_foldlM_addPublic publicInputs 0 ic0 hpos h
    rw [k.ic_eq, List.length_map] at hlen hpos
    have hic0 : ic0 = curve.g1.point (k.ic.getD 0 0) := by
      rw [k.ic_eq, List.getElem?_map, List.getElem?_eq_getElem hpos] at hic
      rw [List.getD_eq_getElem _ _ hpos]
      exact (Option.some.inj hic).symm
    rw [k.ic_eq, hic0, foldlM_addPublic hcurve.g1 k.ic publicInputs _ (by omega)] at h
    exact (Option.some.inj h).symm

omit [DecidableEq GT] in
/-- Over correct groups, inputs that balance one proof weigh the same. -/
theorem weight_eq_of_balance (hcurve : curve.Lawful) {vk : VerifyingKey G1 G2}
    (k : KeyPoints curve vk) {xs ys : List Fr} {proof : Proof G1 G2} {z : Fr}
    (hz : proof.c = curve.g1.point z) {ex ey : G1} (hx : publicElement curve vk xs = some ex)
    (hy : publicElement curve vk ys = some ey)
    (h : balance curve vk proof ex = balance curve vk proof ey) :
    k.weight curve xs = k.weight curve ys := by
  rw [balance, balance, publicElement_eq curve hcurve k hx, publicElement_eq curve hcurve k hy,
    k.alpha_eq, k.beta_eq, k.gamma_eq, k.delta_eq, hz] at h
  have hsums := (hcurve.multiPairing
    [(k.alpha, k.beta), (k.ic.getD 0 0 + k.weight curve xs, k.gamma), (z, k.delta)]
    [(k.alpha, k.beta), (k.ic.getD 0 0 + k.weight curve ys, k.gamma), (z, k.delta)]).mp h
  simp only [List.map_cons, List.map_nil, List.sum_cons, List.sum_nil, add_zero] at hsums
  have hmul := add_right_cancel (add_left_cancel hsums)
  exact add_left_cancel (mul_right_cancel₀ k.gamma_ne_zero hmul)

/-- **What two valid receipts with one proof share**: circuit, key fingerprint, and statements that
balance the same equation, which over correct groups weigh the same under the key. -/
theorem receipts_bound {vk : VerifyingKey G1 G2} {r₁ r₂ : ZkReceipt G1 G2}
    (hproof : r₁.proof = r₂.proof) (h₁ : IsValid curve keyHash vk r₁)
    (h₂ : IsValid curve keyHash vk r₂) : BoundTogether curve keyHash vk r₁ r₂ := by
  obtain ⟨hid₁, hfp₁, s₁, hs₁, hv₁⟩ := (isValid_iff curve keyHash).mp h₁
  obtain ⟨hid₂, hfp₂, s₂, hs₂, hv₂⟩ := (isValid_iff curve keyHash).mp h₂
  obtain ⟨-, e₁, he₁, heq₁⟩ := balance_of_verify curve hv₁
  obtain ⟨-, e₂, he₂, heq₂⟩ := balance_of_verify curve hv₂
  have hbalance : balance curve vk r₁.proof e₁ = balance curve vk r₁.proof e₂ := by
    rw [← heq₁, hproof, heq₂]
  refine ⟨hid₁.trans hid₂.symm, hfp₁.trans hfp₂.symm, ⟨s₁, s₂, e₁, e₂, hs₁, hs₂, he₁, he₂, hbalance,
    fun hcurve k z hz => weight_eq_of_balance curve hcurve k hz he₁ he₂ hbalance⟩, ?_⟩
  intro schema scheme certificateHash auditLogHash generatedAtUnix
  exact (isValid_iff curve keyHash).mpr ⟨hid₁, hfp₁, s₁, hs₁, hv₁⟩

end

/-! ## Receipts that differ -/

/-- A key that adds up its five inputs. -/
def sumKey : VerifyingKey Fr Fr where
  alphaG1 := 1
  betaG2 := 1
  gammaG2 := 1
  deltaG2 := 1
  ic := [0, 1, 1, 1, 1, 1]
  numPublic := NUM_PUBLIC
  numConstraints := 0
  circuitId := CIRCUIT_ID

/-- A receipt of the statement 1, 2, 3, 0, 0 with a proof that balances. -/
def sumReceipt (keyHash : KeyHash Fr Fr) (certificateHash : Option String) : ZkReceipt Fr Fr where
  schema := "dc-zk/receipt/v1"
  circuitId := CIRCUIT_ID
  scheme := "groth16-bls12-381"
  proof := ⟨7, 1, 0⟩
  statement := PublicStatementHex.fromStatement placeholderStmt
  vkFingerprint := vkFingerprint keyHash sumKey
  certificateHash := certificateHash
  auditLogHash := none
  generatedAtUnix := 1770000000

theorem verify_sumKey :
    verify fieldCurve sumKey placeholderStmt.toPublicList ⟨7, 1, 0⟩ = some (.ok ()) := by
  decide

theorem sumReceipt_valid (keyHash : KeyHash Fr Fr) (certificateHash : Option String) :
    IsValid fieldCurve keyHash sumKey (sumReceipt keyHash certificateHash) :=
  (isValid_iff fieldCurve keyHash).mpr ⟨rfl, rfl, placeholderStmt,
    toStatement_fromStatement placeholderStmt, verify_sumKey⟩

/-- Receipts for different certificates under one key and proof, all valid. -/
theorem receipts_not_bound :
    ¬∃ keyHash : KeyHash Fr Fr, ReceiptsBound fieldCurve keyHash sumKey := by
  rintro ⟨keyHash, hbound⟩
  have hvalid := sumReceipt_valid keyHash
  have h := hbound (sumReceipt keyHash none) (sumReceipt keyHash (some "00")) rfl
    (hvalid none) (hvalid (some "00"))
  cases h.2.1

def sumKeyHash : KeyHash Fr Fr := ⟨fun vk => vk.circuitId, fun bs => bs.take 32⟩

theorem receipts_bound_sum : BoundTogether fieldCurve sumKeyHash sumKey
    (sumReceipt sumKeyHash none) (sumReceipt sumKeyHash (some "00")) :=
  receipts_bound fieldCurve sumKeyHash rfl (sumReceipt_valid sumKeyHash none)
    (sumReceipt_valid sumKeyHash (some "00"))

end DiscCleaner.Zk
