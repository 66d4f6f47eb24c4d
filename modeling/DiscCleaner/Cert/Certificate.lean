import DiscCleaner.Verify.StreamVerifier
import DiscCleaner.Lib.Checks

/-!
# DiscCleaner — sanitization certificates (`cert.rs`, `pq.rs`, `signer.rs`)

A certificate carries its evidence, an Ed25519 signature over the canonical form of that
evidence, and optionally an ML-DSA signature over the same bytes. Signing and the two
signature checks are modelled here; the file driver is in `CertFile`.
-/

namespace DiscCleaner

open ByteLib

/-! ## Contents -/

structure ExecutionPassReport where
  index : UInt8
  pattern : String
  fastPathUsed : Bool
  windowsWritten : Nat
  throughputKibS : Nat
  deriving DecidableEq

structure InterruptionRecord where
  atUtc : String
  resumedUtc : String
  deriving DecidableEq

structure FailureRecord where
  atUtc : String
  code : String
  errno : Option Int
  op : Option String
  atLba : Option Nat
  deriving DecidableEq

structure ExecutionDetails where
  startedUtc : String
  finishedUtc : String
  durationMonoMs : Nat
  interruptions : List InterruptionRecord
  failures : List FailureRecord
  passes : List ExecutionPassReport
  deriving DecidableEq

structure OperatorDetails where
  keyFingerprintBlake3 : String
  publicKeyEd25519 : String
  deriving DecidableEq

structure SignatureDetails where
  alg : String
  value : String
  deriving DecidableEq

structure PostQuantumSignature where
  alg : String
  publicKey : String
  value : String
  deriving DecidableEq

/-- The optional evidence blocks. Nothing modelled looks inside the blocks of the other
components, so each is the JSON text it is written as. -/
structure Evidence where
  purge : Option Bytes
  healthPre : Option Bytes
  healthPost : Option Bytes
  defenseWarnings : Option (List String)
  firmwareAttestation : Option Bytes
  tpmAttestation : Option Bytes
  vaultReport : Option Bytes
  photonManifest : Option Bytes
  fabricSession : Option Bytes
  cxl : Option Bytes
  zk : Option Bytes
  vdf : Option Bytes
  sonar : Option Bytes
  deriving DecidableEq

def Evidence.empty : Evidence :=
  ⟨none, none, none, none, none, none, none, none, none, none, none, none, none⟩

/-- Everything the signatures cover. -/
structure UnsignedCertificate where
  schema : String
  tool : ToolBuild
  verificationSchemeDoc : String
  plan : SanitizationPlan
  planHash : String
  device : DeviceIdentity
  execution : ExecutionDetails
  verification : VerificationReport
  journal : JournalChainSummary
  operator : OperatorDetails
  evidence : Evidence
  deriving DecidableEq

structure SanitizationCertificate extends UnsignedCertificate where
  signature : Option SignatureDetails
  postQuantum : Option PostQuantumSignature
  deriving DecidableEq

/-! ## Primitives -/

/-- What certificate handling takes from other packages: `base64`, `serde_json`, `serde_jcs`,
the ML-DSA verification equation, and the texts their errors print. -/
structure CertPrimitives extends Crypto where
  base64Encode : Bytes → String
  base64Decode : String → Except String Bytes
  fromSlice : Bytes → Except String SanitizationCertificate
  jcs : UnsignedCertificate → Except String Bytes
  mlDsaVerify : Block 1312 → Bytes → Block 2420 → Bool
  hexErrorText : String → String
  publicKeyErrorText : PublicKey → String
  utf8ErrorText : Bytes → String

variable (cp : CertPrimitives)

/-! ## Signatures -/

/-- `signer.rs`: hex key, base64 signature, and the Ed25519 equation. -/
def verifyCanonicalSignature (publicKeyHex : String) (canonicalBytes : Bytes)
    (signatureBase64 : String) : Except DcError Bool :=
  match hexDecode publicKeyHex with
  | none => .error (.certSigning ("Invalid public key hex: " ++ cp.hexErrorText publicKeyHex))
  | some pubkeyBytes =>
    match Block.ofBytes? 32 pubkeyBytes with
    | none => .error (.certSigning "Public key must be 32 bytes")
    | some verifyingKey =>
      if ¬ cp.ed25519FromBytes verifyingKey then
        .error (.certSigning
          ("Invalid public key bytes: " ++ cp.publicKeyErrorText verifyingKey))
      else
        match cp.base64Decode signatureBase64 with
        | .error e => .error (.certSigning ("Invalid signature base64: " ++ e))
        | .ok sigBytes =>
          match Block.ofBytes? 64 sigBytes with
          | none => .error (.certSigning "Signature must be 64 bytes")
          | some signature => .ok (cp.ed25519Verify verifyingKey canonicalBytes signature)

namespace PostQuantumSignature

/-- Decode both halves of the block, then the ML-DSA equation. -/
def verify (block : PostQuantumSignature) (canonicalBytes : Bytes) : Except DcError Bool :=
  match cp.base64Decode block.publicKey with
  | .error e => .error (.certSigning ("PQ public key base64: " ++ e))
  | .ok pkBytes =>
    match cp.base64Decode block.value with
    | .error e => .error (.certSigning ("PQ signature base64: " ++ e))
    | .ok sigBytes =>
      match Block.ofBytes? 1312 pkBytes with
      | none =>
        .error (.certSigning
          ("PQ public key must be exactly 1312 bytes, got " ++ toString pkBytes.length))
      | some pk =>
        match Block.ofBytes? 2420 sigBytes with
        | none =>
          .error (.certSigning
            ("PQ signature must be exactly 2420 bytes, got " ++ toString sigBytes.length))
        | some sig => .ok (cp.mlDsaVerify pk canonicalBytes sig)

end PostQuantumSignature

structure HybridSignatureStatus where
  classicalEd25519 : Bool
  postQuantumMlDsa : Option Bool
  fullyAuthentic : Bool
  deriving DecidableEq

namespace SanitizationCertificate

def new (tool : ToolBuild) (verificationSchemeDoc : String) (plan : SanitizationPlan)
    (planHash : String) (device : DeviceIdentity) (execution : ExecutionDetails)
    (verification : VerificationReport) (journal : JournalChainSummary)
    (operatorPubkey operatorFingerprint : String) : SanitizationCertificate where
  schema := "diskcleaner-cert/1"
  tool := tool
  verificationSchemeDoc := verificationSchemeDoc
  plan := plan
  planHash := planHash
  device := device
  execution := execution
  verification := verification
  journal := journal
  operator := ⟨operatorFingerprint, operatorPubkey⟩
  evidence := Evidence.empty
  signature := none
  postQuantum := none

def unsignedPayload (cert : SanitizationCertificate) : UnsignedCertificate :=
  cert.toUnsignedCertificate

def canonicalUnsignedBytes (cert : SanitizationCertificate) : Except DcError Bytes :=
  (cp.jcs cert.unsignedPayload).mapError .json

/-- The operator fields are overwritten with the key's own before the payload is signed. -/
def withOperator (keypair : SigningKey) (cert : SanitizationCertificate) :
    SanitizationCertificate :=
  let publicKey := cp.ed25519Public keypair
  { cert with
    operator := ⟨hexEncode (cp.blake3 publicKey.bytes).bytes, hexEncode publicKey.bytes⟩ }

def sign (keypair : SigningKey) (cert : SanitizationCertificate) :
    Except DcError SanitizationCertificate :=
  let cert := cert.withOperator cp keypair
  (cert.canonicalUnsignedBytes cp).map fun canonicalBytes =>
    { cert with
      signature := some
        ⟨"Ed25519", cp.base64Encode (cp.ed25519Sign keypair canonicalBytes).bytes⟩ }

/-- Both signatures over the same bytes; an ML-DSA key is the signer it is. -/
def signHybrid (keypair : SigningKey) (pq : Bytes → PostQuantumSignature)
    (cert : SanitizationCertificate) : Except DcError SanitizationCertificate :=
  match cert.sign cp keypair with
  | .error e => .error e
  | .ok cert =>
    (cert.canonicalUnsignedBytes cp).map fun canonicalBytes =>
      { cert with postQuantum := some (pq canonicalBytes) }

/-- `hybridsign.rs`: with a key file, its ML-DSA sibling decides which signatures are made. -/
def signCertificate (keypair : SigningKey)
    (sibling : Option (Except DcError (Option (Bytes → PostQuantumSignature))))
    (cert : SanitizationCertificate) : Except DcError SanitizationCertificate :=
  match sibling with
  | some (.ok (some pq)) => cert.signHybrid cp keypair pq
  | some (.error e) => .error e
  | some (.ok none) | none => cert.sign cp keypair

/-- A certificate without a signature does not verify; an unknown algorithm is an error. -/
def verifySignature (cert : SanitizationCertificate) : Except DcError Bool :=
  match cert.signature with
  | none => .ok false
  | some sig =>
    if sig.alg ≠ "Ed25519" then
      .error (.certSigning ("Unsupported signature algorithm: " ++ sig.alg))
    else
      match cert.canonicalUnsignedBytes cp with
      | .error e => .error e
      | .ok canonicalBytes =>
        verifyCanonicalSignature cp cert.operator.publicKeyEd25519 canonicalBytes sig.value

/-- The post-quantum leg over the same canonical bytes; `none` without a block. -/
def verifyPostQuantum (cert : SanitizationCertificate) : Except DcError (Option Bool) :=
  match cert.postQuantum with
  | none => .ok none
  | some block =>
    match cert.canonicalUnsignedBytes cp with
    | .error e => .error e
    | .ok canonicalBytes => (block.verify cp canonicalBytes).map some

def verifySignatureHybrid (cert : SanitizationCertificate) :
    Except DcError HybridSignatureStatus :=
  match cert.verifySignature cp with
  | .error e => .error e
  | .ok classicalOk =>
    match cert.verifyPostQuantum cp with
    | .error e => .error e
    | .ok pqOk =>
      .ok
        { classicalEd25519 := classicalOk
          postQuantumMlDsa := pqOk
          fullyAuthentic := classicalOk && pqOk.getD true }

/-! ## The two legs -/

/-- The Ed25519 leg: over the canonical unsigned bytes, under the operator's key. -/
def ClassicalLeg (cert : SanitizationCertificate) : Prop :=
  ∃ sig canonicalBytes, cert.signature = some sig ∧ sig.alg = "Ed25519"
    ∧ cert.canonicalUnsignedBytes cp = .ok canonicalBytes
    ∧ verifyCanonicalSignature cp cert.operator.publicKeyEd25519 canonicalBytes sig.value
        = .ok true

/-- The ML-DSA leg of a block, over the same canonical unsigned bytes. -/
def PostQuantumLeg (cert : SanitizationCertificate) (block : PostQuantumSignature) : Prop :=
  ∃ canonicalBytes, cert.canonicalUnsignedBytes cp = .ok canonicalBytes
    ∧ block.verify cp canonicalBytes = .ok true

theorem verifySignature_eq_true_iff (cert : SanitizationCertificate) :
    cert.verifySignature cp = .ok true ↔ cert.ClassicalLeg cp := by
  unfold verifySignature ClassicalLeg
  cases hsig : cert.signature with
  | none => simp
  | some sig =>
    by_cases halg : sig.alg = "Ed25519"
    · cases hbytes : cert.canonicalUnsignedBytes cp with
      | error e => simp [halg]
      | ok canonicalBytes => simp [halg]
    · simp [halg]

/-- **The hybrid policy is the conjunction of the legs**: a certificate is fully authentic
exactly when its Ed25519 leg verifies and so does the ML-DSA leg of the block it carries. -/
theorem fullyAuthentic_iff (cert : SanitizationCertificate) :
    (∃ status, cert.verifySignatureHybrid cp = .ok status ∧ status.fullyAuthentic = true)
      ↔ cert.ClassicalLeg cp
        ∧ ∀ block, cert.postQuantum = some block → cert.PostQuantumLeg cp block := by
  rw [← verifySignature_eq_true_iff]
  unfold verifySignatureHybrid verifyPostQuantum PostQuantumLeg
  cases hclassical : cert.verifySignature cp with
  | error e => simp
  | ok classicalOk =>
    cases hpq : cert.postQuantum with
    | none => simp
    | some block =>
      cases hbytes : cert.canonicalUnsignedBytes cp with
      | error e => simp
      | ok canonicalBytes =>
        cases hverify : block.verify cp canonicalBytes with
        | error e => simp [Except.map, hverify]
        | ok pqOk => simp [Except.map, hverify]

theorem sign_unsignedPayload {keypair : SigningKey} {cert signed : SanitizationCertificate}
    (h : cert.sign cp keypair = .ok signed) :
    signed.unsignedPayload = (cert.withOperator cp keypair).unsignedPayload := by
  unfold sign at h
  cases hbytes : (cert.withOperator cp keypair).canonicalUnsignedBytes cp with
  | error e => simp [hbytes, Except.map] at h
  | ok canonicalBytes =>
    simp only [hbytes, Except.map, Except.ok.injEq] at h
    rw [← h]
    rfl

/-- **Signing keeps the evidence**: a signed certificate covers the payload it was given, with
the operator fields of the signing key. -/
theorem signCertificate_unsignedPayload {keypair : SigningKey}
    {sibling : Option (Except DcError (Option (Bytes → PostQuantumSignature)))}
    {cert signed : SanitizationCertificate}
    (h : cert.signCertificate cp keypair sibling = .ok signed) :
    signed.unsignedPayload = (cert.withOperator cp keypair).unsignedPayload := by
  unfold signCertificate at h
  split at h
  · next pq =>
    unfold signHybrid at h
    cases hsign : cert.sign cp keypair with
    | error e => simp [hsign] at h
    | ok classical =>
      cases hbytes : classical.canonicalUnsignedBytes cp with
      | error e => simp [hsign, hbytes, Except.map] at h
      | ok canonicalBytes =>
        simp only [hsign, hbytes, Except.map, Except.ok.injEq] at h
        rw [← h]
        -- Adding the second signature leaves the payload alone.
        show classical.unsignedPayload = _
        exact sign_unsignedPayload cp hsign
  · cases h
  · exact sign_unsignedPayload cp h
  · exact sign_unsignedPayload cp h

/-- A payload with a canonical form is signed. -/
theorem sign_ok {keypair : SigningKey} {cert : SanitizationCertificate} {bytes : Bytes}
    (h : cp.jcs (cert.withOperator cp keypair).unsignedPayload = .ok bytes) :
    cert.sign cp keypair = .ok
      { cert.withOperator cp keypair with
        signature := some
          ⟨"Ed25519", cp.base64Encode (cp.ed25519Sign keypair bytes).bytes⟩ } := by
  unfold sign
  show (canonicalUnsignedBytes cp _).map _ = _
  unfold canonicalUnsignedBytes
  rw [h]
  rfl

/-- **Signing succeeds** when the sibling key can be read and every payload with the
certificate's report has a canonical form. -/
theorem signCertificate_ok (keypair : SigningKey)
    (sibling : Option (Except DcError (Option (Bytes → PostQuantumSignature))))
    (cert : SanitizationCertificate)
    (hsibling : ∀ answer, sibling = some answer → ∃ pq, answer = .ok pq)
    (hcanonical : ∀ payload : UnsignedCertificate,
      payload.verification = cert.verification → ∃ bytes, cp.jcs payload = .ok bytes) :
    ∃ signed, cert.signCertificate cp keypair sibling = .ok signed := by
  obtain ⟨bytes, hbytes⟩ := hcanonical (cert.withOperator cp keypair).unsignedPayload rfl
  have hsign := sign_ok cp hbytes
  cases sibling with
  | none => exact ⟨_, hsign⟩
  | some answer =>
    obtain ⟨pq, rfl⟩ := hsibling answer rfl
    cases pq with
    | none => exact ⟨_, hsign⟩
    | some pq =>
      -- the second signature covers the payload the first one did
      show ∃ signed, cert.signHybrid cp keypair pq = .ok signed
      unfold signHybrid
      rw [hsign]
      show ∃ signed, (canonicalUnsignedBytes cp _).map _ = .ok signed
      unfold canonicalUnsignedBytes
      rw [show unsignedPayload { cert.withOperator cp keypair with
          signature := some ⟨"Ed25519", cp.base64Encode (cp.ed25519Sign keypair bytes).bytes⟩ }
        = (cert.withOperator cp keypair).unsignedPayload from rfl, hbytes]
      exact ⟨_, rfl⟩

end SanitizationCertificate

end DiscCleaner
