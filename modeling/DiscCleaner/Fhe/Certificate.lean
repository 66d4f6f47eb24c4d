import DiscCleaner.Fhe.Replay

/-!
# DiscCleaner — the erasure certificate (`certificate.rs`)

Offline verification of a certificate: coverage of the digest, the evaluation key, the roots, the
replay of the proof, the verdict. The canonical JSON of the evidence body and BLAKE3 are
parameters.

* **`verifiesSafely_iff`** — exactly when verification goes on and a verdict binds its spot sector.
-/

namespace DiscCleaner.Fhe

open ByteLib CheckedLib

/-- Certificate schema tag. -/
def SCHEMA : String := "discCleaner/fhe-erasure/1"

def FheError.toText : FheError → String
  | .params text => s!"ring parameter set invalid: {text}"
  | .eval text => s!"homomorphic evaluation failed: {text}"
  | .proof text => s!"zero-knowledge proof rejected: {text}"
  | .certificate text => s!"certificate verification failed: {text}"

/-- A key issued for a volume. -/
structure EvalKey where
  pk : PublicKey
  volumeId : String
  issueNonce : UInt64

/-- What the digest covers. -/
structure EvidenceBody where
  schema : String
  volumeId : String
  params : Params
  publicKey : PublicKey
  issueNonce : UInt64
  evalKeyDigest : String
  originalRoot : String
  finalRoot : String
  sectorCount : Nat
  zeroized : List Ciphertext
  proof : ZeroizeProof
  spotSector : Nat
  spotIsZero : Bool
  batchedOk : Bool
  /-- The bits of the margin. -/
  worstNoiseMargin : UInt64
  verified : Bool
  notes : List String

/-- The evidence with its digest; the timings are not covered and not read. -/
structure FheErasureCertificate extends EvidenceBody where
  digest : String

/-- A refusal under another text. -/
def Outcome.mapRefused {α : Type} (f : FheError → FheError) : Outcome α → Outcome α
  | .fault => .fault
  | .refused e => .refused (f e)
  | .ok a => .ok a

theorem Outcome.meets_mapRefused {α : Type} {f : FheError → FheError} {o : Outcome α}
    {good : α → Prop} : (o.mapRefused f).Meets good ↔ o.Meets good := by
  cases o <;> rfl

section

variable (hash : Bytes → Block 32) (evidenceJson : EvidenceBody → Bytes)

def EvalKey.digest (ek : EvalKey) (q : Int) : Option String := do
  let a ← ek.pk.a.toBytes q
  let b ← ek.pk.b.toBytes q
  some (hexHash hash (a ++ b ++ utf8 ek.volumeId ++ (le32 ek.issueNonce.toNat
    ++ le32 (ek.issueNonce.toNat / 2 ^ 32))))

namespace FheErasureCertificate

def computeDigest (cert : FheErasureCertificate) : String :=
  hexHash hash (evidenceJson cert.toEvidenceBody)

/-- The key, volume and nonce of a certificate. -/
def evalKey (cert : FheErasureCertificate) : EvalKey :=
  ⟨cert.publicKey, cert.volumeId, cert.issueNonce⟩

/-- Offline verification. -/
def verify (cert : FheErasureCertificate) : Outcome Unit := do
  Outcome.refuseIf (cert.schema != SCHEMA)
    (.certificate s!"unknown schema {cert.schema} (expected {SCHEMA})")
  Outcome.refuseIf (cert.digest != cert.computeDigest hash evidenceJson)
    (.certificate "digest does not cover the evidence body — tampered or corrupt")
  let ekDigest ← Outcome.step (cert.evalKey.digest hash cert.params.q)
  Outcome.refuseIf (ekDigest != cert.evalKeyDigest) (.certificate
    "evaluation key digest mismatch — public key or volume identity substituted")
  let leaves ← Outcome.step (cert.zeroized.mapM fun c => c.digest hash cert.params.q)
  Outcome.refuseIf (merkleRoot hash leaves != cert.finalRoot)
    (.certificate "final root does not cover the stored ciphertext set")
  Outcome.refuseIf (cert.zeroized.length != cert.sectorCount)
    (.certificate "stored ciphertext count does not match the sector count")
  (verifyBatched hash cert.params cert.publicKey cert.zeroized cert.proof).mapRefused
    fun e => .certificate s!"ZK replay failed: {e.toText}"
  Outcome.refuseIf
    ((cert.batchedOk && cert.spotIsZero && decide (0 < cert.sectorCount)) != cert.verified)
    (.certificate "verified flag does not recompute from the evidence")

/-- The spot challenge, from the contract and the final root. -/
def spotIndex (cert : FheErasureCertificate) : Nat :=
  ((hash (utf8 s!"dc-fhe/spot/{cert.volumeId}:{cert.originalRoot}:{cert.finalRoot}")).bytes.getD
    0 0).toNat % cert.zeroized.length

/-- Verification ends, and a positive verdict has the spot sector of its challenge. -/
def VerifiesSafely (cert : FheErasureCertificate) : Prop :=
  cert.verify hash evidenceJson ≠ .fault ∧
    (cert.verify hash evidenceJson = .ok () → cert.verified = true →
      cert.spotSector = cert.spotIndex hash)

/-! ## The condition -/

def evalKeyDigestZ (cert : FheErasureCertificate) : String :=
  hexHash hash (cert.publicKey.a.toBytesZ cert.params.q ++ cert.publicKey.b.toBytesZ cert.params.q
    ++ utf8 cert.volumeId ++ (le32 cert.issueNonce.toNat ++ le32 (cert.issueNonce.toNat / 2 ^ 32)))

/-- Every value up to the first check that refuses stays inside its word and vector; where no check
refuses, `good` holds. -/
def GoesOn (cert : FheErasureCertificate) (good : Prop) : Prop :=
  cert.schema = SCHEMA → cert.digest = cert.computeDigest hash evidenceJson →
    cert.publicKey.Encodable cert.params.q ∧
      (cert.evalKeyDigestZ hash = cert.evalKeyDigest →
        (∀ c ∈ cert.zeroized, c.Encodable cert.params.q) ∧
          (merkleRoot hash (cert.zeroized.map fun c => c.digestZ hash cert.params.q)
              = cert.finalRoot → cert.zeroized.length = cert.sectorCount →
            ReplayMeets hash cert.params cert.publicKey cert.zeroized cert.proof
              ((cert.batchedOk && cert.spotIsZero && decide (0 < cert.sectorCount)) = cert.verified →
                good)))

/-- Verification goes on, and a positive verdict has the spot sector of its challenge. -/
def Replayable (cert : FheErasureCertificate) : Prop :=
  cert.GoesOn hash evidenceJson (cert.verified = true → cert.spotSector = cert.spotIndex hash)

theorem evalKey_digest_exact (cert : FheErasureCertificate) :
    Exact (cert.evalKey.digest hash cert.params.q) (cert.publicKey.Encodable cert.params.q)
      (cert.evalKeyDigestZ hash) :=
  (Poly.toBytes_exact cert.publicKey.a cert.params.q).bind fun _ =>
    (Poly.toBytes_exact cert.publicKey.b cert.params.q).map fun b =>
      hexHash hash (cert.publicKey.a.toBytesZ cert.params.q ++ b ++ utf8 cert.volumeId
        ++ (le32 cert.issueNonce.toNat ++ le32 (cert.issueNonce.toNat / 2 ^ 32)))

theorem verify_meets (cert : FheErasureCertificate) {good : Prop} :
    ((cert.verify hash evidenceJson).Meets fun _ => good) ↔ cert.GoesOn hash evidenceJson good := by
  rw [verify, GoesOn, Outcome.meets_bind, Outcome.meets_refuseIf, bne_eq_false_iff_eq]
  refine imp_congr_right fun _ => ?_
  rw [Outcome.meets_bind, Outcome.meets_refuseIf, bne_eq_false_iff_eq]
  refine imp_congr_right fun _ => ?_
  rw [Outcome.meets_bind, Outcome.meets_step (evalKey_digest_exact hash cert), and_congr_right_iff]
  intro _
  rw [Outcome.meets_bind, Outcome.meets_refuseIf, bne_eq_false_iff_eq]
  refine imp_congr_right fun _ => ?_
  rw [Outcome.meets_bind, Outcome.meets_step
    (Exact.mapM (fun c => ciphertext_digest_exact hash c cert.params.q) cert.zeroized),
    and_congr_right_iff]
  intro _
  rw [Outcome.meets_bind, Outcome.meets_refuseIf, bne_eq_false_iff_eq]
  refine imp_congr_right fun _ => ?_
  rw [Outcome.meets_bind, Outcome.meets_refuseIf, bne_eq_false_iff_eq]
  refine imp_congr_right fun _ => ?_
  rw [Outcome.meets_bind, Outcome.meets_mapRefused, ← verifyBatched_meets]
  refine Outcome.meets_congr fun _ => ?_
  rw [Outcome.meets_refuseIf, bne_eq_false_iff_eq]

theorem verifiesSafely_iff_meets (cert : FheErasureCertificate) :
    cert.VerifiesSafely hash evidenceJson ↔ (cert.verify hash evidenceJson).Meets
      fun _ => cert.verified = true → cert.spotSector = cert.spotIndex hash := by
  rw [Outcome.meets_iff]
  exact and_congr_right fun _ => ⟨fun h _ => h, fun h => h ()⟩

/-- **Exactly when verification is safe.** -/
theorem verifiesSafely_iff (cert : FheErasureCertificate) :
    cert.VerifiesSafely hash evidenceJson ↔ cert.Replayable hash evidenceJson :=
  (cert.verifiesSafely_iff_meets hash evidenceJson).trans (cert.verify_meets hash evidenceJson)

/-- A proof of one ciphertext without coefficients, with the challenge seed it must have. -/
def emptyProof (params : Params) (pk : PublicKey) (ct : Ciphertext) : ZeroizeProof where
  commitments := [(⟨[]⟩, ⟨[]⟩)]
  responses := [⟨⟨[]⟩, ⟨[]⟩, ⟨[]⟩⟩]
  challengeSeed := (hash (transcriptZ hash params pk [ct] [(⟨[]⟩, ⟨[]⟩)])).bytes.take 16
  batchSeed := []

/-- Evidence of ring degree zero that every check in front of the challenge lets through. -/
def zeroDegreeBody : EvidenceBody where
  schema := SCHEMA
  volumeId := "vol"
  params := ⟨0, 65537, 3⟩
  publicKey := ⟨⟨[]⟩, ⟨[]⟩⟩
  issueNonce := 0
  evalKeyDigest := hexHash hash (utf8 "vol" ++ (le32 (0 : UInt64).toNat
    ++ le32 ((0 : UInt64).toNat / 2 ^ 32)))
  originalRoot := ""
  finalRoot := merkleRoot hash [hexHash hash []]
  sectorCount := 1
  zeroized := [⟨⟨[]⟩, ⟨[]⟩⟩]
  proof := emptyProof hash ⟨0, 65537, 3⟩ ⟨⟨[]⟩, ⟨[]⟩⟩ ⟨⟨[]⟩, ⟨[]⟩⟩
  spotSector := 0
  spotIsZero := true
  batchedOk := true
  worstNoiseMargin := 0
  verified := true
  notes := []

def zeroDegree : FheErasureCertificate :=
  { zeroDegreeBody hash with digest := hexHash hash (evidenceJson (zeroDegreeBody hash)) }

theorem zeroDegree_not_replayable : ¬(zeroDegree hash evidenceJson).Replayable hash evidenceJson := by
  intro h
  have hkey : (zeroDegree hash evidenceJson).evalKeyDigestZ hash
      = (zeroDegree hash evidenceJson).evalKeyDigest := by
    simp [evalKeyDigestZ, zeroDegree, zeroDegreeBody, Poly.toBytesZ]
  have hreplay := ((h rfl rfl).2 hkey).2 rfl rfl
  have hchecks := hreplay ⟨rfl, rfl, List.cons_ne_nil _ _⟩
  obtain ⟨challenge, hchallenge, -⟩ := (hchecks.2 rfl).2 fun r hr => by
    rw [List.mem_singleton.mp hr]
    rfl
  have hsmall : (zeroDegree hash evidenceJson).params.n < challengeWeight :=
    Nat.zero_lt_succ 15
  rw [deriveChallenge_small hash hsmall] at hchallenge
  cases hchallenge

end FheErasureCertificate

end

/-- Whatever the hash and the canonical JSON are, a certificate stops its verification. -/
theorem zeroDegree_faults : ¬∃ (hash : Bytes → Block 32) (evidenceJson : EvidenceBody → Bytes),
    ∀ cert : FheErasureCertificate, cert.VerifiesSafely hash evidenceJson := by
  rintro ⟨hash, evidenceJson, hall⟩
  let cert := FheErasureCertificate.zeroDegree hash evidenceJson
  have hmeets := (cert.verifiesSafely_iff_meets hash evidenceJson).mp (hall cert)
  exact FheErasureCertificate.zeroDegree_not_replayable hash evidenceJson
    ((cert.verify_meets hash evidenceJson).mp hmeets)

end DiscCleaner.Fhe
