import DiscCleaner.Tpm.Seal

/-!
# DiscCleaner — quotes and their replay (`dc-tpm/structures.rs`, `dc-tpm/attest.rs`)

The parsers of a quote response, what `generate_quote` takes from it, and the ladder of
`verify_bundle` over an archived one. The P-256 crate and SHA-256 are parameters; what the hex crate
says of a bad text is left out.
-/

namespace DiscCleaner

open ByteLib

namespace Tpm

/-! ## `TPMS_ATTEST` and `TPMT_SIGNATURE` -/

/-- The fields of an attestation. -/
structure AttestBody where
  magic : Nat
  attestType : Nat
  qualifiedSigner : Bytes
  extraData : Bytes
  clock : Nat
  resetCount : Nat
  restartCount : Nat
  clockSafe : Bool
  firmwareVersion : Nat
  pcrSelection : PcrSelectionList
  pcrDigest : Bytes
  deriving DecidableEq

/-- The fields and the bytes they were read from, over which the signature goes. -/
structure QuoteAttestation extends AttestBody where
  raw : Bytes
  deriving DecidableEq

def readAttestation : Reader AttestBody := do
  let magic ← Reader.u32
  let attestType ← Reader.u16
  let qualifiedSigner ← Reader.tpm2b
  let extraData ← Reader.tpm2b
  let clock ← Reader.u64
  let resetCount ← Reader.u32
  let restartCount ← Reader.u32
  let clockSafe ← Reader.u8
  let firmwareVersion ← Reader.u64
  let pcrSelection ← PcrSelectionList.read
  let pcrDigest ← Reader.tpm2b
  pure
    { magic, attestType, qualifiedSigner, extraData, clock, resetCount, restartCount
      clockSafe := decide (clockSafe ≠ 0)
      firmwareVersion, pcrSelection, pcrDigest }

def parseAttestation (params : Bytes) : Except WireError QuoteAttestation :=
  match readAttestation ⟨params, 0⟩ with
  | .ok (body, c) => .ok { toAttestBody := body, raw := params.take c.pos }
  | .error e => .error e

structure EcdsaSignature where
  alg : Nat
  hashAlg : Nat
  r : Bytes
  s : Bytes
  deriving DecidableEq

def parseEcdsaSignature : Reader EcdsaSignature := do
  let alg ← Reader.u16
  let hashAlg ← Reader.u16
  let r ← Reader.tpm2b
  let s ← Reader.tpm2b
  pure ⟨alg, hashAlg, r, s⟩

/-! ## The parts of a quote response -/

/-- The attestation at the start of the parameters, and the signature right behind it. -/
def quoteParts (onAttest onSignature : String) (params : Bytes) :
    Except TpmError (QuoteAttestation × EcdsaSignature) := do
  let attest ← wireStep onAttest (parseAttestation params)
  let sig ← wireStep onSignature (parseEcdsaSignature.value (params.drop attest.raw.length))
  pure (attest, sig)

/-- What `generate_quote` takes from the response. -/
def generatedParts (response : Bytes) : Except TpmError (QuoteAttestation × EcdsaSignature) := do
  let params ← classifyResponse response
  quoteParts "quote attestation" "quote signature" params

/-- The sizes that an archived response declares of itself. -/
def checkSizes (response : Bytes) : Except TpmError Unit :=
  if response.length < 10 then
    .error (.verification "archived response shorter than a TPM header")
  else
    let declared := beNat (slice response 2 4)
    if declared ≠ response.length then
      .error (.verification ("declared response size " ++ toString declared ++ " != archived length "
        ++ toString response.length ++ " — response doctored"))
    else if beNat (slice response 0 2) = TPM_ST_SESSIONS_RSP then
      if response.length < 14 then
        .error (.verification "sessions response truncated before parameterSize")
      else
        let paramSize := beNat (slice response 10 4)
        if paramSize + 14 ≠ response.length then
          .error (.verification ("declared parameterSize " ++ toString paramSize
            ++ " inconsistent with response length " ++ toString response.length
            ++ " — response doctored"))
        else .ok ()
    else .ok ()

/-- What `verify_bundle` takes from the archived response. -/
def archivedParts (response : Bytes) : Except TpmError (QuoteAttestation × EcdsaSignature) := do
  checkSizes response
  let params ← classifyResponse response
  quoteParts "replay" "replay signature" params

/-! ## Bundles -/

/-- `TPMS_ATTEST` fields for the evidence package. -/
structure AttestFields where
  magicHex : String
  attestTypeHex : String
  qualifiedSignerHex : String
  firmwareVersion : Nat
  clockSafe : Bool
  deriving DecidableEq

structure QuoteBundle where
  nonceHex : String
  pcrMaskHex : String
  pcrValuesHex : List String
  pcrDigestHex : String
  quoteResponseHex : String
  aikXHex : String
  aikYHex : String
  aikPublicTemplateHex : String
  attestation : AttestFields
  signatureRHex : String
  signatureSHex : String
  tpmClock : Nat
  tpmResetCount : Nat
  tpmRestartCount : Nat
  locallyVerified : Bool
  deriving DecidableEq

/-- The P-256 crate and SHA-256. -/
structure QuoteCrypto where
  sha256 : Bytes → Block 32
  Point : Type
  Key : Type
  Sig : Type
  encodedPoint : Bytes → Except String Point
  verifyingKey : Point → Except String Key
  fromDer : Bytes → Except String Sig
  verify : Key → Bytes → Sig → Except String Unit

/-- One selection of the digest: the values in order, as many as there are registers selected. -/
def digestSelection (values : List Bytes) (sel : PcrSelection) (hashed : Bytes) : Bytes :=
  ((List.range 32).foldl (fun (state : Bytes × Nat) pcr =>
    if sel.selects pcr && decide (state.2 < values.length) then
      (state.1 ++ values.getD state.2 [], state.2 + 1)
    else state) (hashed, 0)).1

def recomputePcrDigest (crypto : QuoteCrypto) (selection : PcrSelectionList) (values : List Bytes) :
    Bytes :=
  (crypto.sha256 (selection.selections.foldl (fun h sel => digestSelection values sel h) [])).bytes

/-- A field of the bundle in hexadecimal. -/
def hexField (what : String) (text : String) : Except TpmError Bytes :=
  match hexDecode text with
  | none => .error (.verification what)
  | some bytes => .ok bytes

/-- A step of the P-256 crate. -/
def cryptoStep {α : Type} (what : String) : Except String α → Except TpmError α
  | .ok a => .ok a
  | .error e => .error (.verification (what ++ ": " ++ e))

/-- A number without the zeros in front of it. -/
def withoutLeadingZeros : Bytes → Bytes
  | 0 :: b :: rest => withoutLeadingZeros (b :: rest)
  | part => part

/-- A DER integer of the shortest form. -/
def derInteger (part : Bytes) : Bytes :=
  let part := withoutLeadingZeros part
  let lead := if (part.head?.map fun b => decide (b &&& 0x80 ≠ 0)).getD false then 1 else 0
  [0x02, UInt8.ofNat (part.length + lead)] ++ List.replicate lead 0x00 ++ part

def signatureDer (r s : Bytes) : Bytes :=
  let der := derInteger r ++ derInteger s
  [0x30, UInt8.ofNat der.length] ++ der

def pcrValues (texts : List String) : Except TpmError (List Bytes) := do
  let values ← texts.mapM (hexField "pcr value hex")
  values.mapM fun v =>
    if v.length = 32 then .ok v
    else .error (.verification ("PCR digest len " ++ toString v.length ++ " != 32"))

/-- The mask of the bundle: the first four bytes, those that are not there being zero. -/
def bundleMask (mask : Bytes) : PcrMask := PcrSelection.padded mask

def verifyQuote (crypto : QuoteCrypto) (bundle : QuoteBundle) (attest : QuoteAttestation) :
    Except TpmError Bool := do
  if attest.magic ≠ TPM_GENERATED then
    throw (.verification "bad TPMS_ATTEST magic (not TPM-generated)")
  if attest.attestType ≠ TPM_ST_ATTEST_QUOTE then
    throw (.verification ("attestation type " ++ hexWord attest.attestType
      ++ " is not TPM_ST_ATTEST_QUOTE"))
  let nonce ← hexField "nonce hex" bundle.nonceHex
  if attest.extraData ≠ nonce then
    throw (.verification "nonce mismatch — replay or forgery")
  let mask ← hexField "pcr mask hex" bundle.pcrMaskHex
  let expectedSel := PcrSelectionList.singleSha256 (bundleMask mask)
  if attest.pcrSelection ≠ expectedSel then
    throw (.verification "PCR selection in quote differs from bundle")
  let values ← pcrValues bundle.pcrValuesHex
  if attest.pcrDigest ≠ recomputePcrDigest crypto expectedSel values then
    throw (.verification "pcrDigest does not match SHA-256 of claimed PCR values")
  let x ← hexField "aik x hex" bundle.aikXHex
  let y ← hexField "aik y hex" bundle.aikYHex
  let point ← cryptoStep "AIK point" (crypto.encodedPoint ([0x04] ++ x ++ y))
  let key ← cryptoStep "AIK key" (crypto.verifyingKey point)
  let r ← hexField "sig r hex" bundle.signatureRHex
  let s ← hexField "sig s hex" bundle.signatureSHex
  let signature ← cryptoStep "signature DER" (crypto.fromDer (signatureDer r s))
  cryptoStep "ECDSA signature invalid" (crypto.verify key attest.raw signature)
  pure true

def verifyBundle (crypto : QuoteCrypto) (bundle : QuoteBundle) : Except TpmError Bool := do
  let response ← hexField "quote response hex" bundle.quoteResponseHex
  let (attest, embedded) ← archivedParts response
  if embedded.alg ≠ TPM_ALG_ECDSA ∨ embedded.hashAlg ≠ TPM_ALG_SHA256 then
    throw (.verification ("embedded signature scheme " ++ hexWord embedded.alg ++ "/"
      ++ hexWord embedded.hashAlg ++ " is not ECDSA-SHA256 — response doctored"))
  if hexEncode embedded.r ≠ bundle.signatureRHex ∨ hexEncode embedded.s ≠ bundle.signatureSHex then
    throw (.verification
      "embedded quote signature differs from archived components — response doctored")
  verifyQuote crypto bundle attest

end Tpm

end DiscCleaner
