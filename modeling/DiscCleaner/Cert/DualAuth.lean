import DiscCleaner.Core.Record
import DiscCleaner.Lib.Checks
import Mathlib.Data.List.Dedup

/-!
# DiscCleaner — officer approvals (`dualauth.rs`, `token.rs`)

The two-person gate: an `AuthorizationSet` binds countersignatures to a plan (or manifest)
hash. Each entry must verify under its own key, each hardware claim must carry an
attestation that `verifyHardwareAttestation` accepts, and under the two-person policy at
least two keys must have signed.
-/

namespace DiscCleaner

open ByteLib

/-- The primitives of an approval: `Crypto`, and `p256` as the custody check uses it. A
P-256 key or signature is the byte string it is parsed from. -/
structure ApprovalCrypto extends Crypto where
  p256FromSec1 : Bytes → Bool
  p256SignatureFromSlice : Bytes → Bool
  p256Verify : Bytes → Bytes → Bytes → Bool

def planApprovalDomain : Bytes := utf8 "DC-2PI1-APPROVE-PLAN"
def fleetManifestDomain : Bytes := utf8 "DC-2PI1-APPROVE-MANIFEST"
def hwCustodyDomain : Bytes := utf8 "DC-2PI1-HW-CUSTODY"

inductive CustodyType where
  | separateHardware | sharedFilesystem
  deriving DecidableEq

/-! ## Entries -/

/-- What the gate reads of an attestation. -/
structure HardwareCustodyAttestation where
  interface : String
  tokenPath : String
  mechanism : String
  pinVerified : Bool
  signedMessageBlake3 : String
  tokenPublicKeyHex : Option String
  custodyCosignatureHex : Option String
  deriving DecidableEq

structure AuthSignatureEntry where
  keyFingerprint : String
  publicKeyHex : String
  signatureHex : String
  isHardwareToken : Bool
  hardwareAttestation : Option HardwareCustodyAttestation
  deriving DecidableEq

variable (cr : ApprovalCrypto)

/-- `blake3::hash(..).to_hex()`. -/
def blake3Hex (bs : Bytes) : String := hexEncode (cr.blake3 bs).bytes

def constantTimeEqHex (a b : String) : Bool := a = b && a ≠ ""

namespace AuthSignatureEntry

def approvalMessage (domain : Bytes) (hashHex : String) : Bytes := domain ++ utf8 hashHex

def parseVerifyingKey (hexKey : String) : Except String PublicKey :=
  match hexDecode hexKey with
  | none => .error "PUBLIC_KEY_MALFORMED_HEX"
  | some bytes =>
    match Block.ofBytes? 32 bytes with
    | none => .error "PUBLIC_KEY_WRONG_LENGTH"
    | some key => if cr.ed25519FromBytes key then .ok key else .error "PUBLIC_KEY_INVALID"

/-- Key fingerprint, then the Ed25519 signature over the domain-separated message. -/
def verify (e : AuthSignatureEntry) (domain : Bytes) (boundHash : String) :
    Except String Unit :=
  match hexDecode e.publicKeyHex with
  | none => .error "PUBLIC_KEY_MALFORMED_HEX"
  | some pubkeyBytes =>
    if pubkeyBytes.length ≠ 32 then .error "PUBLIC_KEY_WRONG_LENGTH"
    else if ¬ constantTimeEqHex (blake3Hex cr pubkeyBytes) e.keyFingerprint then
      .error "KEY_FINGERPRINT_MISMATCH"
    else do
      let vk ← parseVerifyingKey cr e.publicKeyHex
      match hexDecode e.signatureHex with
      | none => .error "SIGNATURE_MALFORMED_HEX"
      | some sigBytes =>
        match Block.ofBytes? 64 sigBytes with
        | none => .error "SIGNATURE_WRONG_LENGTH"
        | some sig =>
          if cr.ed25519Verify vk (approvalMessage domain boundHash) sig then .ok ()
          else .error "SIGNATURE_INVALID"

end AuthSignatureEntry

/-! ## Hardware custody -/

/-- The message a P-256 token countersigns. -/
def custodyMessage (officerPublicKeyHex boundHash : String) : Bytes :=
  hwCustodyDomain ++ utf8 officerPublicKeyHex ++ utf8 boundHash

def verifyP256CustodyCosignature
    (officerPublicKeyHex boundHash tokenPublicKeySec1Hex cosignatureRsHex : String) :
    Except String Unit :=
  match hexDecode tokenPublicKeySec1Hex with
  | none => .error "HW_ATTESTATION_KEY_MALFORMED_HEX"
  | some key =>
    if ¬ cr.p256FromSec1 key then .error "HW_ATTESTATION_KEY_INVALID_P256"
    else
      match hexDecode cosignatureRsHex with
      | none => .error "HW_ATTESTATION_COSIG_MALFORMED_HEX"
      | some rs =>
        if ¬ cr.p256SignatureFromSlice rs then .error "HW_ATTESTATION_COSIG_INVALID"
        else if cr.p256Verify key (custodyMessage officerPublicKeyHex boundHash) rs then .ok ()
        else .error "HW_ATTESTATION_COSIG_INVALID"

/-- A disclosed 32-byte key must be the officer's key. -/
def checkDisclosedKey (entry : AuthSignatureEntry) (keyHex : String) : Except String Unit :=
  match hexDecode keyHex with
  | none => .error "HW_ATTESTATION_KEY_MALFORMED_HEX"
  | some key =>
    if key.length = 32 then
      if hexEncode key ≠ entry.publicKeyHex then .error "HW_ATTESTATION_KEY_MISMATCH"
      else if blake3Hex cr key ≠ entry.keyFingerprint then
        .error "HW_ATTESTATION_FINGERPRINT_MISMATCH"
      else .ok ()
    else .ok ()

/-- Step 3 of the attestation check; an absent key skips it. -/
def checkTokenKey (entry : AuthSignatureEntry) (attestation : HardwareCustodyAttestation) :
    Except String Unit :=
  match attestation.tokenPublicKeyHex with
  | some keyHex => checkDisclosedKey cr entry keyHex
  | none => .ok ()

/-- Step 4 of the attestation check; an absent key or co-signature skips it. -/
def checkCoProof (entry : AuthSignatureEntry) (attestation : HardwareCustodyAttestation)
    (boundHash : String) : Except String Unit :=
  match attestation.custodyCosignatureHex, attestation.tokenPublicKeyHex with
  | some cosigHex, some keyHex =>
    verifyP256CustodyCosignature cr entry.publicKeyHex boundHash keyHex cosigHex
  | _, _ => .ok ()

/-- The digest of the message the card is said to have signed. -/
def expectedMessageBlake3 (entry : AuthSignatureEntry) (attestation : HardwareCustodyAttestation)
    (domain : Bytes) (boundHash : String) : String :=
  if attestation.custodyCosignatureHex.isSome then
    blake3Hex cr (custodyMessage entry.publicKeyHex boundHash)
  else blake3Hex cr (AuthSignatureEntry.approvalMessage domain boundHash)

def verifyHardwareAttestation (entry : AuthSignatureEntry)
    (attestation : HardwareCustodyAttestation) (domain : Bytes) (boundHash : String) :
    Except String Unit :=
  if ¬ attestation.pinVerified then .error "HW_ATTESTATION_PIN_NOT_VERIFIED"
  else if ¬ "PIV-".toList <+: attestation.mechanism.toList then
    .error "HW_ATTESTATION_MECHANISM_UNKNOWN"
  else if attestation.interface ≠ "PIV/ISO7816-4-over-CCID-USB" then
    .error "HW_ATTESTATION_INTERFACE_UNKNOWN"
  else if attestation.tokenPath = "" then .error "HW_ATTESTATION_NO_PHYSICAL_BINDING"
  else if attestation.signedMessageBlake3
      ≠ expectedMessageBlake3 cr entry attestation domain boundHash then
    .error "HW_ATTESTATION_MESSAGE_BINDING_MISMATCH"
  else do
    checkTokenKey cr entry attestation
    checkCoProof cr entry attestation boundHash

/-! ## Authorization sets -/

structure AuthorizationSet where
  boundPlanHash : String
  signatures : List AuthSignatureEntry
  deriving DecidableEq

namespace AuthorizationSet

def deriveCustodyType (set : AuthorizationSet) : CustodyType :=
  if 2 ≤ set.signatures.length ∧ (set.signatures.all fun s => s.isHardwareToken)
      ∧ (set.signatures.all fun s => s.hardwareAttestation.any fun a => a.pinVerified) then
    .separateHardware
  else .sharedFilesystem

def verifyHardwareClaim (sig : AuthSignatureEntry) (domain : Bytes) (boundHash : String) :
    Except String Unit :=
  if ¬ sig.isHardwareToken then .ok ()
  else
    match sig.hardwareAttestation with
    | none => .error "HW_CUSTODY_CLAIM_WITHOUT_ATTESTATION"
    | some attestation => verifyHardwareAttestation cr sig attestation domain boundHash

/-- The number of distinct key texts. -/
def distinctKeyCount (set : AuthorizationSet) : Nat :=
  (set.signatures.map fun s => s.publicKeyHex).dedup.length

/-- The two gates are one check under different signing domains. -/
def verifyAuthorization (domain : Bytes) (set : AuthorizationSet) (expectedHash : String)
    (requireTwoPerson : Bool) : Except String CustodyType :=
  if set.boundPlanHash ≠ expectedHash then .error "PLAN_HASH_BINDING_MISMATCH"
  else do
    set.signatures.forM fun sig => do
      sig.verify cr domain expectedHash
      verifyHardwareClaim cr sig domain expectedHash
    if requireTwoPerson ∧ set.distinctKeyCount < 2 then .error "AUTHORIZATION_INCOMPLETE"
    else .ok set.deriveCustodyType

def verifyPreArmAuthorization : AuthorizationSet → String → Bool → Except String CustodyType :=
  verifyAuthorization cr planApprovalDomain

def verifyFleetManifestAuthorization :
    AuthorizationSet → String → Bool → Except String CustodyType :=
  verifyAuthorization cr fleetManifestDomain

end AuthorizationSet

/-! ## What acceptance means -/

open AuthorizationSet

/-- `key` signed the approval in entry `e`. -/
def SignedBy (domain : Bytes) (boundHash : String) (e : AuthSignatureEntry) (key : PublicKey) :
    Prop :=
  hexDecode e.publicKeyHex = some key.bytes
    ∧ ∃ sig : Signature, hexDecode e.signatureHex = some sig.bytes
      ∧ cr.ed25519Verify key (AuthSignatureEntry.approvalMessage domain boundHash) sig = true

/-- An entry that verifies carries a signature of the key it decodes to. -/
theorem AuthSignatureEntry.verify_ok {e : AuthSignatureEntry} {domain : Bytes}
    {boundHash : String} {u : Unit} (h : e.verify cr domain boundHash = .ok u) :
    ∃ key, SignedBy cr domain boundHash e key := by
  unfold AuthSignatureEntry.verify at h
  split at h
  · cases h
  next pubkeyBytes hdec =>
  rw [Checks.ite_error_eq_ok, Checks.ite_error_eq_ok, Checks.bind_eq_ok] at h
  obtain ⟨-, -, vk, hvk, hsig⟩ := h
  unfold parseVerifyingKey at hvk
  rw [hdec] at hvk
  simp only at hvk
  split at hvk
  · cases hvk
  next key hkey =>
  obtain ⟨-, rfl⟩ := Checks.ite_ok_eq_ok.mp hvk
  split at hsig
  · cases hsig
  next sigBytes hsigdec =>
  split at hsig
  · cases hsig
  next sig hsigblock =>
  obtain ⟨hverify, -⟩ := Checks.ite_ok_eq_ok.mp hsig
  refine ⟨key, ?_, sig, ?_, hverify⟩
  · rw [hdec, Block.ofBytes?_eq_some.mp hkey]
  · rw [hsigdec, Block.ofBytes?_eq_some.mp hsigblock]

theorem hexEncode_ne_empty {n : Nat} (hn : 0 < n) (b : Block n) : hexEncode b.bytes ≠ "" := by
  intro h
  have hnil : b.bytes = [] := hexEncode_injective (h.trans (by rfl : "" = hexEncode []))
  have hsize := b.size
  rw [hnil, List.length_nil] at hsize
  omega

/-- An entry with the key's fingerprint and a signature of the key verifies. -/
theorem AuthSignatureEntry.verify_of_signedBy {e : AuthSignatureEntry} {domain : Bytes}
    {boundHash : String} (key : PublicKey) (h : SignedBy cr domain boundHash e key)
    (hvalid : cr.ed25519FromBytes key = true)
    (hfinger : e.keyFingerprint = blake3Hex cr key.bytes) :
    e.verify cr domain boundHash = .ok () := by
  obtain ⟨hkey, sig, hsig, hverify⟩ := h
  have hne : blake3Hex cr key.bytes ≠ "" := hexEncode_ne_empty (by decide) _
  have hfp : constantTimeEqHex (blake3Hex cr key.bytes) e.keyFingerprint = true := by
    rw [hfinger]
    simp [constantTimeEqHex, hne]
  simp only [AuthSignatureEntry.verify, parseVerifyingKey, hkey, hsig, key.size, hfp, hvalid,
    hverify, Block.ofBytes?_bytes, ne_eq, not_true_eq_false, if_false, if_true, bind, Except.bind]

/-- Every entry verifies, and so does every hardware claim. -/
def EntriesVerify (domain : Bytes) (set : AuthorizationSet) (boundHash : String) : Prop :=
  ∀ e ∈ set.signatures, e.verify cr domain boundHash = .ok ()
    ∧ verifyHardwareClaim cr e domain boundHash = .ok ()

/-- **Spec of the gate**: what it accepts, check by check. -/
theorem verifyAuthorization_ok {domain : Bytes} {set : AuthorizationSet} {hash : String}
    {requireTwoPerson : Bool} {custody : CustodyType} :
    verifyAuthorization cr domain set hash requireTwoPerson = .ok custody
      ↔ set.boundPlanHash = hash ∧ EntriesVerify cr domain set hash
        ∧ (requireTwoPerson = true → 2 ≤ set.distinctKeyCount)
        ∧ set.deriveCustodyType = custody := by
  have hentry : ∀ e, (do e.verify cr domain hash; verifyHardwareClaim cr e domain hash)
        = Except.ok () ↔ e.verify cr domain hash = .ok ()
      ∧ verifyHardwareClaim cr e domain hash = .ok () := by
    intro e
    rw [Checks.bind_eq_ok]
    constructor
    · rintro ⟨⟨⟩, hv, hc⟩
      exact ⟨hv, hc⟩
    · rintro ⟨hv, hc⟩
      exact ⟨⟨⟩, hv, hc⟩
  unfold verifyAuthorization EntriesVerify
  rw [Checks.ite_error_eq_ok, not_not, Checks.bind_eq_ok]
  constructor
  · rintro ⟨hbound, u, hall, hrest⟩
    rw [Checks.ite_error_eq_ok] at hrest
    obtain ⟨htwo, hcustody⟩ := hrest
    refine ⟨hbound, fun e he => (hentry e).mp (Checks.forM_eq_ok.mp hall e he), ?_,
      Except.ok.inj hcustody⟩
    intro hreq
    by_contra hlt
    exact htwo ⟨hreq, by omega⟩
  · rintro ⟨hbound, hall, htwo, rfl⟩
    refine ⟨hbound, ⟨⟩, Checks.forM_eq_ok.mpr fun e he => (hentry e).mpr (hall e he), ?_⟩
    rw [Checks.ite_error_eq_ok]
    refine ⟨?_, rfl⟩
    rintro ⟨hreq, hlt⟩
    have := htwo hreq
    omega

end DiscCleaner

/-!
# two-person integrity

The gate counts distinct key texts and verifies decoded keys. Hexadecimal decoding ignores
case, so one key can be spelled in several ways: the gate guarantees two officers exactly
when the set is not one that respells a single key.
-/

namespace DiscCleaner

open ByteLib AuthorizationSet

variable (cr : ApprovalCrypto)

/-- Two different keys, as byte strings, signed the approval. -/
def TwoOfficers (domain : Bytes) (set : AuthorizationSet) (hash : String) : Prop :=
  ∃ key₁ key₂ : PublicKey, key₁ ≠ key₂
    ∧ (∃ e ∈ set.signatures, SignedBy cr domain hash e key₁)
    ∧ ∃ e ∈ set.signatures, SignedBy cr domain hash e key₂

/-- Under this signing domain the gate's acceptance implies two officers. -/
def TwoPersonIntegrity (domain : Bytes) (set : AuthorizationSet) (hash : String) : Prop :=
  ∀ custody, verifyAuthorization cr domain set hash true = .ok custody →
    TwoOfficers cr domain set hash

/-- The set passes every check with a single key under several spellings: it is bound to the
hash, its entries verify, it holds two key texts, and all of them decode to the same bytes. -/
def RespellsOneKey (domain : Bytes) (set : AuthorizationSet) (hash : String) : Prop :=
  set.boundPlanHash = hash ∧ EntriesVerify cr domain set hash ∧ 2 ≤ set.distinctKeyCount
    ∧ ∀ e₁ ∈ set.signatures, ∀ e₂ ∈ set.signatures,
      hexDecode e₁.publicKeyHex = hexDecode e₂.publicKeyHex

/-- One key is not two officers. -/
theorem not_twoOfficers_of_respells {domain : Bytes} {set : AuthorizationSet} {hash : String}
    (h : RespellsOneKey cr domain set hash) : ¬ TwoOfficers cr domain set hash := by
  rintro ⟨key₁, key₂, hne, ⟨e₁, he₁, hkey₁, -⟩, e₂, he₂, hkey₂, -⟩
  have hsame := h.2.2.2 e₁ he₁ e₂ he₂
  rw [hkey₁, hkey₂] at hsame
  exact hne (Block.ext (Option.some.inj hsame))

/-- A set that respells one key passes the gate. -/
theorem verifyAuthorization_of_respells {domain : Bytes} {set : AuthorizationSet}
    {hash : String} (h : RespellsOneKey cr domain set hash) :
    verifyAuthorization cr domain set hash true = .ok set.deriveCustodyType :=
  (verifyAuthorization_ok cr).mpr ⟨h.1, h.2.1, fun _ => h.2.2.1, rfl⟩

theorem twoPersonIntegrity_of_domain (domain : Bytes) (set : AuthorizationSet)
    (hash : String) :
    TwoPersonIntegrity cr domain set hash ↔ ¬ RespellsOneKey cr domain set hash := by
  constructor
  · intro h hone
    exact not_twoOfficers_of_respells cr hone (h _ (verifyAuthorization_of_respells cr hone))
  · intro h custody hok
    obtain ⟨hbound, hentries, htwo, -⟩ := (verifyAuthorization_ok cr).mp hok
    -- the texts are not all spellings of one key
    have hdiffer : ∃ e₁ ∈ set.signatures, ∃ e₂ ∈ set.signatures,
        hexDecode e₁.publicKeyHex ≠ hexDecode e₂.publicKeyHex := by
      by_contra hnone
      apply h
      refine ⟨hbound, hentries, htwo rfl, ?_⟩
      intro e₁ he₁ e₂ he₂
      by_contra hne
      exact hnone ⟨e₁, he₁, e₂, he₂, hne⟩
    obtain ⟨e₁, he₁, e₂, he₂, hne⟩ := hdiffer
    obtain ⟨key₁, hsigned₁⟩ := AuthSignatureEntry.verify_ok cr (hentries e₁ he₁).1
    obtain ⟨key₂, hsigned₂⟩ := AuthSignatureEntry.verify_ok cr (hentries e₂ he₂).1
    refine ⟨key₁, key₂, ?_, ⟨e₁, he₁, hsigned₁⟩, e₂, he₂, hsigned₂⟩
    rintro rfl
    exact hne (hsigned₁.1.trans hsigned₂.1.symm)

/-- **Two-person integrity, exactly**: for either gate, acceptance implies two officers for a
set and a hash if and only if the set does not respell one key. -/
theorem two_person_integrity_iff (set : AuthorizationSet) (hash : String) :
    ((∀ custody, verifyPreArmAuthorization cr set hash true = .ok custody →
          TwoOfficers cr planApprovalDomain set hash)
        ↔ ¬ RespellsOneKey cr planApprovalDomain set hash)
      ∧ ((∀ custody, verifyFleetManifestAuthorization cr set hash true = .ok custody →
          TwoOfficers cr fleetManifestDomain set hash)
        ↔ ¬ RespellsOneKey cr fleetManifestDomain set hash) :=
  ⟨twoPersonIntegrity_of_domain cr planApprovalDomain set hash,
    twoPersonIntegrity_of_domain cr fleetManifestDomain set hash⟩

/-! ### One officer, two spellings

The officer key of `[7; 32]`, once in lower and once in upper case, with the Ed25519
signature it makes over the plan approval. -/

/-- Primitives that answer from tables of digests and of valid signatures. -/
def tableApproval (digests : List (Bytes × Digest))
    (signatures : List (PublicKey × Bytes × Signature)) : ApprovalCrypto where
  toCrypto :=
    { tableCrypto (Block.ofNat 32 0) digests [] with
      ed25519FromBytes := fun pk => signatures.any fun s => s.1 = pk
      ed25519Verify := fun pk msg sig => (pk, msg, sig) ∈ signatures }
  p256FromSec1 _ := false
  p256SignatureFromSlice _ := false
  p256Verify _ _ _ := false

def officerKey : PublicKey :=
  Block.ofNat 32 0xea4a6c63e29c520abef5507b132ec5f9954776aebebe7b92421eea691446d22c

def officerFingerprint : Digest :=
  Block.ofNat 32 0x0871f3aabc26e4582c508af5c03884e6a96f0989d1dd8cfb49cd17ed25792433

def officerSignature : Signature :=
  (Block.ofNat 32 0x6497d1c5ba53daefa723b7b73485347698331874bc6a624bdfe850ce983e072e).append
    (Block.ofNat 32 0x4780fe0e0e9380bccbae72fa9faa5ba4a4121bd84afc2837b1f34eef60697f04)

def officerEntry (publicKeyHex : String) : AuthSignatureEntry where
  keyFingerprint := hexEncode officerFingerprint.bytes
  publicKeyHex := publicKeyHex
  signatureHex := hexEncode officerSignature.bytes
  isHardwareToken := false
  hardwareAttestation := none

def lowerSpelling : String := "ea4a6c63e29c520abef5507b132ec5f9954776aebebe7b92421eea691446d22c"
def upperSpelling : String := "EA4A6C63E29C520ABEF5507B132EC5F9954776AEBEBE7B92421EEA691446D22C"

def respelledSet : AuthorizationSet where
  boundPlanHash := "unit-plan-hash"
  signatures := [officerEntry lowerSpelling, officerEntry upperSpelling]

def officerCrypto : ApprovalCrypto :=
  tableApproval [(officerKey.bytes, officerFingerprint)]
    [(officerKey, AuthSignatureEntry.approvalMessage planApprovalDomain "unit-plan-hash",
      officerSignature)]

theorem lowerSpelling_decodes : hexDecode lowerSpelling = some officerKey.bytes := by
  decide

theorem upperSpelling_decodes : hexDecode upperSpelling = some officerKey.bytes := by
  decide

/-- The officer's entry verifies under either spelling. -/
theorem officerEntry_verifies {spelling : String}
    (hkey : hexDecode spelling = some officerKey.bytes) :
    (officerEntry spelling).verify officerCrypto planApprovalDomain "unit-plan-hash" = .ok () := by
  have hfinger : officerCrypto.blake3 officerKey.bytes = officerFingerprint := by decide
  apply AuthSignatureEntry.verify_of_signedBy officerCrypto officerKey
  · exact ⟨hkey, officerSignature, hexDecode_hexEncode _, by
      simp [officerCrypto, tableApproval]⟩
  · simp [officerCrypto, tableApproval]
  · show hexEncode officerFingerprint.bytes = hexEncode (officerCrypto.blake3 officerKey.bytes).bytes
    rw [hfinger]

theorem respelledSet_respells :
    RespellsOneKey officerCrypto planApprovalDomain respelledSet "unit-plan-hash" := by
  have hdecodes : ∀ e ∈ respelledSet.signatures, ∃ spelling, e = officerEntry spelling
      ∧ hexDecode spelling = some officerKey.bytes := by
    intro e he
    rcases List.mem_pair.mp he with rfl | rfl
    · exact ⟨_, rfl, lowerSpelling_decodes⟩
    · exact ⟨_, rfl, upperSpelling_decodes⟩
  have hspellings : lowerSpelling ≠ upperSpelling := by decide
  refine ⟨rfl, ?_, ?_, ?_⟩
  · intro e he
    obtain ⟨spelling, rfl, hkey⟩ := hdecodes e he
    exact ⟨officerEntry_verifies hkey, rfl⟩
  · simp [distinctKeyCount, respelledSet, officerEntry, hspellings]
  · intro e₁ he₁ e₂ he₂
    obtain ⟨s₁, rfl, hkey₁⟩ := hdecodes e₁ he₁
    obtain ⟨s₂, rfl, hkey₂⟩ := hdecodes e₂ he₂
    exact hkey₁.trans hkey₂.symm

/-- **One officer passes the two-person gate** by signing once and spelling the key twice. -/
theorem one_officer_passes_two_person_gate :
    verifyPreArmAuthorization officerCrypto respelledSet "unit-plan-hash" true
        = .ok .sharedFilesystem
      ∧ ¬ TwoOfficers officerCrypto planApprovalDomain respelledSet "unit-plan-hash" :=
  ⟨verifyAuthorization_of_respells officerCrypto respelledSet_respells,
    not_twoOfficers_of_respells officerCrypto respelledSet_respells⟩

end DiscCleaner
