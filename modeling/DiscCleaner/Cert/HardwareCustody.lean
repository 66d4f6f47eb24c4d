import DiscCleaner.Cert.DualAuth

/-!
# DiscCleaner — hardware custody

The attestation check reads two optional fields, the disclosed token key and the P-256
co-signature, and skips what it would check on an absent one. A token's signature stands
behind an accepted attestation exactly when a key is disclosed that is the officer's own
32-byte key or comes with a co-signature.
-/

namespace DiscCleaner

open ByteLib AuthorizationSet

variable (cr : ApprovalCrypto)

/-! ## Evidence -/

/-- The disclosed token key is the officer's own key, the one the entry's signature verifies
under. -/
def OwnKeyDisclosed (domain : Bytes) (hash : String) (e : AuthSignatureEntry)
    (a : HardwareCustodyAttestation) : Prop :=
  ∃ keyHex key, a.tokenPublicKeyHex = some keyHex ∧ hexDecode keyHex = some key.bytes
    ∧ SignedBy cr domain hash e key

/-- A P-256 co-signature over the officer key and the hash verifies under the disclosed
token key. -/
def CoSigned (hash : String) (e : AuthSignatureEntry) (a : HardwareCustodyAttestation) : Prop :=
  ∃ keyHex cosigHex key rs, a.tokenPublicKeyHex = some keyHex
    ∧ a.custodyCosignatureHex = some cosigHex ∧ hexDecode keyHex = some key
    ∧ hexDecode cosigHex = some rs
    ∧ cr.p256Verify key (custodyMessage e.publicKeyHex hash) rs = true

/-- A signature of the token itself stands behind the entry's attestation. -/
def Evidentiary (domain : Bytes) (hash : String) (e : AuthSignatureEntry) : Prop :=
  ∃ a, e.hardwareAttestation = some a
    ∧ (OwnKeyDisclosed cr domain hash e a ∨ CoSigned cr hash e a)

/-- An attestation that no token signature stands behind: it discloses no key, or it discloses
a key that is not 32 bytes and carries no co-signature. -/
def Unsupported (a : HardwareCustodyAttestation) : Prop :=
  a.tokenPublicKeyHex = none
    ∨ a.custodyCosignatureHex = none
      ∧ ∃ keyHex, a.tokenPublicKeyHex = some keyHex
        ∧ ∀ key, hexDecode keyHex = some key → key.length ≠ 32

/-! ## What the attestation check establishes -/

/-- The last two steps of the attestation check, as it passed them. -/
theorem verifyHardwareAttestation_ok {e : AuthSignatureEntry}
    {a : HardwareCustodyAttestation} {domain : Bytes} {hash : String} {u : Unit}
    (h : verifyHardwareAttestation cr e a domain hash = .ok u) :
    (∀ keyHex, a.tokenPublicKeyHex = some keyHex → checkDisclosedKey cr e keyHex = .ok ())
      ∧ ∀ keyHex cosigHex, a.tokenPublicKeyHex = some keyHex →
          a.custodyCosignatureHex = some cosigHex →
          verifyP256CustodyCosignature cr e.publicKeyHex hash keyHex cosigHex = .ok () := by
  unfold verifyHardwareAttestation at h
  rw [Checks.ite_error_eq_ok, Checks.ite_error_eq_ok, Checks.ite_error_eq_ok,
    Checks.ite_error_eq_ok, Checks.ite_error_eq_ok, Checks.bind_eq_ok] at h
  obtain ⟨-, -, -, -, -, ⟨⟩, hkey, hcosig⟩ := h
  constructor
  · intro keyHex hsome
    rw [checkTokenKey, hsome] at hkey
    exact hkey
  · intro keyHex cosigHex hsome hcosome
    rw [checkCoProof, hsome, hcosome] at hcosig
    exact hcosig

/-- A disclosed 32-byte key that passes is the key the entry's signature verifies under. -/
theorem ownKeyDisclosed_of_check {e : AuthSignatureEntry} {a : HardwareCustodyAttestation}
    {domain : Bytes} {hash keyHex : String} {key : Bytes} {u : Unit}
    (hverify : e.verify cr domain hash = .ok u) (hsome : a.tokenPublicKeyHex = some keyHex)
    (hcheck : checkDisclosedKey cr e keyHex = .ok ()) (hdec : hexDecode keyHex = some key)
    (h32 : key.length = 32) : OwnKeyDisclosed cr domain hash e a := by
  obtain ⟨officer, hsigned⟩ := AuthSignatureEntry.verify_ok cr hverify
  simp only [checkDisclosedKey, hdec] at hcheck
  rw [if_pos h32, Checks.ite_error_eq_ok, not_not] at hcheck
  have hbytes : key = officer.bytes := by
    have hown := hsigned.1
    rw [← hcheck.1, hexDecode_hexEncode] at hown
    exact Option.some.inj hown
  exact ⟨keyHex, officer, hsome, by rw [hdec, hbytes], hsigned⟩

theorem coSigned_of_verify {e : AuthSignatureEntry} {a : HardwareCustodyAttestation}
    {hash keyHex cosigHex : String} (hsome : a.tokenPublicKeyHex = some keyHex)
    (hcosome : a.custodyCosignatureHex = some cosigHex)
    (hcosig : verifyP256CustodyCosignature cr e.publicKeyHex hash keyHex cosigHex = .ok ()) :
    CoSigned cr hash e a := by
  unfold verifyP256CustodyCosignature at hcosig
  split at hcosig
  · cases hcosig
  next key hkey =>
  rw [Checks.ite_error_eq_ok] at hcosig
  obtain ⟨-, hcosig⟩ := hcosig
  split at hcosig
  · cases hcosig
  next rs hrs =>
  rw [Checks.ite_error_eq_ok, Checks.ite_ok_eq_ok] at hcosig
  exact ⟨keyHex, cosigHex, key, rs, hsome, hcosome, hkey, hrs, hcosig.2.1⟩

/-- **An accepted attestation is evidence or unsupported.** The cases follow the two optional
fields. -/
theorem evidentiary_of_accepted {e : AuthSignatureEntry} {a : HardwareCustodyAttestation}
    {domain : Bytes} {hash : String} {u v : Unit} (hverify : e.verify cr domain hash = .ok u)
    (hattest : verifyHardwareAttestation cr e a domain hash = .ok v)
    (hsupported : ¬ Unsupported a) :
    OwnKeyDisclosed cr domain hash e a ∨ CoSigned cr hash e a := by
  obtain ⟨hkey, hcosig⟩ := verifyHardwareAttestation_ok cr hattest
  cases hsome : a.tokenPublicKeyHex with
  | none => exact absurd (Or.inl hsome) hsupported
  | some keyHex =>
    cases hcosome : a.custodyCosignatureHex with
    | some cosigHex =>
      exact Or.inr (coSigned_of_verify cr hsome hcosome (hcosig keyHex cosigHex hsome hcosome))
    | none =>
      -- without a co-signature the key has to be the officer's
      left
      have h32 : ∃ key, hexDecode keyHex = some key ∧ key.length = 32 := by
        by_contra hnone
        exact hsupported (Or.inr ⟨hcosome, keyHex, hsome, fun key hdec hlen =>
          hnone ⟨key, hdec, hlen⟩⟩)
      obtain ⟨key, hdec, hlen⟩ := h32
      exact ownKeyDisclosed_of_check cr hverify hsome (hkey keyHex hsome) hdec hlen

theorem not_evidentiary_of_unsupported {e : AuthSignatureEntry}
    {a : HardwareCustodyAttestation} {domain : Bytes} {hash : String}
    (hatt : e.hardwareAttestation = some a) (h : Unsupported a) :
    ¬ Evidentiary cr domain hash e := by
  rintro ⟨a', ha', hevidence⟩
  rw [hatt] at ha'
  cases ha'
  rcases h with hnone | ⟨hnocosig, keyHex, hsome, hlen⟩
  · rcases hevidence with ⟨keyHex, key, hsome, -⟩ | ⟨keyHex, _, _, _, hsome, -⟩
    · rw [hnone] at hsome
      cases hsome
    · rw [hnone] at hsome
      cases hsome
  · rcases hevidence with ⟨keyHex', key, hsome', hdec, -⟩ | ⟨_, cosigHex, _, _, _, hcosig, -⟩
    · rw [hsome] at hsome'
      cases hsome'
      exact hlen key.bytes hdec key.size
    · rw [hnocosig] at hcosig
      cases hcosig

/-! ## The gate -/

theorem deriveCustodyType_separateHardware {set : AuthorizationSet} :
    set.deriveCustodyType = .separateHardware
      ↔ 2 ≤ set.signatures.length ∧ ∀ e ∈ set.signatures, e.isHardwareToken = true
        ∧ ∃ a, e.hardwareAttestation = some a ∧ a.pinVerified = true := by
  have hany : ∀ e : AuthSignatureEntry,
      (e.hardwareAttestation.any fun a => a.pinVerified) = true
        ↔ ∃ a, e.hardwareAttestation = some a ∧ a.pinVerified = true := by
    intro e
    cases e.hardwareAttestation with
    | none => simp
    | some a => simp
  unfold deriveCustodyType
  split
  · next h =>
    refine ⟨fun _ => ⟨h.1, fun e he => ?_⟩, fun _ => rfl⟩
    exact ⟨List.all_eq_true.mp h.2.1 e he, (hany e).mp (List.all_eq_true.mp h.2.2 e he)⟩
  · next h =>
    constructor
    · intro hcontra
      cases hcontra
    · rintro ⟨hlen, hall⟩
      exact absurd ⟨hlen, List.all_eq_true.mpr fun e he => (hall e he).1,
        List.all_eq_true.mpr fun e he => (hany e).mpr (hall e he).2⟩ h

/-- The set passes every check of the gate as hardware custody: it is bound to the hash, its
entries and hardware claims verify, enough key texts signed, and at least two entries, all of
them, claim a token with a verified PIN. -/
def AdmittedAsHardware (set : AuthorizationSet) (hash : String) (requireTwoPerson : Bool) : Prop :=
  set.boundPlanHash = hash ∧ EntriesVerify cr planApprovalDomain set hash
    ∧ (requireTwoPerson = true → 2 ≤ set.distinctKeyCount)
    ∧ 2 ≤ set.signatures.length ∧ ∀ e ∈ set.signatures, e.isHardwareToken = true
      ∧ ∃ a, e.hardwareAttestation = some a ∧ a.pinVerified = true

theorem verifyPreArm_separateHardware {set : AuthorizationSet} {hash : String}
    {requireTwoPerson : Bool} :
    verifyPreArmAuthorization cr set hash requireTwoPerson = .ok .separateHardware
      ↔ AdmittedAsHardware cr set hash requireTwoPerson := by
  unfold verifyPreArmAuthorization
  rw [verifyAuthorization_ok, deriveCustodyType_separateHardware]
  rfl

/-- **Hardware custody is evidentiary, exactly**: acceptance as separate hardware implies a
token signature behind every entry if and only if the set is not admitted with an unsupported
attestation. -/
theorem hardware_custody_iff (set : AuthorizationSet) (hash : String) (requireTwoPerson : Bool) :
    (verifyPreArmAuthorization cr set hash requireTwoPerson = .ok .separateHardware →
        ∀ e ∈ set.signatures, Evidentiary cr planApprovalDomain hash e)
      ↔ ¬ (AdmittedAsHardware cr set hash requireTwoPerson
          ∧ ∃ e ∈ set.signatures, ∃ a, e.hardwareAttestation = some a ∧ Unsupported a) := by
  rw [verifyPreArm_separateHardware]
  constructor
  · rintro h ⟨hadmitted, e, he, a, hatt, hunsupported⟩
    exact not_evidentiary_of_unsupported cr hatt hunsupported (h hadmitted e he)
  · intro h hadmitted e he
    have ⟨_, hentries, _, _, hhardware⟩ := hadmitted
    obtain ⟨htoken, a, hatt, -⟩ := hhardware e he
    obtain ⟨hverify, hclaim⟩ := hentries e he
    simp only [verifyHardwareClaim, htoken, hatt, not_true_eq_false, if_false] at hclaim
    refine ⟨a, hatt, evidentiary_of_accepted cr hverify hclaim ?_⟩
    intro hunsupported
    exact h ⟨hadmitted, e, he, a, hatt, hunsupported⟩

/-! ### Two software keys claimed as tokens

Two officer keys, `[7; 32]` and `[9; 32]`, with their Ed25519 signatures over the approval and
an attestation that names no token key at all. -/

def secondKey : PublicKey :=
  Block.ofNat 32 0xfd1724385aa0c75b64fb78cd602fa1d991fdebf76b13c58ed702eac835e9f618

def secondFingerprint : Digest :=
  Block.ofNat 32 0x8fd4250c7e19a226bb17ae00d988b53656db1d9cf0eca5e8e09f53e95e18856d

def secondSignature : Signature :=
  (Block.ofNat 32 0x57b714eb5011d1018441672359b373176f563ca370e6666753846a20ece89c7a).append
    (Block.ofNat 32 0xf54c8e3b55d0979c0f40d9dad876d4f909059f7bde98cc7a7587816cdba55300)

def approvalDigest : Digest :=
  Block.ofNat 32 0xd0885655f1a9818bdf7332f1a04bd39f0027439dd446d066c02869f71bed4631

def bareAttestation : HardwareCustodyAttestation where
  interface := "PIV/ISO7816-4-over-CCID-USB"
  tokenPath := "/dev/bus/usb/001/004"
  mechanism := "PIV-Ed25519"
  pinVerified := true
  signedMessageBlake3 := hexEncode approvalDigest.bytes
  tokenPublicKeyHex := none
  custodyCosignatureHex := none

def tokenEntry (key : PublicKey) (fingerprint : Digest) (sig : Signature) :
    AuthSignatureEntry where
  keyFingerprint := hexEncode fingerprint.bytes
  publicKeyHex := hexEncode key.bytes
  signatureHex := hexEncode sig.bytes
  isHardwareToken := true
  hardwareAttestation := some bareAttestation

def bareSet : AuthorizationSet where
  boundPlanHash := "unit-plan-hash"
  signatures :=
    [tokenEntry officerKey officerFingerprint officerSignature,
     tokenEntry secondKey secondFingerprint secondSignature]

def bareCrypto : ApprovalCrypto :=
  tableApproval
    [(officerKey.bytes, officerFingerprint), (secondKey.bytes, secondFingerprint),
     (AuthSignatureEntry.approvalMessage planApprovalDomain "unit-plan-hash", approvalDigest)]
    [(officerKey, AuthSignatureEntry.approvalMessage planApprovalDomain "unit-plan-hash",
      officerSignature),
     (secondKey, AuthSignatureEntry.approvalMessage planApprovalDomain "unit-plan-hash",
      secondSignature)]

/-- An entry whose key, fingerprint and signature the primitives know passes both checks. -/
theorem tokenEntry_verifies {key : PublicKey} {fingerprint : Digest} {sig : Signature}
    (hfinger : bareCrypto.blake3 key.bytes = fingerprint)
    (hvalid : bareCrypto.ed25519FromBytes key = true)
    (hverify : bareCrypto.ed25519Verify key
      (AuthSignatureEntry.approvalMessage planApprovalDomain "unit-plan-hash") sig = true) :
    (tokenEntry key fingerprint sig).verify bareCrypto planApprovalDomain "unit-plan-hash"
        = .ok ()
      ∧ verifyHardwareClaim bareCrypto (tokenEntry key fingerprint sig) planApprovalDomain
          "unit-plan-hash" = .ok () := by
  constructor
  · apply AuthSignatureEntry.verify_of_signedBy bareCrypto key
    · exact ⟨hexDecode_hexEncode _, sig, hexDecode_hexEncode _, hverify⟩
    · exact hvalid
    · rw [← hfinger]
      rfl
  · have hdigest : bareCrypto.blake3
        (AuthSignatureEntry.approvalMessage planApprovalDomain "unit-plan-hash")
          = approvalDigest := by decide
    have hmessage : bareAttestation.signedMessageBlake3
        = expectedMessageBlake3 bareCrypto (tokenEntry key fingerprint sig) bareAttestation
            planApprovalDomain "unit-plan-hash" := by
      show hexEncode approvalDigest.bytes = blake3Hex bareCrypto _
      rw [blake3Hex, hdigest]
    have hmechanism : "PIV-".toList <+: bareAttestation.mechanism.toList := by decide
    have hattest : verifyHardwareAttestation bareCrypto (tokenEntry key fingerprint sig)
        bareAttestation planApprovalDomain "unit-plan-hash" = .ok () := by
      have hpin : bareAttestation.pinVerified = true := rfl
      have hinterface : bareAttestation.interface = "PIV/ISO7816-4-over-CCID-USB" := rfl
      have hpath : bareAttestation.tokenPath ≠ "" := by decide
      unfold verifyHardwareAttestation
      rw [if_neg (not_not.mpr hpin), if_neg (not_not.mpr hmechanism),
        if_neg (not_not.mpr hinterface), if_neg hpath, if_neg (not_not.mpr hmessage)]
      rfl
    have htoken : (tokenEntry key fingerprint sig).isHardwareToken = true := rfl
    unfold verifyHardwareClaim
    rw [if_neg (not_not.mpr htoken)]
    exact hattest

theorem bareSet_admitted : AdmittedAsHardware bareCrypto bareSet "unit-plan-hash" true := by
  have hkeys : hexEncode officerKey.bytes ≠ hexEncode secondKey.bytes := by
    intro h
    exact absurd (hexEncode_injective h) (by decide)
  refine ⟨rfl, ?_, ?_, by decide, ?_⟩
  · intro e he
    rcases List.mem_pair.mp he with rfl | rfl
    · exact tokenEntry_verifies (by decide) (by decide) (by decide)
    · exact tokenEntry_verifies (by decide) (by decide) (by decide)
  · intro _
    simp [distinctKeyCount, bareSet, tokenEntry, hkeys]
  · intro e he
    rcases List.mem_pair.mp he with rfl | rfl <;> exact ⟨rfl, bareAttestation, rfl, rfl⟩

/-- **Absent fields satisfy the gate**: two entries without any token key or co-signature are
accepted as separate hardware. -/
theorem bare_attestation_passes_gate :
    verifyPreArmAuthorization bareCrypto bareSet "unit-plan-hash" true = .ok .separateHardware
      ∧ ¬ ∀ e ∈ bareSet.signatures,
          Evidentiary bareCrypto planApprovalDomain "unit-plan-hash" e := by
  refine ⟨(verifyPreArm_separateHardware bareCrypto).mpr bareSet_admitted, ?_⟩
  intro h
  have hfirst := h (tokenEntry officerKey officerFingerprint officerSignature)
    List.mem_cons_self
  exact not_evidentiary_of_unsupported bareCrypto rfl (Or.inl rfl) hfirst

end DiscCleaner
