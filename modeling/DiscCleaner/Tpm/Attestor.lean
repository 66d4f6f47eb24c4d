import DiscCleaner.Tpm.Capture
import DiscCleaner.Tpm.SynthRuns

/-!
# DiscCleaner — an attestation from end to end (`dc-tpm/attest.rs`, `dc-tpm/synth.rs`)

Provisioning, measuring and quoting over any transport, and what comes of it on the emulator. What
reading an artifact's file gave is a parameter.

* **`attested_run`** — the three steps give a bundle that verifies again and whose values are the
  registers with the artifacts measured into them; a TPM that doctors its digest gives none.
* **`measured_injective`** — the values tell the artifacts.
-/

namespace DiscCleaner

open ByteLib ProgLib

namespace Tpm

def TPM_HR_PERSISTENT : Nat := 0x81000000
def TPM_HR_PERSISTENT_LAST : Nat := 0x81FFFFFF

/-! ## Commands and responses -/

def encodeStartup (clear : Bool) : Bytes :=
  intoCommand TPM_ST_NO_SESSIONS TPM_CC_STARTUP (be 2 (if clear then 0x0000 else 0x0001))

def encodePcrExtend (pcr : Nat) (digest : Block 32) : Bytes :=
  intoCommand TPM_ST_SESSIONS TPM_CC_PCR_EXTEND
    (be 4 pcr ++ sized emptyPwSession ++ be 4 1 ++ be 2 TPM_ALG_SHA256 ++ digest.bytes)

/-- The template of a restricted signing key on P-256. -/
def aikTemplate : Bytes :=
  be 2 TPM_ALG_ECC ++ be 2 TPM_ALG_SHA256 ++ be 4 AIK_OBJECT_ATTRIBUTES ++ tpm2b []
    ++ be 2 TPM_ALG_NULL ++ be 2 TPM_ALG_ECDSA ++ be 2 TPM_ALG_SHA256 ++ be 2 TPM_ECC_NIST_P256
    ++ be 2 TPM_ALG_NULL ++ tpm2b [] ++ tpm2b []

def encodeCreatePrimaryAik (parent : Nat) : Bytes :=
  intoCommand TPM_ST_SESSIONS TPM_CC_CREATE_PRIMARY
    (be 4 parent ++ sized emptyPwSession ++ tpm2b (tpm2b [] ++ tpm2b []) ++ tpm2b aikTemplate
      ++ tpm2b [] ++ be 4 0)

def encodeReadPublic (handle : Nat) : Bytes :=
  intoCommand TPM_ST_NO_SESSIONS TPM_CC_READ_PUBLIC (be 4 handle)

def encodeEvictControl (objectHandle persistentHandle : Nat) : Bytes :=
  intoCommand TPM_ST_SESSIONS TPM_CC_EVICT_CONTROL
    (be 4 TPM_RH_OWNER ++ be 4 objectHandle ++ sized emptyPwSession ++ be 4 persistentHandle)

/-- The public area of an ECC key. -/
def eccPublic : Reader EccPublicKey := do
  let keyType ← Reader.u16
  if keyType ≠ TPM_ALG_ECC then throw (.unexpected "public key type, expected ECC" keyType)
  else do
    let _nameAlg ← Reader.u16
    let _attrs ← Reader.u32
    let _policy ← Reader.tpm2b
    let _sym ← Reader.u16
    let _schemeAlg ← Reader.u16
    let _schemeHash ← Reader.u16
    let curveId ← Reader.u16
    let _kdf ← Reader.u16
    let x ← Reader.tpm2b
    let y ← Reader.tpm2b
    pure ⟨curveId, x, y⟩

/-- A public area in its own field: it is read by a reader of its own. -/
def publicField : Reader (EccPublicKey × Bytes) := do
  let publicRaw ← Reader.tpm2b
  match eccPublic.value publicRaw with
  | .error e => throw e
  | .ok pub => pure (pub, publicRaw)

def parseReadPublic : Reader (EccPublicKey × Bytes) := publicField

structure CreatePrimaryResponse where
  handle : Nat
  pub : EccPublicKey
  publicRaw : Bytes

def parseCreatePrimary : Reader CreatePrimaryResponse := do
  let handle ← Reader.u32
  let (pub, publicRaw) ← publicField
  pure ⟨handle, pub, publicRaw⟩

/-! ## The attestor -/

structure TpmAttestor where
  aik : AikHandle
  startupDone : Bool

structure MeasurementReport where
  kernelBlake3 : String
  initramfsBlake3 : String
  binaryBlake3 : String
  evidenceTag : String
  deriving DecidableEq

/-- The artifacts of the appliance, where their files could be read, and the evidence tag. -/
structure Artifacts where
  kernel : Option Bytes
  initramfs : Option Bytes
  binary : Option Bytes
  evidenceTag : Bytes

section

variable {S : Type} (tpm : Transport S) (sha256 blake3 : Bytes → Block 32)

/-- The key that is there already. -/
def readAik (persistent : Nat) : Prog (Host S) TpmError (EccPublicKey × Bytes) := do
  let params ← transactOwned tpm (encodeReadPublic persistent)
  Prog.ofExcept (wireResult (parseReadPublic.value params))

/-- A new key, made persistent. -/
def provision (persistent : Nat) : Prog (Host S) TpmError AikHandle := do
  let params ← transactOwned tpm (encodeCreatePrimaryAik TPM_RH_OWNER)
  let created ← Prog.ofExcept (wireStep "CreatePrimary" (parseCreatePrimary.value params))
  if created.pub.curveId ≠ TPM_ECC_NIST_P256 ∨ created.pub.x.length ≠ 32 then
    Prog.fail (.policy
      "AIK template mismatch: TPM did not return a P-256 restricted signing key")
  else do
    let _ ← transactOwned tpm (encodeEvictControl created.handle persistent)
    pure ⟨persistent, created.pub, created.publicRaw⟩

def locateOrProvision (persistent : Nat) : Prog (Host S) TpmError AikHandle :=
  if persistent < TPM_HR_PERSISTENT ∨ TPM_HR_PERSISTENT_LAST < persistent then
    Prog.fail (.policy ("AIK handle 0x" ++ hexLower 8 persistent ++ " outside the persistent range 0x"
      ++ hexLower 8 TPM_HR_PERSISTENT ++ "-0x" ++ hexLower 8 TPM_HR_PERSISTENT_LAST))
  else do
    let found ← Prog.attempt (readAik tpm persistent)
    match found with
    | .error _ => provision tpm persistent
    | .ok (pub, publicRaw) =>
      if pub.curveId = TPM_ECC_NIST_P256 then pure ⟨persistent, pub, publicRaw⟩
      else provision tpm persistent

/-- Start the TPM, whether it was started or not, and find the key. -/
def TpmAttestor.new (aikPersistent : Nat) : Prog (Host S) TpmError TpmAttestor := do
  let _ ← Prog.attempt (transactOwned tpm (encodeStartup true))
  let aik ← locateOrProvision tpm aikPersistent
  pure ⟨aik, true⟩

def measureIntoPcr (pcr : Nat) (data : Bytes) : Prog (Host S) TpmError (Block 32) :=
  if pcr < 8 ∨ 11 < pcr then
    Prog.fail (.policy ("dc measurement PCRs are 8-11 (kernel, initramfs, binary, evidence); refusing"
      ++ " to extend PCR " ++ toString pcr))
  else do
    let _ ← transactOwned tpm (encodePcrExtend pcr (sha256 data))
    pure (sha256 data)

/-- The first 24 digits of a BLAKE3 digest. -/
def blake3_24 (bytes : Bytes) : String := String.ofList ((hexEncode (blake3 bytes).bytes).toList.take 24)

/-- An artifact that could not be read is skipped, and its line of the report stays empty. -/
def measureArtifact (pcr : Nat) : Option Bytes → Prog (Host S) TpmError String
  | none => pure ""
  | some bytes => do
    let _ ← measureIntoPcr tpm sha256 pcr bytes
    pure (blake3_24 blake3 bytes)

def measureArtifacts (a : Artifacts) : Prog (Host S) TpmError MeasurementReport := do
  let kernel ← measureArtifact tpm sha256 blake3 8 a.kernel
  let initramfs ← measureArtifact tpm sha256 blake3 9 a.initramfs
  let binary ← measureArtifact tpm sha256 blake3 10 a.binary
  let _ ← measureIntoPcr tpm sha256 11 a.evidenceTag
  pure ⟨kernel, initramfs, binary, hexEncode a.evidenceTag⟩

/-- The three steps in a row. -/
def attest (crypto : QuoteCrypto) (aikPersistent : Nat) (a : Artifacts) (nonce : Bytes) :
    Prog (Host S) TpmError (MeasurementReport × QuoteBundle) := do
  let attestor ← TpmAttestor.new tpm aikPersistent
  let report ← measureArtifacts tpm crypto.sha256 blake3 a
  let bundle ← generateQuote crypto tpm attestor.aik nonce
  pure (report, bundle)

end

namespace SynthTpm

/-! ## What the emulator reads -/

section

open Scan

variable {sha256 : Bytes → Block 32} {aik : SynthKey} (t : SynthTpm)

theorem attestation_arms (tag : Nat) (r : Bytes) :
    dispatch sha256 aik t TPM_CC_STARTUP tag r
      = (if t.started then (errorResponse TPM_RC_INITIALIZE, t)
        else (okResponse tag [], { t with started := true })) ∧
    dispatch sha256 aik t TPM_CC_READ_PUBLIC tag r = (okResponse tag (tpm2b (aikPublic aik)), t) ∧
    dispatch sha256 aik t TPM_CC_PCR_EXTEND tag r = pcrExtend sha256 t tag r ∧
    dispatch sha256 aik t TPM_CC_QUOTE tag r = quote sha256 aik t r := by
  simp [dispatch, handleCommandBody, TPM_CC_START_AUTH_SESSION, TPM_CC_POLICY_PCR,
    TPM_CC_POLICY_GET_DIGEST, TPM_CC_CREATE, TPM_CC_LOAD, TPM_CC_UNSEAL, TPM_CC_FLUSH_CONTEXT,
    TPM_CC_STARTUP, TPM_CC_SHUTDOWN, TPM_CC_GET_RANDOM, TPM_CC_PCR_READ, TPM_CC_PCR_EXTEND,
    TPM_CC_CREATE_PRIMARY, TPM_CC_READ_PUBLIC, TPM_CC_EVICT_CONTROL, TPM_CC_QUOTE]

/-- The TPM once it was started. -/
def withStartup : SynthTpm := { t with started := true }

theorem handle_startup :
    handleCommand sha256 aik (encodeStartup true) t
      = (if t.started then errorResponse TPM_RC_INITIALIZE else okResponse TPM_ST_NO_SESSIONS [],
        withStartup t) := by
  rw [encodeStartup, handleCommand_into t (by decide) (by decide), (attestation_arms t _ _).1]
  cases hstarted : t.started with
  | false => rfl
  | true =>
    have hsame : withStartup t = t := by rw [withStartup, ← hstarted]
    rw [hsame]
    rfl

theorem handle_readPublic (handle : Nat) :
    handleCommand sha256 aik (encodeReadPublic handle) t
      = (okResponse TPM_ST_NO_SESSIONS (tpm2b (aikPublic aik)), t) := by
  rw [encodeReadPublic, handleCommand_into t (by decide) (by decide), (attestation_arms t _ _).2.1]

/-- A register with the digest of an artifact taken in. -/
def withMeasured (sha256 : Bytes → Block 32) (pcr : Fin 24) (data : Bytes) : SynthTpm :=
  { t with
    pcrs := Function.update t.pcrs pcr (sha256 ((t.pcrs pcr).bytes ++ (sha256 data).bytes)) }

theorem handle_pcrExtend (pcr : Fin 24) (data : Bytes) :
    handleCommand sha256 aik (encodePcrExtend pcr (sha256 data)) t
      = (okResponse TPM_ST_SESSIONS [], withMeasured t sha256 pcr data) := by
  have hpcr : (pcr : Nat) < 2 ^ 32 := by omega
  rw [encodePcrExtend, handleCommand_into t (by decide) (by decide), (attestation_arms t _ _).2.2.1]
  simp only [List.append_assoc]
  obtain ⟨h1, h2, h3⟩ := takes_authorized hpcr TPM_RS_PW
    (be 4 1 ++ (be 2 TPM_ALG_SHA256 ++ (sha256 data).bytes))
  have hvalue : readDigestValue (none, be 2 TPM_ALG_SHA256 ++ (sha256 data).bytes)
      = (some (sha256 data), []) := by
    have hraw := @Takes.raw (sha256 data).bytes 32 (Block.size _) []
    rw [List.append_nil] at hraw
    simp only [readDigestValue, Scan.u16,
      (Takes.word (n := 2) (v := TPM_ALG_SHA256) (by decide)).orElse, if_true, hraw,
      Block.ofBytes?_bytes, Option.or_none]
  have hcount : Scan.u32.orElse 0 (be 4 1 ++ (be 2 TPM_ALG_SHA256 ++ (sha256 data).bytes))
      = (1, be 2 TPM_ALG_SHA256 ++ (sha256 data).bytes) := (Takes.word (by decide)).orElse _ _
  simp only [pcrExtend, emptyPwSession, h1, h2, h3, hcount, Function.iterate_one, hvalue]
  have hidx : (⟨min (pcr : Nat) 23, by omega⟩ : Fin 24) = pcr := Fin.ext (by simp only; omega)
  rw [hidx]
  rfl

/-- What the emulator signs. -/
def quoteAttest (sha256 : Bytes → Block 32) (aik : SynthKey) (nonce : Bytes) (mask : PcrMask) : Bytes :=
  be 4 TPM_GENERATED ++ be 2 TPM_ST_ATTEST_QUOTE
    ++ tpm2b ([0x0B, 0x00] ++ (sha256 (aik.x.bytes ++ aik.y.bytes)).bytes) ++ tpm2b nonce
    ++ be 8 ((t.clock + 1) % 2 ^ 64) ++ be 4 t.resetCount ++ be 4 t.restartCount ++ be 1 1
    ++ be 8 t.firmwareVersion ++ (PcrSelectionList.singleSha256 mask).write
    ++ tpm2b (if t.tamperMode then doctored (sha256 (t.selectedValues (.singleSha256 mask))).bytes
        else (sha256 (t.selectedValues (.singleSha256 mask))).bytes)

/-- The signature as it is marshalled. -/
def quoteSignature (sig : Block 32 × Block 32) : Bytes :=
  be 2 TPM_ALG_ECDSA ++ be 2 TPM_ALG_SHA256 ++ tpm2b sig.1.bytes ++ tpm2b sig.2.bytes

/-- The TPM behind a quote. -/
def withTick : SynthTpm := { t with clock := (t.clock + 1) % 2 ^ 64 }

theorem handle_quote {handle : Nat} (hhandle : handle < 2 ^ 32) {nonce : Bytes}
    (hnonce : nonce.length ≤ TPM2B_CAP) (mask : PcrMask) :
    handleCommand sha256 aik (encodeQuote handle nonce (.singleSha256 mask)) t
      = (okResponse TPM_ST_SESSIONS (quoteAttest t sha256 aik nonce mask
          ++ quoteSignature (aik.sign (quoteAttest t sha256 aik nonce mask))),
        withTick t) := by
  rw [encodeQuote, handleCommand_into t (by decide) (by decide), (attestation_arms t _ _).2.2.2]
  simp only [List.append_assoc]
  obtain ⟨h1, h2, h3⟩ := takes_authorized hhandle TPM_RS_PW (be 2 TPM_ALG_ECDSA
    ++ (be 2 TPM_ALG_SHA256 ++ (tpm2b nonce ++ (PcrSelectionList.singleSha256 mask).write)))
  have hauth : (Scan.raw 9).orElse [] (sessionAuth TPM_RS_PW ++ (be 2 TPM_ALG_ECDSA
      ++ (be 2 TPM_ALG_SHA256 ++ (tpm2b nonce ++ (PcrSelectionList.singleSha256 mask).write))))
      = (sessionAuth TPM_RS_PW, be 2 TPM_ALG_ECDSA
        ++ (be 2 TPM_ALG_SHA256 ++ (tpm2b nonce ++ (PcrSelectionList.singleSha256 mask).write))) := by
    rw [Scan.orElse, h3]
    rfl
  simp only [quote, emptyPwSession, h1, h2, hauth, Scan.u16,
    (Takes.word (n := 2) (v := TPM_ALG_ECDSA) (by decide)).orElse,
    (Takes.word (n := 2) (v := TPM_ALG_SHA256) (by decide)).orElse, (takes_tpm2b hnonce).orElse,
    (takes_singleSha256 mask).orElse_end]
  rw [if_neg (by simp)]
  rfl

end

/-! ## What the host makes of it -/

section

open Read

variable {sha256 blake3 : Bytes → Block 32} {aik : SynthKey} {t : SynthTpm}

/-- The emulator's key under a persistent handle. -/
def aikHandle (aik : SynthKey) (persistent : Nat) : AikHandle :=
  ⟨persistent, ⟨TPM_ECC_NIST_P256, aik.x.bytes, aik.y.bytes⟩, aikPublic aik⟩

theorem parseReadPublic_aik :
    parseReadPublic.value (tpm2b (aikPublic aik))
      = .ok (⟨TPM_ECC_NIST_P256, aik.x.bytes, aik.y.bytes⟩, aikPublic aik) := by
  have hkey : Parses eccPublic (aikPublic aik) ⟨TPM_ECC_NIST_P256, aik.x.bytes, aik.y.bytes⟩ := by
    simp only [aikPublic, List.append_assoc]
    refine (parses_word (v := TPM_ALG_ECC) (by decide)).bind ?_
    rw [if_neg (by decide)]
    refine (parses_word (by decide)).bind ((parses_word (by decide)).bind ?_)
    refine (@parses_tpm2b [] (by decide)).bind ((parses_word (by decide)).bind ?_)
    refine (parses_word (by decide)).bind ((parses_word (by decide)).bind ?_)
    refine (parses_word (by decide)).bind ((parses_word (by decide)).bind ?_)
    exact (parses_tpm2b (block_cap _)).bind ((parses_tpm2b (block_cap _)).map (.ret _))
  have hlen : (aikPublic aik).length ≤ TPM2B_CAP := by
    simp only [aikPublic, List.length_append, be_length, tpm2b, List.length_nil, Block.size]
    decide
  have hfield : Parses parseReadPublic (tpm2b (aikPublic aik))
      (⟨TPM_ECC_NIST_P256, aik.x.bytes, aik.y.bytes⟩, aikPublic aik) := by
    refine (parses_tpm2b hlen).map ?_
    rw [hkey.value]
    exact .ret _
  exact hfield.value

theorem ends_new {persistent : Nat} (hlow : TPM_HR_PERSISTENT ≤ persistent)
    (hhigh : persistent ≤ TPM_HR_PERSISTENT_LAST) :
    Ends (TpmAttestor.new (transport sha256 aik) persistent) t
      (.ok ⟨aikHandle aik persistent, true⟩) (withStartup t) := by
  -- started before or not, the first answer is not looked at
  have hstartup : ∃ r, Ends (Prog.attempt (transactOwned (transport sha256 aik) (encodeStartup true))) t
      (.ok r) (withStartup t) := by
    have hanswer := @handle_startup sha256 aik t
    cases hstarted : t.started with
    | false =>
      rw [hstarted, if_neg Bool.false_ne_true] at hanswer
      exact ⟨.ok [], .attempt (ends_transactOwned (.inr rfl) hanswer)⟩
    | true =>
      rw [hstarted, if_pos rfl] at hanswer
      exact ⟨.error (.responseCode TPM_RC_INITIALIZE),
        .attempt (ends_transactOwned_error (by decide) (by decide) hanswer)⟩
  obtain ⟨r, hstartup⟩ := hstartup
  have hfound : Ends (readAik (transport sha256 aik) persistent) (withStartup t)
      (replied (.ok (⟨TPM_ECC_NIST_P256, aik.x.bytes, aik.y.bytes⟩, aikPublic aik))) (withStartup t) :=
    (ends_transactOwned (.inr rfl) (handle_readPublic (withStartup t) persistent)).bind
      (.ofExcept_ok (by rw [parseReadPublic_aik]; rfl) _)
  refine hstartup.bind (Ends.bind (a := aikHandle aik persistent) ?_ (.ret _ _))
  rw [locateOrProvision, if_neg (by omega)]
  refine hfound.attempt.bind ?_
  simp only [if_true]
  exact .ret _ _

theorem ends_measureIntoPcr (pcr : Fin 24) (hdc : 8 ≤ (pcr : Nat) ∧ (pcr : Nat) ≤ 11) (data : Bytes) :
    Ends (measureIntoPcr (transport sha256 aik) sha256 pcr data) t (.ok (sha256 data))
      (withMeasured t sha256 pcr data) := by
  rw [measureIntoPcr, if_neg (by omega)]
  exact (ends_transactOwned (.inl rfl) (handle_pcrExtend t pcr data)).bind (.ret _ _)

/-- The TPM behind an artifact that may be missing. -/
def withArtifact (t : SynthTpm) (sha256 : Bytes → Block 32) (pcr : Fin 24) : Option Bytes → SynthTpm
  | none => t
  | some data => withMeasured t sha256 pcr data

theorem ends_measureArtifact (pcr : Fin 24) (hdc : 8 ≤ (pcr : Nat) ∧ (pcr : Nat) ≤ 11)
    (artifact : Option Bytes) :
    Ends (measureArtifact (transport sha256 aik) sha256 blake3 pcr artifact) t
      (.ok ((artifact.map (blake3_24 blake3)).getD "")) (withArtifact t sha256 pcr artifact) := by
  cases artifact with
  | none => exact .ret _ _
  | some data => exact (ends_measureIntoPcr pcr hdc data).bind (.ret _ _)

/-- The TPM with all artifacts measured. -/
def measured (t : SynthTpm) (sha256 : Bytes → Block 32) (a : Artifacts) : SynthTpm :=
  withMeasured (withArtifact (withArtifact (withArtifact t sha256 8 a.kernel) sha256 9 a.initramfs)
    sha256 10 a.binary) sha256 11 a.evidenceTag

/-- What the report says of them. -/
def reportOf (blake3 : Bytes → Block 32) (a : Artifacts) : MeasurementReport where
  kernelBlake3 := (a.kernel.map (blake3_24 blake3)).getD ""
  initramfsBlake3 := (a.initramfs.map (blake3_24 blake3)).getD ""
  binaryBlake3 := (a.binary.map (blake3_24 blake3)).getD ""
  evidenceTag := hexEncode a.evidenceTag

theorem ends_measureArtifacts (a : Artifacts) :
    Ends (measureArtifacts (transport sha256 aik) sha256 blake3 a) t (.ok (reportOf blake3 a))
      (measured t sha256 a) :=
  (ends_measureArtifact 8 (by decide) a.kernel).bind
    ((ends_measureArtifact 9 (by decide) a.initramfs).bind
      ((ends_measureArtifact 10 (by decide) a.binary).bind
        ((ends_measureIntoPcr 11 (by decide) a.evidenceTag).bind (.ret _ _))))

/-! ## The quote -/

/-- The fields of what the emulator signs. -/
def quoteBody (t : SynthTpm) (sha256 : Bytes → Block 32) (aik : SynthKey) (nonce : Bytes)
    (mask : PcrMask) : AttestBody where
  magic := TPM_GENERATED
  attestType := TPM_ST_ATTEST_QUOTE
  qualifiedSigner := [0x0B, 0x00] ++ (sha256 (aik.x.bytes ++ aik.y.bytes)).bytes
  extraData := nonce
  clock := beNat (be 8 ((t.clock + 1) % 2 ^ 64))
  resetCount := beNat (be 4 t.resetCount)
  restartCount := beNat (be 4 t.restartCount)
  clockSafe := true
  firmwareVersion := beNat (be 8 t.firmwareVersion)
  pcrSelection := .singleSha256 mask
  pcrDigest := if t.tamperMode then doctored (sha256 (t.selectedValues (.singleSha256 mask))).bytes
    else (sha256 (t.selectedValues (.singleSha256 mask))).bytes

/-- What the host reads off the answer to a quote. -/
def quoted (t : SynthTpm) (sha256 : Bytes → Block 32) (aik : SynthKey) (nonce : Bytes)
    (mask : PcrMask) : QuoteAttestation where
  toAttestBody := quoteBody t sha256 aik nonce mask
  raw := quoteAttest t sha256 aik nonce mask

theorem length_doctored (digest : Bytes) : (doctored digest).length = digest.length := by
  cases digest <;> rfl

theorem doctored_ne {digest : Bytes} (h : digest ≠ []) : doctored digest ≠ digest := by
  cases digest with
  | nil => exact absurd rfl h
  | cons b rest =>
    intro heq
    have hhead : b ^^^ 0xFF = b := (List.cons.inj heq).1
    have hcancel := congrArg (b ^^^ ·) hhead
    simp only [← UInt8.xor_assoc, UInt8.xor_self, UInt8.zero_xor] at hcancel
    exact absurd hcancel (by decide)

/-- The digest of a quote, doctored or not. -/
theorem length_quoteDigest (nonce : Bytes) (mask : PcrMask) :
    (quoteBody t sha256 aik nonce mask).pcrDigest.length = 32 := by
  show (if t.tamperMode then _ else _ : Bytes).length = 32
  split
  · rw [length_doctored, Block.size]
  · rw [Block.size]

theorem length_quoteAttest (nonce : Bytes) (mask : PcrMask) :
    (quoteAttest t sha256 aik nonce mask).length = 114 + nonce.length := by
  have hshape : quoteAttest t sha256 aik nonce mask
      = be 4 TPM_GENERATED ++ be 2 TPM_ST_ATTEST_QUOTE
        ++ tpm2b ([0x0B, 0x00] ++ (sha256 (aik.x.bytes ++ aik.y.bytes)).bytes) ++ tpm2b nonce
        ++ be 8 ((t.clock + 1) % 2 ^ 64) ++ be 4 t.resetCount ++ be 4 t.restartCount ++ be 1 1
        ++ be 8 t.firmwareVersion ++ (be 4 1 ++ (be 2 TPM_ALG_SHA256 ++ be 1 4 ++ mask.bytes ++ []))
        ++ tpm2b (quoteBody t sha256 aik nonce mask).pcrDigest := rfl
  rw [hshape]
  simp only [List.length_append, be_length, tpm2b, Block.size, length_quoteDigest, List.length_cons,
    List.length_nil]
  omega

theorem length_quoteSignature (sig : Block 32 × Block 32) : (quoteSignature sig).length = 72 := by
  simp only [quoteSignature, List.length_append, be_length, tpm2b, Block.size]

theorem parses_quoteAttest {nonce : Bytes} (hnonce : nonce.length ≤ TPM2B_CAP) (mask : PcrMask) :
    Parses readAttestation (quoteAttest t sha256 aik nonce mask)
      (quoteBody t sha256 aik nonce mask) := by
  have hbe : ∀ n v, Parses (Reader.word n) (be n v) (beNat (be n v)) := fun n v =>
    (parses_take (be_length n v)).map (.ret _)
  have hname : ([0x0B, 0x00] ++ (sha256 (aik.x.bytes ++ aik.y.bytes)).bytes).length ≤ TPM2B_CAP := by
    rw [List.length_append, Block.size]
    decide
  have hdigest : (quoteBody t sha256 aik nonce mask).pcrDigest.length ≤ TPM2B_CAP := by
    rw [length_quoteDigest]
    decide
  have hsafe : Parses Reader.u8 (be 1 1) 1 := parses_word (by decide)
  simp only [quoteAttest, List.append_assoc]
  refine (parses_word (by decide)).bind ((parses_word (by decide)).bind ?_)
  refine (parses_tpm2b hname).bind ((parses_tpm2b hnonce).bind ((hbe 8 _).bind ?_))
  refine (hbe 4 _).bind ((hbe 4 _).bind (hsafe.bind ((hbe 8 _).bind ?_)))
  exact (parses_singleSha256 mask).bind ((parses_tpm2b hdigest).map (.ret _))

/-- The attestation that is read in front of whatever follows. -/
theorem parseAttestation_quote {nonce : Bytes} (hnonce : nonce.length ≤ TPM2B_CAP) (mask : PcrMask)
    (rest : Bytes) :
    parseAttestation (quoteAttest t sha256 aik nonce mask ++ rest)
      = .ok (quoted t sha256 aik nonce mask) := by
  have hrun := @parses_quoteAttest sha256 aik t _ hnonce mask rest 0
  rw [parseAttestation, hrun]
  simp only [Nat.zero_add, List.take_left', quoted]

/-- The signature that is read behind it. -/
def quotedSignature (sig : Block 32 × Block 32) : EcdsaSignature :=
  ⟨TPM_ALG_ECDSA, TPM_ALG_SHA256, sig.1.bytes, sig.2.bytes⟩

theorem parseEcdsaSignature_quote (sig : Block 32 × Block 32) :
    parseEcdsaSignature.value (quoteSignature sig) = .ok (quotedSignature sig) := by
  have hparses : Parses parseEcdsaSignature (quoteSignature sig) (quotedSignature sig) := by
    simp only [quoteSignature, List.append_assoc]
    refine (parses_word (by decide)).bind ((parses_word (by decide)).bind ?_)
    exact (parses_tpm2b (block_cap _)).bind ((parses_tpm2b (block_cap _)).map (.ret _))
  exact hparses.value

theorem generatedParts_quote {nonce : Bytes} (hnonce : nonce.length ≤ TPM2B_CAP) (mask : PcrMask)
    (sig : Block 32 × Block 32) :
    generatedParts (okResponse TPM_ST_SESSIONS
        (quoteAttest t sha256 aik nonce mask ++ quoteSignature sig))
      = .ok (quoted t sha256 aik nonce mask, quotedSignature sig) := by
  rw [generatedParts]
  refine Checks.bind_eq_ok.mpr ⟨_, classifyResponse_ok (.inl rfl) _, ?_⟩
  rw [quoteParts]
  refine Checks.bind_eq_ok.mpr ⟨_, by rw [parseAttestation_quote hnonce]; rfl, ?_⟩
  refine Checks.bind_eq_ok.mpr ⟨quotedSignature sig, ?_, rfl⟩
  rw [quoted, List.drop_left' rfl, parseEcdsaSignature_quote]
  rfl

/-- A response that is not too long declares its own sizes. -/
theorem checkSizes_ok {params : Bytes} (h : params.length + 14 < 2 ^ 32) :
    checkSizes (okResponse TPM_ST_SESSIONS params) = .ok () := by
  have hresponse : okResponse TPM_ST_SESSIONS params = be 2 TPM_ST_SESSIONS_RSP
      ++ (be 4 (params.length + 14) ++ (be 4 TPM_RC_SUCCESS ++ (be 4 params.length ++ params))) := by
    simp only [okResponse, if_true, sessionsResponse, List.append_assoc, List.length_append, be_length,
      show 10 + (4 + params.length) = params.length + 14 from by omega]
  have hlen : (okResponse TPM_ST_SESSIONS params).length = params.length + 14 := by
    rw [hresponse]
    simp only [List.length_append, be_length]
    omega
  have htag : slice (okResponse TPM_ST_SESSIONS params) 0 2 = be 2 TPM_ST_SESSIONS_RSP := by
    rw [hresponse, slice, List.drop_zero, List.take_left' (be_length ..)]
  have hsize : slice (okResponse TPM_ST_SESSIONS params) 2 4 = be 4 (params.length + 14) := by
    rw [hresponse, slice, List.drop_left' (be_length ..), List.take_left' (be_length ..)]
  have hparams : slice (okResponse TPM_ST_SESSIONS params) 10 4 = be 4 params.length := by
    rw [hresponse, slice, ← List.append_assoc, ← List.append_assoc,
      List.drop_left' (by simp only [List.length_append, be_length]), List.take_left' (be_length ..)]
  rw [checkSizes, if_neg (by omega)]
  simp only [htag, hsize, hparams, hlen]
  rw [beNat_be (show params.length + 14 < 256 ^ 4 from by omega),
    beNat_be (show params.length < 256 ^ 4 from by omega), beNat_be (by decide)]
  simp

/-! ## The verdict -/

theorem pcrValues_hex {values : List Bytes} (h : ∀ v ∈ values, v.length = 32) :
    pcrValues (values.map hexEncode) = .ok values := by
  have hdecode : (values.map hexEncode).mapM (hexField "pcr value hex") = .ok values := by
    clear h
    induction values with
    | nil => rfl
    | cons v vs ih =>
      rw [List.map_cons, List.mapM_cons]
      exact Checks.bind_eq_ok.mpr ⟨v, hexField_eq_ok.mpr (hexDecode_hexEncode v),
        Checks.bind_eq_ok.mpr ⟨vs, ih, rfl⟩⟩
  rw [pcrValues]
  refine Checks.bind_eq_ok.mpr ⟨values, hdecode, ?_⟩
  clear hdecode
  induction values with
  | nil => rfl
  | cons v vs ih =>
    obtain ⟨hv, hvs⟩ := List.forall_mem_cons.mp h
    rw [List.mapM_cons]
    exact Checks.bind_eq_ok.mpr ⟨v, if_pos hv, Checks.bind_eq_ok.mpr ⟨vs, ih hvs, rfl⟩⟩

/-- The registers of a quote. -/
def quotedPcrs : List (Fin 24) := selectedPcrs (.singleSha256 DC_QUOTE_PCR_MASK)

/-- They are the first twelve. -/
theorem mem_quotedPcrs {pcr : Fin 24} : pcr ∈ quotedPcrs ↔ (pcr : Nat) < 12 := by
  revert pcr
  decide

/-- The registers of a quote as they are. -/
def quotedValues (t : SynthTpm) : List Bytes := quotedPcrs.map fun pcr => (t.pcrs pcr).bytes

theorem recomputePcrDigest_live (crypto : QuoteCrypto) (t : SynthTpm) :
    recomputePcrDigest crypto (.singleSha256 DC_QUOTE_PCR_MASK) (quotedValues t)
      = (crypto.sha256 (t.selectedValues (.singleSha256 DC_QUOTE_PCR_MASK))).bytes := by
  have hcount : (PcrSelection.sha256 DC_QUOTE_PCR_MASK).count = 12 := by decide
  have hlen : (quotedValues t).length = 12 := by
    rw [quotedValues, List.length_map]
    decide
  rw [recomputePcrDigest_single, hcount, List.take_of_length_le (by omega), quotedValues, quotedPcrs,
    selectedValues, List.flatMap_def]

/-- The P-256 crate takes the emulator's key and every signature of it. -/
def Accepts (crypto : QuoteCrypto) (aik : SynthKey) : Prop :=
  ∃ point key, crypto.encodedPoint ([0x04] ++ aik.x.bytes ++ aik.y.bytes) = .ok point ∧
    crypto.verifyingKey point = .ok key ∧
    ∀ message, ∃ signature,
      crypto.fromDer (signatureDer (aik.sign message).1.bytes (aik.sign message).2.bytes)
        = .ok signature ∧ crypto.verify key message signature = .ok ()

/-- What the host puts together on the emulator. -/
def liveBundle (crypto : QuoteCrypto) (aik : SynthKey) (persistent : Nat) (nonce : Bytes)
    (t : SynthTpm) : QuoteBundle :=
  capturedBundle crypto (aikHandle aik persistent) nonce (quotedValues t)
    (okResponse TPM_ST_SESSIONS (quoteAttest t crypto.sha256 aik nonce DC_QUOTE_PCR_MASK
      ++ quoteSignature (aik.sign
        (quoteAttest t crypto.sha256 aik nonce DC_QUOTE_PCR_MASK))))
    (quoted t crypto.sha256 aik nonce DC_QUOTE_PCR_MASK)
    (quotedSignature (aik.sign
      (quoteAttest t crypto.sha256 aik nonce DC_QUOTE_PCR_MASK)))

theorem pcrValues_live (t : SynthTpm) : pcrValues ((quotedValues t).map hexEncode) = .ok (quotedValues t) := by
  refine pcrValues_hex fun v hv => ?_
  obtain ⟨pcr, -, rfl⟩ := List.mem_map.mp hv
  exact Block.size _

/-- An honest quote verifies, a doctored one fails at its digest. -/
theorem verifyQuote_live {crypto : QuoteCrypto} (haccept : Accepts crypto aik) (persistent : Nat)
    (nonce : Bytes) (t : SynthTpm) :
    verifyQuote crypto (liveBundle crypto aik persistent nonce t)
        (quoted t crypto.sha256 aik nonce DC_QUOTE_PCR_MASK)
      = if t.tamperMode then
          .error (.verification "pcrDigest does not match SHA-256 of claimed PCR values")
        else .ok true := by
  obtain ⟨point, key, hpoint, hkey, hverify⟩ := haccept
  have hmask : bundleMask DC_QUOTE_PCR_MASK.bytes = DC_QUOTE_PCR_MASK := rfl
  have hvalues := pcrValues_live t
  have hdigest := recomputePcrDigest_live crypto t
  cases htamper : t.tamperMode with
  | false =>
    rw [if_neg Bool.false_ne_true]
    obtain ⟨signature, hder, hsigned⟩ := hverify
      (quoteAttest t crypto.sha256 aik nonce DC_QUOTE_PCR_MASK)
    refine verifyQuote_iff.mpr ⟨rfl, rfl, rfl, hexDecode_hexEncode _, ⟨_, hexDecode_hexEncode _, rfl⟩,
      ⟨_, hvalues, ?_⟩, aik.x.bytes, aik.y.bytes, point, key, _, _, signature, hexDecode_hexEncode _,
      hexDecode_hexEncode _, hpoint, hkey, hexDecode_hexEncode _, hexDecode_hexEncode _, hder, hsigned⟩
    show (if t.tamperMode then _ else _ : Bytes) = _
    rw [htamper, if_neg Bool.false_ne_true]
    exact hdigest.symm
  | true =>
    rw [if_pos rfl]
    have hne : doctored (crypto.sha256 (t.selectedValues (.singleSha256 DC_QUOTE_PCR_MASK))).bytes
        ≠ (crypto.sha256 (t.selectedValues (.singleSha256 DC_QUOTE_PCR_MASK))).bytes :=
      doctored_ne fun h => absurd (congrArg List.length h) (by rw [Block.size]; decide)
    simp only [verifyQuote, liveBundle, capturedBundle, quoted, quoteBody, hexField,
      hexDecode_hexEncode, htamper, hmask, hvalues, hdigest, bind, Except.bind, ne_eq,
      not_true_eq_false, if_false, if_true, hne, not_false_eq_true, throw, throwThe, MonadExceptOf.throw]

/-- A capture reads the registers, asks for the quote and checks it. -/
theorem ends_generateQuote {crypto : QuoteCrypto} (haccept : Accepts crypto aik) {persistent : Nat}
    (hhandle : persistent < 2 ^ 32) {nonce : Bytes} (hne : nonce ≠ []) (hlen : nonce.length ≤ 32) :
    Ends (generateQuote crypto (transport crypto.sha256 aik) (aikHandle aik persistent) nonce) t
      (if t.tamperMode then
        .err (.verification "pcrDigest does not match SHA-256 of claimed PCR values")
      else .ok { liveBundle crypto aik persistent nonce t with locallyVerified := true })
      (withTick t) := by
  have hcap : nonce.length ≤ TPM2B_CAP := hlen.trans (by decide)
  rw [generateQuote, if_neg (by rw [not_or]; exact ⟨hne, by omega⟩)]
  have hread : Ends (readPcrs (transport crypto.sha256 aik) DC_QUOTE_PCR_MASK) t
      (.ok ⟨.singleSha256 DC_QUOTE_PCR_MASK, quotedValues t⟩) t :=
    (ends_transactOwned (.inr rfl) (handle_pcrRead t DC_QUOTE_PCR_MASK)).bind
      (.ofExcept_ok (by rw [parsePcrRead_live]; rfl) t)
  refine hread.bind ((ends_transact (handle_quote t hhandle hcap DC_QUOTE_PCR_MASK)).bind ?_)
  refine (Ends.ofExcept_ok (generatedParts_quote hcap DC_QUOTE_PCR_MASK _) _).bind ?_
  have hverdict := verifyQuote_live haccept persistent nonce t
  cases htamper : t.tamperMode with
  | false =>
    rw [htamper, if_neg Bool.false_ne_true] at hverdict
    rw [if_neg Bool.false_ne_true]
    exact (Ends.ofExcept_ok hverdict _).bind (.ret _ _)
  | true =>
    rw [htamper, if_pos rfl] at hverdict
    rw [if_pos rfl]
    refine Ends.bind_err (fun log => ⟨log, ?_⟩)
    exact congrArg (fun x => (Prog.ofExcept x : Prog (Host SynthTpm) TpmError Bool) ⟨withTick t, log⟩)
      hverdict

/-! ## What the registers say -/

/-- A register with an artifact taken in, if there is one. -/
def taken (sha256 : Bytes → Block 32) (old : Block 32) : Option Bytes → Block 32
  | none => old
  | some data => sha256 (old.bytes ++ (sha256 data).bytes)

@[simp] theorem pcrs_withArtifact (pcr q : Fin 24) (artifact : Option Bytes) :
    (withArtifact t sha256 pcr artifact).pcrs q
      = if q = pcr then taken sha256 (t.pcrs pcr) artifact else t.pcrs q := by
  cases artifact with
  | none => by_cases hq : q = pcr <;> simp [withArtifact, taken, hq]
  | some data => exact Function.update_apply ..

/-- Each artifact goes to its own register, and the others stay. -/
theorem pcrs_measured (a : Artifacts) (q : Fin 24) :
    (measured t sha256 a).pcrs q =
      if q = 11 then taken sha256 (t.pcrs 11) (some a.evidenceTag)
      else if q = 10 then taken sha256 (t.pcrs 10) a.binary
      else if q = 9 then taken sha256 (t.pcrs 9) a.initramfs
      else if q = 8 then taken sha256 (t.pcrs 8) a.kernel
      else t.pcrs q := by
  have hlast : measured t sha256 a = withArtifact (withArtifact (withArtifact (withArtifact t sha256 8
    a.kernel) sha256 9 a.initramfs) sha256 10 a.binary) sha256 11 (some a.evidenceTag) := rfl
  rw [hlast]
  simp [pcrs_withArtifact]

/-- The strings that are hashed for an artifact. -/
def hashedFor (sha256 : Bytes → Block 32) (old : Block 32) (artifact : Option Bytes) : Set Bytes :=
  {b | ∃ data ∈ artifact, b = data ∨ b = old.bytes ++ (sha256 data).bytes}

/-- The strings that are hashed for all artifacts. -/
def hashedForAll (sha256 : Bytes → Block 32) (t : SynthTpm) (a : Artifacts) : Set Bytes :=
  hashedFor sha256 (t.pcrs 8) a.kernel ∪ hashedFor sha256 (t.pcrs 9) a.initramfs
    ∪ hashedFor sha256 (t.pcrs 10) a.binary ∪ hashedFor sha256 (t.pcrs 11) (some a.evidenceTag)

theorem taken_inj {old : Block 32} {x y : Option Bytes} {s : Set Bytes} (hsome : x.isSome = y.isSome)
    (hx : hashedFor sha256 old x ⊆ s) (hy : hashedFor sha256 old y ⊆ s) (hsha : Set.InjOn sha256 s)
    (h : taken sha256 old x = taken sha256 old y) : x = y := by
  cases x with
  | none =>
    cases y with
    | none => rfl
    | some d => cases hsome
  | some c =>
    cases y with
    | none => cases hsome
    | some d =>
      have hext := hsha (hx ⟨c, rfl, .inr rfl⟩) (hy ⟨d, rfl, .inr rfl⟩) h
      have hdigest := Block.ext (List.append_cancel_left hext)
      exact congrArg some (hsha (hx ⟨c, rfl, .inl rfl⟩) (hy ⟨d, rfl, .inl rfl⟩) hdigest)

/-- The same files were there. -/
def Artifacts.SamePresence (a b : Artifacts) : Prop :=
  a.kernel.isSome = b.kernel.isSome ∧ a.initramfs.isSome = b.initramfs.isSome ∧
    a.binary.isSome = b.binary.isSome

theorem measured_injective {a b : Artifacts} (hsame : Artifacts.SamePresence a b)
    (hsha : Set.InjOn sha256 (hashedForAll sha256 t a ∪ hashedForAll sha256 t b))
    (h : quotedValues (measured t sha256 a) = quotedValues (measured t sha256 b)) : a = b := by
  have hpcr : ∀ pcr : Fin 24, (pcr : Nat) < 12 →
      (measured t sha256 a).pcrs pcr = (measured t sha256 b).pcrs pcr := fun pcr hlt =>
    Block.ext (List.map_inj_left.mp h pcr (mem_quotedPcrs.mpr hlt))
  obtain ⟨hkernel, hinitramfs, hbinary⟩ := hsame
  have h8 := hpcr 8 (by decide)
  have h9 := hpcr 9 (by decide)
  have h10 := hpcr 10 (by decide)
  have h11 := hpcr 11 (by decide)
  simp only [pcrs_measured, show (8 : Fin 24) ≠ 11 from by decide, show (8 : Fin 24) ≠ 10 from by decide,
    show (8 : Fin 24) ≠ 9 from by decide, show (9 : Fin 24) ≠ 11 from by decide,
    show (9 : Fin 24) ≠ 10 from by decide, show (10 : Fin 24) ≠ 11 from by decide, if_true,
    if_false] at h8 h9 h10 h11
  have h8 := taken_inj hkernel (fun _ h => .inl (.inl (.inl (.inl h))))
    (fun _ h => .inr (.inl (.inl (.inl h)))) hsha h8
  have h9 := taken_inj hinitramfs (fun _ h => .inl (.inl (.inl (.inr h))))
    (fun _ h => .inr (.inl (.inl (.inr h)))) hsha h9
  have h10 := taken_inj hbinary (fun _ h => .inl (.inl (.inr h))) (fun _ h => .inr (.inl (.inr h))) hsha h10
  have h11 : some a.evidenceTag = some b.evidenceTag :=
    taken_inj rfl (fun _ h => .inl (.inr h)) (fun _ h => .inr (.inr h)) hsha h11
  cases a
  cases b
  simp only [Option.some.injEq] at h8 h9 h10 h11
  rw [h8, h9, h10, h11]

end

end SynthTpm

open SynthTpm

/-- **An attestation from end to end.** On the emulator in any state, an honest one, the three steps
give a bundle that verifies again, with the nonce of the caller and the registers as they are with
the artifacts measured; a doctored one gives no bundle. As far as SHA-256 tells what is hashed
apart, two attestations from one state that carry the same values measured the same artifacts. -/
theorem attested_run {crypto : QuoteCrypto} {aik : SynthKey} (blake3 : Bytes → Block 32)
    (haccept : Accepts crypto aik) (t : SynthTpm) (a : Artifacts) {persistent : Nat}
    (hlow : TPM_HR_PERSISTENT ≤ persistent) (hhigh : persistent ≤ TPM_HR_PERSISTENT_LAST)
    {nonce : Bytes} (hne : nonce ≠ []) (hlen : nonce.length ≤ 32) :
    (t.tamperMode = false → ∃ bundle,
      Ends (attest (transport crypto.sha256 aik) blake3 crypto persistent a nonce) t
        (.ok (reportOf blake3 a, bundle)) (withTick (measured (withStartup t) crypto.sha256 a)) ∧
      verifyBundle crypto bundle = .ok true ∧ bundle.locallyVerified = true ∧
      hexDecode bundle.nonceHex = some nonce ∧ bundle.mask = some DC_QUOTE_PCR_MASK ∧
      pcrValues bundle.pcrValuesHex = .ok (quotedValues (measured t crypto.sha256 a))) ∧
    (t.tamperMode = true →
      Ends (attest (transport crypto.sha256 aik) blake3 crypto persistent a nonce) t
        (.err (.verification "pcrDigest does not match SHA-256 of claimed PCR values"))
        (withTick (measured (withStartup t) crypto.sha256 a))) ∧
    ∀ b, Artifacts.SamePresence a b →
      Set.InjOn crypto.sha256 (hashedForAll crypto.sha256 t a ∪ hashedForAll crypto.sha256 t b) →
      quotedValues (measured t crypto.sha256 a) = quotedValues (measured t crypto.sha256 b) → a = b := by
  have hhandle : persistent < 2 ^ 32 := by
    unfold TPM_HR_PERSISTENT_LAST at hhigh
    omega
  have hcap : nonce.length ≤ TPM2B_CAP := hlen.trans (by decide)
  set final := measured (withStartup t) crypto.sha256 a with hfinal
  have hmode : final.tamperMode = t.tamperMode := by
    rw [hfinal, measured]
    cases a.kernel <;> cases a.initramfs <;> cases a.binary <;> rfl
  have hvalues : quotedValues final = quotedValues (measured t crypto.sha256 a) := by
    refine List.map_congr_left fun pcr _ => ?_
    rw [hfinal, pcrs_measured, pcrs_measured]
    rfl
  have hquote := ends_generateQuote (t := final) haccept hhandle hne hlen
  -- the quote is the last step, so it decides how the run ends
  have hrun : ∀ {o : Outcome TpmError (MeasurementReport × QuoteBundle)}, Ends (do
        let bundle ← generateQuote crypto (transport crypto.sha256 aik) (aikHandle aik persistent) nonce
        pure (reportOf blake3 a, bundle)) final o (withTick final) →
      Ends (attest (transport crypto.sha256 aik) blake3 crypto persistent a nonce) t o
        (withTick final) := fun hrest =>
    (ends_new hlow hhigh).bind ((ends_measureArtifacts a).bind hrest)
  refine ⟨fun hhonest => ?_, fun htamper => ?_, fun b hsame hsha => measured_injective hsame hsha⟩
  · rw [hmode, hhonest, if_neg Bool.false_ne_true] at hquote
    have hverdict := verifyQuote_live haccept persistent nonce final
    rw [hmode, hhonest, if_neg Bool.false_ne_true] at hverdict
    refine ⟨_, hrun (hquote.bind (.ret _ _)), ?_, rfl, hexDecode_hexEncode _, ?_, ?_⟩
    · -- the response is short enough to declare its own sizes
      refine (verifyBundle_captured (generatedParts_quote hcap _ _) hverdict).mpr
        ⟨checkSizes_ok ?_, rfl, rfl⟩
      rw [List.length_append, length_quoteAttest, length_quoteSignature]
      omega
    · show (hexDecode (hexEncode DC_QUOTE_PCR_MASK.bytes)).map bundleMask = _
      rw [hexDecode_hexEncode]
      rfl
    · rw [← hvalues]
      exact pcrValues_live final
  · rw [hmode, htamper, if_pos rfl] at hquote
    exact hrun hquote.bind_err

/-- A stand-in for the P-256 crate: a message has one signature, its digest twice. -/
def toyCrypto : QuoteCrypto where
  sha256 := toySha
  Point := Bytes
  Key := Bytes
  Sig := Bytes
  encodedPoint := fun b => if b.length = 65 then .ok b else .error "invalid length"
  verifyingKey := .ok
  fromDer := .ok
  verify := fun _ message signature =>
    if signature = signatureDer (toySha message).bytes (toySha message).bytes then .ok ()
    else .error "signature error"

def toySigner : SynthKey := ⟨zeroDigest, zeroDigest, fun message => (toySha message, toySha message)⟩

theorem toyCrypto_accepts : Accepts toyCrypto toySigner := by
  have hlen : ([0x04] ++ toySigner.x.bytes ++ toySigner.y.bytes : Bytes).length = 65 := by
    simp only [List.length_append, Block.size, List.length_singleton]
  have hpoint : toyCrypto.encodedPoint ([0x04] ++ toySigner.x.bytes ++ toySigner.y.bytes)
      = .ok ([0x04] ++ toySigner.x.bytes ++ toySigner.y.bytes : Bytes) := by
    simp only [toyCrypto, hlen, if_true]
  have hverify : ∀ message, toyCrypto.verify ([0x04] ++ toySigner.x.bytes ++ toySigner.y.bytes : Bytes)
      message (signatureDer (toySha message).bytes (toySha message).bytes) = .ok () := by
    intro message
    simp only [toyCrypto, if_true]
  exact ⟨_, _, hpoint, rfl, fun message => ⟨_, rfl, hverify message⟩⟩

/-- A kernel and a binary, and no initramfs. -/
def toyArtifacts : Artifacts := ⟨some [1], none, some [2], [3]⟩

/-- A fresh TPM attests, a doctored one does not. -/
theorem attested_run_new :
    (∃ bundle, Ends (attest (transport toySha toySigner) toySha toyCrypto TPM_HR_PERSISTENT toyArtifacts
        [9]) new (.ok (reportOf toySha toyArtifacts, bundle))
        (withTick (measured (withStartup new) toySha toyArtifacts)) ∧
      verifyBundle toyCrypto bundle = .ok true) ∧
    Ends (attest (transport toySha toySigner) toySha toyCrypto TPM_HR_PERSISTENT toyArtifacts [9])
      { new with tamperMode := true }
      (.err (.verification "pcrDigest does not match SHA-256 of claimed PCR values"))
      (withTick (measured (withStartup { new with tamperMode := true }) toySha toyArtifacts)) := by
  have hrun := fun t a => @attested_run _ _ toySha toyCrypto_accepts t a TPM_HR_PERSISTENT
    (by decide) (by decide) [9]
  constructor
  · obtain ⟨bundle, hends, hverified, -⟩ := (hrun new toyArtifacts (by decide) (by decide)).1 rfl
    exact ⟨bundle, hends, hverified⟩
  · exact (hrun { new with tamperMode := true } toyArtifacts (by decide) (by decide)).2.1 rfl

/-- **A captured bundle replays** exactly when the response declares its own sizes, whatever the TPM
is, and its signature names ECDSA over SHA-256. -/
theorem captured_bundle_replays {S : Type} {crypto : QuoteCrypto} {tpm : Transport S} {aik : AikHandle}
    {nonce : Bytes} {h h' : Host S} {b : QuoteBundle}
    (hrun : generateQuote crypto tpm aik nonce h = (.ok b, h')) :
    b.locallyVerified = true ∧ hexDecode b.nonceHex = some nonce ∧ b.mask = some DC_QUOTE_PCR_MASK ∧
    ∃ response attest sig, ⟨encodeQuote aik.persistent nonce (.singleSha256 DC_QUOTE_PCR_MASK),
        .ok response⟩ ∈ h'.log ∧
      hexDecode b.quoteResponseHex = some response ∧ generatedParts response = .ok (attest, sig) ∧
      attest.extraData = nonce ∧
      (verifyBundle crypto b = .ok true ↔ checkSizes response = .ok () ∧
        sig.alg = TPM_ALG_ECDSA ∧ sig.hashAlg = TPM_ALG_SHA256) := by
  obtain ⟨digests, response, attest, sig, hlog, hparts, hverdict, rfl⟩ := generateQuote_ok hrun
  obtain ⟨-, -, -, hextra, -⟩ := verifyQuote_iff.mp hverdict
  have hmask : bundleMask DC_QUOTE_PCR_MASK.bytes = DC_QUOTE_PCR_MASK := rfl
  refine ⟨rfl, hexDecode_hexEncode _, ?_, response, attest, sig, hlog, hexDecode_hexEncode _, hparts,
    ?_, verifyBundle_captured hparts hverdict⟩
  · simp only [QuoteBundle.mask, capturedBundle, hexDecode_hexEncode, Option.map_some, hmask]
  · rw [capturedBundle, hexDecode_hexEncode] at hextra
    exact (Option.some.inj hextra).symm

/-- The quote of a fresh TPM replays. -/
theorem captured_bundle_replays_new : ∃ b h',
    generateQuote toyCrypto (transport toySha toySigner) (aikHandle toySigner TPM_HR_PERSISTENT) [9]
      ⟨new, []⟩ = (.ok b, h') ∧ hexDecode b.nonceHex = some [9] := by
  have hquote := @ends_generateQuote _ new _ toyCrypto_accepts TPM_HR_PERSISTENT (by decide) [9]
    (by decide) (by decide)
  rw [if_neg (by decide)] at hquote
  obtain ⟨log, hrun⟩ := hquote []
  exact ⟨_, _, hrun, (captured_bundle_replays hrun).2.1⟩

end Tpm

end DiscCleaner
