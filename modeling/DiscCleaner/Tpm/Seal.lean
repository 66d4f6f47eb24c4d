import DiscCleaner.Tpm.Wire
import DiscCleaner.Lib.Prog

/-!
# DiscCleaner — sealed keys (`dc-tpm/seal.rs`)

The host side of the sealing and unsealing ladders, over any transport. The host keeps what was
exchanged with the TPM; wiping buffers and pinning pages are left out.
-/

namespace DiscCleaner

open ByteLib ProgLib

namespace Tpm

/-! ## Transports -/

/-- Something that answers commands. -/
structure Transport (S : Type) where
  transact : Bytes → S → Except TpmError Bytes × S
  describe : S → String

structure TpmExchange where
  command : Bytes
  reply : Except TpmError Bytes

structure Host (S : Type) where
  tpm : S
  log : List TpmExchange

/-- The on-disk artifact. -/
structure SealedKeyBlob where
  schema : String
  privateHex : String
  publicHex : String
  policyHex : String
  pcrMaskHex : String
  pcrList : String
  sealedBy : String
  createdUtc : Nat
  deriving DecidableEq

def SealedKeyBlob.SCHEMA : String := "dc.tpm-sealed/v1"

/-- "0,1,...,11" for a mask. -/
def maskToPcrList (mask : PcrMask) : String :=
  String.intercalate "," (((List.range 32).filter (PcrSelection.sha256 mask).selects).map toString)

/-- A mask from its text; what the hex crate says of a bad text is left out. -/
def decodeMask (hexStr : String) : Except TpmError PcrMask :=
  match hexDecode hexStr with
  | none => .error (.wire "pcr mask hex")
  | some bytes =>
    match Block.ofBytes? 4 bytes with
    | none => .error (.wire "pcr mask must be 4 bytes")
    | some mask => .ok mask

/-- A parser's result under the name of its step. -/
def wireStep {α : Type} (what : String) : Except WireError α → Except TpmError α
  | .ok a => .ok a
  | .error e => .error (.wire (what ++ ": TPM wire protocol violation: " ++ e.toText))

section

variable {S : Type} (tpm : Transport S)

def replied {α : Type} : Except TpmError α → Outcome TpmError α
  | .ok a => .ok a
  | .error e => .err e

def transact (command : Bytes) : Prog (Host S) TpmError Bytes := fun h =>
  (replied (tpm.transact command h.tpm).1,
    ⟨(tpm.transact command h.tpm).2, h.log ++ [⟨command, (tpm.transact command h.tpm).1⟩]⟩)

/-- One command, and the parameters of its response. -/
def transactOwned (command : Bytes) : Prog (Host S) TpmError Bytes := do
  let response ← transact tpm command
  Prog.ofExcept (classifyResponse response)

/-! ## The ladders -/

/-- The digest over the values of the selected registers. -/
def currentPcrDigest (sha256 : Bytes → Bytes) (selection : PcrSelectionList) :
    Prog (Host S) TpmError Bytes := do
  let params ← transactOwned tpm (encodePcrRead selection)
  let read ← Prog.ofExcept (wireStep "PCR_Read" (parsePcrRead.value params))
  if read.digests = [] then
    Prog.fail (.policy "selected PCRs returned no digests — bank mismatch?")
  else pure (sha256 read.digests.flatten)

/-- "dc". -/
def FALLBACK_NONCE : Bytes := [0x64, 0x63]

def startSession (kind : Nat) : Prog (Host S) TpmError Nat := do
  let entropy ← transactOwned tpm (encodeGetRandom 16)
  let nonce ← Prog.ofExcept (wireResult (Reader.tpm2b.value entropy))
  let params ← transactOwned tpm
    (encodeStartAuthSession kind (if nonce = [] then FALLBACK_NONCE else nonce))
  let started ← Prog.ofExcept (wireStep "StartAuthSession" (parseStartAuthSession.value params))
  pure started.sessionHandle

def runPolicyPcr (session : Nat) (selection : PcrSelectionList) (pcrDigest : Bytes) :
    Prog (Host S) TpmError Bytes := do
  let _ ← transactOwned tpm (encodePolicyPcr session selection pcrDigest)
  let params ← transactOwned tpm (encodePolicyGetDigest session)
  Prog.ofExcept (wireStep "PolicyGetDigest" (parsePolicyDigest.value params))

/-- A flush whose answer is not looked at. -/
def flush (handle : Nat) : Prog (Host S) TpmError Unit := do
  let _ ← Prog.attempt (transactOwned tpm (encodeFlushContext handle))
  pure ()

/-- Seal a secret to the state of the registers in `mask`; `now` is the clock. -/
def «seal» (sha256 : Bytes → Bytes) (now : Nat) (secret : Bytes) (mask : PcrMask) :
    Prog (Host S) TpmError SealedKeyBlob :=
  if secret = [] ∨ secret.length > DC_SEALED_SECRET_MAX then
    Prog.fail (.policy ("sealed secret must be 1..=" ++ toString DC_SEALED_SECRET_MAX
      ++ " bytes (got " ++ toString secret.length ++ ")"))
  else do
    let pcrDigest ← currentPcrDigest tpm sha256 (.singleSha256 mask)
    let session ← startSession tpm TPM_SE_TRIAL
    let policyDigest ← runPolicyPcr tpm session (.singleSha256 mask) pcrDigest
    let _ ← transactOwned tpm (encodePolicyGetDigest session)
    let params ← transactOwned tpm (encodeCreateSealed TPM_RH_OWNER policyDigest secret)
    let created ← Prog.ofExcept (wireStep "TPM2_Create" (parseCreateSealed.value params))
    flush tpm session
    let h ← Prog.get
    pure
      { schema := SealedKeyBlob.SCHEMA
        privateHex := hexEncode created.priv
        publicHex := hexEncode created.pub
        policyHex := hexEncode policyDigest
        pcrMaskHex := hexEncode mask.bytes
        pcrList := maskToPcrList mask
        sealedBy := tpm.describe h.tpm
        createdUtc := now }

/-- The steps of an unseal between the session and the clean-up. -/
def unsealUnder (session handle : Nat) (selection : PcrSelectionList) (pcrDigest : Bytes) :
    Prog (Host S) TpmError Bytes := do
  let _ ← runPolicyPcr tpm session selection pcrDigest
  let params ← transactOwned tpm (encodeUnseal session handle)
  Prog.ofExcept (wireStep "TPM2_Unseal" (parseUnseal.value params))

/-- The part of an unseal that talks to the TPM. -/
def unsealLoaded (sha256 : Bytes → Bytes) (priv pub : Bytes) (mask : PcrMask) :
    Prog (Host S) TpmError Bytes := do
  let params ← transactOwned tpm (encodeLoad TPM_RH_OWNER priv pub)
  let loaded ← Prog.ofExcept (wireStep "TPM2_Load" (parseLoad.value params))
  let pcrDigest ← currentPcrDigest tpm sha256 (.singleSha256 mask)
  let session ← startSession tpm TPM_SE_POLICY
  let result ← Prog.attempt (unsealUnder tpm session loaded.handle (.singleSha256 mask) pcrDigest)
  flush tpm session
  flush tpm loaded.handle
  Prog.ofExcept result

/-- Unseal a blob under the current state of the registers. -/
def «unseal» (sha256 : Bytes → Bytes) (blob : SealedKeyBlob) : Prog (Host S) TpmError Bytes :=
  if blob.schema ≠ SealedKeyBlob.SCHEMA then
    Prog.fail (.policy ("unknown sealed-blob schema '" ++ blob.schema ++ "'"))
  else
    match hexDecode blob.privateHex with
    | none => Prog.fail (.wire "private blob hex")
    | some priv =>
      match hexDecode blob.publicHex with
      | none => Prog.fail (.wire "public blob hex")
      | some pub => do
        let mask ← Prog.ofExcept (decodeMask blob.pcrMaskHex)
        unsealLoaded tpm sha256 priv pub mask

end

end Tpm

end DiscCleaner
