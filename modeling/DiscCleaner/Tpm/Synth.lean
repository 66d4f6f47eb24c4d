import DiscCleaner.Tpm.Seal
import Mathlib.Logic.Function.Basic

/-!
# DiscCleaner — the synthetic TPM (`dc-tpm/synth.rs`)

The emulator that the ladders are tested against: registers, sessions and loaded objects, and one
answer for every command. Fields that are missing from a command are read as defaults. SHA-256 and
the attestation key are parameters; counters wrap around as in a release build.
-/

namespace DiscCleaner

open ByteLib

namespace Tpm

def TPM_CC_STARTUP : Nat := 0x00000144
def TPM_CC_SHUTDOWN : Nat := 0x00000145
def TPM_CC_PCR_EXTEND : Nat := 0x00000182
def TPM_CC_CREATE_PRIMARY : Nat := 0x00000131
def TPM_CC_READ_PUBLIC : Nat := 0x00000173
def TPM_CC_EVICT_CONTROL : Nat := 0x00000120
def TPM_CC_QUOTE : Nat := 0x00000158

def TPM_RC_INITIALIZE : Nat := 0x00000100
def TPM_RC_POLICY_FAIL : Nat := 0x00000099
def TPM_RC_SIZE : Nat := 0x000001D5

def TPM_ECC_NIST_P256 : Nat := 0x0003

def AIK_OBJECT_ATTRIBUTES : Nat := 0x00050072

/-! ## Readers of commands -/

namespace Scan

open ByteLib.Scan

def u16 : Scan Nat := word 2

def u32 : Scan Nat := word 4

def tpm2b : Scan Bytes := do
  let len ← u16
  if len > TPM2B_CAP then fail else raw len

def pcrSelection : Scan PcrSelection := do
  let hashAlg ← u16
  let size ← word 1
  if size > 4 then fail
  else do
    let select ← raw size
    pure ⟨hashAlg, PcrSelection.padded select⟩

def pcrSelectionList : Scan PcrSelectionList := do
  let count ← u32
  if count > 4 then fail
  else do
    let selections ← pcrSelection.times count
    pure ⟨selections⟩

end Scan

/-- The selection that stands for one that cannot be read. -/
def noRegister : PcrSelectionList := .singleSha256 (PcrSelection.padded [])

/-! ## State -/

/-- The attestation key, as P-256 uses it. -/
structure SynthKey where
  x : Block 32
  y : Block 32
  sign : Bytes → Block 32 × Block 32

structure SynthSession where
  kind : Nat
  policyDigest : Block 32

structure SynthSealed where
  policy : Block 32
  data : Bytes

structure SynthTpm where
  pcrs : Fin 24 → Block 32
  started : Bool
  clock : Nat
  resetCount : Nat
  restartCount : Nat
  firmwareVersion : Nat
  /-- Quotes sign a doctored attestation. -/
  tamperMode : Bool
  sessions : Nat → Option SynthSession
  sealedObjects : Nat → Option SynthSealed
  nextSession : Nat
  nextTransient : Nat

namespace SynthTpm

def zeroDigest : Block 32 := ⟨List.replicate 32 0, zeroDigest_length⟩

def new : SynthTpm where
  pcrs := fun _ => zeroDigest
  started := false
  clock := 1000
  resetCount := 3
  restartCount := 1
  firmwareVersion := 0x0001000200030004
  tamperMode := false
  sessions := fun _ => none
  sealedObjects := fun _ => none
  nextSession := 0x03000001
  nextTransient := 0x80000100

/-- The registers that are selected in the SHA-256 bank. -/
def selectedPcrs (list : PcrSelectionList) : List (Fin 24) :=
  list.selections.flatMap fun sel =>
    if sel.hashAlg ≠ TPM_ALG_SHA256 then [] else (List.finRange 24).filter fun pcr => sel.selects pcr

/-- The values of the selected registers, one behind the other. -/
def selectedValues (t : SynthTpm) (list : PcrSelectionList) : Bytes :=
  (selectedPcrs list).flatMap fun pcr => (t.pcrs pcr).bytes

/-! ## Responses -/

def sessionsResponse (paramsWithSize : Bytes) : Bytes :=
  be 2 TPM_ST_SESSIONS_RSP ++ be 4 (10 + paramsWithSize.length) ++ be 4 TPM_RC_SUCCESS
    ++ paramsWithSize

def okResponse (cmdTag : Nat) (params : Bytes) : Bytes :=
  if cmdTag = TPM_ST_SESSIONS then sessionsResponse (be 4 params.length ++ params)
  else be 2 TPM_ST_NO_SESSIONS ++ be 4 (10 + params.length) ++ be 4 TPM_RC_SUCCESS ++ params

def errorResponse (code : Nat) : Bytes := be 2 TPM_ST_NO_SESSIONS ++ be 4 10 ++ be 4 code

/-! ## Commands -/

section

variable (sha256 : Bytes → Block 32) (aik : SynthKey)

/-- Digests of what is there already, until there are enough bytes. -/
def growPayload (bytes : Nat) : Nat → Bytes → Bytes
  | 0, payload => payload
  | n + 1, payload =>
    if payload.length < bytes then growPayload bytes n (payload ++ (sha256 payload).bytes) else payload

def getRandom (t : SynthTpm) (tag : Nat) (r : Bytes) : Bytes × SynthTpm :=
  let (bytes, _) := Scan.u16.orElse 32 r
  let digest := (sha256 (be 8 t.clock).reverse).bytes
  (okResponse tag (tpm2b ((growPayload sha256 bytes bytes digest).take bytes)), t)

def pcrRead (t : SynthTpm) (tag : Nat) (r : Bytes) : Bytes × SynthTpm :=
  let (list, _) := Scan.pcrSelectionList.orElse noRegister r
  let selected := selectedPcrs list
  (okResponse tag (list.write ++ be 4 selected.length
    ++ selected.flatMap fun pcr => tpm2b (t.pcrs pcr).bytes), t)

/-- One digest of an extend: only SHA-256 ones are read. -/
def readDigestValue (st : Option (Block 32) × Bytes) : Option (Block 32) × Bytes :=
  let (alg, r) := Scan.u16.orElse TPM_ALG_SHA256 st.2
  if alg = TPM_ALG_SHA256 then
    match Scan.raw 32 r with
    | (some fixed, r) => ((Block.ofBytes? 32 fixed).or st.1, r)
    | (none, r) => (st.1, r)
  else (st.1, r)

def pcrExtend (t : SynthTpm) (tag : Nat) (r : Bytes) : Bytes × SynthTpm :=
  let (pcr, r) := Scan.u32.orElse 0 r
  let (authSize, r) := Scan.u32.orElse 0 r
  match Scan.raw authSize r with
  | (none, _) => (errorResponse 0x0002, t)
  | (some _, r) =>
    let (count, r) := Scan.u32.orElse 0 r
    match (readDigestValue^[count] (none, r)).1 with
    | none => (okResponse tag [], t)
    | some v =>
      let idx : Fin 24 := ⟨min pcr 23, by omega⟩
      (okResponse tag [],
        { t with pcrs := Function.update t.pcrs idx (sha256 ((t.pcrs idx).bytes ++ v.bytes)) })

/-- The public area of the attestation key. -/
def aikPublic : Bytes :=
  be 2 TPM_ALG_ECC ++ be 2 TPM_ALG_SHA256 ++ be 4 AIK_OBJECT_ATTRIBUTES ++ tpm2b []
    ++ be 2 TPM_ALG_NULL ++ be 2 TPM_ALG_ECDSA ++ be 2 TPM_ALG_SHA256 ++ be 2 TPM_ECC_NIST_P256
    ++ be 2 TPM_ALG_NULL ++ tpm2b aik.x.bytes ++ tpm2b aik.y.bytes

/-- The first byte of a digest, flipped. -/
def doctored (digest : Bytes) : Bytes := digest.modifyHead (· ^^^ 0xFF)

def quote (t : SynthTpm) (r : Bytes) : Bytes × SynthTpm :=
  let (_, r) := Scan.u32.orElse 0 r
  let (authSize, r) := Scan.u32.orElse 0 r
  let (_, r) := (Scan.raw authSize).orElse [] r
  let (scheme, r) := Scan.u16.orElse TPM_ALG_NULL r
  let (hashAlg, r) := Scan.u16.orElse TPM_ALG_SHA256 r
  if scheme ≠ TPM_ALG_ECDSA ∨ hashAlg ≠ TPM_ALG_SHA256 then (errorResponse 0x0002, t)
  else
    let (qualifying, r) := Scan.tpm2b.orElse [] r
    let (list, _) := Scan.pcrSelectionList.orElse noRegister r
    let pcrDigest := (sha256 (t.selectedValues list)).bytes
    let clock := (t.clock + 1) % 2 ^ 64
    let name := [0x0B, 0x00] ++ (sha256 (aik.x.bytes ++ aik.y.bytes)).bytes
    let attest := be 4 TPM_GENERATED ++ be 2 TPM_ST_ATTEST_QUOTE ++ tpm2b name ++ tpm2b qualifying
      ++ be 8 clock ++ be 4 t.resetCount ++ be 4 t.restartCount ++ be 1 1
      ++ be 8 t.firmwareVersion ++ list.write
      ++ tpm2b (if t.tamperMode then doctored pcrDigest else pcrDigest)
    let sig := aik.sign attest
    let params := attest ++ (be 2 TPM_ALG_ECDSA ++ be 2 TPM_ALG_SHA256 ++ tpm2b sig.1.bytes
      ++ tpm2b sig.2.bytes)
    (sessionsResponse (be 4 params.length ++ params), { t with clock })

/-- The attestation commands. -/
def handleCommandBody (t : SynthTpm) (code tag : Nat) (r : Bytes) : Bytes × SynthTpm :=
  if code = TPM_CC_STARTUP then
    if t.started then (errorResponse TPM_RC_INITIALIZE, t)
    else (okResponse tag [], { t with started := true })
  else if code = TPM_CC_SHUTDOWN then (okResponse tag [], t)
  else if code = TPM_CC_GET_RANDOM then getRandom sha256 t tag r
  else if code = TPM_CC_PCR_READ then pcrRead t tag r
  else if code = TPM_CC_PCR_EXTEND then pcrExtend sha256 t tag r
  else if code = TPM_CC_CREATE_PRIMARY then
    (okResponse tag (be 4 0x800000FF ++ tpm2b (aikPublic aik)), t)
  else if code = TPM_CC_READ_PUBLIC then (okResponse tag (tpm2b (aikPublic aik)), t)
  else if code = TPM_CC_EVICT_CONTROL then (okResponse tag [], t)
  else if code = TPM_CC_QUOTE then quote sha256 aik t r
  else (errorResponse 0x00000143, t)

def startAuthSession (t : SynthTpm) (tag : Nat) (r : Bytes) : Bytes × SynthTpm :=
  let (_, r) := Scan.u32.orElse 0 r
  let (_, r) := Scan.u32.orElse 0 r
  let (nonceCaller, r) := Scan.tpm2b.orElse [] r
  let (_, r) := Scan.tpm2b.orElse [] r
  let (sessionType, _) := Scan.u16.orElse TPM_SE_HMAC r
  if sessionType ≠ TPM_SE_TRIAL ∧ sessionType ≠ TPM_SE_POLICY then (errorResponse 0x00000143, t)
  else
    let handle := t.nextSession
    (okResponse tag (be 4 handle ++ tpm2b nonceCaller),
      { t with
        nextSession := (handle + 1) % 2 ^ 32
        sessions := Function.update t.sessions handle (some ⟨sessionType, zeroDigest⟩) })

/-- `policyDigestNew = H(old || ccPolicyPCR || pcrs)`. -/
def extendPolicy (old : Block 32) (pcrDigest : Bytes) : Block 32 :=
  sha256 (old.bytes ++ be 4 TPM_CC_POLICY_PCR ++ pcrDigest)

def policyPcr (t : SynthTpm) (tag : Nat) (r : Bytes) : Bytes × SynthTpm :=
  let (sessionHandle, r) := Scan.u32.orElse 0 r
  let (authSize, r) := Scan.u32.orElse 0 r
  match Scan.raw authSize r with
  | (none, _) => (errorResponse 0x0002, t)
  | (some _, r) =>
    let (list, r) := Scan.pcrSelectionList.orElse noRegister r
    let (pcrDigest, _) := Scan.tpm2b.orElse [] r
    match t.sessions sessionHandle with
    | none => (errorResponse 0x00000098, t)
    | some session =>
      -- only a policy session is held to the live registers
      if session.kind = TPM_SE_POLICY ∧ (sha256 (t.selectedValues list)).bytes ≠ pcrDigest then
        (errorResponse TPM_RC_POLICY_FAIL, t)
      else
        (okResponse tag [],
          { t with
            sessions := Function.update t.sessions sessionHandle
              (some { session with
                policyDigest := extendPolicy sha256 session.policyDigest pcrDigest }) })

def policyGetDigest (t : SynthTpm) (tag : Nat) (r : Bytes) : Bytes × SynthTpm :=
  let (sessionHandle, r) := Scan.u32.orElse 0 r
  let (authSize, r) := Scan.u32.orElse 0 r
  match Scan.raw authSize r with
  | (none, _) => (errorResponse 0x0002, t)
  | (some _, _) =>
    match t.sessions sessionHandle with
    | none => (errorResponse 0x00000098, t)
    | some session => (okResponse tag (tpm2b session.policyDigest.bytes), t)

/-- The private blob: `policy || len || data || H(policy || data)`. -/
def privateBlob (policy : Block 32) (data : Bytes) : Bytes :=
  policy.bytes ++ be 4 data.length ++ data ++ (sha256 (policy.bytes ++ data)).bytes

def create (t : SynthTpm) (tag : Nat) (r : Bytes) : Bytes × SynthTpm :=
  let (parent, r) := Scan.u32.orElse 0 r
  let (authSize, r) := Scan.u32.orElse 0 r
  match Scan.raw authSize r with
  | (none, _) => (errorResponse 0x0002, t)
  | (some _, r) =>
    let (sensitive, r) := Scan.tpm2b.orElse [] r
    let (pub, _) := Scan.tpm2b.orElse [] r
    if parent ≠ TPM_RH_OWNER then (errorResponse 0x000000B5, t)
    else
      let (_, sr) := Scan.tpm2b.orElse [] sensitive
      let (data, _) := Scan.tpm2b.orElse [] sr
      if data = [] ∨ data.length > DC_SEALED_SECRET_MAX then (errorResponse TPM_RC_SIZE, t)
      else
        let (type, pr) := Scan.u16.orElse 0 pub
        let (nameAlg, pr) := Scan.u16.orElse 0 pr
        let (attrs, pr) := Scan.u32.orElse 0 pr
        if type ≠ TPM_ALG_KEYEDHASH ∨ nameAlg ≠ TPM_ALG_SHA256 ∨ attrs ≠ SEALED_OBJECT_ATTRIBUTES then
          (errorResponse 0x00000002, t)
        else
          match Block.ofBytes? 32 (Scan.tpm2b.orElse [] pr).1 with
          | none => (errorResponse 0x00000044, t)
          | some policy => (okResponse tag (tpm2b (privateBlob sha256 policy data) ++ tpm2b pub), t)

/-- The parts of a private blob: the policy, the declared length, the data and the digest. -/
def splitPrivate (priv : Bytes) : Bytes × Nat × Bytes × Bytes :=
  let (policy, lr) := (Scan.raw 32).orElse [] priv
  let (len, lr) := Scan.u32.orElse 0xFFFFFFFF lr
  let (data, lr) := if lr.length ≥ len then (Scan.raw len).orElse [] lr else ([], lr)
  let (tagBytes, _) := (Scan.raw 32).orElse [] lr
  (policy, len, data, tagBytes)

/-- The policy in a public area. -/
def publicPolicy (pub : Bytes) : Bytes :=
  let (_, pr) := Scan.u16.orElse 0 pub
  let (_, pr) := Scan.u16.orElse 0 pr
  let (_, pr) := Scan.u32.orElse 0 pr
  (Scan.tpm2b.orElse [] pr).1

def load (t : SynthTpm) (tag : Nat) (r : Bytes) : Bytes × SynthTpm :=
  let (parent, r) := Scan.u32.orElse 0 r
  let (authSize, r) := Scan.u32.orElse 0 r
  match Scan.raw authSize r with
  | (none, _) => (errorResponse 0x0002, t)
  | (some _, r) =>
    let (priv, r) := Scan.tpm2b.orElse [] r
    let (pub, _) := Scan.tpm2b.orElse [] r
    if parent ≠ TPM_RH_OWNER then (errorResponse 0x000000B5, t)
    else
      let (policy, len, data, tagBytes) := splitPrivate priv
      match Block.ofBytes? 32 policy with
      | none => (errorResponse 0x0003, t)
      | some policy =>
        if len ≠ data.length ∨ len = 0 ∨ len > DC_SEALED_SECRET_MAX then (errorResponse 0x0003, t)
        else if tagBytes ≠ (sha256 (policy.bytes ++ data)).bytes then (errorResponse 0x00000097, t)
        else if publicPolicy pub ≠ policy.bytes then (errorResponse 0x00000097, t)
        else
          let handle := t.nextTransient
          (okResponse tag (be 4 handle ++ tpm2b ([0x00, 0x0B] ++ (sha256 pub).bytes)),
            { t with
              nextTransient := (handle + 1) % 2 ^ 32
              sealedObjects := Function.update t.sealedObjects handle (some ⟨policy, data⟩) })

/-- The object and the session of an unseal; the session stands in the authorization area. -/
def unsealHandles (r : Bytes) : Nat × Nat :=
  let (objectHandle, r) := Scan.u32.orElse 0 r
  let (authSize, r) := Scan.u32.orElse 0 r
  (objectHandle, (Scan.u32.orElse 0 ((Scan.raw authSize).orElse [] r).1).1)

/-- What an unseal does with its two handles. -/
def release (t : SynthTpm) (handles : Nat × Nat) : Except Nat Bytes :=
  match t.sessions handles.2 with
  | none => .error 0x00000098
  | some session =>
    -- a trial session cannot authorize anything
    if session.kind ≠ TPM_SE_POLICY then .error 0x00000098
    else
      match t.sealedObjects handles.1 with
      | none => .error 0x00000098
      | some object =>
        if session.policyDigest ≠ object.policy then .error TPM_RC_POLICY_FAIL else .ok object.data

def unsealObject (t : SynthTpm) (tag : Nat) (r : Bytes) : Bytes × SynthTpm :=
  match t.release (unsealHandles r) with
  | .error code => (errorResponse code, t)
  | .ok data => (okResponse tag (tpm2b data), t)

def flushContext (t : SynthTpm) (tag : Nat) (r : Bytes) : Bytes × SynthTpm :=
  let (handle, _) := Scan.u32.orElse 0 r
  (okResponse tag [],
    { t with
      sessions := Function.update t.sessions handle none
      sealedObjects := Function.update t.sealedObjects handle none })

/-- `dispatch`, with the arms of `handle_seal_command`. -/
def dispatch (t : SynthTpm) (code tag : Nat) (r : Bytes) : Bytes × SynthTpm :=
  if code = TPM_CC_START_AUTH_SESSION then startAuthSession t tag r
  else if code = TPM_CC_POLICY_PCR then policyPcr sha256 t tag r
  else if code = TPM_CC_POLICY_GET_DIGEST then policyGetDigest t tag r
  else if code = TPM_CC_CREATE then create sha256 t tag r
  else if code = TPM_CC_LOAD then load sha256 t tag r
  else if code = TPM_CC_UNSEAL then unsealObject t tag r
  else if code = TPM_CC_FLUSH_CONTEXT then flushContext t tag r
  else handleCommandBody sha256 aik t code tag r

def handleCommand (command : Bytes) (t : SynthTpm) : Bytes × SynthTpm :=
  let (tag, r) := Scan.u16.orElse 0 command
  let (_, r) := Scan.u32.orElse 0 r
  let (code, r) := Scan.u32.orElse TPM_ALG_ERROR r
  dispatch sha256 aik t code tag r

/-- The emulator as something that answers commands. -/
def transport : Transport SynthTpm where
  transact := fun command t =>
    (.ok (handleCommand sha256 aik command t).1, (handleCommand sha256 aik command t).2)
  describe := fun _ => "synth-tpm (test rig; never a release path)"

end

end SynthTpm

end Tpm

end DiscCleaner
