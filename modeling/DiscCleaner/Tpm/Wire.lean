import DiscCleaner.Lib.ByteReader

/-!
# DiscCleaner — the TPM wire (`dc-tpm/wire.rs`, `dc-tpm/constants.rs`)

Every number is big-endian and every variable field has a 16-bit length in front of it. A command is
a tag, its own size, a command code and a body.
-/

namespace DiscCleaner

open ByteLib

namespace Tpm

/-! ## Constants -/

def TPM_ST_NO_SESSIONS : Nat := 0x8001
def TPM_ST_SESSIONS : Nat := 0x8002
def TPM_ST_SESSIONS_RSP : Nat := 0x8002
def TPM_GENERATED : Nat := 0xFF544347
def TPM_ST_ATTEST_QUOTE : Nat := 0x8018

def TPM_ALG_ERROR : Nat := 0x0000
def TPM_ALG_SHA256 : Nat := 0x000B
def TPM_ALG_NULL : Nat := 0x0010
def TPM_ALG_ECC : Nat := 0x0023
def TPM_ALG_ECDSA : Nat := 0x0018
def TPM_ALG_KEYEDHASH : Nat := 0x0008

def TPM_RH_OWNER : Nat := 0x40000001
def TPM_RH_NULL : Nat := 0x40000007
def TPM_RS_PW : Nat := 0x40000009

def TPM_CC_GET_RANDOM : Nat := 0x0000017B
def TPM_CC_PCR_READ : Nat := 0x0000017E
def TPM_CC_CREATE : Nat := 0x0000015A
def TPM_CC_LOAD : Nat := 0x00000157
def TPM_CC_UNSEAL : Nat := 0x0000015E
def TPM_CC_FLUSH_CONTEXT : Nat := 0x00000165
def TPM_CC_START_AUTH_SESSION : Nat := 0x00000176
def TPM_CC_POLICY_PCR : Nat := 0x0000017F
def TPM_CC_POLICY_GET_DIGEST : Nat := 0x00000189

def TPM_RC_SUCCESS : Nat := 0

def TPM_SE_HMAC : Nat := 0x0000
def TPM_SE_POLICY : Nat := 0x0001
def TPM_SE_TRIAL : Nat := 0x0003

def SEALED_OBJECT_ATTRIBUTES : Nat := 0x00000012

def DC_SEALED_SECRET_MAX : Nat := 128

/-! ## Errors -/

inductive WireError where
  | truncated (offset need available : Nat)
  | oversized (len cap : Nat)
  | unexpected (what : String) (value : Nat)
  deriving DecidableEq

/-- Four digits of a 16-bit value, as `\x7b:#06x\x7d` prints it. -/
def hexWord (n : Nat) : String :=
  "0x" ++ String.ofList [hexDigit (n / 4096 % 16), hexDigit (n / 256 % 16), hexDigit (n / 16 % 16),
    hexDigit (n % 16)]

def WireError.toText : WireError → String
  | .truncated offset need available =>
    "truncated TPM structure: need " ++ toString need ++ " bytes at offset " ++ toString offset
      ++ ", have " ++ toString available
  | .oversized len cap =>
    "oversized TPM2B field: " ++ toString len ++ " bytes exceeds cap " ++ toString cap
  | .unexpected what value =>
    "unexpected TPM structure value: " ++ what ++ " (got " ++ hexWord value ++ ")"

/-! ## Writers -/

/-- A field with its length; the length is cut to 16 bits. -/
def tpm2b (bs : Bytes) : Bytes := be 2 bs.length ++ bs

/-- A body behind the command header. -/
def intoCommand (tag code : Nat) (body : Bytes) : Bytes :=
  be 2 tag ++ be 4 (10 + body.length) ++ be 4 code ++ body

/-! ## Readers -/

def TPM2B_CAP : Nat := 4096

abbrev Reader (α : Type) : Type := Read WireError α

namespace Reader

def take (n : Nat) : Reader Bytes := fun c =>
  if c.rest.length < n then .error (.truncated c.pos n c.rest.length)
  else .ok (c.rest.take n, ⟨c.rest.drop n, c.pos + n⟩)

/-- A number of `n` bytes. -/
def word (n : Nat) : Reader Nat := do
  let b ← take n
  pure (beNat b)

def u8 : Reader Nat := word 1

def u16 : Reader Nat := word 2

def u32 : Reader Nat := word 4

def u64 : Reader Nat := word 8

def tpm2b : Reader Bytes := do
  let len ← u16
  if len > TPM2B_CAP then throw (.oversized len TPM2B_CAP)
  else take len

/-- Fail at the cursor for want of bytes. -/
def short {α : Type} (need available : Nat) : Reader α := fun c =>
  .error (.truncated c.pos need available)

end Reader

/-! ## Reading what was written -/

open Read

theorem parses_take {n : Nat} {bs : Bytes} (h : bs.length = n) : Parses (Reader.take n) bs bs := by
  subst h
  intro rest pos
  have hlen : ¬ (bs ++ rest).length < bs.length := by
    rw [List.length_append]
    omega
  show (if (bs ++ rest).length < bs.length then _ else _) = _
  rw [if_neg hlen, List.take_left, List.drop_left]

theorem parses_word {n v : Nat} (h : v < 256 ^ n) : Parses (Reader.word n) (be n v) v := by
  refine (parses_take (be_length n v)).map ?_
  rw [beNat_be h]
  exact .ret v

theorem parses_tpm2b {bs : Bytes} (h : bs.length ≤ TPM2B_CAP) :
    Parses Reader.tpm2b (tpm2b bs) bs := by
  have hlen : bs.length < 256 ^ 2 := by
    unfold TPM2B_CAP at h
    omega
  refine (parses_word hlen).bind ?_
  rw [if_neg (by omega)]
  exact parses_take rfl

end Tpm

end DiscCleaner

/-!
# TPM structures (`dc-tpm/structures.rs`, `dc-tpm/device.rs`)

The commands of the attestation and sealing ladders as byte strings, and the parsers of their
responses.
-/

namespace DiscCleaner

open ByteLib

namespace Tpm

/-! ## PCR selections -/

/-- Bit `j` of byte `i` selects register `8 * i + j`. -/
abbrev PcrMask := Block 4

structure PcrSelection where
  hashAlg : Nat
  pcrSelect : PcrMask
  deriving DecidableEq

namespace PcrSelection

def sha256 (mask : PcrMask) : PcrSelection := ⟨TPM_ALG_SHA256, mask⟩

def selects (s : PcrSelection) (pcr : Nat) : Bool :=
  decide (pcr < 32) && (s.pcrSelect.bytes.getD (pcr / 8) 0).toNat.testBit (pcr % 8)

def write (s : PcrSelection) : Bytes := be 2 s.hashAlg ++ be 1 4 ++ s.pcrSelect.bytes

theorem padded_length (bs : Bytes) : ((bs ++ List.replicate 4 0).take 4).length = 4 := by
  rw [List.length_take, List.length_append, List.length_replicate]
  omega

/-- A mask from the bytes that are there; the others are zero. -/
def padded (bs : Bytes) : PcrMask := ⟨(bs ++ List.replicate 4 0).take 4, padded_length bs⟩

def read : Reader PcrSelection := do
  let hashAlg ← Reader.u16
  let size ← Reader.u8
  if size > 4 then throw (.oversized size 4)
  else do
    let select ← Reader.take size
    pure ⟨hashAlg, padded select⟩

end PcrSelection

structure PcrSelectionList where
  selections : List PcrSelection
  deriving DecidableEq

namespace PcrSelectionList

def singleSha256 (mask : PcrMask) : PcrSelectionList := ⟨[.sha256 mask]⟩

def write (l : PcrSelectionList) : Bytes :=
  be 4 l.selections.length ++ l.selections.flatMap PcrSelection.write

def read : Reader PcrSelectionList := do
  let count ← Reader.u32
  if count > 4 then throw (.oversized count 4)
  else do
    let selections ← PcrSelection.read.times count
    pure ⟨selections⟩

end PcrSelectionList

/-! ## Commands -/

/-- An authorization area that names a session, with empty nonce and HMAC. -/
def sessionAuth (session : Nat) : Bytes := be 4 session ++ tpm2b [] ++ be 1 0 ++ tpm2b []

def emptyPwSession : Bytes := sessionAuth TPM_RS_PW

/-- An area behind its 32-bit size. -/
def sized (area : Bytes) : Bytes := be 4 area.length ++ area

def encodeGetRandom (bytes : Nat) : Bytes :=
  intoCommand TPM_ST_NO_SESSIONS TPM_CC_GET_RANDOM (be 2 bytes)

def encodePcrRead (list : PcrSelectionList) : Bytes :=
  intoCommand TPM_ST_NO_SESSIONS TPM_CC_PCR_READ list.write

def encodeStartAuthSession (sessionType : Nat) (nonceCaller : Bytes) : Bytes :=
  intoCommand TPM_ST_NO_SESSIONS TPM_CC_START_AUTH_SESSION
    (be 4 TPM_RH_NULL ++ be 4 TPM_RH_NULL ++ tpm2b nonceCaller ++ tpm2b [] ++ be 2 sessionType
      ++ be 2 TPM_ALG_NULL ++ be 2 TPM_ALG_SHA256)

def encodePolicyPcr (session : Nat) (list : PcrSelectionList) (pcrDigest : Bytes) : Bytes :=
  intoCommand TPM_ST_SESSIONS TPM_CC_POLICY_PCR
    (be 4 session ++ sized (sessionAuth session) ++ list.write ++ tpm2b pcrDigest)

def encodePolicyGetDigest (session : Nat) : Bytes :=
  intoCommand TPM_ST_SESSIONS TPM_CC_POLICY_GET_DIGEST
    (be 4 session ++ sized (sessionAuth session))

/-- The template of a sealed data object. -/
def sealedPublic (policyDigest : Bytes) : Bytes :=
  be 2 TPM_ALG_KEYEDHASH ++ be 2 TPM_ALG_SHA256 ++ be 4 SEALED_OBJECT_ATTRIBUTES
    ++ tpm2b policyDigest ++ be 2 TPM_ALG_NULL ++ tpm2b []

def encodeCreateSealed (parent : Nat) (policyDigest secret : Bytes) : Bytes :=
  intoCommand TPM_ST_SESSIONS TPM_CC_CREATE
    (be 4 parent ++ sized emptyPwSession ++ tpm2b (tpm2b [] ++ tpm2b secret)
      ++ tpm2b (sealedPublic policyDigest) ++ tpm2b [] ++ be 4 0)

def encodeLoad (parent : Nat) (priv pub : Bytes) : Bytes :=
  intoCommand TPM_ST_SESSIONS TPM_CC_LOAD
    (be 4 parent ++ sized emptyPwSession ++ tpm2b priv ++ tpm2b pub)

def encodeUnseal (session object : Nat) : Bytes :=
  intoCommand TPM_ST_SESSIONS TPM_CC_UNSEAL (be 4 object ++ sized (sessionAuth session))

def encodeFlushContext (handle : Nat) : Bytes :=
  intoCommand TPM_ST_NO_SESSIONS TPM_CC_FLUSH_CONTEXT (be 4 handle)

/-! ## Responses -/

structure ResponseHeader where
  tag : Nat
  responseCode : Nat
  paramsOffset : Nat

/-- The header, or the code of a failure. A sessions response has a parameter size behind it. -/
def responseHeader : Reader (Except Nat ResponseHeader) := do
  let tag ← Reader.u16
  let _ ← Reader.u32
  let code ← Reader.u32
  if code ≠ TPM_RC_SUCCESS then pure (.error code)
  else if tag = TPM_ST_SESSIONS_RSP then do
    let _ ← Reader.u32
    pure (.ok ⟨tag, code, 14⟩)
  else pure (.ok ⟨tag, code, 10⟩)

def parseResponseHeader (buf : Bytes) : Except WireError (Except Nat (ResponseHeader × Bytes)) :=
  (responseHeader.value buf).map fun header =>
    header.map fun h => (h, buf.drop (min h.paramsOffset buf.length))

structure PcrReadResponse where
  selection : PcrSelectionList
  digests : List Bytes

/-- A field of exactly 32 bytes. -/
def readDigest : Reader Bytes := do
  let d ← Reader.tpm2b
  if d.length = 32 then pure d else Reader.short 32 d.length

def parsePcrRead : Reader PcrReadResponse := do
  let selection ← PcrSelectionList.read
  let count ← Reader.u32
  if count > 24 then throw (.oversized count 24)
  else do
    let digests ← readDigest.times count
    pure ⟨selection, digests⟩

structure StartAuthSessionResponse where
  sessionHandle : Nat
  nonceTpm : Bytes

def parseStartAuthSession : Reader StartAuthSessionResponse := do
  let handle ← Reader.u32
  if handle >>> 24 ≠ 0x03 then
    throw (.unexpected "session handle class, expected 0x03" (handle >>> 24))
  else do
    let nonce ← Reader.tpm2b
    pure ⟨handle, nonce⟩

def parsePolicyDigest : Reader Bytes := Reader.tpm2b

structure CreateSealedResponse where
  priv : Bytes
  pub : Bytes

def parseCreateSealed : Reader CreateSealedResponse := do
  let priv ← Reader.tpm2b
  let pub ← Reader.tpm2b
  if priv = [] ∨ pub = [] then Reader.short 1 0 else pure ⟨priv, pub⟩

structure LoadResponse where
  handle : Nat
  name : Bytes

def parseLoad : Reader LoadResponse := do
  let handle ← Reader.u32
  let name ← Reader.tpm2b
  if handle >>> 24 ≠ 0x80 then
    throw (.unexpected "transient object handle class, expected 0x80" (handle >>> 24))
  else pure ⟨handle, name⟩

def parseUnseal : Reader Bytes := Reader.tpm2b

/-! ## Transports (`device.rs`) -/

inductive TpmError where
  | deviceUnavailable (what : String)
  | io (what : String)
  | timeout
  | responseCode (code : Nat)
  | wire (what : String)
  | verification (what : String)
  | policy (what : String)
  deriving DecidableEq

def TpmError.ofWire (e : WireError) : TpmError := .wire e.toText

/-- `wire_result`. -/
def wireResult {α : Type} : Except WireError α → Except TpmError α
  | .ok a => .ok a
  | .error e => .error (.ofWire e)

/-- The parameters of a response, unless it reports a failure. -/
def classifyResponse (buf : Bytes) : Except TpmError Bytes :=
  match parseResponseHeader buf with
  | .ok (.ok (_, params)) => .ok params
  | .ok (.error code) => .error (.responseCode code)
  | .error e => .error (.ofWire e)

end Tpm

end DiscCleaner
