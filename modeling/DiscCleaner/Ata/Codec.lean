import DiscCleaner.Lib.Dialogue
import DiscCleaner.Scsi.Purge

/-!
# DiscCleaner — ATA commands through a SAT bridge (`dc-hw/ata_codec.rs`)

Every ATA command travels in an ATA PASS-THROUGH (16) block, with the 48-bit address spread over
bytes 7 to 12. A bridge answers with a SCSI status and, in descriptor sense, the registers the
drive leaves.
-/

namespace DiscCleaner

open ByteLib DialogueLib

/-! ## Data -/

structure AtaSecurityStatus where
  supported : Bool
  enabled : Bool
  locked : Bool
  frozen : Bool
  enhancedEraseSupported : Bool
  eraseTimeMinutes : Option Nat
  enhancedEraseTimeMinutes : Option Nat
  deriving DecidableEq

structure AtaSanitizeSupport where
  supported : Bool
  cryptoScrambleSupported : Bool
  blockEraseSupported : Bool
  overwriteSupported : Bool
  deriving DecidableEq

structure AtaIdentifyData where
  lba48Sectors : Nat
  security : AtaSecurityStatus
  sanitize : AtaSanitizeSupport
  deriving DecidableEq

inductive SatTransferClass where
  | none
  | dataIn
  | dataOut
  deriving DecidableEq

def SatTransferClass.protocol : SatTransferClass → UInt8
  | .none => 3
  | .dataIn => 4
  | .dataOut => 5

def SatTransferClass.framing : SatTransferClass → UInt8
  | .none => 0x00
  | .dataIn => 0x2E
  | .dataOut => 0x06

inductive AtaSanitizeFeature where
  | blockErase
  | cryptoScramble
  | overwrite
  deriving DecidableEq

def AtaSanitizeFeature.code : AtaSanitizeFeature → Nat
  | .blockErase => 0x10
  | .cryptoScramble => 0x20
  | .overwrite => 0x40

structure AtaSanitizeStatus where
  progressPermille : Nat
  isInProgress : Bool
  isCompleted : Bool
  isFailed : Bool
  rawSstat : Nat
  rawSprog : Nat
  deriving DecidableEq

/-- Four words at an offset, as one 64-bit number. -/
def le64At (raw : Bytes) (i : Nat) : Nat :=
  le16At raw i + 2 ^ 16 * le16At raw (i + 2) + 2 ^ 32 * le16At raw (i + 4)
    + 2 ^ 48 * le16At raw (i + 6)

/-- `0x{:04X}`. -/
def hexUpper16 (n : Nat) : String :=
  let digit (n : Nat) : Char := ("0123456789ABCDEF".toList).getD (n % 16) '0'
  String.ofList ['0', 'x', digit (n / 4096), digit (n / 256), digit (n / 16), digit n]

namespace AtaCodec

def decodeIdentifyDevice (raw : Bytes) : Except String AtaIdentifyData :=
  if raw.length < 512 then .error "Identify buffer must be at least 512 bytes"
  else
    let word (i : Nat) : Nat := le16At raw (2 * i)
    let bit (w i : Nat) : Bool := w.testBit i
    let minutes (w : Nat) : Option Nat := if 0 < w then some w else none
    let sanitizeValid := word 206 >>> 12 &&& 0x7 != 0
    .ok
      { lba48Sectors := le64At raw 200
        security :=
          { supported := bit (word 128) 0
            enabled := bit (word 128) 1
            locked := bit (word 128) 2
            frozen := bit (word 128) 3
            enhancedEraseSupported := bit (word 128) 5
            eraseTimeMinutes := minutes (word 89)
            enhancedEraseTimeMinutes := minutes (word 90) }
        sanitize :=
          { supported := sanitizeValid && bit (word 169) 0
            cryptoScrambleSupported := sanitizeValid && bit (word 169) 1
            blockEraseSupported := sanitizeValid && bit (word 169) 2
            overwriteSupported := sanitizeValid && bit (word 169) 3 } }

def decodeDeviceConfigOverlay (raw : Bytes) : Except String Nat :=
  if raw.length < 208 then .error "DCO sector must be at least 208 bytes"
  else .ok (le64At raw 200)

/-- The address bytes stand in the order 31:24, 7:0, 39:32, 15:8, 47:40, 23:16. -/
def encodeSatPassthrough16Framed (command : UInt8) (features lba count : Nat)
    (xfer : SatTransferClass) : Bytes :=
  [0x85, xfer.protocol <<< 1 ||| 0x01, xfer.framing,
   UInt8.ofNat (features >>> 8), UInt8.ofNat features,
   UInt8.ofNat (count >>> 8), UInt8.ofNat count,
   UInt8.ofNat (lba >>> 24), UInt8.ofNat lba, UInt8.ofNat (lba >>> 32), UInt8.ofNat (lba >>> 8),
   UInt8.ofNat (lba >>> 40), UInt8.ofNat (lba >>> 16),
   0x40, command, 0x00]

def encodeSatIdentifyDevice : Bytes := encodeSatPassthrough16Framed 0xEC 0x0000 0 0 .dataIn

def encodeSatSecurityErasePrepare : Bytes := encodeSatPassthrough16Framed 0xF3 0x0000 0 1 .none

/-- The password sector: byte 0 selects the authority, bytes 2 to 33 hold the password. -/
def securityPasswordPayload (master : Bool) (password : Block 32) : Bytes :=
  [if master then 0x80 else 0x00, 0x00] ++ password.bytes ++ List.replicate 478 0

def encodeSatSecuritySetPassword (master : Bool) (password : Block 32) : Bytes × Bytes :=
  (encodeSatPassthrough16Framed 0xF1 0x0000 0 1 .dataOut, securityPasswordPayload master password)

def encodeSatSecurityEraseUnitAuth (master enhanced : Bool) (password : Block 32) :
    Bytes × Bytes :=
  let features := (if master then 1 else 0) ||| (if enhanced then 1 else 0) <<< 1
  (encodeSatPassthrough16Framed 0xF4 features 0 1 .dataOut, securityPasswordPayload master password)

def encodeSatSecurityDisablePassword (master : Bool) (password : Block 32) : Bytes × Bytes :=
  (encodeSatPassthrough16Framed 0xF6 0x0000 0 1 .dataOut, securityPasswordPayload master password)

def encodeSatSanitizeDevice (feature : AtaSanitizeFeature) : Bytes :=
  encodeSatPassthrough16Framed 0xB4 feature.code 0 1 .none

def encodeSatSmartReadLog (logAddress : Nat) : Bytes :=
  encodeSatPassthrough16Framed 0xB0 0xD5 (0xC200 ||| logAddress) 1 .dataIn

def encodeSatDeviceConfigIdentify : Bytes := encodeSatPassthrough16Framed 0xB1 0xC2 0 1 .dataIn

def encodeSatDeviceConfigRestore : Bytes := encodeSatPassthrough16Framed 0xB1 0xC0 0 1 .none

/-- With CK_COND, so that the drive's registers come back in sense data. -/
def encodeSatReadNativeMaxExt : Bytes :=
  (encodeSatPassthrough16Framed 0x27 0x0000 0 1 .none).modify 2 (· ||| 0x20)

def encodeSatSetMaxExt (nativeMaxLba : Nat) : Bytes :=
  encodeSatPassthrough16Framed 0x37 0x0000 nativeMaxLba 1 .none

/-- The walk over the descriptors, `[type, length, payload…]` each, from byte 8 of the sense data
on; the first long enough ATA return descriptor gives the address. -/
def walkDescriptors : Nat → Bytes → Except String Nat
  | 0, _ => .error "no 0x09 ATA return descriptor in sense data"
  | fuel + 1, descriptors =>
    match descriptors with
    | descType :: descLen :: d =>
      if descType = 0x09 ∧ 12 ≤ descLen.toNat ∧ 12 ≤ d.length then
        let byte (i : Nat) : Nat := (d.getD i 0).toNat
        .ok (byte 4 <<< 40 ||| byte 5 <<< 24 ||| byte 6 <<< 32 ||| byte 7 <<< 16
          ||| byte 8 <<< 8 ||| byte 9)
      else walkDescriptors fuel (d.drop descLen.toNat)
    | _ => .error "no 0x09 ATA return descriptor in sense data"

/-- Every descriptor takes two bytes or more, so the length bounds the walk. -/
def decodeAtaReturnDescriptorLba (sense : Bytes) : Except String Nat :=
  if sense.length < 10 then .error "sense buffer too short for descriptor walk"
  else
    let responseCode := sense.getD 0 0 &&& 0x7F
    if responseCode ≠ 0x72 ∧ responseCode ≠ 0x73 then
      .error ("expected descriptor-format sense (0x72/0x73), got " ++ hexUpper responseCode)
    else walkDescriptors sense.length (sense.drop 8)

end AtaCodec

/-- The Sanitize Status log page; the progress is rounded and capped at 1000. -/
def AtaSanitizeStatus.decodeLog (raw : Bytes) : Except String AtaSanitizeStatus :=
  if raw.length < 12 then .error "Sanitize Status log page must be at least 12 bytes"
  else
    let rawSprog := le16At raw 4
    let rawSstat := le16At raw 10
    .ok
      { progressPermille := min ((rawSprog * 1000 + 32767) / 65536) 1000
        isInProgress := rawSstat.testBit 0
        isCompleted := rawSstat.testBit 1
        isFailed := rawSstat.testBit 2
        rawSstat := rawSstat
        rawSprog := rawSprog }

/-! ## The transport -/

inductive SatXfer where
  | none
  | fromDev (len : Nat)
  | toDev (payload : Bytes)
  deriving DecidableEq

structure SatReply where
  status : UInt8
  sense : Bytes
  dataIn : Bytes
  deriving DecidableEq

def SatReply.isGood (reply : SatReply) : Bool := reply.status == 0x00

structure SatRequest where
  cdb : Bytes
  xfer : SatXfer
  timeoutMs : Nat
  deriving DecidableEq

/-- What came of a request: a reply, or a transport fault. -/
abbrev SatAnswer : Type := Except String SatReply

abbrev SatExchange : Type := Exchange SatRequest SatAnswer

abbrev SatTransport : Type := Responder SatRequest SatAnswer

abbrev SatDialogue (α : Type) : Type := Dialogue SatRequest SatAnswer α

namespace SatAnswer

/-- The command ended in GOOD status. -/
def accepted : SatAnswer → Bool
  | .ok reply => reply.isGood
  | .error _ => false

/-- The command reached the device, which ended it in another status. -/
def refused : SatAnswer → Bool
  | .ok reply => !reply.isGood
  | .error _ => false

def faulted : SatAnswer → Bool
  | .ok _ => false
  | .error _ => true

end SatAnswer

def readTimeoutMs : Nat := 30000
def sanitizeTimeoutMs : Nat := 24 * 60 * 60 * 1000
def securityEraseTimeoutMs : Nat := 24 * 60 * 60 * 1000
def sanitizeStatusLog : Nat := 0x30

namespace AtaPurgeClient

def identifyRequest : SatRequest := ⟨AtaCodec.encodeSatIdentifyDevice, .fromDev 512, readTimeoutMs⟩

/-- IDENTIFY DEVICE. -/
def identify : SatDialogue (Except String AtaIdentifyData) :=
  .ask identifyRequest fun
    | .error e => .done (.error e)
    | .ok reply =>
      if reply.isGood then .done (AtaCodec.decodeIdentifyDevice reply.dataIn)
      else .done (.error ("IDENTIFY DEVICE failed: SCSI status " ++ hexUpper reply.status))

end AtaPurgeClient

end DiscCleaner
