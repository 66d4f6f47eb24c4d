import DiscCleaner.Lib.BigEndian
import DiscCleaner.Lib.Prog

/-!
# DiscCleaner — iSCSI PDUs and the connection (`dc-iscsi/bhs.rs`)

A PDU is a 48-byte header and a data segment. On the stream the segment is padded to four bytes.
A target is whatever answers the PDUs sent so far with the PDUs it has sent.
-/

namespace DiscCleaner

open ByteLib ProgLib

namespace Iscsi

inductive IscsiError where
  | transport (message : String)
  | timeout (ms : Nat)
  | protocol (message : String)
  | loginRefused (statusClass detail : UInt8) (message : String)
  | refused (message : String)
  | badPortal (message : String)
  deriving DecidableEq

structure IscsiTimeouts where
  loginMs : Nat
  scsiMs : Nat

/-! ## Headers -/

def OP_SCSI_CMD : UInt8 := 0x01
def OP_LOGIN_REQ : UInt8 := 0x03
def OP_TEXT_REQ : UInt8 := 0x04
def OP_LOGOUT_REQ : UInt8 := 0x06
def OP_LOGIN_RSP : UInt8 := 0x23
def OP_TEXT_RSP : UInt8 := 0x24
def OP_LOGOUT_RSP : UInt8 := 0x26
def OP_SCSI_RSP : UInt8 := 0x21
def OP_DATA_IN : UInt8 := 0x25

def FLAG_FINAL : UInt8 := 0x80

def TTT_NONE : Nat := 0xFFFFFFFF

/-- The 48 bytes of a basic header segment, decoded on demand. -/
abbrev Bhs := Bytes

namespace Bhs

def new (opcode : UInt8) (final : Bool) : Bhs :=
  opcode :: (if final then FLAG_FINAL else 0) :: List.replicate 46 0

def byte (b : Bhs) (i : Nat) : UInt8 := b.getD i 0

/-- The big-endian word at an offset. -/
def word (b : Bhs) (i : Nat) : Nat := beNat (slice b i 4)

def opcode (b : Bhs) : UInt8 := byte b 0 &&& 0x3F

/-- The I bit of a request: delivered outside the command numbering. -/
def isImmediate (b : Bhs) : Bool := byte b 0 &&& 0x40 != 0

def flags (b : Bhs) : UInt8 := byte b 1

def isFinal (b : Bhs) : Bool := byte b 1 &&& FLAG_FINAL != 0

def dlength (b : Bhs) : Nat := beNat (slice b 5 3)

def setDlength (b : Bhs) (len : Nat) : Bhs := patch b 5 (be 3 len)

def ttt (b : Bhs) : Nat := word b 20

def cmdsn (b : Bhs) : Nat := word b 24

def setCmdsn (b : Bhs) (v : Nat) : Bhs := patch b 24 (be 4 v)

/-- StatSN of a response, at the bytes of CmdSN. -/
def statsn (b : Bhs) : Nat := word b 24

def setExpStatsn (b : Bhs) (v : Nat) : Bhs := patch b 28 (be 4 v)

def loginStatus (b : Bhs) : UInt8 × UInt8 := (byte b 36, byte b 37)

def scsiStatus (b : Bhs) : UInt8 × UInt8 := (byte b 2, byte b 3)

def bufferOffset (b : Bhs) : Nat := word b 32

end Bhs

/-! ## PDUs -/

structure Pdu where
  bhs : Bhs
  data : Bytes
  deriving DecidableEq

namespace Pdu

def new (opcode : UInt8) (final : Bool) (data : Bytes) : Pdu :=
  { bhs := (Bhs.new opcode final).setDlength data.length, data }

/-- A header with the fields put in, one after the other. -/
def withFields (p : Pdu) (fields : List (Nat × Bytes)) : Pdu :=
  { p with bhs := patches p.bhs fields }

def loginRequest (flags versionMin versionMax : UInt8) (isid : Block 6)
    (tsih itt cmdsn expStatsn : Nat) (data : Bytes) : Pdu :=
  (new OP_LOGIN_REQ false data).withFields
    [(1, [flags]), (2, [versionMax]), (3, [versionMin]), (8, isid.bytes), (14, be 2 tsih),
      (16, be 4 itt), (24, be 4 cmdsn), (28, be 4 expStatsn)]

def textRequest (itt ttt cmdsn expStatsn : Nat) (data : Bytes) : Pdu :=
  (new OP_TEXT_REQ true data).withFields
    [(16, be 4 itt), (20, be 4 ttt), (24, be 4 cmdsn), (28, be 4 expStatsn)]

def logoutRequest (itt cmdsn expStatsn : Nat) : Pdu :=
  (new OP_LOGOUT_REQ true []).withFields
    [(16, be 4 itt), (24, be 4 cmdsn), (28, be 4 expStatsn)]

end Pdu

/-! ## The stream -/

/-- The padding of a data segment. -/
def padding (len : Nat) : Nat := (4 - len % 4) % 4

/-- The bytes that `write_pdu` writes. -/
def writePdu (p : Pdu) : Bytes :=
  p.bhs ++ p.data ++ if p.data = [] then [] else List.replicate (padding p.data.length) 0

/-- `read_pdu` on what the target has sent; nothing is read past the end of that. -/
def readPdu (stream : Bytes) (deadline : Nat) : Except IscsiError (Pdu × Bytes) :=
  match readExact 48 stream with
  | none => .error (.timeout deadline)
  | some (hdr, rest) =>
    let dlen := Bhs.dlength hdr
    if dlen > 16 * 1024 * 1024 then
      .error (.protocol ("data segment length " ++ toString dlen
        ++ " exceeds the 16 MiB framing bound"))
    else if dlen = 0 then .ok (⟨hdr, []⟩, rest)
    else
      match readExact dlen rest with
      | none => .error (.timeout deadline)
      | some (data, rest) =>
        match readExact (padding dlen) rest with
        | none => .error (.timeout deadline)
        | some (_, rest) => .ok (⟨hdr, data⟩, rest)

/-- **What is written is read back**, and nothing more is consumed. -/
theorem readPdu_writePdu {p : Pdu} (hbhs : p.bhs.length = 48)
    (hlen : p.bhs.dlength = p.data.length) (rest : Bytes) (deadline : Nat) :
    readPdu (writePdu p ++ rest) deadline = .ok (p, rest) := by
  have hbound : p.bhs.dlength < 256 ^ 3 := by
    have hlt := beNat_lt (slice p.bhs 5 3)
    have hle : (slice p.bhs 5 3).length ≤ 3 := by simp [slice]
    exact lt_of_lt_of_le hlt (Nat.pow_le_pow_right (by decide) hle)
  unfold readPdu writePdu
  rw [List.append_assoc, List.append_assoc, readExact_append_of_length hbhs]
  simp only [hlen] at hbound ⊢
  rw [if_neg (by omega)]
  by_cases hdata : p.data = []
  · rw [if_pos hdata, hdata]
    cases p
    simp_all
  · have hpad : (List.replicate (padding p.data.length) (0 : UInt8)).length = padding p.data.length :=
      List.length_replicate
    rw [if_neg hdata, if_neg (by simpa using hdata), readExact_append]
    simp only [readExact_append_of_length hpad]

/-! ## The connection -/

/-- What a target has sent once it has received some PDUs. -/
abbrev Target := List Pdu → List Pdu

/-- The initiator's side: the PDUs it sent and the number it has read. -/
structure Conn where
  sent : List Pdu
  read : Nat

namespace Conn

/-- `write_pdu`. -/
def write (p : Pdu) : Prog Conn IscsiError Unit := Prog.update fun c =>
  { c with sent := c.sent ++ [p] }

theorem write_run (p : Pdu) (c : Conn) : write p c = (.ok (), { c with sent := c.sent ++ [p] }) := rfl

/-- `read_pdu`: the next PDU, or the deadline passes. -/
def next (target : Target) (deadline : Nat) : Prog Conn IscsiError Pdu := fun c =>
  match (target c.sent)[c.read]? with
  | some p => (.ok p, { c with read := c.read + 1 })
  | none => (.err (.timeout deadline), c)

/-- What the target has sent and was not read. -/
def pending (target : Target) (c : Conn) : List Pdu := (target c.sent).drop c.read

theorem next_run {target : Target} {deadline : Nat} {c : Conn} {p : Pdu} {rest : List Pdu}
    (h : c.pending target = p :: rest) :
    next target deadline c = (.ok p, { c with read := c.read + 1 }) := by
  have hget : (target c.sent)[c.read]? = some p := by
    have hhead := congrArg (fun l => l[0]?) h
    rw [pending] at hhead
    simpa using hhead
  rw [next, hget]

theorem pending_next {target : Target} {c : Conn} {p : Pdu} {rest : List Pdu}
    (h : c.pending target = p :: rest) :
    ({ c with read := c.read + 1 } : Conn).pending target = rest := by
  rw [pending] at h ⊢
  rw [← List.drop_drop, h]
  rfl

theorem next_eq_ok {target : Target} {deadline : Nat} {c c' : Conn} {p : Pdu} :
    next target deadline c = (.ok p, c')
      ↔ (target c.sent)[c.read]? = some p ∧ c' = { c with read := c.read + 1 } := by
  rw [next]
  cases (target c.sent)[c.read]? with
  | none => simp
  | some q =>
    simp only [Prod.mk.injEq, Outcome.ok.injEq, Option.some.injEq]
    exact and_congr_right fun _ => eq_comm

theorem next_timeout {target : Target} {deadline : Nat} {c : Conn} (h : c.pending target = []) :
    next target deadline c = (.err (.timeout deadline), c) := by
  have hget : (target c.sent)[c.read]? = none := by
    rw [pending] at h
    exact List.getElem?_eq_none (List.drop_eq_nil_iff.mp h)
  rw [next, hget]

/-- Everything the target had sent was read, and to the PDU it sends these. -/
structure Answers (target : Target) (c : Conn) (request : Pdu) (replies : List Pdu) : Prop where
  inStep : c.read = (target c.sent).length
  replies : target (c.sent ++ [request]) = target c.sent ++ replies

theorem Answers.pending {target : Target} {c : Conn} {request : Pdu} {replies : List Pdu}
    (h : c.Answers target request replies) :
    ({ c with sent := c.sent ++ [request] } : Conn).pending target = replies := by
  rw [Conn.pending, h.replies, h.inStep, List.drop_left]

end Conn

/-! ## Sequence numbers -/

/-- `wrapping_add(1)` on 32 bits. -/
def wrappingSucc (n : Nat) : Nat := (n + 1) % 2 ^ 32

/-- `+ 1` on 32 bits, which unwinds on overflow. -/
def checkedSucc {σ ε : Type} (n : Nat) : Prog σ ε Nat :=
  if n + 1 < 2 ^ 32 then pure (n + 1) else Prog.unwind

/-- The opcode in an error text. -/
def hexOpcode (op : UInt8) : String := "0x" ++ hexEncode [op]

end Iscsi

end DiscCleaner

/-!
# SCSI commands over iSCSI (`dc-iscsi/scsi.rs`)

The initiator sends one command and collects Data-In PDUs up to the SCSI Response.
-/

namespace DiscCleaner

open ByteLib ProgLib

namespace Iscsi

/-- `dc_hw::ScsiSenseData`. -/
structure ScsiSenseData where
  senseKey : UInt8
  asc : UInt8
  ascq : UInt8
  progressPermille : Option Nat
  deriving DecidableEq

structure ScsiIoParams where
  lun : Block 8
  cdb : Block 16
  cdbLen : Nat
  expectedReadLen : Nat
  timeoutMs : Nat

structure ScsiIoOutcome where
  response : UInt8
  status : UInt8
  dataIn : Bytes
  sense : Option ScsiSenseData
  ittHex : String

def padCdb (cdb : Block 16) (len : Nat) : Bytes :=
  cdb.bytes.take (min len 16) ++ List.replicate (16 - min len 16) 0

/-- The SCSI Command PDU. -/
def scsiCommand (itt cmdsn expStatsn : Nat) (params : ScsiIoParams) : Pdu :=
  (Pdu.new OP_SCSI_CMD true []).withFields
    [(8, params.lun.bytes), (16, be 4 itt), (20, be 4 params.expectedReadLen), (24, be 4 cmdsn),
      (28, be 4 expStatsn), (4, [0]), (32, padCdb params.cdb params.cdbLen)]

def decodeSense (raw : Bytes) : Option ScsiSenseData :=
  if raw.length < 14 then none
  else
    some
      { senseKey := raw.getD 2 0 &&& 0x0F
        asc := raw.getD 12 0
        ascq := raw.getD 13 0
        progressPermille :=
          if raw.length ≥ 18 ∧ raw.getD 15 0 &&& 0x80 ≠ 0 then
            some (beNat (slice raw 16 2) * 1000 / 65536)
          else none }

/-- The framing bound of 16 MiB. -/
def DATA_IN_BOUND : Nat := 16 * 1024 * 1024

/-- The collecting loop, with what it has so far. -/
def collect (target : Target) (itt deadline : Nat) (dataIn : Bytes) (placed : Nat) :
    Nat → Prog Conn IscsiError ScsiIoOutcome
  | 0 => fun c => (.blocked, c)
  | turns + 1 => do
    let rsp ← Conn.next target deadline
    if rsp.bhs.opcode = OP_DATA_IN then
      let offset := rsp.bhs.bufferOffset
      if offset > DATA_IN_BOUND then
        Prog.fail (.protocol ("Data-In buffer offset " ++ toString offset
          ++ " outside the framing bound"))
      else if offset ≠ placed then
        Prog.fail (.protocol ("Data-In offset " ++ toString offset ++ " != expected "
          ++ toString placed ++ " (unordered target)"))
      else if placed + rsp.data.length > DATA_IN_BOUND then
        Prog.fail (.protocol "Data-In stream exceeds the 16 MiB bound")
      else
        collect target itt deadline (dataIn ++ rsp.data) (placed + rsp.data.length) turns
    else if rsp.bhs.opcode = OP_SCSI_RSP then
      let (response, status) := rsp.bhs.scsiStatus
      pure
        { response
          status
          dataIn
          sense := if status = 0x02 ∧ rsp.data ≠ [] then decodeSense rsp.data else none
          ittHex := hexEncode (be 4 itt) }
    else
      Prog.fail (.protocol ("unexpected opcode " ++ hexOpcode rsp.bhs.opcode
        ++ " during SCSI exchange"))

def executeScsiCommand (target : Target) (itt cmdsn expStatsn : Nat) (params : ScsiIoParams)
    (turns : Nat) : Prog Conn IscsiError ScsiIoOutcome := do
  Conn.write (scsiCommand itt cmdsn expStatsn params)
  collect target itt params.timeoutMs [] 0 turns

end Iscsi

end DiscCleaner
