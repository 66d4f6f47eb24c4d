import DiscCleaner.Iscsi.Bhs

/-!
# DiscCleaner — the SCSI exchange against a conforming target

What a target reports for one command is read data in order, a status, in a SCSI Response or in
the last Data-In PDU, and sense data behind its length. The exchange is compared with that.

## Main results

* `collect_dataIns` — the collecting loop on the Data-In PDUs of a reply
* `returnsReply_iff` — the replies that come back as the target reported them
-/

namespace DiscCleaner

open ByteLib ProgLib

namespace Iscsi

/-! ## What a target reports -/

inductive SenseFormat where
  | fixed
  | descriptor
  deriving DecidableEq

/-- The response codes of a format, current and deferred. -/
def SenseFormat.codes : SenseFormat → List UInt8
  | .fixed => [0x70, 0x71]
  | .descriptor => [0x72, 0x73]

/-- Sense data, whose response code says its format. -/
structure SenseData where
  bytes : Bytes
  format : SenseFormat
  code : bytes.getD 0 0 &&& 0x7F ∈ format.codes
  length_lt : bytes.length < 2 ^ 16

namespace SenseData

def senseKey (s : SenseData) : UInt8 :=
  match s.format with
  | .fixed => s.bytes.getD 2 0 &&& 0x0F
  | .descriptor => s.bytes.getD 1 0 &&& 0x0F

def asc (s : SenseData) : UInt8 :=
  match s.format with
  | .fixed => s.bytes.getD 12 0
  | .descriptor => s.bytes.getD 2 0

def ascq (s : SenseData) : UInt8 :=
  match s.format with
  | .fixed => s.bytes.getD 13 0
  | .descriptor => s.bytes.getD 3 0

/-- The data segment of a SCSI Response: SenseLength and the sense data. -/
def segment (s : SenseData) : Bytes := be 2 s.bytes.length ++ s.bytes

end SenseData

namespace Bhs

/-- MaxCmdSN of a Data-In PDU. -/
def maxCmdSN (b : Bhs) : Nat := word b 32

/-- Buffer Offset of a Data-In PDU, as the protocol has it. -/
def dataOffset (b : Bhs) : Nat := word b 40

/-- The S bit of a Data-In PDU: it carries the status. -/
def hasStatus (b : Bhs) : Bool := byte b 1 &&& 0x01 != 0

end Bhs

/-- The PDUs carry their data at consecutive offsets. -/
def InOrder : Nat → List Pdu → Prop
  | _, [] => True
  | placed, p :: pdus => p.bhs.dataOffset = placed ∧ InOrder (placed + p.data.length) pdus

/-- The data of some PDUs. -/
def payload (pdus : List Pdu) : Bytes := pdus.flatMap Pdu.data

/-- What a conforming target reports for one command, and the PDUs it does so with. -/
structure Reply where
  data : Bytes
  status : UInt8
  sense : Option SenseData
  dataIns : List Pdu
  response : Option Pdu
  isData : ∀ p ∈ dataIns, p.bhs.opcode = OP_DATA_IN
  inOrder : InOrder 0 dataIns
  payload_eq : payload dataIns = data
  isResponse : ∀ p ∈ response, p.bhs.opcode = OP_SCSI_RSP ∧ p.bhs.scsiStatus.2 = status
    ∧ p.data = (sense.map SenseData.segment).getD []
  noStatus : response.isSome → ∀ p ∈ dataIns, p.bhs.hasStatus = false
  /-- The last Data-In PDU carries the status; there is no sense data then. -/
  collapsed : response = none → sense = none ∧ ∃ p ∈ dataIns.getLast?,
    p.bhs.hasStatus = true ∧ p.bhs.scsiStatus.2 = status

def Reply.pdus (r : Reply) : List Pdu := r.dataIns ++ r.response.toList

/-! ## The exchange -/

/-- The exchange ends after the PDU with the status and returns what the target reported. -/
def ReturnsReply (target : Target) (itt cmdsn expStatsn : Nat) (params : ScsiIoParams) (c : Conn)
    (r : Reply) : Prop :=
  ∃ out : ScsiIoOutcome,
    (∃ enough, ∀ turns ≥ enough, executeScsiCommand target itt cmdsn expStatsn params turns c
      = (.ok out, { sent := c.sent ++ [scsiCommand itt cmdsn expStatsn params],
                    read := c.read + r.pdus.length }))
      ∧ out.dataIn = r.data ∧ out.status = r.status
      ∧ out.sense.map (fun s => (s.senseKey, s.asc, s.ascq))
        = r.sense.map fun s => (s.senseKey, s.asc, s.ascq)

/-- The Data-In PDUs as the loop takes them: at bytes 32 to 35, which hold MaxCmdSN, it looks for
the offset. -/
def Framed : Nat → List Pdu → Prop
  | _, [] => True
  | placed, p :: pdus => p.bhs.maxCmdSN = placed ∧ placed + p.data.length ≤ DATA_IN_BOUND
    ∧ Framed (placed + p.data.length) pdus

theorem framed_iff {placed : Nat} {pdus : List Pdu} (h : InOrder placed pdus)
    (hplaced : placed ≤ DATA_IN_BOUND) :
    Framed placed pdus ↔ (∀ p ∈ pdus, p.bhs.maxCmdSN = p.bhs.dataOffset)
      ∧ placed + (payload pdus).length ≤ DATA_IN_BOUND := by
  induction pdus generalizing placed with
  | nil => simp [Framed, payload, hplaced]
  | cons p pdus ih =>
    obtain ⟨hoffset, hrest⟩ := h
    have hlen : (payload (p :: pdus)).length = p.data.length + (payload pdus).length := by
      simp [payload]
    rw [Framed, hlen, ← Nat.add_assoc]
    constructor
    · rintro ⟨hmax, hbound, hframed⟩
      obtain ⟨hall, htotal⟩ := (ih hrest hbound).mp hframed
      refine ⟨fun q hq => ?_, htotal⟩
      rcases List.mem_cons.mp hq with rfl | hq
      · rw [hmax, hoffset]
      · exact hall q hq
    · rintro ⟨hall, htotal⟩
      have hbound : placed + p.data.length ≤ DATA_IN_BOUND := by omega
      refine ⟨(hall p List.mem_cons_self).trans hoffset, hbound, (ih hrest hbound).mpr ⟨?_, htotal⟩⟩
      exact fun q hq => hall q (List.mem_cons_of_mem p hq)

section collect

variable {target : Target} {itt deadline : Nat}

/-- A Data-In PDU at the expected offset is taken. -/
theorem collect_dataIn {p : Pdu} {rest : List Pdu} {placed turns : Nat} {dataIn : Bytes} {c : Conn}
    (hp : p.bhs.opcode = OP_DATA_IN) (hpending : c.pending target = p :: rest)
    (hmax : p.bhs.maxCmdSN = placed) (hbound : placed + p.data.length ≤ DATA_IN_BOUND) :
    collect target itt deadline dataIn placed (turns + 1) c
      = collect target itt deadline (dataIn ++ p.data) (placed + p.data.length) turns
          { c with read := c.read + 1 } := by
  have hoffset : p.bhs.bufferOffset = placed := hmax
  rw [collect, Prog.bind_run_ok (Conn.next_run hpending)]
  simp only [hp, if_true, hoffset]
  rw [if_neg (by omega), if_neg (by simp), if_neg (by omega)]

/-- Any other Data-In PDU ends the exchange. -/
theorem collect_unframed {p : Pdu} {rest : List Pdu} {placed turns : Nat} {dataIn : Bytes} {c : Conn}
    (hp : p.bhs.opcode = OP_DATA_IN) (hpending : c.pending target = p :: rest)
    (h : ¬ (p.bhs.maxCmdSN = placed ∧ placed + p.data.length ≤ DATA_IN_BOUND)) :
    ∃ e, (collect target itt deadline dataIn placed (turns + 1) c).1 = .err e := by
  have hword : p.bhs.maxCmdSN = p.bhs.bufferOffset := rfl
  rw [hword] at h
  rw [collect, Prog.bind_run_ok (Conn.next_run hpending)]
  simp only [hp, if_true]
  by_cases hfar : p.bhs.bufferOffset > DATA_IN_BOUND
  · rw [if_pos hfar]
    exact ⟨_, rfl⟩
  · rw [if_neg hfar]
    by_cases hoffset : p.bhs.bufferOffset = placed
    · have hbound : placed + p.data.length > DATA_IN_BOUND := by
        by_contra hle
        exact h ⟨hoffset, by omega⟩
      rw [if_neg (by simpa using hoffset), if_pos hbound]
      exact ⟨_, rfl⟩
    · rw [if_pos hoffset]
      exact ⟨_, rfl⟩

/-- **The loop over the Data-In PDUs**: framed ones are appended, and it goes on behind them;
otherwise the exchange ends in an error. -/
theorem collect_dataIns {pdus rest : List Pdu} {placed : Nat} {dataIn : Bytes} {c : Conn}
    (hpdus : ∀ p ∈ pdus, p.bhs.opcode = OP_DATA_IN) (hpending : c.pending target = pdus ++ rest) :
    (Framed placed pdus
        ∧ ({ c with read := c.read + pdus.length } : Conn).pending target = rest
        ∧ ∀ turns, collect target itt deadline dataIn placed (turns + pdus.length) c
          = collect target itt deadline (dataIn ++ payload pdus) (placed + (payload pdus).length)
              turns { c with read := c.read + pdus.length })
      ∨ ¬ Framed placed pdus ∧ ∀ turns,
        ∃ e, (collect target itt deadline dataIn placed (turns + pdus.length) c).1 = .err e := by
  induction pdus generalizing placed dataIn c with
  | nil => exact Or.inl ⟨trivial, hpending, fun turns => by simp [payload]⟩
  | cons p pdus ih =>
    have hp := hpdus p List.mem_cons_self
    have hcons : payload (p :: pdus) = p.data ++ payload pdus := List.flatMap_cons
    by_cases hframe : p.bhs.maxCmdSN = placed ∧ placed + p.data.length ≤ DATA_IN_BOUND
    · have hstep : ∀ turns, collect target itt deadline dataIn placed (turns + 1) c = _ :=
        fun turns => collect_dataIn hp hpending hframe.1 hframe.2
      have hread : c.read + 1 + pdus.length = c.read + (p :: pdus).length := by
        rw [List.length_cons]
        omega
      rcases ih (fun q hq => hpdus q (List.mem_cons_of_mem p hq)) (Conn.pending_next hpending) with
        ⟨hframed, hrest, hrun⟩ | ⟨hframed, herr⟩
      · rw [hread] at hrest
        refine Or.inl ⟨⟨hframe.1, hframe.2, hframed⟩, hrest, fun turns => ?_⟩
        rw [List.length_cons, ← Nat.add_assoc, hstep, hrun turns, hcons, List.append_assoc,
          List.length_append, Nat.add_assoc placed, hread]
        rfl
      · refine Or.inr ⟨fun h => hframed h.2.2, fun turns => ?_⟩
        rw [List.length_cons, ← Nat.add_assoc, hstep]
        exact herr turns
    · refine Or.inr ⟨fun h => hframe ⟨h.1, h.2.1⟩, fun turns => ?_⟩
      rw [List.length_cons, ← Nat.add_assoc]
      exact collect_unframed hp hpending hframe

/-- The SCSI Response ends the exchange. -/
theorem collect_response {p : Pdu} {rest : List Pdu} {placed turns : Nat} {dataIn : Bytes}
    {c : Conn} (hp : p.bhs.opcode = OP_SCSI_RSP) (hpending : c.pending target = p :: rest) :
    collect target itt deadline dataIn placed (turns + 1) c
      = (.ok
          { response := p.bhs.scsiStatus.1
            status := p.bhs.scsiStatus.2
            dataIn
            sense := if p.bhs.scsiStatus.2 = 0x02 ∧ p.data ≠ [] then decodeSense p.data else none
            ittHex := hexEncode (be 4 itt) }, { c with read := c.read + 1 }) := by
  have hne : ¬ p.bhs.opcode = OP_DATA_IN := by
    rw [hp]
    decide
  rw [collect, Prog.bind_run_ok (Conn.next_run hpending), if_neg hne, if_pos hp]
  rfl

/-- With nothing left to read the exchange times out. -/
theorem collect_nothing {placed turns : Nat} {dataIn : Bytes} {c : Conn}
    (hpending : c.pending target = []) :
    (collect target itt deadline dataIn placed (turns + 1) c).1 = .err (.timeout deadline) := by
  rw [collect, Prog.bind_run_err (Conn.next_timeout hpending)]

end collect

/-! ## Sense data -/

namespace SenseData

theorem segment_ne_nil (s : SenseData) : s.segment ≠ [] := nofun

/-- The decoder is handed SenseLength with the sense data, so each byte it reads is the one two
places before it. -/
theorem decodeSense_segment (s : SenseData) :
    (decodeSense s.segment).map (fun d => (d.senseKey, d.asc, d.ascq))
      = if s.bytes.length < 12 then none
        else some (s.bytes.getD 0 0 &&& 0x0F, s.bytes.getD 10 0, s.bytes.getD 11 0) := by
  have hlen : s.segment.length = s.bytes.length + 2 := by
    rw [segment, List.length_append, be_length, Nat.add_comm]
  unfold decodeSense
  rw [hlen]
  by_cases hshort : s.bytes.length < 12
  · rw [if_pos hshort, if_pos (by omega)]
    rfl
  · rw [if_neg hshort, if_neg (by omega)]
    rfl

/-- The sense data reads the same two bytes early. -/
structure ReadsEarly (s : SenseData) : Prop where
  length : 12 ≤ s.bytes.length
  senseKey : s.bytes.getD 0 0 &&& 0x0F = s.senseKey
  asc : s.bytes.getD 10 0 = s.asc
  ascq : s.bytes.getD 11 0 = s.ascq

theorem decodeSense_eq_iff (s : SenseData) :
    (decodeSense s.segment).map (fun d => (d.senseKey, d.asc, d.ascq))
        = some (s.senseKey, s.asc, s.ascq) ↔ s.ReadsEarly := by
  rw [decodeSense_segment]
  by_cases hshort : s.bytes.length < 12
  · rw [if_pos hshort]
    constructor
    · nofun
    · intro h
      have hlen := h.length
      omega
  · rw [if_neg hshort, Option.some.injEq, Prod.mk.injEq, Prod.mk.injEq]
    constructor
    · rintro ⟨hkey, hasc, hascq⟩
      exact ⟨by omega, hkey, hasc, hascq⟩
    · intro h
      exact ⟨h.senseKey, h.asc, h.ascq⟩

end SenseData

/-! ## The replies that come back -/

/-- The replies for which the framings the exchange assumes are the ones the target used. -/
structure Reply.Framable (r : Reply) : Prop where
  offsets : ∀ p ∈ r.dataIns, p.bhs.maxCmdSN = p.bhs.dataOffset
  bound : r.data.length ≤ DATA_IN_BOUND
  response : r.response.isSome
  sense : ∀ s ∈ r.sense, r.status = 0x02 ∧ s.ReadsEarly

/-- The sense data a SCSI Response is decoded to. -/
def Reply.decoded (r : Reply) : Option ScsiSenseData :=
  let segment := (r.sense.map SenseData.segment).getD []
  if r.status = 0x02 ∧ segment ≠ [] then decodeSense segment else none

theorem Reply.decoded_iff (r : Reply) :
    r.decoded.map (fun s => (s.senseKey, s.asc, s.ascq))
        = r.sense.map (fun s => (s.senseKey, s.asc, s.ascq))
      ↔ ∀ s ∈ r.sense, r.status = 0x02 ∧ s.ReadsEarly := by
  unfold decoded
  cases hsense : r.sense with
  | none => simp
  | some s =>
    simp only [Option.map_some, Option.getD_some, Option.mem_some, forall_eq']
    by_cases hstatus : r.status = 0x02
    · rw [if_pos ⟨hstatus, s.segment_ne_nil⟩, s.decodeSense_eq_iff]
      simp [hstatus]
    · rw [if_neg fun h => hstatus h.1]
      simp [hstatus]

section exchange

variable {target : Target} {itt cmdsn expStatsn : Nat} {params : ScsiIoParams} {c : Conn}
  {r : Reply}

theorem Reply.framed_iff (r : Reply) :
    Framed 0 r.dataIns ↔ (∀ p ∈ r.dataIns, p.bhs.maxCmdSN = p.bhs.dataOffset)
      ∧ r.data.length ≤ DATA_IN_BOUND := by
  rw [Iscsi.framed_iff r.inOrder (Nat.zero_le _), r.payload_eq, Nat.zero_add]

theorem execute_eq_collect (turns : Nat) :
    executeScsiCommand target itt cmdsn expStatsn params turns c
      = collect target itt params.timeoutMs [] 0 turns
          { c with sent := c.sent ++ [scsiCommand itt cmdsn expStatsn params] } := rfl

/-- With a SCSI Response behind framed Data-In PDUs, the exchange ends there. -/
theorem execute_response {p : Pdu}
    (h : c.Answers target (scsiCommand itt cmdsn expStatsn params) r.pdus)
    (hframed : Framed 0 r.dataIns) (hp : r.response = some p) (turns : Nat) :
    executeScsiCommand target itt cmdsn expStatsn params (turns + 1 + r.dataIns.length) c
      = (.ok
          { response := p.bhs.scsiStatus.1
            status := r.status
            dataIn := r.data
            sense := r.decoded
            ittHex := hexEncode (be 4 itt) },
          { sent := c.sent ++ [scsiCommand itt cmdsn expStatsn params],
            read := c.read + r.pdus.length }) := by
  obtain ⟨hopcode, hstatus, hsegment⟩ := r.isResponse p hp
  have hlength : c.read + r.dataIns.length + 1 = c.read + r.pdus.length := by
    rw [Reply.pdus, hp, List.length_append]
    rfl
  rw [execute_eq_collect]
  rcases @collect_dataIns target itt params.timeoutMs _ _ 0 [] _ r.isData h.pending with
    ⟨-, hrest, hrun⟩ | ⟨hnot, -⟩
  · rw [hp, Option.toList_some] at hrest
    rw [hrun, collect_response hopcode hrest, hstatus, hsegment, List.nil_append, r.payload_eq]
    simp only [hlength]
    rfl
  · exact absurd hframed hnot

/-- Without one, or with a Data-In PDU that is not framed, the exchange does not return. -/
theorem execute_fails (h : c.Answers target (scsiCommand itt cmdsn expStatsn params) r.pdus)
    (hnot : ¬ (Framed 0 r.dataIns ∧ r.response.isSome)) (turns : Nat) :
    ∃ e, (executeScsiCommand target itt cmdsn expStatsn params
      (turns + 1 + r.dataIns.length) c).1 = .err e := by
  rw [execute_eq_collect]
  rcases @collect_dataIns target itt params.timeoutMs _ _ 0 [] _ r.isData h.pending with
    ⟨hframed, hrest, hrun⟩ | ⟨-, herr⟩
  · cases hresponse : r.response with
    | none =>
      rw [hresponse, Option.toList_none] at hrest
      exact ⟨_, by rw [hrun, collect_nothing hrest]⟩
    | some p =>
      rw [hresponse] at hnot
      exact absurd ⟨hframed, rfl⟩ hnot
  · exact herr (turns + 1)

/-- **What the target reported comes back exactly for the framable replies.** -/
theorem returnsReply_iff (target : Target) (itt cmdsn expStatsn : Nat) (params : ScsiIoParams)
    (c : Conn) (r : Reply) (h : c.Answers target (scsiCommand itt cmdsn expStatsn params) r.pdus) :
    ReturnsReply target itt cmdsn expStatsn params c r ↔ r.Framable := by
  constructor
  · rintro ⟨out, ⟨enough, hrun⟩, -, -, hsense⟩
    have hreturns := hrun (enough + 1 + r.dataIns.length) (by omega)
    by_cases hread : Framed 0 r.dataIns ∧ r.response.isSome
    · obtain ⟨p, hp⟩ := Option.isSome_iff_exists.mp hread.2
      rw [execute_response h hread.1 hp, Prod.mk.injEq, Outcome.ok.injEq] at hreturns
      rw [← hreturns.1, r.decoded_iff] at hsense
      obtain ⟨hoffsets, hbound⟩ := r.framed_iff.mp hread.1
      exact ⟨hoffsets, hbound, hread.2, hsense⟩
    · obtain ⟨e, herr⟩ := execute_fails h hread enough
      rw [hreturns] at herr
      cases herr
  · intro hr
    obtain ⟨p, hp⟩ := Option.isSome_iff_exists.mp hr.response
    have hframed := r.framed_iff.mpr ⟨hr.offsets, hr.bound⟩
    refine ⟨⟨p.bhs.scsiStatus.1, r.status, r.data, r.decoded, hexEncode (be 4 itt)⟩,
      ⟨1 + r.dataIns.length, fun turns hturns => ?_⟩, rfl, rfl, r.decoded_iff.mpr hr.sense⟩
    obtain ⟨n, rfl⟩ : ∃ n, turns = n + 1 + r.dataIns.length :=
      ⟨turns - (1 + r.dataIns.length), by omega⟩
    exact execute_response h hframed hp n

end exchange

/-! ## A target with an open command window -/

/-- Four bytes of INQUIRY data with MaxCmdSN 32, and status GOOD. -/
def inquiryReply : Reply where
  data := [0, 0, 5, 2]
  status := 0
  sense := none
  dataIns := [(Pdu.new OP_DATA_IN true [0, 0, 5, 2]).withFields [(32, be 4 32), (40, be 4 0)]]
  response := some (Pdu.new OP_SCSI_RSP true [])
  isData := by decide
  inOrder := ⟨by decide, trivial⟩
  payload_eq := by decide
  isResponse := by
    rintro p ⟨⟩
    decide
  noStatus := by decide
  collapsed := nofun

def inquiryParams : ScsiIoParams :=
  { lun := Block.ofNat 8 0, cdb := Block.ofNat 16 0, cdbLen := 6, expectedReadLen := 4,
    timeoutMs := 30000 }

/-- A target that answers the first PDU with the reply. -/
def inquiryTarget : Target
  | [] => []
  | _ :: _ => inquiryReply.pdus

theorem inquiryTarget_answers :
    Conn.Answers inquiryTarget ⟨[], 0⟩ (scsiCommand 1 2 1 inquiryParams) inquiryReply.pdus :=
  ⟨rfl, rfl⟩

theorem inquiryReply_framable_iff :
    ReturnsReply inquiryTarget 1 2 1 inquiryParams ⟨[], 0⟩ inquiryReply ↔ inquiryReply.Framable :=
  returnsReply_iff inquiryTarget 1 2 1 inquiryParams ⟨[], 0⟩ inquiryReply inquiryTarget_answers

/-- The window at bytes 32 to 35 is taken for the offset, and the exchange fails. -/
theorem inquiryReply_not_returned :
    Conn.Answers inquiryTarget ⟨[], 0⟩ (scsiCommand 1 2 1 inquiryParams) inquiryReply.pdus
      ∧ ¬ ReturnsReply inquiryTarget 1 2 1 inquiryParams ⟨[], 0⟩ inquiryReply := by
  refine ⟨inquiryTarget_answers, ?_⟩
  rintro ⟨out, ⟨enough, hrun⟩, -⟩
  have hnot : ¬ Framed 0 inquiryReply.dataIns := fun h => absurd h.1 (by decide)
  obtain ⟨e, herr⟩ := execute_fails inquiryTarget_answers (fun h => hnot h.1) enough
  rw [hrun _ (by omega)] at herr
  cases herr

end Iscsi

end DiscCleaner
