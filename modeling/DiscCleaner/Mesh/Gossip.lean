import DiscCleaner.Core.RecordJson
import Mathlib.Data.List.Sort
import Mathlib.Data.String.Basic

/-!
# DiscCleaner — drive reports and spot proofs (`gossip.rs`)

A node that finished a drive broadcasts a `DriveReport`; a witness asks for the bytes of one
window and `SpotTranscript.verify` compares them with what the declared pattern says. Reports
and transcripts enter a block only as the roots computed at the end of this file.
-/

namespace DiscCleaner

open ByteLib

/-- `blake3::hash(..).to_hex()`. -/
def Crypto.blake3Hex (cr : Crypto) (bs : Bytes) : String := hexEncode (cr.blake3 bs).bytes

/-- The bytes of a `u32`, most significant first. -/
def be32 (w : UInt32) : Bytes := (le32 w.toNat).reverse

/-- The bytes of a `u64`, most significant first. -/
def be64 (n : Nat) : Bytes := (le32 (n / 2 ^ 32)).reverse ++ (le32 n).reverse

namespace Mesh

/-! ## Drive reports -/

structure DriveReport where
  node : String
  serial : String
  wwn : Option String
  bus : String
  capacityLbas : Nat
  windowSectors : Nat
  windowsTotal : Nat
  windowsVerified : Nat
  pattern : Pattern
  evidenceRoot : String
  view : UInt32
  deriving DecidableEq

/-- A member that is left out when it is absent (`skip_serializing_if`). -/
def optionalMember (key : String) : Option String → List (String × Bytes)
  | some value => [(key, Json.string value)]
  | none => []

namespace DriveReport

def isConsistent (r : DriveReport) : Bool :=
  let closes :=
    if r.capacityLbas = 0 then r.windowsTotal = 0
    else r.windowsTotal * r.windowSectors = r.capacityLbas
  r.windowsVerified = r.windowsTotal ∧ closes

/-- The bytes of a window under the declared pattern; `none` is the panic on a weave. -/
def expectedBytes (ks : Keystream) (r : DriveReport) (window len : Nat) : Option Bytes :=
  (createPatternSource ks r.pattern).map fun src => src.fill window len

/-- `serde_json::to_vec` at a report. -/
def canonical (r : DriveReport) : Bytes :=
  Json.object
    ([("node", Json.string r.node), ("serial", Json.string r.serial)]
      ++ optionalMember "wwn" r.wwn
      ++ [("bus", Json.string r.bus),
        ("capacity_lbas", Json.nat r.capacityLbas),
        ("window_sectors", Json.nat r.windowSectors),
        ("windows_total", Json.nat r.windowsTotal),
        ("windows_verified", Json.nat r.windowsVerified),
        ("pattern", r.pattern.toJson),
        ("evidence_root", Json.string r.evidenceRoot),
        ("view", Json.nat r.view.toNat)])

end DriveReport

/-! ## Challenges and proofs -/

structure SpotChallenge where
  serial : String
  window : Nat
  windowSectors : Nat
  nonce : String
  deadlineTick : Nat
  deriving DecidableEq

def SpotChallenge.toJson (c : SpotChallenge) : Bytes :=
  Json.object
    [("serial", Json.string c.serial),
     ("window", Json.nat c.window),
     ("window_sectors", Json.nat c.windowSectors),
     ("nonce", Json.string c.nonce),
     ("deadline_tick", Json.nat c.deadlineTick)]

structure SpotProof where
  serial : String
  window : Nat
  nonce : String
  data : Option String
  binding : String
  deriving DecidableEq

namespace SpotProof

def toJson (p : SpotProof) : Bytes :=
  Json.object
    ([("serial", Json.string p.serial),
      ("window", Json.nat p.window),
      ("nonce", Json.string p.nonce)]
      ++ optionalMember "data" p.data
      ++ [("binding", Json.string p.binding)])

/-- `BLAKE3(nonce ∥ data)`. -/
def bindingFor (cr : Crypto) (nonce : String) (data : Bytes) : String :=
  cr.blake3Hex (utf8 nonce ++ data)

end SpotProof

/-! ## Base64 -/

def b64Val (c : UInt8) : Option Nat :=
  if 65 ≤ c ∧ c ≤ 90 then some (c.toNat - 65)
  else if 97 ≤ c ∧ c ≤ 122 then some (c.toNat - 97 + 26)
  else if 48 ≤ c ∧ c ≤ 57 then some (c.toNat - 48 + 52)
  else if c = 43 then some 62
  else if c = 47 then some 63
  else none

def padByte : UInt8 := 0x3D

/-- One group of four characters. -/
def b64Chunk (c₀ c₁ c₂ c₃ : UInt8) : Option Bytes := do
  let chunk := [c₀, c₁, c₂, c₃]
  let pad := chunk.count padByte
  if 2 < pad ∨ padByte ∈ chunk.take (4 - pad) then none
  else
    let vs ← chunk.mapM fun c => if c = padByte then some 0 else b64Val c
    let n := vs.foldl (fun n v => n * 64 + v) 0
    some ([UInt8.ofNat (n / 65536), UInt8.ofNat (n / 256), UInt8.ofNat n].take (3 - pad))

/-- Groups of four; a length that is no multiple of four fails. -/
def b64DecodeBytes : Bytes → Option Bytes
  | [] => some []
  | c₀ :: c₁ :: c₂ :: c₃ :: rest => do
    let head ← b64Chunk c₀ c₁ c₂ c₃
    let tail ← b64DecodeBytes rest
    some (head ++ tail)
  | _ => none

def b64Decode (s : String) : Option Bytes := b64DecodeBytes (utf8 s)

def b64Digit (n : Nat) : Char :=
  "ABCDEFGHIJKLMNOPQRSTUVWXYZabcdefghijklmnopqrstuvwxyz0123456789+/".toList.getD (n % 64) '='

/-- Groups of three bytes, the last one padded. -/
def b64EncodeChars : Bytes → List Char
  | [] => []
  | [a] =>
    let n := a.toNat * 65536
    [b64Digit (n / 262144), b64Digit (n / 4096), '=', '=']
  | [a, b] =>
    let n := a.toNat * 65536 + b.toNat * 256
    [b64Digit (n / 262144), b64Digit (n / 4096), b64Digit (n / 64), '=']
  | a :: b :: c :: rest =>
    let n := a.toNat * 65536 + b.toNat * 256 + c.toNat
    [b64Digit (n / 262144), b64Digit (n / 4096), b64Digit (n / 64), b64Digit n]
      ++ b64EncodeChars rest

def b64Encode (data : Bytes) : String := String.ofList (b64EncodeChars data)

namespace SpotProof

/-- The proof of the bytes on the media. -/
def honest (cr : Crypto) (serial : String) (window : Nat) (nonce : String) (data : Bytes) :
    SpotProof :=
  ⟨serial, window, nonce, some (b64Encode data), bindingFor cr nonce data⟩

/-- The same proof without the bytes, for windows that do not fit a frame. -/
def digestForm (cr : Crypto) (serial : String) (window : Nat) (nonce : String) (data : Bytes) :
    SpotProof :=
  ⟨serial, window, nonce, none, bindingFor cr nonce data⟩

end SpotProof

/-! ## Transcripts -/

structure SpotTranscript where
  witness : String
  wiper : String
  challenge : SpotChallenge
  proof : Option SpotProof
  passed : Bool
  reason : Option String
  deriving DecidableEq

namespace SpotTranscript

def toJson (t : SpotTranscript) : Bytes :=
  Json.object
    ([("witness", Json.string t.witness),
      ("wiper", Json.string t.wiper),
      ("challenge", t.challenge.toJson)]
      ++ (match t.proof with
          | some p => [("proof", p.toJson)]
          | none => [])
      ++ [("passed", Json.bool t.passed)]
      ++ optionalMember "reason" t.reason)

/-- What is wrong with a proof, given the bytes the pattern prescribes. -/
def proofDefect (cr : Crypto) (challenge : SpotChallenge) (p : SpotProof) (expected : Bytes) :
    Option String :=
  match p.data with
  | some encoded =>
    match b64Decode encoded with
    | none => some "proof data is not valid base64"
    | some data =>
      if data.length ≠ challenge.windowSectors * 512 then
        some "proof length does not match the window"
      else if SpotProof.bindingFor cr challenge.nonce data ≠ p.binding then
        some "nonce binding hash mismatch (replay or corruption)"
      else if expected ≠ data then
        some "on-media bytes differ from the declared final pattern"
      else none
  | none =>
    if SpotProof.bindingFor cr challenge.nonce expected ≠ p.binding then
      some "digest binding does not cover the expected pattern bytes"
    else none

/-- Verify a proof against the report's declared pattern; `none` is the panic of
`expectedBytes`. -/
def verify (cr : Crypto) (ks : Keystream) (witness wiper : String) (challenge : SpotChallenge)
    (proof : Option SpotProof) (report : DriveReport) : Option SpotTranscript :=
  let failed (reason : String) : SpotTranscript :=
    ⟨witness, wiper, challenge, proof, false, some reason⟩
  match proof with
  | none => some (failed "no proof delivered before deadline")
  | some p =>
    if p.serial ≠ challenge.serial ∨ p.window ≠ challenge.window ∨ p.nonce ≠ challenge.nonce then
      some (failed "proof does not answer the challenge")
    else
      (report.expectedBytes ks challenge.window (challenge.windowSectors * 512)).map
        fun expected =>
          match proofDefect cr challenge p expected with
          | some reason => failed reason
          | none => ⟨witness, wiper, challenge, proof, true, none⟩

/-- The transcript of a proof says whose it is and what it answers. -/
theorem verify_fields {cr : Crypto} {ks : Keystream} {witness wiper : String}
    {challenge : SpotChallenge} {p : SpotProof} {report : DriveReport} {t : SpotTranscript}
    (h : verify cr ks witness wiper challenge (some p) report = some t) :
    t.witness = witness ∧ t.challenge = challenge ∧ t.proof = some p
      ∧ (t.passed = true → p.serial = challenge.serial) := by
  unfold verify at h
  dsimp only at h
  split at h
  · obtain rfl := Option.some.inj h
    exact ⟨rfl, rfl, rfl, fun hpassed => absurd hpassed Bool.false_ne_true⟩
  · next hanswers =>
    push Not at hanswers
    obtain ⟨expected, -, rfl⟩ := Option.map_eq_some_iff.mp h
    split <;> exact ⟨rfl, rfl, rfl, fun _ => hanswers.1⟩

end SpotTranscript

/-! ## The gossip store -/

/-- Reports and their first reporters, both keyed by serial. -/
structure GossipStore where
  reports : List DriveReport
  owners : List (String × String)
  rebroadcast : List String
  deriving DecidableEq

namespace GossipStore

def new : GossipStore := ⟨[], [], []⟩

def ownerOf (g : GossipStore) (serial : String) : Option String :=
  (g.owners.find? fun o => o.1 = serial).map Prod.snd

/-- Returns `(fresh, duplicate_claim)`. -/
def ingest (g : GossipStore) (report : DriveReport) : (Bool × Bool) × GossipStore :=
  match g.ownerOf report.serial with
  | some owner => if owner ≠ report.node then ((false, true), g) else ((false, false), g)
  | none =>
    ((true, false),
      { g with
        owners := (report.serial, report.node) :: g.owners
        reports := report :: g.reports })

def get (g : GossipStore) (serial : String) : Option DriveReport :=
  g.reports.find? fun r => r.serial = serial

/-- The reports, by serial. -/
def all (g : GossipStore) : List DriveReport :=
  g.reports.insertionSort fun a b => a.serial ≤ b.serial

def byNode (g : GossipStore) (node : String) : List DriveReport :=
  (g.reports.filter fun r => r.node = node).insertionSort fun a b => a.serial ≤ b.serial

@[simp] theorem mem_all {g : GossipStore} {r : DriveReport} : r ∈ g.all ↔ r ∈ g.reports :=
  (List.perm_insertionSort _ _).mem_iff

theorem mem_of_get {g : GossipStore} {serial : String} {r : DriveReport}
    (h : g.get serial = some r) : r ∈ g.reports := List.mem_of_find?_eq_some h

theorem serial_of_get {g : GossipStore} {serial : String} {r : DriveReport}
    (h : g.get serial = some r) : r.serial = serial := by
  simpa using List.find?_some h

/-- A report whose serial has an owner changes nothing. -/
theorem ingest_owned {g : GossipStore} {report : DriveReport}
    (h : (g.ownerOf report.serial).isSome) : (g.ingest report).2 = g := by
  obtain ⟨owner, howner⟩ := Option.isSome_iff_exists.mp h
  unfold ingest
  rw [howner]
  dsimp only
  split <;> rfl

theorem ingest_new {g : GossipStore} {report : DriveReport}
    (h : g.ownerOf report.serial = none) : (g.ingest report).2 = { g with
      owners := (report.serial, report.node) :: g.owners
      reports := report :: g.reports } := by
  unfold ingest
  rw [h]

/-- Every report on record has an owner and is the one of its serial. -/
structure Sound (g : GossipStore) : Prop where
  owned : ∀ r ∈ g.reports, (g.ownerOf r.serial).isSome
  found : ∀ r ∈ g.reports, g.get r.serial = some r

theorem sound_new : GossipStore.new.Sound :=
  ⟨fun _ hr => absurd hr List.not_mem_nil, fun _ hr => absurd hr List.not_mem_nil⟩

theorem ownerOf_cons (g : GossipStore) (report : DriveReport) (serial : String) :
    ({ g with
      owners := (report.serial, report.node) :: g.owners
      reports := report :: g.reports } : GossipStore).ownerOf serial
      = if report.serial = serial then some report.node else g.ownerOf serial := by
  unfold ownerOf
  rw [List.find?_cons]
  by_cases h : report.serial = serial
  · simp [h]
  · simp [h]

theorem get_cons (g : GossipStore) (report : DriveReport) (serial : String) :
    ({ g with
      owners := (report.serial, report.node) :: g.owners
      reports := report :: g.reports } : GossipStore).get serial
      = if report.serial = serial then some report else g.get serial := by
  unfold get
  rw [List.find?_cons]
  by_cases h : report.serial = serial
  · simp [h]
  · simp [h]

/-- A report whose serial has no owner is of a serial nobody reported. -/
theorem Sound.serial_ne {g : GossipStore} (h : g.Sound) {report r : DriveReport}
    (hnew : g.ownerOf report.serial = none) (hr : r ∈ g.reports) : report.serial ≠ r.serial := by
  intro heq
  have howned := h.owned r hr
  rw [← heq, hnew] at howned
  exact absurd howned (by decide)

theorem Sound.ingest {g : GossipStore} (h : g.Sound) (report : DriveReport) :
    (g.ingest report).2.Sound := by
  cases howner : g.ownerOf report.serial with
  | some owner =>
    rw [ingest_owned (by rw [howner]; rfl)]
    exact h
  | none =>
    rw [ingest_new howner]
    refine ⟨fun r hr => ?_, fun r hr => ?_⟩
    · rw [ownerOf_cons]
      rcases List.mem_cons.mp hr with rfl | hr
      · rw [if_pos rfl]
        rfl
      · rw [if_neg (h.serial_ne howner hr)]
        exact h.owned r hr
    · rw [get_cons]
      rcases List.mem_cons.mp hr with rfl | hr
      · exact if_pos rfl
      · rw [if_neg (h.serial_ne howner hr)]
        exact h.found r hr

/-- A report on record stays on record. -/
theorem Sound.get_ingest {g : GossipStore} (h : g.Sound) (report : DriveReport) {serial : String}
    {r : DriveReport} (hget : g.get serial = some r) : (g.ingest report).2.get serial = some r := by
  cases howner : g.ownerOf report.serial with
  | some owner =>
    rw [ingest_owned (by rw [howner]; rfl)]
    exact hget
  | none =>
    have hne := h.serial_ne howner (mem_of_get hget)
    rw [serial_of_get hget] at hne
    rw [ingest_new howner, get_cons, if_neg hne]
    exact hget

end GossipStore

/-! ## Roots -/

/-- Canonical root over the reports in the order of their serials, and their number. -/
def reportsRoot (cr : Crypto) (reports : List DriveReport) : String × UInt32 :=
  let sorted := reports.insertionSort fun a b => a.serial ≤ b.serial
  (cr.blake3Hex (utf8 "DCMS-REPORTS-v1" ++ sorted.flatMap DriveReport.canonical),
    UInt32.ofNat sorted.length)

/-- Canonical root over the transcripts in the order of their nonces, and their number. -/
def transcriptsRoot (cr : Crypto) (transcripts : List SpotTranscript) : String × UInt32 :=
  let sorted := transcripts.insertionSort fun a b => a.challenge.nonce ≤ b.challenge.nonce
  (cr.blake3Hex (utf8 "DCMS-TRANSCRIPTS-v1" ++ sorted.flatMap SpotTranscript.toJson),
    UInt32.ofNat sorted.length)

/-- The evidence root over the digests of the windows, each with its length. -/
def evidenceRoot (cr : Crypto) (digests : List Bytes) : String :=
  cr.blake3Hex (digests.flatMap fun d => be64 d.length ++ d)

end Mesh

end DiscCleaner
