import DiscCleaner.Lib.Bytes

/-!
# DiscCleaner — identities, patterns and sanitization plans (`dc-core`)

The plan vocabulary every other component shares: who the target is
(`identity.rs`), what is written to it (`pattern.rs`), which passes and which
verification a plan asks for (`plan.rs`), and the strategy ladder of a hardware
purge (`strategy.rs`).
-/

namespace DiscCleaner

open ByteLib

/-! ## Identities (`identity.rs`, `tool.rs`) -/

inductive BusType where
  | nvme | sata | sas | usb | mmc | ufs | virtio | loop | deviceMapper | file | unknown
  deriving DecidableEq, Repr

structure StableIdentity where
  model : Option String
  serial : Option String
  wwn : Option String
  sizeBytes : Nat
  bus : BusType
  dmName : Option String
  dmUuid : Option String
  deriving DecidableEq

structure KernelIdentity where
  major : Nat
  minor : Nat
  deriving DecidableEq

structure DeviceIdentity where
  stable : StableIdentity
  kernel : KernelIdentity
  kernelName : String
  devPath : String
  logicalBlockSize : Nat
  physicalBlockSize : Nat
  deriving DecidableEq

structure ToolBuild where
  name : String
  version : String
  buildHash : String
  targetTriple : String
  deriving DecidableEq

/-! ## Patterns (`pattern.rs`) -/

inductive PrngScheme where
  | chaCha20WindowV1
  deriving DecidableEq

inductive VdfWeaveScheme where
  | wesolowskiRsaUfoV1
  deriving DecidableEq

/-- The pattern a pass writes. A `vdfWoven` pattern is a declaration only: its bytes exist
once the executor has advanced the time-lock chain. -/
inductive Pattern where
  | zero
  | fixed (byte : UInt8)
  | fixedWord (bytes : Block 4)
  | deterministicRandom (scheme : PrngScheme) (seed : Block 32)
  | vdfWoven (scheme : VdfWeaveScheme) (seedCommitment : Block 32)
  deriving DecidableEq

def Pattern.isVdf : Pattern → Bool
  | .vdfWoven _ _ => true
  | _ => false

structure PatternDescriptor where
  name : String
  pattern : Pattern
  description : String
  deriving DecidableEq

/-- A materialized pattern. `fill` is a pure function of the window index and the buffer
length; a window-invariant source fills every window alike. -/
structure PatternSource where
  fill : Nat → Nat → Bytes
  descriptor : PatternDescriptor
  windowInvariant : Bool
  fill_length : ∀ w n, (fill w n).length = n

/-- The upper-case digits Rust's `{:02X}` prints for a byte. -/
def upperHex (b : UInt8) : String :=
  String.ofList ([b.toNat / 16, b.toNat % 16].map fun n =>
    if n < 10 then Char.ofNat (48 + n) else Char.ofNat (55 + n))

/-- The keystream of a ChaCha20 instance: key, nonce and length determine the bytes. -/
structure Keystream where
  bytes : Block 32 → Bytes → Nat → Bytes
  bytes_length : ∀ key nonce n, (bytes key nonce n).length = n

/-- The nonce of window `w`: the index as 8 little-endian bytes, then four zeros. -/
def windowNonce (w : Nat) : Bytes :=
  le32 w ++ le32 (w / 2 ^ 32) ++ [0, 0, 0, 0]

def zeroPattern : PatternSource where
  fill _ n := List.replicate n 0
  descriptor := ⟨"Zero", .zero, "All zero bytes (0x00)"⟩
  windowInvariant := true
  fill_length := by simp

def fixedPattern (byte : UInt8) : PatternSource where
  fill _ n := List.replicate n byte
  descriptor := ⟨"Fixed(0x" ++ upperHex byte ++ ")", .fixed byte,
    "Repeating byte 0x" ++ upperHex byte⟩
  windowInvariant := true
  fill_length := by simp

def fixedWordPattern (word : Block 4) : PatternSource where
  fill _ n := (List.range n).map fun i => word.bytes.getD (i % 4) 0
  descriptor := ⟨"FixedWord(0x" ++ hexEncode word.bytes ++ ")", .fixedWord word,
    "Repeating 4-byte word " ++ hexEncode word.bytes⟩
  windowInvariant := true
  fill_length := by simp

def chaCha20Pattern (ks : Keystream) (seed : Block 32) : PatternSource where
  fill w n := ks.bytes seed (windowNonce w) n
  descriptor := ⟨"ChaCha20WindowV1", .deterministicRandom .chaCha20WindowV1 seed,
    "Deterministic CSPRNG (ChaCha20WindowV1, seed: " ++ hexEncode seed.bytes ++ ")"⟩
  windowInvariant := false
  fill_length w n := ks.bytes_length seed (windowNonce w) n

/-- The source of one pass of a time-lock weave, keyed by the state of that pass. -/
def vdfWeavePattern (ks : Keystream) (scheme : VdfWeaveScheme) (seedCommitment : Block 32)
    (passIndex : UInt8) (stateSeed : Block 32) : PatternSource where
  fill w n := ks.bytes stateSeed (windowNonce w) n
  descriptor := ⟨"VdfWeaveV1(pass " ++ toString passIndex.toNat ++ ", seed-fp "
      ++ String.ofList ((hexEncode stateSeed.bytes).toList.take 16) ++ ")",
    .vdfWoven scheme seedCommitment,
    "VDF-woven pass — ChaCha20 keystream keyed by time-lock state "
      ++ hexEncode stateSeed.bytes⟩
  windowInvariant := false
  fill_length w n := ks.bytes_length stateSeed (windowNonce w) n

/-- The source of a declared pattern; `none` is the panic on an unmaterialized weave. -/
def createPatternSource (ks : Keystream) : Pattern → Option PatternSource
  | .zero => some zeroPattern
  | .fixed byte => some (fixedPattern byte)
  | .fixedWord word => some (fixedWordPattern word)
  | .deterministicRandom .chaCha20WindowV1 seed => some (chaCha20Pattern ks seed)
  | .vdfWoven _ _ => none

theorem createPatternSource_isSome (ks : Keystream) {p : Pattern} (h : p.isVdf = false) :
    ∃ src, createPatternSource ks p = some src ∧ src.descriptor.pattern = p := by
  cases p with
  | zero => exact ⟨_, rfl, rfl⟩
  | fixed byte => exact ⟨_, rfl, rfl⟩
  | fixedWord word => exact ⟨_, rfl, rfl⟩
  | deterministicRandom scheme seed => cases scheme; exact ⟨_, rfl, rfl⟩
  | vdfWoven _ _ => simp [Pattern.isVdf] at h

/-- The sources a pass can be given: what a declared pattern compiles to, or a materialized
weave. -/
inductive Materialized (ks : Keystream) : PatternSource → Prop
  | declared {p : Pattern} {pat : PatternSource} (h : createPatternSource ks p = some pat) :
    Materialized ks pat
  | weave (scheme : VdfWeaveScheme) (seedCommitment : Block 32) (passIndex : UInt8)
    (stateSeed : Block 32) :
    Materialized ks (vdfWeavePattern ks scheme seedCommitment passIndex stateSeed)

/-- **One buffer serves every window** of an invariant source, whatever its length. -/
theorem Materialized.fill_take {ks : Keystream} {pat : PatternSource} (h : Materialized ks pat)
    (hinv : pat.windowInvariant = true) {n len : Nat} (hlen : len ≤ n) (w : Nat) :
    (pat.fill 0 n).take len = pat.fill w len := by
  cases h with
  | weave => exact absurd hinv (by simp [vdfWeavePattern])
  | @declared p _ h =>
    cases p with
    | vdfWoven => simp [createPatternSource] at h
    | deterministicRandom scheme =>
      cases scheme
      obtain rfl := Option.some.inj h
      exact absurd hinv (by simp [chaCha20Pattern])
    | zero | fixed =>
      obtain rfl := Option.some.inj h
      show (List.replicate n _).take len = List.replicate len _
      rw [List.take_replicate, Nat.min_eq_left hlen]
    | fixedWord =>
      obtain rfl := Option.some.inj h
      show ((List.range n).map _).take len = (List.range len).map _
      rw [← List.map_take, List.take_range, Nat.min_eq_left hlen]

/-! ## Verification levels (`plan.rs`) -/

inductive VerifyLevel where
  | full
  | sampled (stride : Nat)
  | none
  deriving DecidableEq

namespace VerifyLevel

/-- The sampling stride actually applied (1 selects every window). -/
def effectiveStride : VerifyLevel → Nat
  | full | none => 1
  | sampled stride => max stride 1

/-- The journal tag of a level: `full`, `none` or `sample:N`. -/
def shortTag : VerifyLevel → String
  | full => "full"
  | none => "none"
  | sampled stride => "sample:" ++ toString stride

/-- Rust's `str::parse::<u32>`: an optional `+`, then at least one decimal digit. -/
def parseU32 (cs : List Char) : Option Nat :=
  let digits := if cs.head? = some '+' then cs.tail else cs
  if digits = [] ∨ ¬ digits.all Char.isDigit then Option.none
  else
    let n := digits.foldl (fun acc c => 10 * acc + (c.toNat - 48)) 0
    if n < 2 ^ 32 then some n else Option.none

/-- Parse a journal tag back; unknown texts and strides outside `2..=65536` fail. -/
def fromShortTag (tag : String) : Option VerifyLevel :=
  if tag = "full" then some full
  else if tag = "none" then some none
  else
    match tag.toList.dropWhile (· ≠ ':') with
    | [] => Option.none
    | _ :: value =>
      if tag.toList.takeWhile (· ≠ ':') ≠ "sample".toList then Option.none
      else
        match parseU32 value with
        | some stride =>
          if 2 ≤ stride ∧ stride ≤ 65536 then some (sampled stride) else Option.none
        | Option.none => Option.none

end VerifyLevel

/-! ## Plans (`plan.rs`, `strategy.rs`) -/

inductive FastPathPolicy where
  | preferWriteZeroes | forbidWriteZeroes
  deriving DecidableEq

structure Pass where
  pattern : Pattern
  label : String
  deriving DecidableEq

structure MechanismStep where
  name : String
  grade : String
  nistClass : String
  readbackExpectation : String
  fallbackTarget : Option String
  deriving DecidableEq

structure StrategyLadder where
  steps : List MechanismStep
  deriving DecidableEq

inductive Mechanism where
  | logicalOverwrite (passes : List Pass)
  | hardwarePurge (ladder : StrategyLadder) (selectedMechanism : String)
  deriving DecidableEq

structure SanitizationPlan where
  planSchema : String
  target : StableIdentity
  mechanism : Mechanism
  verification : VerifyLevel
  windowBytes : Nat
  fastPath : FastPathPolicy
  strategyLadder : Option StrategyLadder
  legacyNote : Option String
  deriving DecidableEq

/-! ## Errors (`error.rs`) -/

structure GuardianRefusal where
  code : String
  detail : String
  hint : String
  deriving DecidableEq

inductive DcError where
  | guardian (refusal : GuardianRefusal)
  | io (op : String) (errno : Int) (atLba : Option Nat)
  | journalCorrupt (recordIndex : Nat) (reason : String)
  | verificationFailed (mismatches : Nat) (sample : List Nat)
  | interrupted (completedThrough : Option (UInt8 × Nat))
  | certSigning (detail : String)
  | certInvalid (detail : String)
  | usage (detail : String)
  | internal (detail : String)
  | json (detail : String)
  | stdIo (errno : Option Int) (detail : String)
  deriving DecidableEq

/-- The operator-facing text of an error. -/
def DcError.display : DcError → String
  | .guardian g => "Guardian refusal [" ++ g.code ++ "]: " ++ g.detail
  | .io op errno _ => "I/O error during '" ++ op ++ "' (errno " ++ toString errno ++ ")"
  | .journalCorrupt i reason =>
    "Journal corruption at record #" ++ toString i ++ ": " ++ reason
  | .verificationFailed m sample =>
    "Verification failed with " ++ toString m
      ++ " mismatching windows! First mismatches at LBAs: " ++ toString sample
  | .interrupted _ => "Operation interrupted by signal or operator request"
  | .certSigning d => "Certificate signing error: " ++ d
  | .certInvalid d => "Certificate invalid or verification failed: " ++ d
  | .usage d => "Usage error: " ++ d
  | .internal d => "Internal error: " ++ d
  | .json d => "JSON serialization error: " ++ d
  | .stdIo _ d => "I/O OS error: " ++ d

/-- How a call can fail to return: with an error, or by unwinding. -/
inductive Fault where
  | error (e : DcError)
  | panic (reason : String)
  deriving DecidableEq

end DiscCleaner
