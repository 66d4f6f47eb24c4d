import DiscCleaner.Vdf.Wesolowski

/-!
# DiscCleaner — the drive weave (`weave.rs`)

The executor's lock appends one link per overwrite pass; the auditor checks the chain link by link.
Floating-point notes (the measured rate, the wall-clock claim) and the fields that no check reads
(`ceremony_note`, `passes`, the scheme) are left out. `none` is an arithmetic overflow or a panic.
-/

namespace DiscCleaner.Vdf

open ByteLib BigUint

/-- The width of the executor's lock. -/
abbrev Bn := BigUint 32

structure VdfParams where
  modulusN : String
  stepsPerPass : UInt64
  beacon : Option String
  deriving DecidableEq

/-- The Montgomery context of an odd modulus of 512 to 2048 bits. -/
def VdfParams.context (params : VdfParams) : Except VdfError (Montgomery 32) :=
  match (fromHex params.modulusN : Except String Bn) with
  | .error e => .error (.parse e)
  | .ok n =>
    if ¬(512 ≤ n.bits ∧ n.bits ≤ 2048) then .error (.badModulus n.bits)
    else if !n.isOdd then .error (.badModulus n.bits)
    else
      match Montgomery.new n with
      | .error e => .error (.parse e)
      | .ok ctx => .ok ctx

/-- One pass of the executor. -/
structure PassBinding where
  passIndex : UInt8
  state : String
  seedFingerprint : String
  challengePrime : String
  proof : String
  materializedAfterMs : UInt64
  deriving DecidableEq

structure TimelineEvidence where
  modulusN : String
  challengeX : String
  stepsPerPass : UInt64
  beacon : Option String
  passes : List PassBinding
  squaringsDone : UInt64
  deriving DecidableEq

structure TimelineVerdict where
  verified : Bool
  passesVerified : Nat
  totalSteps : Nat
  errors : List String
  deriving DecidableEq

/-- The seed of a pass's keystream. -/
def vdfPassSeed (cr : Crypto) (stateBytes : Bytes) (passIndex : UInt8) : Digest :=
  cr.blake3 (utf8 "dc-vdf/weave/v1" ++ stateBytes ++ [passIndex])

/-- The recorded fingerprint of a pass's seed. -/
def seedFingerprint (cr : Crypto) (stateBytes : Bytes) (passIndex : UInt8) : String :=
  hexEncode (cr.blake3 (vdfPassSeed cr stateBytes passIndex).bytes).bytes

/-! ## The executor -/

structure VdfLock where
  ctx : Montgomery 32
  nBytes : Bytes
  xBytes : Bytes
  stateM : Bn
  stepsPerPass : UInt64
  nextPass : UInt8
  bindings : List PassBinding
  squaringsDone : UInt64
  beacon : Option String

/-- The bytes a beacon adds to the challenge; text that is no hexadecimal adds none. -/
def beaconBytes : Option String → Bytes
  | none => []
  | some b => (hexDecodeChars (trimStart0x b.toList)).getD []

namespace VdfLock

/-- The challenge `x` of a run. -/
def challenge (cr : Crypto) (n : Bn) (beacon : Option String) (runMaterial : Bytes) : Bn :=
  fromBytesBe
    (cr.blake3 (utf8 "dc-vdf/x/v1" ++ n.toBytesBe ++ beaconBytes beacon ++ runMaterial)).bytes

def new (cr : Crypto) (params : VdfParams) (runMaterial : Bytes) : Except VdfError VdfLock :=
  match params.context with
  | .error e => .error e
  | .ok ctx =>
    let x := challenge cr ctx.n params.beacon runMaterial
    if x.isZero = true ∨ (x.binaryGcd ctx.n).cmpTo one ≠ .eq then .error .badChallenge
    else .ok {
      ctx := ctx
      nBytes := ctx.n.toBytesBe
      xBytes := x.toBytesBe
      stateM := ctx.toMont x
      stepsPerPass := params.stepsPerPass
      nextPass := 0
      bindings := []
      squaringsDone := 0
      beacon := params.beacon }

/-- The binding of a link that was proved. -/
def bindingOf (cr : Crypto) (passIndex : UInt8) (stateBytes : Bytes) (proof : LinkProof)
    (elapsedMs : UInt64) : PassBinding where
  passIndex := passIndex
  state := hexEncode stateBytes
  seedFingerprint := seedFingerprint cr stateBytes passIndex
  challengePrime := proof.challenge.toHex
  proof := hexEncode proof.pi
  materializedAfterMs := elapsedMs

/-- One pass further. Both loops poll the one callback, whose answers are `answer`. -/
def advance (cr : Crypto) (sha256 : Sha256) (entropy : Entropy) (lock : VdfLock)
    (answer : Nat → Bool) (elapsedMs : UInt64) :
    Option (Except VdfError PassBinding × VdfLock) :=
  if lock.nextPass = 255 then some (.error (.range "pass index overflow"), lock)
  else
    let base := lock.ctx.fromMont lock.stateM
    let (yM, polls) := lock.ctx.repeatSquare lock.stateM lock.stepsPerPass answer
    let y := lock.ctx.fromMont yM
    if 2 ^ 64 ≤ lock.squaringsDone.toNat + lock.stepsPerPass.toNat then none
    else
      let counted := { lock with squaringsDone := lock.squaringsDone + lock.stepsPerPass }
      match proveLink sha256 entropy lock.ctx base y lock.stepsPerPass answer polls with
      | none => none
      | some (.error e) => some (.error e, counted)
      | some (.ok proof) =>
        let binding := bindingOf cr lock.nextPass y.toBytesBe proof elapsedMs
        some (.ok binding, { counted with
          bindings := lock.bindings ++ [binding]
          stateM := yM
          nextPass := lock.nextPass + 1 })

def evidence (lock : VdfLock) : TimelineEvidence where
  modulusN := hexEncode lock.nBytes
  challengeX := hexEncode lock.xBytes
  stepsPerPass := lock.stepsPerPass
  beacon := lock.beacon
  passes := lock.bindings
  squaringsDone := lock.squaringsDone

end VdfLock

/-! ## The auditor -/

/-- The values of a pass as its texts spell them. -/
structure Link where
  state : Bn
  pi : Bn
  challenge : BigUint 2
  deriving DecidableEq

/-- How the messages about a pass begin. -/
def passText (b : PassBinding) : String := "pass " ++ toString b.passIndex.toNat ++ ": "

def readPass (b : PassBinding) : Except String Link :=
  match (fromHex b.state : Except String Bn) with
  | .error _ => .error (passText b ++ "state malformed")
  | .ok state =>
    match (fromHex b.proof : Except String Bn) with
    | .error _ => .error (passText b ++ "proof malformed")
    | .ok pi =>
      match (fromHex b.challengePrime : Except String (BigUint 2)) with
      | .error _ => .error (passText b ++ "challenge prime malformed")
      | .ok challenge => .ok { state := state, pi := pi, challenge := challenge }

/-- The modulus and the challenge of an evidence, or why the audit stops at them. -/
def TimelineEvidence.group (ev : TimelineEvidence) : Except String (Montgomery 32 × Bn) :=
  match (fromHex ev.modulusN : Except String Bn) with
  | .error _ => .error "modulus N missing/malformed/out of range"
  | .ok n =>
    if n.isOdd = true ∧ 512 ≤ n.bits ∧ n.bits ≤ 2048 then
      match Montgomery.new n with
      | .error e => .error ("montgomery init: " ++ e)
      | .ok ctx =>
        match (fromHex ev.challengeX : Except String Bn) with
        | .error _ => .error "challenge x missing or >= N"
        | .ok x => if x.cmpTo ctx.n = .lt then .ok (ctx, x) else .error "challenge x missing or >= N"
    else .error "modulus N missing/malformed/out of range"

/-- The audit between two passes. -/
@[ext] structure Walk where
  prev : Bn
  expectedPass : UInt8
  verifiedPasses : Nat
  totalSteps : Nat
  errors : List String
  deriving DecidableEq

namespace Walk

/-- A pass out of order is reported, and the count goes on from its index. -/
def orderErrors (w : Walk) (b : PassBinding) : List String :=
  if b.passIndex ≠ w.expectedPass then
    ["pass index discontinuity: expected " ++ toString w.expectedPass.toNat ++ ", got "
      ++ toString b.passIndex.toNat]
  else []

/-- One pass of the audit; `none` when a counter overflows. -/
def checkPass (cr : Crypto) (ctx : Montgomery 32) (steps : UInt64) (w : Walk) (b : PassBinding) :
    Option Walk :=
  let errors := w.errors ++ w.orderErrors b
  match readPass b with
  | .error e => some { w with expectedPass := b.passIndex, errors := errors ++ [e] }
  | .ok link =>
    let holds := verifyLink ctx w.prev link.state steps link.pi link.challenge
    let verifiedPasses := if holds then w.verifiedPasses + 1 else w.verifiedPasses
    let totalSteps := if holds then w.totalSteps + steps.toNat else w.totalSteps
    let errors := if holds then errors else
      errors ++ [passText b ++ "Wesolowski link INVALID (state "
        ++ String.ofList (b.state.toList.take 16) ++ ", steps " ++ toString steps.toNat ++ ")"]
    let errors :=
      if seedFingerprint cr link.state.toBytesBe b.passIndex ≠ b.seedFingerprint then
        errors ++ [passText b ++ "seed fingerprint mismatch (journal binding broken)"]
      else errors
    if 2 ^ 32 ≤ verifiedPasses ∨ 2 ^ 64 ≤ totalSteps ∨ b.passIndex = 255 then none
    else some {
      prev := link.state
      expectedPass := b.passIndex + 1
      verifiedPasses := verifiedPasses
      totalSteps := totalSteps
      errors := errors }

end Walk

def verifyTimeline (cr : Crypto) (ev : TimelineEvidence) : Option TimelineVerdict :=
  match ev.group with
  | .error e => some { verified := false, passesVerified := 0, totalSteps := 0, errors := [e] }
  | .ok (ctx, x) =>
    let start : Walk :=
      { prev := x, expectedPass := 0, verifiedPasses := 0, totalSteps := 0, errors := [] }
    (ev.passes.foldlM (Walk.checkPass cr ctx ev.stepsPerPass) start).map fun w => {
      verified := !ev.passes.isEmpty && w.verifiedPasses == ev.passes.length % 2 ^ 32
        && w.errors.isEmpty
      passesVerified := w.verifiedPasses
      totalSteps := w.totalSteps
      errors := w.errors }

end DiscCleaner.Vdf
