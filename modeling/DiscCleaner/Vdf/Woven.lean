import DiscCleaner.Vdf.Timeline

/-!
# DiscCleaner — runs of the weave's lock (`weave.rs`)

`Woven` is the state of a lock after `k` passes none of whose callbacks cancelled: the chain stands
at `x^(2^(steps * k))`, and the audit of the bindings so far ends there without errors.
-/

namespace DiscCleaner.Vdf

open ByteLib BigUint

/-- One call of `advance`: what its callback answers, poll by poll, and the clock. -/
structure AdvanceCall where
  answer : Nat → Bool
  elapsedMs : UInt64

/-- A call that returned. -/
structure Turn where
  before : VdfLock
  result : Except VdfError PassBinding
  after : VdfLock

/-- A success appends its binding; a failure leaves the lock. -/
def Turn.Right (t : Turn) : Prop :=
  match t.result with
  | .ok b => t.after.bindings = t.before.bindings ++ [b]
  | .error _ => t.after = t.before

namespace VdfLock

/-- The calls one after the other; `none` when one of them panics. -/
def run (cr : Crypto) (sha256 : Sha256) (entropy : Entropy) :
    VdfLock → List AdvanceCall → Option (List Turn × VdfLock)
  | lock, [] => some ([], lock)
  | lock, call :: calls =>
    match lock.advance cr sha256 entropy call.answer call.elapsedMs with
    | none => none
    | some (result, after) =>
      match run cr sha256 entropy after calls with
      | none => none
      | some (turns, last) =>
        some ({ before := lock, result := result, after := after } :: turns, last)

/-- **A run that verifies**: every call returns and is right, and the evidence at the end is
verified, with every binding counted and every squaring accounted for. -/
def Verifies (cr : Crypto) (sha256 : Sha256) (entropy : Entropy) (lock : VdfLock)
    (calls : List AdvanceCall) : Prop :=
  ∃ turns last, lock.run cr sha256 entropy calls = some (turns, last) ∧ (∀ t ∈ turns, t.Right)
    ∧ ∃ v, verifyTimeline cr last.evidence = some v ∧ v.verified = true
      ∧ v.passesVerified = last.bindings.length
      ∧ last.evidence.squaringsDone.toNat = lock.stepsPerPass.toNat * last.bindings.length

/-- The `i`-th state of the chain of a lock. -/
def stateAt (lock : VdfLock) (i : Nat) : Bn :=
  wrap 32 ((fromBytesBe lock.xBytes : Bn).val ^ 2 ^ (lock.stepsPerPass.toNat * i) % lock.ctx.n.val)

/-- Does the callback answer every poll of a call with yes? -/
def Answered (lock : VdfLock) (call : AdvanceCall) : Prop :=
  ∀ j < 2 * Montgomery.polls lock.stepsPerPass.toNat, call.answer j = true

/-- Does the search for the challenge of the `i`-th link find a prime? -/
def PrimeFound (sha256 : Sha256) (entropy : Entropy) (lock : VdfLock) (i : Nat) : Prop :=
  ∃ l, hashToPrime sha256 entropy
    (transcript lock.ctx.n (lock.stateAt i) lock.stepsPerPass (lock.stateAt (i + 1))) = some l

end VdfLock

/-- The walk at the state `y` after `k` passes without errors. -/
def cleanWalk (steps : UInt64) (k : Nat) (y : Bn) : Walk where
  prev := y
  expectedPass := UInt8.ofNat k
  verifiedPasses := k
  totalSteps := k * steps.toNat
  errors := []

/-- **A lock after `k` passes** of the chain that `start` begins. -/
structure Woven (cr : Crypto) (start : VdfLock) (k : Nat) (lock : VdfLock) : Prop where
  ctx : lock.ctx = start.ctx
  nBytes : lock.nBytes = start.nBytes
  xBytes : lock.xBytes = start.xBytes
  stepsPerPass : lock.stepsPerPass = start.stepsPerPass
  pass : lock.nextPass.toNat = k
  length : lock.bindings.length = k
  squarings : lock.squaringsDone.toNat = start.stepsPerPass.toNat * k
  state : start.ctx.Represents lock.stateM
    ((fromBytesBe start.xBytes : Bn).val ^ 2 ^ (start.stepsPerPass.toNat * k))
  audited : lock.bindings.foldlM (Walk.checkPass cr start.ctx start.stepsPerPass)
      (cleanWalk start.stepsPerPass 0 (fromBytesBe start.xBytes))
    = some (cleanWalk start.stepsPerPass k (start.stateAt k))

/-- What `new` establishes of a lock. -/
structure VdfLock.Fresh (lock : VdfLock) : Prop where
  nBytes : lock.nBytes = lock.ctx.n.toBytesBe
  xBytes : lock.xBytes = (fromBytesBe lock.xBytes : Bn).toBytesBe
  range : lock.ctx.n.isOdd = true ∧ 512 ≤ lock.ctx.n.bits ∧ lock.ctx.n.bits ≤ 2048
  context : Montgomery.new lock.ctx.n = .ok lock.ctx
  lt : (fromBytesBe lock.xBytes : Bn).val < lock.ctx.n.val
  coprime : Nat.Coprime (fromBytesBe lock.xBytes : Bn).val lock.ctx.n.val
  state : lock.stateM = lock.ctx.toMont (fromBytesBe lock.xBytes)
  pass : lock.nextPass = 0
  bindings : lock.bindings = []
  squarings : lock.squaringsDone = 0

theorem VdfParams.context_eq_ok {params : VdfParams} {ctx : Montgomery 32}
    (h : params.context = .ok ctx) :
    (ctx.n.isOdd = true ∧ 512 ≤ ctx.n.bits ∧ ctx.n.bits ≤ 2048)
      ∧ Montgomery.new ctx.n = .ok ctx := by
  unfold VdfParams.context at h
  split at h
  · exact absurd h (by simp)
  next n hn =>
  split at h
  · exact absurd h (by simp)
  next hbits =>
  split at h
  · exact absurd h (by simp)
  next hodd =>
  split at h
  · exact absurd h (by simp)
  next ctx' hnew =>
  obtain rfl := Except.ok.inj h
  obtain rfl := Montgomery.new_eq_ok hnew
  exact ⟨⟨by simpa using hodd, by omega, by omega⟩, hnew⟩

/-- A digest is below a modulus of 512 bits. -/
theorem VdfLock.challenge_lt (cr : Crypto) {n : Bn} (hbits : 512 ≤ n.bits)
    (beacon : Option String) (material : Bytes) :
    (VdfLock.challenge cr n beacon material).val < n.val := by
  set digest := cr.blake3 (utf8 "dc-vdf/x/v1" ++ n.toBytesBe ++ beaconBytes beacon ++ material)
  have hlt : ofBytes digest.bytes < 2 ^ 256 := (ofBytes_lt _).trans_eq (by rw [digest.size]; rfl)
  have hn : 2 ^ 511 ≤ n.val := le_of_bits hbits
  have hle : (VdfLock.challenge cr n beacon material).val ≤ ofBytes digest.bytes :=
    Nat.mod_le _ _
  exact (hle.trans_lt hlt).trans_le ((Nat.pow_le_pow_right (by decide) (by decide)).trans hn)

theorem VdfLock.fresh_of_new {cr : Crypto} {params : VdfParams} {material : Bytes} {lock : VdfLock}
    (h : VdfLock.new cr params material = .ok lock) : lock.Fresh := by
  unfold VdfLock.new at h
  split at h
  · exact absurd h (by simp)
  next ctx hctx =>
  dsimp only at h
  split at h
  · exact absurd h (by simp)
  next hx =>
  obtain rfl := Except.ok.inj h
  obtain ⟨hrange, hnew⟩ := VdfParams.context_eq_ok hctx
  set x := VdfLock.challenge cr ctx.n params.beacon material with hxdef
  have hback : (fromBytesBe x.toBytesBe : Bn) = x := by
    rw [fromBytesBe, ofBytes_toBytesBe, wrap_self]
  have hcop : Nat.Coprime x.val ctx.n.val := by
    have := (not_or.1 hx).2
    simpa using this
  exact {
    nBytes := rfl
    xBytes := by rw [hback]
    range := hrange
    context := hnew
    lt := by rw [hback]; exact VdfLock.challenge_lt cr hrange.2.1 _ _
    coprime := by rw [hback]; exact hcop
    state := by rw [hback]
    pass := rfl
    bindings := rfl
    squarings := rfl }

/-! ## One pass -/

section Pass

variable {cr : Crypto} {sha256 : Sha256} {entropy : Entropy} {start lock : VdfLock} {k : Nat}

theorem VdfLock.stateAt_val (start : VdfLock) (i : Nat) :
    (start.stateAt i).val = (fromBytesBe start.xBytes : Bn).val
      ^ 2 ^ (start.stepsPerPass.toNat * i) % start.ctx.n.val :=
  wrap_of_lt ((Nat.mod_lt _ start.ctx.n_pos).trans start.ctx.n.lt)

theorem VdfLock.two_pow_succ (start : VdfLock) (i : Nat) :
    2 ^ (start.stepsPerPass.toNat * (i + 1))
      = 2 ^ (start.stepsPerPass.toNat * i) * 2 ^ start.stepsPerPass.toNat := by
  rw [Nat.mul_succ, pow_add]

/-- A state is the `2^steps`-th power of the one before it. -/
theorem VdfLock.stateAt_succ (start : VdfLock) (i : Nat) :
    (start.stateAt (i + 1)).val
      = (start.stateAt i).val ^ 2 ^ start.stepsPerPass.toNat % start.ctx.n.val := by
  rw [stateAt_val, stateAt_val, two_pow_succ, pow_mul]
  exact (Nat.mod_modEq _ _).symm.pow _

theorem VdfLock.Fresh.coprime_stateAt (hfresh : start.Fresh) (i : Nat) :
    Nat.Coprime (start.stateAt i).val start.ctx.n.val := by
  rw [VdfLock.stateAt_val, Nat.Coprime, ← Nat.gcd_rec, Nat.gcd_comm]
  exact hfresh.coprime.pow_left _

theorem VdfLock.stateAt_lt (start : VdfLock) (i : Nat) :
    (start.stateAt i).val < start.ctx.n.val := by
  rw [VdfLock.stateAt_val]
  exact Nat.mod_lt _ start.ctx.n_pos

theorem VdfLock.Fresh.one_lt (hfresh : start.Fresh) : 1 < start.ctx.n.val := by
  have hbits := hfresh.range.2.1
  exact le_of_bits (i := 1) (by omega)

theorem VdfLock.Fresh.stateAt_pos (hfresh : start.Fresh) (i : Nat) : 0 < (start.stateAt i).val := by
  refine Nat.pos_of_ne_zero fun hzero => ?_
  have hcop := hfresh.coprime_stateAt i
  rw [hzero, Nat.coprime_zero_left] at hcop
  exact absurd hfresh.one_lt (by omega)

/-- The link of pass `k`, proved by the power of the quotient, holds. -/
theorem VdfLock.Fresh.linkHolds (hfresh : start.Fresh) (k : Nat) {l : BigUint 2} {pi : Bn}
    (hodd : l.val % 2 = 1) (hwidth : 2 ^ 127 ≤ l.val)
    (hpi : pi.val = (start.stateAt k).val ^ (2 ^ start.stepsPerPass.toNat / l.val)
      % start.ctx.n.val) :
    LinkHolds start.ctx.n.val (start.stateAt k).val (start.stateAt (k + 1)).val
      start.stepsPerPass.toNat pi.val l.val := by
  rw [start.stateAt_succ, hpi]
  exact LinkHolds.of_quotient hfresh.one_lt (start.stateAt_lt k) (hfresh.coprime_stateAt k)
    hwidth hodd

theorem readPass_bindingOf (cr : Crypto) (index : UInt8) (y pi : Bn) (l : BigUint 2)
    (steps : UInt64) (ms : UInt64) :
    readPass (VdfLock.bindingOf cr index y.toBytesBe
        { steps := steps, y := y.toBytesBe, pi := pi.toBytesBe, challenge := l } ms)
      = .ok { state := y, pi := pi, challenge := l } := by
  have hy : (fromHex (hexEncode y.toBytesBe) : Except String Bn) = .ok y := fromHex_toHex y
  have hpi : (fromHex (hexEncode pi.toBytesBe) : Except String Bn) = .ok pi := fromHex_toHex pi
  unfold readPass VdfLock.bindingOf
  dsimp only
  rw [hy, hpi, fromHex_toHex]

/-- The audit of a clean walk and a pass that is right. -/
theorem cleanWalk_checkPass {ctx : Montgomery 32} {steps : UInt64} {x y pi : Bn} {l : BigUint 2}
    {b : PassBinding} (hread : readPass b = .ok { state := y, pi := pi, challenge := l })
    (hk : k < 255) (hsteps : (k + 1) * steps.toNat < 2 ^ 64) (hindex : b.passIndex = UInt8.ofNat k)
    (hholds : LinkHolds ctx.n.val x.val y.val steps.toNat pi.val l.val)
    (hfp : seedFingerprint cr y.toBytesBe b.passIndex = b.seedFingerprint) :
    (cleanWalk steps k x).checkPass cr ctx steps b = some (cleanWalk steps (k + 1) y) := by
  have hstep := Walk.checkPass_read cr ctx steps (cleanWalk steps k x) hread
  set c : ChainLink := { prev := (cleanWalk steps k x).prev, binding := b, link := _ }
  have hchecks : c.checks ctx steps = true := (c.checks_iff ctx steps).2 hholds
  have hweight : c.weight ctx steps = 1 := if_pos hchecks
  have hlast : b.passIndex ≠ 255 := by
    rw [hindex]
    intro h255
    have hval := congrArg UInt8.toNat h255
    rw [UInt8.toNat_ofNat', Nat.mod_eq_of_lt (by omega)] at hval
    exact absurd hval (by simpa using hk.ne)
  have htotal : k * steps.toNat + 1 * steps.toNat = (k + 1) * steps.toNat := by
    rw [Nat.add_mul]
  dsimp only at hstep
  rw [hweight] at hstep
  simp only [cleanWalk] at hstep
  rw [htotal, if_neg (by rintro (hle | hle | h255) <;> first | omega | exact hlast h255)] at hstep
  obtain ⟨w', hw', hprev, hexp, hver, htot, herr⟩ := hstep
  refine hw'.trans (congrArg some (Walk.ext hprev ?_ hver htot ?_))
  · rw [hexp, hindex]
    exact UInt8.toNat_inj.1 (by simp [cleanWalk])
  · exact herr.2 ⟨trivial, hindex, hholds, hfp⟩

/-- **A pass of a lock whose callback answers**: it succeeds, appends its binding, and the audit
takes one clean step more. -/
theorem Woven.advance (hfresh : start.Fresh) (h : Woven cr start k lock) (hk : k < 255)
    (hsquarings : start.stepsPerPass.toNat * (k + 1) < 2 ^ 64) {call : AdvanceCall}
    (hyes : start.Answered call) (hprime : start.PrimeFound sha256 entropy k) :
    ∃ b lock', lock.advance cr sha256 entropy call.answer call.elapsedMs = some (.ok b, lock')
      ∧ lock'.bindings = lock.bindings ++ [b] ∧ Woven cr start (k + 1) lock' := by
  obtain ⟨l, hl⟩ := hprime
  obtain ⟨hpass, hwidth⟩ := hashToPrime_eq_some hl
  have hbase : lock.ctx.fromMont lock.stateM = start.stateAt k := by
    refine BigUint.ext ?_
    rw [h.ctx, h.state.fromMont, VdfLock.stateAt_val]
  -- The first loop: every poll is answered, so all squarings are made.
  have hsquare : lock.ctx.repeatSquare lock.stateM lock.stepsPerPass call.answer
      = (start.ctx.montSqr^[start.stepsPerPass.toNat] lock.stateM,
          Montgomery.polls start.stepsPerPass.toNat) := by
    have hfirst : ∀ j < Montgomery.polls (0 + start.stepsPerPass.toNat),
        call.answer (0 + j) = true := by
      intro j hj
      rw [Nat.zero_add] at hj ⊢
      exact hyes j (by omega)
    have hloop := start.ctx.squareLoop_of_answered start.stepsPerPass.toNat 0 hfirst lock.stateM
    rw [Nat.zero_add, Nat.zero_add, Nat.zero_add] at hloop
    rw [h.ctx, h.stepsPerPass]
    exact hloop
  have hy : start.ctx.fromMont (start.ctx.montSqr^[start.stepsPerPass.toNat] lock.stateM)
      = start.stateAt (k + 1) := by
    refine BigUint.ext ?_
    rw [(h.state.montSqr_iterate _).fromMont, VdfLock.stateAt_val, VdfLock.two_pow_succ]
    exact congrArg (· % start.ctx.n.val) (pow_mul _ _ _).symm
  -- The second loop goes on with the answers after those of the first.
  obtain ⟨pi, hpi, hprove⟩ := proveLink_of_answered start.ctx
    (Montgomery.polls start.stepsPerPass.toNat) (hfresh.stateAt_pos k) (start.stateAt_lt k)
    (start.stateAt_lt (k + 1)) hl (fun j hj => hyes _ (by omega))
  have hholds := hfresh.linkHolds k (odd_of_passesSmallPrimes hpass) hwidth hpi
  have hpassIndex : lock.nextPass ≠ 255 := by
    rintro h255
    rw [← h.pass, h255] at hk
    exact absurd hk (by decide)
  have hroom : ¬ 2 ^ 64 ≤ lock.squaringsDone.toNat + start.stepsPerPass.toNat := by
    rw [h.squarings]
    rw [Nat.mul_succ] at hsquarings
    omega
  set b := VdfLock.bindingOf cr lock.nextPass (start.stateAt (k + 1)).toBytesBe
    { steps := start.stepsPerPass, y := (start.stateAt (k + 1)).toBytesBe, pi := pi.toBytesBe,
      challenge := l } call.elapsedMs with hb
  have hadvance : lock.advance cr sha256 entropy call.answer call.elapsedMs
      = some (.ok b, { lock with
          bindings := lock.bindings ++ [b]
          stateM := start.ctx.montSqr^[start.stepsPerPass.toNat] lock.stateM
          nextPass := lock.nextPass + 1
          squaringsDone := lock.squaringsDone + lock.stepsPerPass }) := by
    unfold VdfLock.advance
    rw [if_neg hpassIndex]
    dsimp only
    rw [hbase, hsquare]
    dsimp only
    rw [h.ctx, hy, h.stepsPerPass, if_neg hroom, hprove]
  have hindex : b.passIndex = UInt8.ofNat k := by
    rw [← h.pass]
    exact UInt8.ofNat_toNat.symm
  -- The audit of one binding more.
  have hread : readPass b = .ok { state := start.stateAt (k + 1), pi := pi, challenge := l } :=
    readPass_bindingOf cr _ _ _ _ _ _
  have hclean := cleanWalk_checkPass hread hk (by rwa [Nat.mul_comm] at hsquarings)
    hindex hholds rfl
  refine ⟨b, _, hadvance, rfl, ?_⟩
  exact {
    ctx := h.ctx
    nBytes := h.nBytes
    xBytes := h.xBytes
    stepsPerPass := h.stepsPerPass
    pass := by
      have := h.pass
      show (lock.nextPass + 1).toNat = k + 1
      rw [UInt8.toNat_add, UInt8.toNat_one, this]
      omega
    length := by
      show (lock.bindings ++ [b]).length = k + 1
      rw [List.length_append, List.length_singleton, h.length]
    squarings := by
      show (lock.squaringsDone + lock.stepsPerPass).toNat = _
      rw [UInt64.toNat_add, h.squarings, h.stepsPerPass, Nat.mul_succ, Nat.mod_eq_of_lt]
      rwa [Nat.mul_succ] at hsquarings
    state := by
      have := h.state.montSqr_iterate start.stepsPerPass.toNat
      rw [← pow_mul, ← VdfLock.two_pow_succ] at this
      exact this
    audited := by
      show (lock.bindings ++ [b]).foldlM _ _ = _
      rw [List.foldlM_append, h.audited]
      simpa using hclean }

/-! ## A whole run -/

variable (cr) in
theorem VdfLock.Fresh.woven (hfresh : start.Fresh) : Woven cr start 0 start where
  ctx := rfl
  nBytes := rfl
  xBytes := rfl
  stepsPerPass := rfl
  pass := by rw [hfresh.pass]; rfl
  length := by rw [hfresh.bindings]; rfl
  squarings := by rw [hfresh.squarings]; rfl
  state := by
    rw [hfresh.state, Nat.mul_zero, pow_zero, pow_one]
    exact start.ctx.represents_toMont _
  audited := by
    have hstart : start.stateAt 0 = fromBytesBe start.xBytes := by
      refine BigUint.ext ?_
      rw [VdfLock.stateAt_val, Nat.mul_zero, pow_zero, pow_one, Nat.mod_eq_of_lt hfresh.lt]
    rw [hfresh.bindings, hstart]
    rfl

/-- Passes that are answered run on, each appending its binding. -/
theorem Woven.run (hfresh : start.Fresh) (calls : List AdvanceCall) (k : Nat) {lock : VdfLock}
    (h : Woven cr start k lock) (hk : k + calls.length ≤ 255)
    (hsquarings : start.stepsPerPass.toNat * (k + calls.length) < 2 ^ 64)
    (hyes : ∀ call ∈ calls, start.Answered call)
    (hprime : ∀ i < k + calls.length, start.PrimeFound sha256 entropy i) :
    ∃ turns last, lock.run cr sha256 entropy calls = some (turns, last) ∧ (∀ t ∈ turns, t.Right)
      ∧ Woven cr start (k + calls.length) last := by
  induction calls generalizing k lock with
  | nil => exact ⟨[], lock, rfl, fun t ht => absurd ht List.not_mem_nil, h⟩
  | cons call calls ih =>
    rw [List.length_cons] at hk hsquarings hprime
    have hlen : k + 1 + calls.length = k + (calls.length + 1) := by omega
    have hroom : start.stepsPerPass.toNat * (k + 1) < 2 ^ 64 :=
      (Nat.mul_le_mul_left _ (by omega)).trans_lt hsquarings
    obtain ⟨b, lock', hadvance, hbindings, hnext⟩ := h.advance hfresh (by omega) hroom
      (hyes call List.mem_cons_self) (hprime k (by omega))
    obtain ⟨turns, last, hrun, hright, hlast⟩ := ih (k + 1) hnext (by omega)
      (by rwa [hlen]) (fun c hc => hyes c (List.mem_cons_of_mem call hc)) (by rwa [hlen])
    rw [hlen] at hlast
    refine ⟨_, last, by rw [VdfLock.run, hadvance]; dsimp only; rw [hrun], ?_, hlast⟩
    intro t ht
    rcases List.mem_cons.1 ht with rfl | ht
    · exact hbindings
    · exact hright t ht

/-- The evidence of a woven lock is verified, unless it is empty. -/
theorem Woven.verifyTimeline (hfresh : start.Fresh) (h : Woven cr start k lock) (hk : 0 < k)
    (hlt : k ≤ 255) : ∃ v, verifyTimeline cr lock.evidence = some v ∧ v.verified = true
      ∧ v.passesVerified = k := by
  have hn : fromHex lock.evidence.modulusN = .ok start.ctx.n := by
    show fromHex (hexEncode lock.nBytes) = _
    rw [h.nBytes, hfresh.nBytes]
    exact fromHex_toHex _
  have hx : fromHex lock.evidence.challengeX = .ok (fromBytesBe start.xBytes : Bn) := by
    show fromHex (hexEncode lock.xBytes) = _
    rw [h.xBytes, hfresh.xBytes]
    exact (fromHex_toHex _).trans (by rw [← hfresh.xBytes])
  have hgroup := group_of_read hn hfresh.range hfresh.context hx hfresh.lt
  have hstart : Walk.mk (fromBytesBe start.xBytes) 0 0 0 []
      = cleanWalk start.stepsPerPass 0 (fromBytesBe start.xBytes) :=
    Walk.ext rfl rfl rfl (Nat.zero_mul _).symm rfl
  have hsteps : lock.evidence.stepsPerPass = start.stepsPerPass := h.stepsPerPass
  have hpasses : lock.evidence.passes = lock.bindings := rfl
  have hne : lock.bindings ≠ [] := List.ne_nil_of_length_pos (by rw [h.length]; exact hk)
  unfold DiscCleaner.Vdf.verifyTimeline
  rw [hgroup]
  dsimp only
  rw [hstart, hsteps, hpasses, h.audited]
  refine ⟨_, rfl, ?_, rfl⟩
  simp [cleanWalk, h.length, hne]
  omega

/-- **Every run whose callbacks answer verifies**: if no poll of at least one and at most 255 calls
is refused, the squarings fit 64 bits and every search for a challenge finds a prime, each call
appends its binding and the evidence is verified as a whole. -/
theorem VdfLock.run_verifies {params : VdfParams} {material : Bytes}
    (hnew : VdfLock.new cr params material = .ok lock) (calls : List AdvanceCall)
    (hne : calls ≠ []) (hlen : calls.length ≤ 255)
    (hsquarings : lock.stepsPerPass.toNat * calls.length < 2 ^ 64)
    (hyes : ∀ call ∈ calls, lock.Answered call)
    (hprime : ∀ i < calls.length, lock.PrimeFound sha256 entropy i) :
    lock.Verifies cr sha256 entropy calls := by
  have hfresh := VdfLock.fresh_of_new hnew
  obtain ⟨turns, last, hrun, hright, hlast⟩ := Woven.run hfresh calls 0 (hfresh.woven cr)
    (by omega) (by rwa [Nat.zero_add]) hyes (by rwa [Nat.zero_add])
  rw [Nat.zero_add] at hlast
  obtain ⟨v, hv, hverified, hcount⟩ := hlast.verifyTimeline hfresh
    (List.length_pos_of_ne_nil hne) hlen
  refine ⟨turns, last, hrun, hright, v, hv, hverified, by rw [hcount, hlast.length], ?_⟩
  rw [hlast.length]
  exact hlast.squarings

end Pass

/-! ## A lock of 512 bits -/

/-- Two passes of one squaring under `2^511 + 111`. -/
def sampleParams : VdfParams where
  modulusN := (wrap 32 (2 ^ 511 + 111) : Bn).toHex
  stepsPerPass := 1
  beacon := none

/-- BLAKE3 of the material "run-159" under that modulus. -/
def sampleDigest : Digest :=
  ByteLib.Block.ofNat 32 0xafb01f7203416d25671b8d6fe140965cec0034dd2e6ed350ef5a2c8ab3177429

/-- SHA-256 of the first link; its first half is a prime. -/
def sampleSha256 : Digest :=
  ByteLib.Block.ofNat 32 0x83ba205fab58c7b966545dfc480395bef284a0d7a39150de72c20874c1e64da0

/-- BLAKE3 answers the one digest. -/
def sampleCrypto : Crypto :=
  { tableCrypto (ByteLib.Block.ofNat 32 0) [] [] with blake3 := fun _ => sampleDigest }

/-- A machine whose source of entropy fails. -/
def noEntropy : Entropy where
  draw _ _ := none
  below _ _ _ h := absurd h (by simp)

theorem sampleChallenge (beacon : Option String) (n : Bn) (material : Bytes) :
    (VdfLock.challenge sampleCrypto n beacon material).val
      = 0xafb01f7203416d25671b8d6fe140965cec0034dd2e6ed350ef5a2c8ab3177429 := by
  unfold VdfLock.challenge sampleCrypto sampleDigest
  dsimp only
  rw [fromBytesBe, ofBytes_ofNat, wrap_of_lt]
  · decide +kernel
  · decide +kernel

/-- The first candidate is the challenge. -/
theorem sampleHashToPrime (t : Bytes) :
    ∃ l, hashToPrime (fun _ => sampleSha256) noEntropy t = some l := by
  have hval : (candidate sampleSha256).val = 0x83ba205fab58c7b966545dfc480395bf := by decide
  have hfactor : Nat.gcd 0x83ba205fab58c7b966545dfc480395bf (stepProduct 15 3) = 1 := by
    decide +kernel
  have hpass : passesSmallPrimes (candidate sampleSha256) = true :=
    passesSmallPrimes_of_coprime (by rw [hval]) (by rw [hval, hfactor])
  have hround : millerRabin (candidate sampleSha256)
      (List.ofFn (noEntropy.draw (candidate sampleSha256))) = true := by decide +kernel
  have hprime : isProbablePrime (candidate sampleSha256)
      (List.ofFn (noEntropy.draw (candidate sampleSha256))) = true := by
    unfold isProbablePrime
    rw [hpass, hround]
    rfl
  refine ⟨candidate sampleSha256, ?_⟩
  unfold hashToPrime
  rw [show 2 ^ 22 = 4194303 + 1 from rfl, primeSearch, hpass, hprime]
  rfl

theorem VdfLock.new_of_read {cr : Crypto} {params : VdfParams} {n : Bn} {material : Bytes}
    (hn : fromHex params.modulusN = .ok n)
    (hrange : n.isOdd = true ∧ 512 ≤ n.bits ∧ n.bits ≤ 2048)
    (hpos : 0 < (challenge cr n params.beacon material).val)
    (hcop : Nat.Coprime (challenge cr n params.beacon material).val n.val) :
    ∃ lock, VdfLock.new cr params material = .ok lock ∧ lock.stepsPerPass = params.stepsPerPass
      ∧ lock.nextPass = 0 ∧ lock.squaringsDone = 0 := by
  obtain ⟨ctx, hnew, rfl⟩ := Montgomery.new_ok ((isOdd_iff n).1 hrange.1)
  have hctx : params.context = .ok ctx := by
    unfold VdfParams.context
    rw [hn]
    dsimp only
    rw [if_neg (by simpa using hrange.2), hrange.1, hnew]
    rfl
  have hx : ¬((challenge cr ctx.n params.beacon material).isZero = true
      ∨ ((challenge cr ctx.n params.beacon material).binaryGcd ctx.n).cmpTo one ≠ .eq) := by
    simpa using ⟨hpos.ne', hcop⟩
  unfold VdfLock.new
  rw [hctx]
  dsimp only
  rw [if_neg hx]
  exact ⟨_, rfl, rfl, rfl, rfl⟩

theorem sampleLock (material : Bytes) :
    ∃ lock, VdfLock.new sampleCrypto sampleParams material = .ok lock ∧ lock.stepsPerPass = 1
      ∧ lock.nextPass = 0 ∧ lock.squaringsDone = 0 :=
  VdfLock.new_of_read (fromHex_toHex _) (by decide +kernel)
    (by rw [sampleChallenge]; decide) (by rw [sampleChallenge]; decide +kernel)

/-- A run of one pass. -/
theorem sampleRun_verifies : ∃ lock,
    VdfLock.new sampleCrypto sampleParams (utf8 "run-159") = .ok lock
      ∧ lock.Verifies sampleCrypto (fun _ => sampleSha256) noEntropy
        [{ answer := fun _ => true, elapsedMs := 0 }] := by
  obtain ⟨lock, hnew, hsteps, -, -⟩ := sampleLock (utf8 "run-159")
  refine ⟨lock, hnew, VdfLock.run_verifies hnew _ (List.cons_ne_nil _ _) (by decide) ?_ ?_ ?_⟩
  · rw [hsteps]
    decide
  · intro call hcall j hj
    obtain rfl := List.mem_singleton.1 hcall
    rfl
  · exact fun i hi => sampleHashToPrime _

/-- A callback that refuses the first poll of the proof: the squarings stay counted. -/
theorem VdfLock.advance_refused {cr : Crypto} {sha256 : Sha256} {entropy : Entropy}
    {lock after : VdfLock} {result : Except VdfError PassBinding} {ms : UInt64}
    (hpass : lock.nextPass = 0) (hsteps : lock.stepsPerPass = 1)
    (h : lock.advance cr sha256 entropy (fun j => j == 0) ms = some (result, after)) :
    (∃ e, result = .error e) ∧ after.squaringsDone = lock.squaringsDone + 1 := by
  have hsquare : (lock.ctx.repeatSquare lock.stateM lock.stepsPerPass fun j => j == 0).2 = 1 := by
    rw [hsteps]
    rfl
  unfold VdfLock.advance at h
  rw [if_neg (by rw [hpass]; decide)] at h
  dsimp only at h
  split at h
  · exact absurd h (by simp)
  generalize hprove : proveLink sha256 entropy lock.ctx _ _ _ _ _ = answered at h
  cases answered with
  | none => exact absurd h (by simp)
  | some answered =>
    cases answered with
    | error e =>
      obtain ⟨rfl, rfl⟩ := Prod.mk.inj (Option.some.inj h)
      exact ⟨⟨e, rfl⟩, by rw [← hsteps]⟩
    | ok proof =>
      have hyes := answered_of_proveLink (by rw [hsteps]; decide) hprove
      rw [hsquare] at hyes
      exact absurd hyes (by decide)

/-- **A refused proof changes the lock**, whose squarings stay counted. -/
theorem sampleRun_refused : ∃ lock,
    VdfLock.new sampleCrypto sampleParams (utf8 "run-159") = .ok lock
      ∧ ¬ lock.Verifies sampleCrypto (fun _ => sampleSha256) noEntropy
        [{ answer := fun j => j == 0, elapsedMs := 0 }] := by
  obtain ⟨lock, hnew, hsteps, hpass, hzero⟩ := sampleLock (utf8 "run-159")
  refine ⟨lock, hnew, ?_⟩
  rintro ⟨turns, last, hrun, hright, -⟩
  unfold VdfLock.run at hrun
  split at hrun
  · exact absurd hrun (by simp)
  next result after hadvance =>
  obtain ⟨⟨e, rfl⟩, hcount⟩ := VdfLock.advance_refused hpass hsteps hadvance
  obtain ⟨rfl, rfl⟩ := Prod.mk.inj (Option.some.inj hrun)
  have hsame : after = lock := hright _ List.mem_cons_self
  rw [hsame, hzero] at hcount
  exact absurd hcount (by decide)

end DiscCleaner.Vdf
