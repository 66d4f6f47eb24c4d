import DiscCleaner.Vdf.Weave

/-!
# DiscCleaner — what the audit of a timeline shows (`weave.rs`)

The audit folds `check_pass` over the passes. `chain` lists the links it meets with the state each
starts from, and `Accepted` is the timeline of which it reports no error.
-/

namespace DiscCleaner.Vdf

open ByteLib BigUint

/-- A link of the chain with the state before it and the pass that records it. -/
structure ChainLink where
  prev : Bn
  binding : PassBinding
  link : Link
  deriving DecidableEq

/-- The links of the passes that can be read, from the state `prev` on. -/
def chain (prev : Bn) : List PassBinding → List ChainLink
  | [] => []
  | b :: bs =>
    match readPass b with
    | .error _ => chain prev bs
    | .ok link => { prev := prev, binding := b, link := link } :: chain link.state bs

namespace ChainLink

def checks (ctx : Montgomery 32) (steps : UInt64) (c : ChainLink) : Bool :=
  verifyLink ctx c.prev c.link.state steps c.link.pi c.link.challenge

/-- The values of a link satisfy the equation of its challenge. -/
def Holds (ctx : Montgomery 32) (steps : UInt64) (c : ChainLink) : Prop :=
  LinkHolds ctx.n.val c.prev.val c.link.state.val steps.toNat c.link.pi.val c.link.challenge.val

/-- The challenge is the one its transcript hashes to. -/
def Derived (sha256 : Sha256) (entropy : Entropy) (ctx : Montgomery 32) (steps : UInt64)
    (c : ChainLink) : Prop :=
  hashToPrime sha256 entropy (transcript ctx.n c.prev steps c.link.state) = some c.link.challenge

/-- What a link adds to the number of verified passes. -/
def weight (ctx : Montgomery 32) (steps : UInt64) (c : ChainLink) : Nat :=
  if c.checks ctx steps then 1 else 0

theorem checks_iff (ctx : Montgomery 32) (steps : UInt64) (c : ChainLink) :
    c.checks ctx steps = true ↔ c.Holds ctx steps :=
  verifyLink_iff (by decide) ctx c.prev c.link.state steps c.link.pi c.link.challenge

end ChainLink

/-- **A timeline without errors**: the indices count on from `e`, every text can be read, every
link holds, and every fingerprint is the one of its state. -/
def Accepted (cr : Crypto) (ctx : Montgomery 32) (steps : UInt64) :
    UInt8 → Bn → List PassBinding → Prop
  | _, _, [] => True
  | e, prev, b :: bs => ∃ link, b.passIndex = e ∧ readPass b = .ok link
      ∧ ChainLink.Holds ctx steps { prev := prev, binding := b, link := link }
      ∧ seedFingerprint cr link.state.toBytesBe b.passIndex = b.seedFingerprint
      ∧ Accepted cr ctx steps (e + 1) link.state bs

/-! ## The walk -/

section Walk

variable {cr : Crypto} {ctx : Montgomery 32} {steps : UInt64}

theorem Walk.orderErrors_eq_nil {w : Walk} {b : PassBinding} :
    w.orderErrors b = [] ↔ b.passIndex = w.expectedPass := by
  unfold Walk.orderErrors
  split <;> simp_all

variable (cr ctx steps) in
/-- A pass that cannot be read only adds errors. -/
theorem Walk.checkPass_unread {w : Walk} {b : PassBinding} {e : String}
    (h : readPass b = .error e) : ∃ w', w.checkPass cr ctx steps b = some w' ∧ w'.prev = w.prev
      ∧ w'.verifiedPasses = w.verifiedPasses ∧ w'.totalSteps = w.totalSteps ∧ w'.errors ≠ [] := by
  unfold Walk.checkPass
  rw [h]
  exact ⟨_, rfl, rfl, rfl, rfl, by simp⟩

variable (cr ctx steps) in
/-- What a pass that can be read adds to the counters and the errors. -/
theorem Walk.checkPass_read (w : Walk) {b : PassBinding} {link : Link}
    (h : readPass b = .ok link) :
    let c : ChainLink := { prev := w.prev, binding := b, link := link }
    let k := c.weight ctx steps
    if 2 ^ 32 ≤ w.verifiedPasses + k ∨ 2 ^ 64 ≤ w.totalSteps + k * steps.toNat ∨ b.passIndex = 255
    then w.checkPass cr ctx steps b = none
    else ∃ w', w.checkPass cr ctx steps b = some w' ∧ w'.prev = link.state
      ∧ w'.expectedPass = b.passIndex + 1 ∧ w'.verifiedPasses = w.verifiedPasses + k
      ∧ w'.totalSteps = w.totalSteps + k * steps.toNat
      ∧ (w'.errors = [] ↔ w.errors = [] ∧ b.passIndex = w.expectedPass ∧ c.Holds ctx steps
          ∧ seedFingerprint cr link.state.toBytesBe b.passIndex = b.seedFingerprint) := by
  intro c k
  have hholds : verifyLink ctx w.prev link.state steps link.pi link.challenge
      = c.checks ctx steps := rfl
  have hverified : (if c.checks ctx steps then w.verifiedPasses + 1 else w.verifiedPasses)
      = w.verifiedPasses + k := by
    unfold k ChainLink.weight
    split <;> rfl
  have htotal : (if c.checks ctx steps then w.totalSteps + steps.toNat else w.totalSteps)
      = w.totalSteps + k * steps.toNat := by
    unfold k ChainLink.weight
    split <;> simp
  unfold Walk.checkPass
  rw [h]
  dsimp only
  rw [hholds, hverified, htotal]
  split
  · rfl
  · refine ⟨_, rfl, rfl, rfl, rfl, rfl, ?_⟩
    rw [← c.checks_iff, ← Walk.orderErrors_eq_nil]
    by_cases hc : c.checks ctx steps = true <;>
      by_cases hf : seedFingerprint cr link.state.toBytesBe b.passIndex = b.seedFingerprint <;>
      simp [hc, hf]

/-- Do the counters of the audit fit, from `verified` and `total` on? -/
structure CountersFit (ctx : Montgomery 32) (steps : UInt64) (verified total : Nat)
    (links : List ChainLink) : Prop where
  index : ∀ c ∈ links, c.binding.passIndex ≠ 255
  passes : verified + links.countP (·.checks ctx steps) < 2 ^ 32
  steps : total + links.countP (·.checks ctx steps) * steps.toNat < 2 ^ 64

theorem countP_cons_eq (ctx : Montgomery 32) (steps : UInt64) (c : ChainLink)
    (cs : List ChainLink) : (c :: cs).countP (·.checks ctx steps)
      = c.weight ctx steps + cs.countP (·.checks ctx steps) := by
  rw [List.countP_cons, Nat.add_comm]
  rfl

variable (cr) in
/-- **A walk whose counters fit** ends with every checked link counted, and without errors exactly
when the timeline is accepted. -/
theorem Walk.foldlM_of_fit (passes : List PassBinding) (w : Walk)
    (hfit : CountersFit ctx steps w.verifiedPasses w.totalSteps (chain w.prev passes)) :
    ∃ w', passes.foldlM (Walk.checkPass cr ctx steps) w = some w'
      ∧ w'.verifiedPasses
        = w.verifiedPasses + (chain w.prev passes).countP (·.checks ctx steps)
      ∧ w'.totalSteps
        = w.totalSteps + (chain w.prev passes).countP (·.checks ctx steps) * steps.toNat
      ∧ (w'.errors = [] ↔ w.errors = [] ∧ Accepted cr ctx steps w.expectedPass w.prev passes) := by
  induction passes generalizing w with
  | nil => exact ⟨w, rfl, by simp [chain], by simp [chain], by simp [Accepted]⟩
  | cons b bs ih =>
    rw [List.foldlM_cons]
    cases hread : readPass b with
    | error e =>
      have hchain : chain w.prev (b :: bs) = chain w.prev bs := by simp only [chain, hread]
      obtain ⟨w₁, hw₁, hprev, hver, htot, herr⟩ := Walk.checkPass_unread cr ctx steps hread
      rw [hchain] at hfit ⊢
      obtain ⟨w', hrun, hver', htot', herr'⟩ := ih w₁ (by rwa [hprev, hver, htot])
      refine ⟨w', by rw [hw₁]; exact hrun, ?_, ?_, ?_⟩
      · rw [hver', hprev, hver]
      · rw [htot', hprev, htot]
      · rw [herr']
        simp [herr, Accepted, hread]
    | ok link =>
      have hchain : chain w.prev (b :: bs)
          = { prev := w.prev, binding := b, link := link } :: chain link.state bs := by
        simp only [chain, hread]
      have hstep := Walk.checkPass_read cr ctx steps w hread
      rw [hchain] at hfit ⊢
      set c : ChainLink := { prev := w.prev, binding := b, link := link }
      have hcount := countP_cons_eq ctx steps c (chain link.state bs)
      have hindex : b.passIndex ≠ 255 := hfit.index c List.mem_cons_self
      have hpasses := hfit.passes
      have hsteps := hfit.steps
      rw [hcount] at hpasses hsteps ⊢
      rw [Nat.add_mul] at hsteps ⊢
      dsimp only at hstep
      rw [if_neg (by rintro (hle | hle | h255) <;> first | omega | exact hindex h255)] at hstep
      obtain ⟨w₁, hw₁, hprev, hexp, hver, htot, herr⟩ := hstep
      obtain ⟨w', hrun, hver', htot', herr'⟩ := ih w₁ {
        index := fun c' hc' => hfit.index c' (List.mem_cons_of_mem c (by rwa [hprev] at hc'))
        passes := by rw [hprev, hver]; omega
        steps := by rw [hprev, htot]; omega }
      refine ⟨w', by rw [hw₁]; exact hrun, ?_, ?_, ?_⟩
      · rw [hver', hprev, hver]
        omega
      · rw [htot', hprev, htot]
        omega
      · rw [herr', herr, hprev, hexp]
        constructor
        · rintro ⟨⟨hnil, horder, hholds, hfp⟩, hrest⟩
          exact ⟨hnil, link, horder, hread, hholds, hfp, horder ▸ hrest⟩
        · rintro ⟨hnil, link', horder, hread', hholds, hfp, hrest⟩
          obtain rfl := Except.ok.inj (hread.symm.trans hread')
          exact ⟨⟨hnil, horder, hholds, hfp⟩, horder ▸ hrest⟩

/-- A walk that ends had counters that fit. -/
theorem Walk.fit_of_foldlM (passes : List PassBinding) {w w' : Walk}
    (hver : w.verifiedPasses < 2 ^ 32) (htot : w.totalSteps < 2 ^ 64)
    (hrun : passes.foldlM (Walk.checkPass cr ctx steps) w = some w') :
    CountersFit ctx steps w.verifiedPasses w.totalSteps (chain w.prev passes) := by
  induction passes generalizing w with
  | nil => exact ⟨fun c hc => absurd hc List.not_mem_nil, by simpa [chain], by simpa [chain]⟩
  | cons b bs ih =>
    rw [List.foldlM_cons] at hrun
    cases hread : readPass b with
    | error e =>
      have hchain : chain w.prev (b :: bs) = chain w.prev bs := by simp only [chain, hread]
      obtain ⟨w₁, hw₁, hprev, hver₁, htot₁, -⟩ := Walk.checkPass_unread cr ctx steps hread
      rw [hw₁] at hrun
      rw [hchain, ← hprev, ← hver₁, ← htot₁]
      exact ih (by omega) (by omega) hrun
    | ok link =>
      have hchain : chain w.prev (b :: bs)
          = { prev := w.prev, binding := b, link := link } :: chain link.state bs := by
        simp only [chain, hread]
      have hstep := Walk.checkPass_read cr ctx steps w hread
      set c : ChainLink := { prev := w.prev, binding := b, link := link }
      have hcount := countP_cons_eq ctx steps c (chain link.state bs)
      dsimp only at hstep
      split at hstep
      · rw [hstep] at hrun
        exact absurd hrun (by simp)
      · next hbound =>
        obtain ⟨w₁, hw₁, hprev, -, hver₁, htot₁, -⟩ := hstep
        rw [hw₁] at hrun
        have hrest := ih (w := w₁) (by omega) (by omega) hrun
        rw [hprev, hver₁, htot₁] at hrest
        rw [hchain]
        refine ⟨?_, ?_, ?_⟩
        · intro c' hc'
          rcases List.mem_cons.1 hc' with rfl | hc'
          · exact fun h255 => hbound (.inr (.inr h255))
          · exact hrest.index c' hc'
        · rw [hcount]
          have := hrest.passes
          omega
        · rw [hcount, Nat.add_mul]
          have := hrest.steps
          omega

/-! ## Accepted timelines -/

theorem Accepted.bindings {e : UInt8} {prev : Bn} {passes : List PassBinding}
    (h : Accepted cr ctx steps e prev passes) :
    (chain prev passes).map (·.binding) = passes ∧ ∀ c ∈ chain prev passes, c.Holds ctx steps := by
  induction passes generalizing e prev with
  | nil => exact ⟨rfl, fun c hc => absurd hc List.not_mem_nil⟩
  | cons b bs ih =>
    obtain ⟨link, -, hread, hholds, -, hrest⟩ := h
    have hchain : chain prev (b :: bs)
        = { prev := prev, binding := b, link := link } :: chain link.state bs := by
      simp only [chain, hread]
    rw [hchain]
    refine ⟨by rw [List.map_cons, (ih hrest).1], ?_⟩
    intro c hc
    rcases List.mem_cons.1 hc with rfl | hc
    · exact hholds
    · exact (ih hrest).2 c hc

/-- The indices count on while none is the last. -/
theorem Accepted.index {e : UInt8} {prev : Bn} {passes : List PassBinding}
    (h : Accepted cr ctx steps e prev passes)
    (hlast : ∀ c ∈ chain prev passes, c.binding.passIndex ≠ 255) (i : Nat) {b : PassBinding}
    (hb : passes[i]? = some b) : b.passIndex.toNat = e.toNat + i := by
  induction passes generalizing e prev i with
  | nil => exact absurd hb (by simp)
  | cons a bs ih =>
    obtain ⟨link, rfl, hread, -, -, hrest⟩ := h
    have hchain : chain prev (a :: bs)
        = { prev := prev, binding := a, link := link } :: chain link.state bs := by
      simp only [chain, hread]
    rw [hchain] at hlast
    cases i with
    | zero =>
      obtain rfl := Option.some.inj hb
      rfl
    | succ i =>
      have hnext := ih hrest (fun c hc => hlast c (List.mem_cons_of_mem _ hc)) i hb
      have ha : a.passIndex ≠ 255 := hlast _ List.mem_cons_self
      have hne : a.passIndex.toNat ≠ 255 := fun h255 => ha (UInt8.toNat_inj.1 h255)
      have hlt := a.passIndex.toNat_lt
      rw [UInt8.toNat_add, UInt8.toNat_one, Nat.mod_eq_of_lt (by omega)] at hnext
      omega

theorem Accepted.countP {e : UInt8} {prev : Bn} {passes : List PassBinding}
    (h : Accepted cr ctx steps e prev passes) :
    (chain prev passes).countP (·.checks ctx steps) = passes.length := by
  have hall : ∀ c ∈ chain prev passes, c.checks ctx steps = true := fun c hc =>
    (c.checks_iff ctx steps).2 (h.bindings.2 c hc)
  rw [List.countP_eq_length.2 hall, ← List.length_map (f := (·.binding)), h.bindings.1]

end Walk

/-! ## The verdict -/

theorem group_of_read {ev : TimelineEvidence} {n x : Bn} {ctx : Montgomery 32}
    (hn : fromHex ev.modulusN = .ok n)
    (hrange : n.isOdd = true ∧ 512 ≤ n.bits ∧ n.bits ≤ 2048) (hnew : Montgomery.new n = .ok ctx)
    (hx : fromHex ev.challengeX = .ok x) (hlt : x.val < ctx.n.val) :
    ev.group = .ok (ctx, x) := by
  unfold TimelineEvidence.group
  rw [hn]
  dsimp only
  rw [if_pos hrange, hnew, hx]
  dsimp only
  rw [if_pos ((cmpTo_lt x ctx.n).2 hlt)]

/-- **What a verified timeline is to show**: the audit returns, and when it reports the timeline
verified, the indices are `0 .. k - 1`, the steps are `k` times those of a pass, and every challenge
is the one derived from the link it closes. -/
def TimelineEvidence.Sound (cr : Crypto) (sha256 : Sha256) (entropy : Entropy)
    (ev : TimelineEvidence) : Prop :=
  ∃ v, verifyTimeline cr ev = some v ∧ (v.verified = true → ∃ ctx x, ev.group = .ok (ctx, x)
    ∧ (∀ (i : Nat) (b : PassBinding), ev.passes[i]? = some b → b.passIndex.toNat = i)
    ∧ v.totalSteps = ev.passes.length * ev.stepsPerPass.toNat
    ∧ (chain x ev.passes).map (·.binding) = ev.passes
    ∧ ∀ c ∈ chain x ev.passes, c.Derived sha256 entropy ctx ev.stepsPerPass
      ∧ c.link.state.val = c.link.pi.val ^ c.link.challenge.val
        * c.prev.val ^ (2 ^ ev.stepsPerPass.toNat % c.link.challenge.val) % ctx.n.val)

/-- A walk over accepted passes is verified; one over others is not. -/
theorem verifyTimeline_eq_some (cr : Crypto) {ev : TimelineEvidence} {ctx : Montgomery 32} {x : Bn}
    (hgroup : ev.group = .ok (ctx, x))
    (hfit : CountersFit ctx ev.stepsPerPass 0 0 (chain x ev.passes)) :
    ∃ v, verifyTimeline cr ev = some v
      ∧ (v.verified = true ↔ ev.passes ≠ [] ∧ Accepted cr ctx ev.stepsPerPass 0 x ev.passes)
      ∧ v.passesVerified = (chain x ev.passes).countP (·.checks ctx ev.stepsPerPass)
      ∧ v.totalSteps
        = (chain x ev.passes).countP (·.checks ctx ev.stepsPerPass) * ev.stepsPerPass.toNat := by
  obtain ⟨w, hrun, hver, htot, herr⟩ := Walk.foldlM_of_fit cr ev.passes
    { prev := x, expectedPass := 0, verifiedPasses := 0, totalSteps := 0, errors := [] } hfit
  simp only [Nat.zero_add, true_and] at hver htot herr
  unfold verifyTimeline
  rw [hgroup]
  dsimp only
  rw [hrun]
  refine ⟨_, rfl, ?_, hver, htot⟩
  simp only [Bool.and_eq_true, Bool.not_eq_true', List.isEmpty_eq_false_iff, beq_iff_eq,
    List.isEmpty_iff]
  constructor
  · rintro ⟨⟨hne, -⟩, hnil⟩
    exact ⟨hne, herr.1 hnil⟩
  · rintro ⟨hne, hacc⟩
    have hlen := hfit.passes
    rw [hacc.countP, Nat.zero_add] at hlen
    rw [hver, hacc.countP, Nat.mod_eq_of_lt hlen]
    exact ⟨⟨hne, rfl⟩, herr.2 hacc⟩

theorem fit_of_verifyTimeline {cr : Crypto} {ev : TimelineEvidence} {ctx : Montgomery 32} {x : Bn}
    {v : TimelineVerdict} (hgroup : ev.group = .ok (ctx, x)) (h : verifyTimeline cr ev = some v) :
    CountersFit ctx ev.stepsPerPass 0 0 (chain x ev.passes) := by
  unfold verifyTimeline at h
  rw [hgroup] at h
  obtain ⟨w, hrun, -⟩ := Option.map_eq_some_iff.1 h
  exact Walk.fit_of_foldlM ev.passes (by simp) (by simp) hrun

/-- **The audit is sound exactly when** no pass that can be read has the last index, the checked
links and their steps fit their counters, and the challenges of a timeline without errors are the
derived ones, which the audit takes from the evidence. -/
theorem verifyTimeline_sound_iff (cr : Crypto) (sha256 : Sha256) (entropy : Entropy)
    (ev : TimelineEvidence) :
    ev.Sound cr sha256 entropy ↔ ∀ ctx x, ev.group = .ok (ctx, x) →
      CountersFit ctx ev.stepsPerPass 0 0 (chain x ev.passes)
      ∧ (ev.passes ≠ [] → Accepted cr ctx ev.stepsPerPass 0 x ev.passes →
          ∀ c ∈ chain x ev.passes, c.Derived sha256 entropy ctx ev.stepsPerPass) := by
  constructor
  · rintro ⟨v, hv, hsound⟩ ctx x hgroup
    have hfit := fit_of_verifyTimeline hgroup hv
    refine ⟨hfit, fun hne hacc c hc => ?_⟩
    obtain ⟨v', hv', hiff, -⟩ := verifyTimeline_eq_some cr hgroup hfit
    obtain rfl := Option.some.inj (hv.symm.trans hv')
    obtain ⟨ctx', x', hgroup', -, -, -, hlinks⟩ := hsound (hiff.2 ⟨hne, hacc⟩)
    obtain ⟨rfl, rfl⟩ := Prod.mk.inj (Except.ok.inj (hgroup.symm.trans hgroup'))
    exact (hlinks c hc).1
  · intro h
    cases hgroup : ev.group with
    | error e =>
      refine ⟨_, by unfold verifyTimeline; rw [hgroup], fun hverified => ?_⟩
      exact absurd hverified Bool.false_ne_true
    | ok g =>
      obtain ⟨ctx, x⟩ := g
      obtain ⟨hfit, hderived⟩ := h ctx x hgroup
      obtain ⟨v, hv, hiff, hver, htot⟩ := verifyTimeline_eq_some cr hgroup hfit
      refine ⟨v, hv, fun hverified => ⟨ctx, x, hgroup, ?_⟩⟩
      obtain ⟨hne, hacc⟩ := hiff.1 hverified
      refine ⟨fun i b hb => by simpa using hacc.index hfit.index i hb, by rw [htot, hacc.countP],
        hacc.bindings.1, fun c hc => ⟨hderived hne hacc c hc, (hacc.bindings.2 c hc).equation⟩⟩

/-! ## A challenge of the prover's choice -/

/-- A modulus of 512 bits. -/
def forgedModulus : Bn := wrap 32 (2 ^ 511 + 1)

/-- `2^127 + 1` is a multiple of 3, and the powers of 2 repeat modulo it every 254 steps. -/
def forgedLink : Link where
  state := wrap 32 256
  pi := wrap 32 1
  challenge := wrap 2 (2 ^ 127 + 1)

/-- `254 * 2^32 + 3` squarings, of which none is made. -/
def forgedSteps : UInt64 := 1090921693187

def forgedPass (cr : Crypto) : PassBinding where
  passIndex := 0
  state := forgedLink.state.toHex
  seedFingerprint := seedFingerprint cr forgedLink.state.toBytesBe 0
  challengePrime := forgedLink.challenge.toHex
  proof := forgedLink.pi.toHex
  materializedAfterMs := 0

def forgedTimeline (cr : Crypto) : TimelineEvidence where
  modulusN := forgedModulus.toHex
  challengeX := (wrap 32 2 : Bn).toHex
  stepsPerPass := forgedSteps
  beacon := none
  passes := [forgedPass cr]
  squaringsDone := forgedSteps

theorem forgedTimeline_group (cr : Crypto) : ∃ ctx, ctx.n = forgedModulus
    ∧ (forgedTimeline cr).group = .ok (ctx, wrap 32 2) := by
  obtain ⟨ctx, hnew, hn⟩ := Montgomery.new_ok (n := forgedModulus) (by decide +kernel)
  have hrange : forgedModulus.isOdd = true ∧ 512 ≤ forgedModulus.bits
      ∧ forgedModulus.bits ≤ 2048 := by decide +kernel
  have hlt : (wrap 32 2 : Bn).val < ctx.n.val := by
    rw [hn]
    decide +kernel
  exact ⟨ctx, hn, group_of_read (fromHex_toHex _) hrange hnew (fromHex_toHex _) hlt⟩

theorem readPass_forgedPass (cr : Crypto) : readPass (forgedPass cr) = .ok forgedLink := by
  unfold readPass forgedPass
  dsimp only
  rw [fromHex_toHex, fromHex_toHex, fromHex_toHex]

/-- The power of 2 that the steps leave modulo the challenge. -/
theorem two_pow_forgedSteps : 2 ^ forgedSteps.toNat % (2 ^ 127 + 1) = 8 := by
  have hcycle : ∀ k, 2 ^ (254 * k + 3) % (2 ^ 127 + 1) = 8 := by
    intro k
    have hone : 2 ^ 254 ≡ 1 [MOD 2 ^ 127 + 1] := by decide
    have hpow : 2 ^ (254 * k + 3) ≡ 1 ^ k * 2 ^ 3 [MOD 2 ^ 127 + 1] := by
      rw [pow_add, pow_mul]
      exact (hone.pow k).mul_right _
    rw [one_pow] at hpow
    exact hpow
  have hsteps : forgedSteps.toNat = 254 * 4294967296 + 3 := by decide
  rw [hsteps]
  exact hcycle 4294967296

/-- The equation of a link whose proof is 1 leaves only the remainder power. -/
theorem equation_of_unit {n x y steps ℓ r : Nat} (hr : 2 ^ steps % ℓ = r) (hy : y = x ^ r % n) :
    y = 1 ^ ℓ * x ^ (2 ^ steps % ℓ) % n := by
  rw [hr, one_pow, one_mul]
  exact hy

theorem forgedLink_holds {ctx : Montgomery 32} (hn : ctx.n = forgedModulus) (b : PassBinding) :
    ChainLink.Holds ctx forgedSteps { prev := wrap 32 2, binding := b, link := forgedLink } := by
  have hchallenge : forgedLink.challenge.val = 2 ^ 127 + 1 := by decide
  have hpi : forgedLink.pi.val = 1 := by decide +kernel
  have hbase : (wrap 32 2 : Bn).val = 2 := by decide +kernel
  have hmod : forgedModulus.val = 2 ^ 511 + 1 := by decide +kernel
  have hstate : forgedLink.state.val = 256 := by decide +kernel
  unfold ChainLink.Holds
  dsimp only
  rw [hn, hchallenge, hpi, hbase, hmod, hstate]
  exact {
    base_pos := by decide
    pi_pos := by decide
    base_lt := by decide +kernel
    state_lt := by decide +kernel
    pi_lt := by decide +kernel
    coprime := by decide +kernel
    width := by decide
    odd := by decide
    equation := equation_of_unit two_pow_forgedSteps (by decide +kernel) }

theorem forgedPass_accepted (cr : Crypto) {ctx : Montgomery 32} (hn : ctx.n = forgedModulus) :
    Accepted cr ctx forgedSteps 0 (wrap 32 2) [forgedPass cr] := by
  have hindex : (forgedPass cr).passIndex = 0 := rfl
  have hfp : (forgedPass cr).seedFingerprint = seedFingerprint cr forgedLink.state.toBytesBe 0 := by
    unfold forgedPass
    dsimp only
  exact ⟨forgedLink, hindex, readPass_forgedPass cr, forgedLink_holds hn _,
    by rw [hindex, hfp], trivial⟩

/-- A derived challenge passes the trial divisions, which a multiple of 3 does not. -/
theorem forgedLink_not_derived (sha256 : Sha256) (entropy : Entropy) (t : Bytes) :
    hashToPrime sha256 entropy t ≠ some forgedLink.challenge := by
  intro h
  have hfail : passesSmallPrimes forgedLink.challenge = false :=
    passesSmallPrimes_of_dvd Nat.prime_three (by decide) (by decide) (by decide)
      (by decide)
  exact Bool.false_ne_true (hfail.symm.trans (hashToPrime_eq_some h).1)

theorem forgedTimeline_not_sound (cr : Crypto) (sha256 : Sha256) (entropy : Entropy) :
    ¬(forgedTimeline cr).Sound cr sha256 entropy := by
  intro hsound
  obtain ⟨ctx, hn, hgroup⟩ := forgedTimeline_group cr
  have hpasses : (forgedTimeline cr).passes = [forgedPass cr] := rfl
  have hsteps : (forgedTimeline cr).stepsPerPass = forgedSteps := rfl
  have hchain : chain (wrap 32 2) [forgedPass cr]
      = [{ prev := wrap 32 2, binding := forgedPass cr, link := forgedLink }] := by
    simp only [chain, readPass_forgedPass]
  obtain ⟨v, hv, hverified⟩ := hsound
  have hfit := fit_of_verifyTimeline hgroup hv
  obtain ⟨v', hv', hiff, -⟩ := verifyTimeline_eq_some cr hgroup hfit
  obtain rfl := Option.some.inj (hv.symm.trans hv')
  rw [hpasses, hsteps] at hiff hverified
  obtain ⟨ctx', x', hgroup', -, -, -, hlinks⟩ :=
    hverified (hiff.2 ⟨List.cons_ne_nil _ _, forgedPass_accepted cr hn⟩)
  obtain ⟨rfl, rfl⟩ := Prod.mk.inj (Except.ok.inj (hgroup.symm.trans hgroup'))
  rw [hchain] at hlinks
  have hderived := (hlinks _ List.mem_cons_self).1
  unfold ChainLink.Derived at hderived
  exact forgedLink_not_derived sha256 entropy _ hderived

/-- The audit verifies a chain of more than `10^12` squarings whose state is a small power. -/
theorem forgedTimeline_unsound :
    ¬(forgedTimeline (tableCrypto (Block.ofNat 32 0) [] [])).Sound
      (tableCrypto (Block.ofNat 32 0) [] []) (fun _ => Block.ofNat 32 0)
      { draw := fun _ _ => none, below := fun _ _ _ h => absurd h (by simp) } :=
  forgedTimeline_not_sound _ _ _

end DiscCleaner.Vdf
