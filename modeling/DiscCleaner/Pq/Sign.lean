import DiscCleaner.Pq.Sampling

/-!
# DiscCleaner — ML-DSA-44 keys, signing and verification (`ml_dsa.rs`)

Key generation, one turn of the rejection loop and the loop, and the verifier.

* **`recovered_eq`** — the verifier's `A z − c t1 2^13` is the signer's `w + c t0 − c s2`,
  coefficient by coefficient.
* **`signAttempt_verifies`** — what one accepted turn signs is accepted.
* **`sign_verifies`** — so is what the loop returns, whatever the earlier turns rejected.
-/

namespace DiscCleaner.MlDsa

open ByteLib BitPackLib

/-- A piece of a text. -/
def slice (bs : Bytes) (start len : Nat) : Bytes := (bs.drop start).take len

section

variable (xof : Xof) (blocks : Nat)

/-! ## Keys -/

/-- `A s1 + s2`. -/
def publicVector (aHat : Fin 4 → Fin 4 → Poly) (s1 s2 : Rows) : Rows := fun r =>
  nttInv fun i => barrettish (rowProduct (aHat r) (fun c => ntt (s1 c)) i + ntt (s2 r) i)

def keygenInternal (xi : Bytes) : Option (Bytes × Bytes) := do
  let seedExp := shake256 xof xi 96
  let rho := slice seedExp 0 32
  let sigma := slice seedExp 32 32
  let kSeed := slice seedExp 64 32
  let aHat ← expandA xof blocks rho
  let (s1, s2) ← expandS xof blocks sigma
  let t := publicVector aHat s1 s2
  let pk := rho ++ packT1 fun r j => (power2round (t r j)).1
  let tr := shake256 xof pk 64
  let sk := rho ++ kSeed ++ tr ++ packEta s1 ++ packEta s2
    ++ packT0 fun r j => (power2round (t r j)).2
  some (pk, sk)

/-! ## Signing -/

/-- The framed message, hashed with the transcript seed. -/
def messageHash (tr message : Bytes) : Bytes := shake256 xof (tr ++ ([0] ++ message ++ [0, 0])) 64

theorem length_messageHash (tr message : Bytes) : (messageHash xof tr message).length = 64 :=
  length_shake256 _ _ _

/-- The challenge digest of a commitment. -/
def challengeDigest (mu : Bytes) (w1 : Rows) : Bytes :=
  (shake256 xof (mu ++ packW1 w1) 64).take 32

/-- What the rejection loop works with. -/
structure SignKey where
  aHat : Fin 4 → Fin 4 → Poly
  s1 : Rows
  s2 : Rows
  t0 : Rows
  mu : Bytes
  rhoPrime : Bytes

/-- `c s`, in the coefficient domain. -/
def timesChallenge (c : Poly) (s : Rows) : Rows := fun r =>
  nttInv (pointwiseMul (ntt c) (ntt (s r)))

/-- `y + c s1`. -/
def response (c : Poly) (y s1 : Rows) : Rows := fun r j => y r j + center (timesChallenge c s1 r j)

/-- `A y`. -/
def commitment (aHat : Fin 4 → Fin 4 → Poly) (y : Rows) : Rows := fun r =>
  nttInv (rowProduct (aHat r) fun c => ntt (y c))

/-- `w + c t0 − c s2`, the value the verifier will see. -/
def verifierValue (w ct0 cs2 : Rows) : Rows := fun r j => modq (w r j + ct0 r j - cs2 r j)

/-- The recoverable bucket crossings. -/
def makeHint (w wV : Rows) : Hint := fun r j => applyHint true (wV r j) == highBits (w r j)

/-- One turn: `none` when the program stops, an inner `none` when the turn is rejected. -/
def signAttempt (key : SignKey) (kappa : Nat) : Option (Option Bytes) := do
  let y : Rows := fun i => expandMaskPoly xof key.rhoPrime (4 * kappa + i)
  let w := commitment key.aHat y
  let cTilde := challengeDigest xof key.mu fun r j => highBits (w r j)
  let c ← sampleInBall xof cTilde
  let z := response c y key.s1
  if ∃ r j, GAMMA1 - BETA ≤ |z r j| then some none
  else
    let cs2 := timesChallenge c key.s2
    if ∃ r j, GAMMA2 - BETA ≤ |lowBits (modq (w r j - cs2 r j))| then some none
    else
      let wV := verifierValue w (timesChallenge c key.t0) cs2
      let hint := makeHint w wV
      if (∃ r j, hint r j = false ∧ highBits (wV r j) ≠ highBits (w r j))
          ∨ OMEGA < hintWeight hint then some none
      else some (some (cTilde ++ packZ z ++ packHint hint))

/-- At most `attempts` turns; running out of them stops the program. -/
def signLoop (key : SignKey) : Nat → Nat → Option Bytes
  | 0, _ => none
  | attempts + 1, kappa => do
    match ← signAttempt xof key kappa with
    | some sig => some sig
    | none => signLoop key attempts (kappa + 4)

def signInternal (sk message : Bytes) : Option Bytes := do
  let rho := slice sk 0 32
  let kSeed := slice sk 32 32
  let tr := slice sk 64 64
  let aHat ← expandA xof blocks rho
  let mu := messageHash xof tr message
  signLoop xof {
    aHat := aHat
    s1 := unpackEta (slice sk 128 384)
    s2 := unpackEta (slice sk 512 384)
    t0 := unpackT0 (sk.drop 896)
    mu := mu
    rhoPrime := shake256 xof (kSeed ++ mu) 64 } 1024 0

/-! ## Verification -/

/-- `A z − c t1 2^13`. -/
def recovered (aHat : Fin 4 → Fin 4 → Poly) (c : Poly) (z t1 : Rows) : Rows := fun r =>
  nttInv fun i => modq (rowProduct (aHat r) (fun k => ntt (z k)) i
    - pointwiseMul (ntt c) (ntt fun j => t1 r j * 8192) i)

def verifyInternal (pk message sig : Bytes) : Option Bool := do
  let rho := slice pk 0 32
  let t1 := unpackT1 (pk.drop 32)
  let cTilde := slice sig 0 32
  let z := unpackZ (slice sig 32 2304)
  let (hint, weight) ← unpackHint (sig.drop 2336)
  if OMEGA < weight then some false
  else if ∃ r j, GAMMA1 - BETA ≤ |z r j| then some false
  else
    let mu := messageHash xof (shake256 xof pk 64) message
    let aHat ← expandA xof blocks rho
    let c ← sampleInBall xof cTilde
    let wPrime := recovered aHat c z t1
    some (challengeDigest xof mu (fun r j => applyHint (hint r j) (wPrime r j)) == cTilde)

end

/-! ## The ring identity -/

/-- The public vector, transformed, modulo `q`. -/
theorem ntt_publicVector_cast (aHat : Fin 4 → Fin 4 → Poly) (s1 s2 : Rows) (r : Fin 4)
    (i : Fin 256) :
    ((ntt (publicVector aHat s1 s2 r) i : Int) : Zq)
      = ∑ c, (aHat r c i : Zq) * (ntt (s1 c) i : Zq) + (ntt (s2 r) i : Zq) := by
  rw [publicVector, ntt_nttInv_cast, barrettish_cast, Int.cast_add, rowProduct_cast]

theorem ntt_add_cast {a b d : Poly} (h : ∀ j, (a j : Zq) = (b j : Zq) + (d j : Zq))
    (i : Fin 256) : ((ntt a i : Int) : Zq) = (ntt b i : Zq) + (ntt d i : Zq) := by
  rw [ntt_cast, ntt_cast, ntt_cast, ← OddTransformLib.evalOdd_add]
  simp only [h]

/-- `z`, transformed, modulo `q`. -/
theorem ntt_response_cast (c : Poly) (y s1 : Rows) (r : Fin 4) (i : Fin 256) :
    ((ntt (response c y s1 r) i : Int) : Zq)
      = (ntt (y r) i : Zq) + (ntt c i : Zq) * (ntt (s1 r) i : Zq) := by
  have hsplit : ∀ j, ((response c y s1 r j : Int) : Zq)
      = (y r j : Zq) + (timesChallenge c s1 r j : Zq) := by
    intro j
    rw [response, Int.cast_add, center_cast]
  rw [ntt_add_cast hsplit, timesChallenge, ntt_nttInv_cast, pointwiseMul, mulmod_cast]

/-- `t1 2^13 = t − t0`, transformed, modulo `q`. -/
theorem ntt_scaled_cast {t t0 t1 : Poly} (h : ∀ j, t1 j * 8192 + t0 j = t j) (i : Fin 256) :
    ((ntt (fun j => t1 j * 8192) i : Int) : Zq) = (ntt t i : Zq) - (ntt t0 i : Zq) := by
  have hsum : ∀ j, ((t j : Int) : Zq) = ((t1 j * 8192 : Int) : Zq) + (t0 j : Zq) := by
    intro j
    rw [← h j, Int.cast_add]
  rw [ntt_add_cast hsum]
  ring

/-- The inverse transform of residues known modulo `q`. -/
theorem nttInv_add_sub_cast {a b d e : Poly}
    (h : ∀ i, (a i : Zq) = (b i : Zq) + (d i : Zq) - (e i : Zq)) (j : Fin 256) :
    ((nttInv a j : Int) : Zq) = (nttInv b j : Zq) + (nttInv d j : Zq) - (nttInv e j : Zq) := by
  rw [nttInv_cast, nttInv_cast, nttInv_cast, nttInv_cast, ← OddTransformLib.coeffsOdd_add,
    ← OddTransformLib.coeffsOdd_sub]
  simp only [h]

/-- **The verifier sees the signer's value**: with `t1`, `t0` the split of `A s1 + s2` and `z`
the response to `c`, the two computations return the same residue. -/
theorem recovered_eq (aHat : Fin 4 → Fin 4 → Poly) (c : Poly) (y s1 s2 : Rows) {t0 t1 : Rows}
    (ht : ∀ r j, t1 r j * 8192 + t0 r j = publicVector aHat s1 s2 r j) :
    recovered aHat c (response c y s1) t1
      = verifierValue (commitment aHat y) (timesChallenge c t0) (timesChallenge c s2) := by
  funext r j
  refine eq_of_cast_eq (nttInv_range _ j) (modq_range _) ?_
  rw [verifierValue, modq_cast, Int.cast_sub, Int.cast_add, recovered, commitment, timesChallenge,
    timesChallenge]
  refine nttInv_add_sub_cast (fun i => ?_) j
  rw [modq_cast, Int.cast_sub, rowProduct_cast, rowProduct_cast, pointwiseMul, pointwiseMul,
    pointwiseMul, mulmod_cast, mulmod_cast, mulmod_cast, ntt_scaled_cast (ht r),
    ntt_publicVector_cast]
  simp only [ntt_response_cast]
  -- both sides, value by value: A (y + c s1) − c (A s1 + s2 − t0) = A y + c t0 − c s2
  simp only [Fin.sum_univ_four]
  ring

/-! ## Pieces of keys and signatures -/

theorem slice_append {a b c : Bytes} {start len : Nat} (ha : a.length = start)
    (hb : b.length = len) : slice (a ++ b ++ c) start len = b := by
  rw [slice, List.append_assoc, List.drop_left' ha, List.take_left' hb]

theorem length_slice {bs : Bytes} {start len : Nat} (h : start + len ≤ bs.length) :
    (slice bs start len).length = len := by
  rw [slice, List.length_take, List.length_drop]
  omega

section

variable {xof : Xof} {blocks : Nat}

/-- What a generated key pair is made of. -/
structure KeyParts (xof : Xof) (blocks : Nat) where
  rho : Bytes
  kSeed : Bytes
  aHat : Fin 4 → Fin 4 → Poly
  s1 : Rows
  s2 : Rows
  t1 : Rows
  t0 : Rows
  rho_length : rho.length = 32
  kSeed_length : kSeed.length = 32
  expand : expandA xof blocks rho = some aHat
  s1_bounds : ∀ r j, -2 ≤ s1 r j ∧ s1 r j ≤ 2
  s2_bounds : ∀ r j, -2 ≤ s2 r j ∧ s2 r j ≤ 2
  split : ∀ r j, t1 r j * 8192 + t0 r j = publicVector aHat s1 s2 r j
  t1_bounds : ∀ r j, 0 ≤ t1 r j ∧ t1 r j < 1024
  t0_bounds : ∀ r j, -4096 ≤ t0 r j ∧ t0 r j ≤ 4095

namespace KeyParts

def pk (parts : KeyParts xof blocks) : Bytes := parts.rho ++ packT1 parts.t1

def sk (parts : KeyParts xof blocks) : Bytes :=
  parts.rho ++ parts.kSeed ++ shake256 xof parts.pk 64 ++ packEta parts.s1 ++ packEta parts.s2
    ++ packT0 parts.t0

end KeyParts

/-- Key generation returns such a pair. -/
theorem keyParts_of_keygen {xi pk sk : Bytes}
    (h : keygenInternal xof blocks xi = some (pk, sk)) :
    ∃ parts : KeyParts xof blocks, parts.pk = pk ∧ parts.sk = sk := by
  unfold keygenInternal at h
  simp only [Option.bind_eq_bind, Option.bind_eq_some_iff, expandS] at h
  obtain ⟨aHat, hA, ⟨s1, s2⟩, ⟨s1', hs1, s2', hs2, hpair⟩, hkeys⟩ := h
  obtain ⟨rfl, rfl⟩ := Prod.mk.inj (Option.some.inj hpair)
  obtain ⟨hpk, hsk⟩ := Prod.mk.inj (Option.some.inj hkeys)
  refine ⟨{
    rho := slice (shake256 xof xi 96) 0 32
    kSeed := slice (shake256 xof xi 96) 64 32
    aHat := aHat
    s1 := s1'
    s2 := s2'
    t1 := fun r j => (power2round (publicVector aHat s1' s2' r j)).1
    t0 := fun r j => (power2round (publicVector aHat s1' s2' r j)).2
    rho_length := length_slice (by rw [length_shake256]; decide)
    kSeed_length := length_slice (by rw [length_shake256])
    expand := hA
    s1_bounds := expandSRow_bounds hs1
    s2_bounds := expandSRow_bounds hs2
    split := fun r j => power2round_eq _
    t1_bounds := fun r j => (power2round_bounds (nttInv_range _ j)).1
    t0_bounds := fun r j => (power2round_bounds (nttInv_range _ j)).2 }, hpk, hsk⟩

namespace KeyParts

variable (parts : KeyParts xof blocks)

/-- The public key, read as the verifier reads it. -/
theorem read_public :
    slice parts.pk 0 32 = parts.rho ∧ unpackT1 (parts.pk.drop 32) = parts.t1 := by
  have hrho := slice_append (a := []) (b := parts.rho) (c := packT1 parts.t1) rfl parts.rho_length
  have ht1 := unpackT1_packT1 parts.t1_bounds []
  rw [List.append_nil] at ht1
  rw [pk, List.drop_left' parts.rho_length]
  exact ⟨hrho, ht1⟩

/-- The secret key, read as the signer reads it. -/
theorem read_secret : slice parts.sk 0 32 = parts.rho ∧ slice parts.sk 64 64 = shake256 xof parts.pk 64 ∧
    unpackEta (slice parts.sk 128 384) = parts.s1 ∧ unpackEta (slice parts.sk 512 384) = parts.s2 ∧
    unpackT0 (parts.sk.drop 896) = parts.t0 := by
  have hlenEta : ∀ s : Rows, (packEta s).length = 384 := fun s => length_packRows 3 _
  have hs1 := unpackEta_packEta parts.s1_bounds []
  have hs2 := unpackEta_packEta parts.s2_bounds []
  have ht0 := unpackT0_packT0 parts.t0_bounds []
  rw [List.append_nil] at hs1 hs2 ht0
  have hseeds : (parts.rho ++ parts.kSeed).length = 64 := by
    rw [List.length_append, parts.rho_length, parts.kSeed_length]
  have htr : (parts.rho ++ parts.kSeed ++ shake256 xof parts.pk 64).length = 128 := by
    rw [List.length_append, hseeds, length_shake256]
  have heta : (parts.rho ++ parts.kSeed ++ shake256 xof parts.pk 64 ++ packEta parts.s1).length = 512 := by
    rw [List.length_append, htr, hlenEta]
  have hall : (parts.rho ++ parts.kSeed ++ shake256 xof parts.pk 64 ++ packEta parts.s1
      ++ packEta parts.s2).length = 896 := by
    rw [List.length_append, heta, hlenEta]
  refine ⟨?_, ?_, ?_, ?_, ?_⟩
  · rw [sk]
    simp only [List.append_assoc]
    exact slice_append (a := []) rfl parts.rho_length
  · rw [sk, List.append_assoc (_ ++ _ ++ _ ++ _), List.append_assoc (_ ++ _ ++ _)]
    exact slice_append hseeds (length_shake256 _ _ _)
  · rw [sk, List.append_assoc (_ ++ _ ++ _ ++ _), slice_append htr (hlenEta _), hs1]
  · rw [sk, slice_append heta (hlenEta _), hs2]
  · rw [sk, List.drop_left' hall, ht0]

end KeyParts

/-! ## Completeness -/

/-- What an accepted turn has checked, and what it returns. -/
theorem signAttempt_inv {key : SignKey} {kappa : Nat} {sig : Bytes}
    (h : signAttempt xof key kappa = some (some sig)) :
    ∃ y c, sampleInBall xof (challengeDigest xof key.mu
        fun r j => highBits (commitment key.aHat y r j)) = some c ∧
      (∀ r j, |response c y key.s1 r j| < GAMMA1 - BETA) ∧
      ∃ hint, hintWeight hint ≤ OMEGA ∧
        (∀ r j, applyHint (hint r j) (verifierValue (commitment key.aHat y)
          (timesChallenge c key.t0) (timesChallenge c key.s2) r j)
            = highBits (commitment key.aHat y r j)) ∧
        sig = challengeDigest xof key.mu (fun r j => highBits (commitment key.aHat y r j))
          ++ packZ (response c y key.s1) ++ packHint hint := by
  unfold signAttempt at h
  simp only [Option.bind_eq_bind, Option.bind_eq_some_iff] at h
  obtain ⟨c, hc, h⟩ := h
  refine ⟨_, c, hc, ?_⟩
  split_ifs at h with hz hr0 hhint
  · exact absurd (Option.some.inj h) (by simp)
  · exact absurd (Option.some.inj h) (by simp)
  · exact absurd (Option.some.inj h) (by simp)
  simp only [not_exists, not_le] at hz
  rw [not_or, not_exists, not_lt] at hhint
  obtain ⟨hcross, hweight⟩ := hhint
  refine ⟨hz, _, hweight, ?_, (Option.some.inj (Option.some.inj h)).symm⟩
  intro r j
  -- a set hint recovers the bucket by its own test; an unset one was no crossing
  cases hset : makeHint (commitment key.aHat fun i => expandMaskPoly xof key.rhoPrime (4 * kappa + i))
      (verifierValue (commitment key.aHat fun i => expandMaskPoly xof key.rhoPrime (4 * kappa + i))
        (timesChallenge c key.t0) (timesChallenge c key.s2)) r j with
  | true => exact beq_iff_eq.mp hset
  | false =>
    rw [applyHint_false]
    by_contra hne
    exact hcross r ⟨j, hset, hne⟩

/-- **One accepted turn verifies**, for the parts of one key pair. -/
theorem signAttempt_verifies {message sig : Bytes} (parts : KeyParts xof blocks)
    {rhoPrime : Bytes} {kappa : Nat}
    (h : signAttempt xof ⟨parts.aHat, parts.s1, parts.s2, parts.t0,
      messageHash xof (shake256 xof parts.pk 64) message, rhoPrime⟩ kappa = some (some sig)) :
    verifyInternal xof blocks parts.pk message sig = some true := by
  obtain ⟨y, c, hc, hz, hint, hweight, hbuckets, rfl⟩ := signAttempt_inv h
  obtain ⟨hrho, ht1⟩ := parts.read_public
  set w1 : Rows := fun r j => highBits (commitment parts.aHat y r j) with hw1
  set mu := messageHash xof (shake256 xof parts.pk 64) message
  have hdigest : (challengeDigest xof mu w1).length = 32 := by
    rw [challengeDigest, List.length_take, length_shake256]
    decide
  have hlenZ : (packZ (response c y parts.s1)).length = 2304 := length_packRows 18 _
  have hhead : (challengeDigest xof mu w1 ++ packZ (response c y parts.s1)).length = 2336 := by
    rw [List.length_append, hdigest, hlenZ]
  have hunpackZ := unpackZ_packZ (z := response c y parts.s1)
    (fun r j => (hz r j).trans (by decide)) []
  rw [List.append_nil] at hunpackZ
  have htilde : slice (challengeDigest xof mu w1 ++ packZ (response c y parts.s1)
      ++ packHint hint) 0 32 = challengeDigest xof mu w1 := by
    rw [List.append_assoc]
    exact slice_append (a := []) rfl hdigest
  have hrecovered := recovered_eq parts.aHat c y parts.s1 parts.s2 parts.split
  simp only [verifyInternal, hrho, ht1, htilde, slice_append hdigest hlenZ, hunpackZ,
    List.drop_left' hhead, unpackHint_packHint hweight, Option.bind_eq_bind, Option.bind_some,
    if_neg (not_lt.mpr hweight), parts.expand, hc, hrecovered, hbuckets]
  rw [if_neg]
  · rw [← hw1, beq_self_eq_true]
  · rintro ⟨r, j, hrj⟩
    exact absurd hrj (not_le.mpr (hz r j))

/-- Every turn of the loop that returns is an accepted turn. -/
theorem signLoop_inv {key : SignKey} {attempts kappa : Nat} {sig : Bytes}
    (h : signLoop xof key attempts kappa = some sig) :
    ∃ kappa', signAttempt xof key kappa' = some (some sig) := by
  induction attempts generalizing kappa with
  | zero => cases h
  | succ attempts ih =>
    rw [signLoop] at h
    cases hattempt : signAttempt xof key kappa with
    | none =>
      rw [hattempt] at h
      cases h
    | some turn =>
      rw [hattempt] at h
      cases turn with
      | some sig' => exact ⟨kappa, by rw [hattempt, ← Option.some.inj h]⟩
      | none => exact ih h

end

/-- **Signing is complete.** Whatever SHAKE256 is and whatever turns the loop rejects, a signature
that comes back verifies under the matching public key. -/
theorem sign_verifies (xof : Xof) (blocks : Nat) (xi : Block 32) (message : Bytes)
    {pk sk sig : Bytes} (hkeys : keygenInternal xof blocks xi.bytes = some (pk, sk))
    (hsign : signInternal xof blocks sk message = some sig) :
    verifyInternal xof blocks pk message sig = some true := by
  obtain ⟨parts, rfl, rfl⟩ := keyParts_of_keygen hkeys
  obtain ⟨hrho, htr, hs1, hs2, ht0⟩ := parts.read_secret
  simp only [signInternal, hrho, htr, hs1, hs2, ht0, parts.expand, Option.bind_eq_bind,
    Option.bind_some] at hsign
  obtain ⟨kappa, hattempt⟩ := signLoop_inv hsign
  exact signAttempt_verifies parts hattempt

/-! ## A seed that signs -/

theorem nttInv_zero {a : Poly} (h : ∀ i, (a i : Zq) = 0) : nttInv a = fun _ => 0 := by
  funext j
  refine eq_of_cast_eq (nttInv_range a j) ⟨le_refl _, Q_pos⟩ ?_
  rw [nttInv_cast]
  simp [OddTransformLib.coeffsOdd, h]

/-- All zero secrets. -/
def zeroRows : Rows := fun _ _ => 0

theorem ntt_zeroRows_cast (r : Fin 4) (i : Fin 256) : ((ntt (zeroRows r) i : Int) : Zq) = 0 := by
  rw [ntt_cast]
  simp [OddTransformLib.evalOdd, zeroRows]

theorem timesChallenge_zero (c : Poly) : timesChallenge c zeroRows = zeroRows := by
  funext r
  refine nttInv_zero fun i => ?_
  rw [pointwiseMul, mulmod_cast]
  simp only [ntt_zeroRows_cast, mul_zero]

theorem commitment_zero (aHat : Fin 4 → Fin 4 → Poly) : commitment aHat zeroRows = zeroRows := by
  funext r
  refine nttInv_zero fun i => ?_
  rw [rowProduct_cast]
  simp only [ntt_zeroRows_cast, mul_zero, Finset.sum_const_zero]

theorem publicVector_zero (aHat : Fin 4 → Fin 4 → Poly) :
    publicVector aHat zeroRows zeroRows = zeroRows := by
  funext r
  refine nttInv_zero fun i => ?_
  rw [barrettish_cast, Int.cast_add, rowProduct_cast]
  simp only [ntt_zeroRows_cast, mul_zero, Finset.sum_const_zero, add_zero]

/-- With zero secrets and a zero mask the first turn is accepted. -/
theorem signAttempt_zero (xof : Xof) (aHat : Fin 4 → Fin 4 → Poly) (mu rhoPrime : Bytes)
    (hmask : ∀ nonce, expandMaskPoly xof rhoPrime nonce = fun _ => 0)
    (hball : ∀ bs : Bytes, bs.length = 32 → (sampleInBall xof bs).isSome) :
    ∃ sig, signAttempt xof ⟨aHat, zeroRows, zeroRows, zeroRows, mu, rhoPrime⟩ 0
      = some (some sig) := by
  obtain ⟨c, hc⟩ := Option.isSome_iff_exists.mp
    (hball (challengeDigest xof mu fun r j => highBits (zeroRows r j)) (by
      rw [challengeDigest, List.length_take, length_shake256]
      decide))
  have hy : (fun i : Fin 4 => expandMaskPoly xof rhoPrime (4 * 0 + i)) = zeroRows := by
    funext i
    exact hmask _
  have hresponse : ∀ r j, response c zeroRows zeroRows r j = 0 := by
    intro r j
    rw [response, timesChallenge_zero]
    rfl
  have hvalue : verifierValue zeroRows zeroRows zeroRows = zeroRows := rfl
  have hhint : makeHint zeroRows zeroRows = fun _ _ => false := rfl
  have hweight : hintWeight (fun _ _ => false) = 0 := by decide
  unfold signAttempt
  simp only [hy, commitment_zero, hc, Option.bind_eq_bind, Option.bind_some, timesChallenge_zero,
    hvalue, hhint, hweight, hresponse]
  rw [if_neg, if_neg, if_neg]
  · exact ⟨_, rfl⟩
  · rintro (⟨r, j, -, hne⟩ | h)
    · exact hne rfl
    · exact absurd h (by decide)
  · rintro ⟨r, j, h⟩
    have hlow : |lowBits (modq (0 - 0))| < GAMMA2 - BETA := by decide
    exact absurd h (not_le.mpr hlow)
  · rintro ⟨r, j, h⟩
    exact absurd h (by decide)

theorem signLoop_of_signAttempt {xof : Xof} {key : SignKey} {attempts kappa : Nat} {sig : Bytes}
    (hpos : 0 < attempts) (h : signAttempt xof key kappa = some (some sig)) :
    signLoop xof key attempts kappa = some sig := by
  obtain ⟨n, rfl⟩ := Nat.exists_eq_succ_of_ne_zero hpos.ne'
  rw [signLoop, h]
  rfl

/-- A stream that depends on little but the length of what was absorbed. -/
def sampleXof : Xof := fun input k =>
  if input.length = 32 then (if k < 32 then 0 else 1)
  else if input.length = 36 then
    (if input.head? = some 0 then 0 else if k % 3 = 0 then 0x82 else if k % 3 = 1 then 0x20 else 8)
  else if input.length = 66 then (packBits 18 (fun _ : Fin 256 => 131072)).getD k 0
  else 0

theorem sampleXof_seed (bs : Bytes) (h : bs.length = 32) :
    sampleXof bs = sampleXof (List.replicate 32 0) := by
  funext k
  rw [sampleXof, sampleXof, if_pos h, if_pos (List.length_replicate ..)]

theorem sampleXof_ball (bs : Bytes) (h : bs.length = 32) : (sampleInBall sampleXof bs).isSome := by
  rw [sampleInBall, shake256, sampleXof_seed bs h, ← shake256]
  decide

theorem sampleXof_masked {input : Bytes} (h : input.length = 66) (k : Nat) :
    sampleXof input k = (packBits 18 fun _ : Fin 256 => 131072).getD k 0 := by
  rw [sampleXof, if_neg (by rw [h]; decide), if_neg (by rw [h]; decide), if_pos h]

/-- A stream that starts with a text. -/
theorem shake256_of_getD {xof : Xof} {input bs : Bytes} {n : Nat} (hn : bs.length = n)
    (h : ∀ k, xof input k = bs.getD k 0) : shake256 xof input n = bs := by
  refine List.ext_getElem ((length_shake256 _ _ _).trans hn.symm) fun k hk hk' => ?_
  simp only [shake256, List.getElem_map, List.getElem_range, h]
  exact List.getD_eq_getElem _ _ hk'

theorem sampleXof_mask (rhoPrime : Bytes) (h : rhoPrime.length = 64) (nonce : Nat) :
    expandMaskPoly sampleXof rhoPrime nonce = fun _ => 0 := by
  have hlen : (rhoPrime ++ u16le nonce).length = 66 := by
    rw [List.length_append, h]
    rfl
  have hstream : shake256 sampleXof (rhoPrime ++ u16le nonce) 576
      = packBits 18 fun _ : Fin 256 => 131072 :=
    shake256_of_getD (length_packRow 18 _) (sampleXof_masked hlen)
  funext j
  rw [expandMaskPoly, hstream, unpackBits_packBits _ j (by decide) (by decide) (by decide)]
  rfl

theorem firstDraws_replicate {n : Nat} (h : 256 ≤ n) (v : Int) :
    firstDraws (List.replicate n v) = some fun _ => v := by
  rw [firstDraws, dif_pos (by rwa [List.length_replicate])]
  exact congrArg some (funext fun i => List.getElem_replicate _)

/-- A zero stream samples the zero matrix. -/
theorem expandA_zero {xof : Xof} {rho : Bytes}
    (h : ∀ r s : Fin 4, xof (rho ++ u16le r ++ u16le s) = fun _ => 0) :
    expandA xof 2 rho = some fun _ _ _ => 0 := by
  have hdraw : ∀ r s : Fin 4, sampleNttUniform 2 (xof (rho ++ u16le r ++ u16le s))
      = some fun _ => 0 := by
    intro r s
    rw [h, sampleNttUniform]
    exact (congrArg firstDraws (by decide +kernel)).trans (firstDraws_replicate (le_refl 256) 0)
  exact collect_some fun r => collect_some fun s => hdraw r s

theorem sampleXof_expandA : expandA sampleXof 2 (List.replicate 32 0) = some fun _ _ _ => 0 := by
  refine expandA_zero fun r s => ?_
  funext k
  rw [sampleXof, if_neg (by simp [u16le]), if_pos (by simp [u16le]), if_pos (by simp)]

theorem sampleXof_expandSRow (part : Nat) :
    expandSRow sampleXof 2 (List.replicate 32 1) part = some zeroRows := by
  have hdraw : ∀ c : Fin 4, sampleEtaSmall 2
      (sampleXof (List.replicate 32 1 ++ u16le part ++ u16le c)) = some fun _ => 0 := by
    intro c
    have hstream : sampleXof (List.replicate 32 1 ++ u16le part ++ u16le c)
        = fun k => if k % 3 = 0 then 0x82 else if k % 3 = 1 then 0x20 else 8 := by
      funext k
      rw [sampleXof, if_neg (by simp [u16le]), if_pos (by simp [u16le]), if_neg (by simp [u16le])]
    rw [hstream, sampleEtaSmall]
    exact (congrArg firstDraws (by decide +kernel)).trans
      (firstDraws_replicate (show 256 ≤ 768 by decide) 0)
  exact collect_some hdraw

theorem zeroRows_eta : ∀ r j, -2 ≤ zeroRows r j ∧ zeroRows r j ≤ 2 := by
  intro r j
  simp [zeroRows]

theorem zeroRows_t1 : ∀ r j, 0 ≤ zeroRows r j ∧ zeroRows r j < 1024 := by
  intro r j
  simp [zeroRows]

theorem zeroRows_t0 : ∀ r j, -4096 ≤ zeroRows r j ∧ zeroRows r j ≤ 4095 := by
  intro r j
  simp [zeroRows]

theorem zeroRows_split (aHat : Fin 4 → Fin 4 → Poly) (r : Fin 4) (j : Fin 256) :
    zeroRows r j * 8192 + zeroRows r j = publicVector aHat zeroRows zeroRows r j := by
  rw [publicVector_zero]
  simp [zeroRows]

theorem power2round_zeroRows :
    (fun r j => (power2round (zeroRows r j)).1) = zeroRows ∧
      (fun r j => (power2round (zeroRows r j)).2) = zeroRows :=
  ⟨rfl, rfl⟩

/-- The parts of the key pair of the zero seed. -/
def sampleKey : KeyParts sampleXof 2 where
  rho := List.replicate 32 0
  kSeed := List.replicate 32 1
  aHat := fun _ _ _ => 0
  s1 := zeroRows
  s2 := zeroRows
  t1 := zeroRows
  t0 := zeroRows
  rho_length := zeroDigest_length
  kSeed_length := rfl
  expand := sampleXof_expandA
  s1_bounds := zeroRows_eta
  s2_bounds := zeroRows_eta
  split := zeroRows_split _
  t1_bounds := zeroRows_t1
  t0_bounds := zeroRows_t0

theorem keygen_sample :
    keygenInternal sampleXof 2 (List.replicate 32 0) = some (sampleKey.pk, sampleKey.sk) := by
  have hrho : slice (shake256 sampleXof (List.replicate 32 0) 96) 0 32 = List.replicate 32 0 := by
    decide
  have hsigma : slice (shake256 sampleXof (List.replicate 32 0) 96) 32 32 = List.replicate 32 1 := by
    decide
  have hkSeed : slice (shake256 sampleXof (List.replicate 32 0) 96) 64 32 = List.replicate 32 1 := by
    decide
  unfold keygenInternal
  simp only [hrho, hsigma, hkSeed, sampleXof_expandA, expandS, sampleXof_expandSRow,
    Option.bind_eq_bind, Option.bind_some, publicVector_zero, power2round_zeroRows, KeyParts.pk,
    KeyParts.sk, sampleKey]

/-- A key pair with zero secrets signs where the first mask is zero. -/
theorem signInternal_zero {xof : Xof} {blocks : Nat} (parts : KeyParts xof blocks)
    (message : Bytes) (h1 : parts.s1 = zeroRows) (h2 : parts.s2 = zeroRows)
    (h0 : parts.t0 = zeroRows)
    (hmask : ∀ rhoPrime : Bytes, rhoPrime.length = 64 →
      ∀ nonce, expandMaskPoly xof rhoPrime nonce = fun _ => 0)
    (hball : ∀ bs : Bytes, bs.length = 32 → (sampleInBall xof bs).isSome) :
    ∃ sig, signInternal xof blocks parts.sk message = some sig := by
  obtain ⟨hrho, htr, hs1, hs2, ht0⟩ := parts.read_secret
  rw [h1] at hs1
  rw [h2] at hs2
  rw [h0] at ht0
  obtain ⟨sig, hsig⟩ := signAttempt_zero xof parts.aHat
    (messageHash xof (shake256 xof parts.pk 64) message)
    (shake256 xof (slice parts.sk 32 32
      ++ messageHash xof (shake256 xof parts.pk 64) message) 64)
    (hmask _ (length_shake256 _ _ _)) hball
  refine ⟨sig, ?_⟩
  simp only [signInternal, hrho, htr, hs1, hs2, ht0, parts.expand, Option.bind_eq_bind,
    Option.bind_some]
  exact signLoop_of_signAttempt (by decide) hsig

/-- A seed whose key pair signs. -/
theorem sign_verifies_sample : ∃ pk sk sig,
    keygenInternal sampleXof 2 (List.replicate 32 0) = some (pk, sk) ∧
    signInternal sampleXof 2 sk [] = some sig ∧ verifyInternal sampleXof 2 pk [] sig = some true := by
  obtain ⟨sig, hsig⟩ := signInternal_zero sampleKey [] rfl rfl rfl
    sampleXof_mask sampleXof_ball
  exact ⟨sampleKey.pk, sampleKey.sk, sig, keygen_sample, hsig,
    sign_verifies sampleXof 2 ⟨List.replicate 32 0, rfl⟩ [] keygen_sample hsig⟩

end DiscCleaner.MlDsa
