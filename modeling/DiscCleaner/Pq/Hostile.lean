import DiscCleaner.Pq.Sign

/-!
# DiscCleaner — signatures of unknown origin (`ml_dsa.rs`)

What the verifier does with 2420 bytes nobody has vouched for. The last 84 bytes are the hint
region: 80 position bytes and four cumulative counts, walked before anything is checked.

* **`verifyInternal_unreadable`** — a count past the region stops the program.
* **`verifyInternal_forged`** — every readable region is accepted under some SHAKE256 output.
* **`hostile_signatures`** — when the verifier returns, and when acceptance pins the region down.
-/

namespace DiscCleaner.MlDsa

open ByteLib BitPackLib

/-! ## Regions -/

/-- The hint region of a signature. -/
def hintRegion (sig : Bytes) : Bytes := sig.drop 2336

/-- No count leaves the region. -/
def Readable (region : Bytes) : Prop := ∀ r, countAt region r ≤ OMEGA + 4

/-- The region is what the encoder writes for the hint it decodes to. -/
def Canonical (region : Bytes) : Prop :=
  ∃ hint weight, unpackHint region = some (hint, weight) ∧ packHint hint = region

section

local instance neZeroRows : NeZero 4 := ⟨by decide⟩

/-- How many position bytes the decoder reads. A count below the one before reads nothing, and
the next polynomial starts again from there. -/
def positionsRead (region : Bytes) : Nat :=
  countAt region 0 + (countAt region 1 - countAt region 0)
    + (countAt region 2 - countAt region 1) + (countAt region 3 - countAt region 2)

end

/-- The explicit bounds of the verifier. -/
def InBounds (sig : Bytes) : Prop :=
  positionsRead (hintRegion sig) ≤ OMEGA ∧
    ∀ r j, |unpackZ (slice sig 32 2304) r j| < GAMMA1 - BETA

theorem unpackHint_readable {region : Bytes} (hlen : region.length = OMEGA + 4)
    (h : Readable region) : ∃ hint, unpackHint region = some (hint, positionsRead region) := by
  have hrows : List.finRange 4 = [0, 1, 2, 3] := rfl
  rw [unpackHint, hrows]
  simp only [List.foldlM_cons, List.foldlM_nil, unpackHintRow_eq hlen, if_pos (Or.inr (h _)),
    Option.bind_eq_bind, Option.bind_some, Option.pure_def]
  exact ⟨_, congrArg (fun weight => some (_, weight)) (by simp only [positionsRead]; omega)⟩

theorem unpackHint_unreadable {region : Bytes} (hlen : region.length = OMEGA + 4)
    (h : ¬Readable region) : unpackHint region = none :=
  Option.not_isSome_iff_eq_none.mp fun hsome => h ((unpackHint_isSome_iff hlen).mp hsome)

theorem length_hintRegion (sig : Block 2420) : (hintRegion sig.bytes).length = OMEGA + 4 := by
  rw [hintRegion, List.length_drop, sig.size]
  rfl

/-! ## The verifier, by what it reads -/

section

variable (xof : Xof) (blocks : Nat) (pk message : Bytes)

theorem verifyInternal_unreadable {sig : Block 2420} (h : ¬Readable (hintRegion sig.bytes)) :
    verifyInternal xof blocks pk message sig.bytes = none := by
  have hnone := unpackHint_unreadable (length_hintRegion sig) h
  rw [hintRegion] at hnone
  rw [verifyInternal, hnone]
  rfl

theorem verifyInternal_out_of_bounds {sig : Block 2420} (h : Readable (hintRegion sig.bytes))
    (hbounds : ¬InBounds sig.bytes) :
    verifyInternal xof blocks pk message sig.bytes = some false := by
  obtain ⟨hint, hhint⟩ := unpackHint_readable (length_hintRegion sig) h
  rw [hintRegion] at hhint
  simp only [verifyInternal, hhint, Option.bind_eq_bind, Option.bind_some]
  by_cases hweight : OMEGA < positionsRead (sig.bytes.drop 2336)
  · rw [if_pos hweight]
  · rw [if_neg hweight, if_pos]
    by_contra hz
    simp only [not_exists, not_le] at hz
    exact hbounds ⟨not_lt.mp hweight, hz⟩

/-- Within the bounds the answer is the challenge equation, once both samplers return. -/
theorem verifyInternal_in_bounds {sig : Block 2420} (h : Readable (hintRegion sig.bytes))
    (hbounds : InBounds sig.bytes) :
    ∃ w1 : (Fin 4 → Fin 4 → Poly) → Poly → Rows,
      verifyInternal xof blocks pk message sig.bytes =
        (expandA xof blocks (slice pk 0 32)).bind fun aHat =>
          (sampleInBall xof (slice sig.bytes 0 32)).bind fun c =>
            some (challengeDigest xof (messageHash xof (shake256 xof pk 64) message) (w1 aHat c)
              == slice sig.bytes 0 32) := by
  obtain ⟨hint, hhint⟩ := unpackHint_readable (length_hintRegion sig) h
  obtain ⟨hweight, hz⟩ := hbounds
  rw [hintRegion] at hhint hweight
  have hnot : ¬∃ r j, GAMMA1 - BETA ≤ |unpackZ (slice sig.bytes 32 2304) r j| := by
    rintro ⟨r, j, hrj⟩
    exact absurd (hz r j) (not_lt.mpr hrj)
  refine ⟨fun aHat c r j => applyHint (hint r j) (recovered aHat c
    (unpackZ (slice sig.bytes 32 2304)) (unpackT1 (pk.drop 32)) r j), ?_⟩
  simp only [verifyInternal, hhint, Option.bind_eq_bind, Option.bind_some,
    if_neg (not_lt.mpr hweight), if_neg hnot]

end

/-! ## When the verifier returns -/

/-- The verifier comes back with an answer. -/
def Returns (xof : Xof) (pk message sig : Bytes) : Prop :=
  ∃ blocks, (verifyInternal xof blocks pk message sig).isSome

/-- The samplers of this key and this signature come to an end. -/
def SamplersReturn (xof : Xof) (pk sig : Bytes) : Prop :=
  (∃ blocks, (expandA xof blocks (slice pk 0 32)).isSome) ∧
    (sampleInBall xof (slice sig 0 32)).isSome

theorem returns_iff (xof : Xof) (pk message : Bytes) (sig : Block 2420) :
    Returns xof pk message sig.bytes ↔ Readable (hintRegion sig.bytes) ∧
      (InBounds sig.bytes → SamplersReturn xof pk sig.bytes) := by
  by_cases hread : Readable (hintRegion sig.bytes)
  · by_cases hbounds : InBounds sig.bytes
    · have hsome : ∀ blocks, (verifyInternal xof blocks pk message sig.bytes).isSome ↔
          (expandA xof blocks (slice pk 0 32)).isSome ∧
            (sampleInBall xof (slice sig.bytes 0 32)).isSome := by
        intro blocks
        obtain ⟨w1, hverify⟩ := verifyInternal_in_bounds xof blocks pk message hread hbounds
        rw [hverify]
        cases expandA xof blocks (slice pk 0 32) <;>
          cases sampleInBall xof (slice sig.bytes 0 32) <;> simp
      simp only [Returns, hsome, exists_and_right]
      exact ⟨fun h => ⟨hread, fun _ => h⟩, fun h => h.2 hbounds⟩
    · refine ⟨fun _ => ⟨hread, fun h => absurd h hbounds⟩, fun _ => ⟨0, ?_⟩⟩
      rw [verifyInternal_out_of_bounds xof 0 pk message hread hbounds]
      rfl
  · refine ⟨?_, fun h => absurd h.1 hread⟩
    rintro ⟨blocks, h⟩
    rw [verifyInternal_unreadable xof blocks pk message hread] at h
    cases h

/-! ## What acceptance says about the region -/

/-- Zeros, except for the challenge digest, which is the one the signature names. -/
def forgedXof (cTilde : Bytes) : Xof := fun input k =>
  if input.length = 832 then cTilde.getD k 0 else 0

theorem forgedXof_ball (cTilde : Bytes) {bs : Bytes} (h : bs.length = 32) :
    (sampleInBall (forgedXof cTilde) bs).isSome := by
  have hzero : forgedXof cTilde bs = fun _ => 0 := by
    funext k
    rw [forgedXof, if_neg (by rw [h]; decide)]
  rw [sampleInBall, shake256, hzero]
  decide

theorem forgedXof_expandA (cTilde : Bytes) {rho : Bytes} (h : rho.length = 32) :
    expandA (forgedXof cTilde) 2 rho = some fun _ _ _ => 0 := by
  refine expandA_zero fun r s => ?_
  funext k
  rw [forgedXof, if_neg (by simp [h, u16le])]

theorem forgedXof_challenge {cTilde mu : Bytes} (hc : cTilde.length = 32) (hmu : mu.length = 64)
    (w1 : Rows) : challengeDigest (forgedXof cTilde) mu w1 = cTilde := by
  have hlen : (mu ++ packW1 w1).length = 832 := by
    rw [List.length_append, hmu, packW1, length_packRows]
  rw [challengeDigest, take_shake256 (by decide)]
  refine shake256_of_getD hc fun k => ?_
  rw [forgedXof, if_pos hlen]

/-- **Nothing but the bounds stands between a readable region and acceptance**: some output of
SHAKE256 accepts every such signature, for every key and message. -/
theorem verifyInternal_forged (pk : Block 1312) (message : Bytes) {sig : Block 2420}
    (h : Readable (hintRegion sig.bytes)) (hbounds : InBounds sig.bytes) :
    verifyInternal (forgedXof (slice sig.bytes 0 32)) 2 pk.bytes message sig.bytes = some true := by
  have hrho : (slice pk.bytes 0 32).length = 32 := length_slice (by rw [pk.size]; decide)
  have htilde : (slice sig.bytes 0 32).length = 32 := length_slice (by rw [sig.size]; decide)
  obtain ⟨w1, hverify⟩ := verifyInternal_in_bounds (forgedXof (slice sig.bytes 0 32)) 2 pk.bytes
    message h hbounds
  obtain ⟨c, hc⟩ := Option.isSome_iff_exists.mp (forgedXof_ball (slice sig.bytes 0 32) htilde)
  rw [hverify, forgedXof_expandA _ hrho, Option.bind_some, hc, Option.bind_some,
    forgedXof_challenge htilde (length_messageHash _ _ _), beq_self_eq_true]

/-- **Hostile signatures.** The verifier comes back exactly where no count leaves the hint region
and, within its bounds, both samplers end. Acceptance makes the region the encoder's own, whatever
SHAKE256 is, exactly where the readable regions within the bounds are. -/
theorem hostile_signatures (pk : Block 1312) (message : Bytes) (sig : Block 2420) :
    (∀ xof, Returns xof pk.bytes message sig.bytes ↔ Readable (hintRegion sig.bytes) ∧
        (InBounds sig.bytes → SamplersReturn xof pk.bytes sig.bytes)) ∧
      ((∀ xof blocks, verifyInternal xof blocks pk.bytes message sig.bytes = some true →
          Canonical (hintRegion sig.bytes)) ↔
        (Readable (hintRegion sig.bytes) → InBounds sig.bytes →
          Canonical (hintRegion sig.bytes))) := by
  refine ⟨fun xof => returns_iff xof pk.bytes message sig, fun hall hread hbounds => ?_,
    fun hcanonical xof blocks haccept => ?_⟩
  · exact hall _ _ (verifyInternal_forged pk message hread hbounds)
  · by_cases hread : Readable (hintRegion sig.bytes)
    · by_cases hbounds : InBounds sig.bytes
      · exact hcanonical hread hbounds
      · rw [verifyInternal_out_of_bounds xof blocks pk.bytes message hread hbounds] at haccept
        cases haccept
    · rw [verifyInternal_unreadable xof blocks pk.bytes message hread] at haccept
      cases haccept

theorem length_overrun : (List.replicate 2416 (0 : UInt8) ++ [255, 0, 0, 0]).length = 2420 := by
  rw [List.length_append, List.length_replicate]
  rfl

/-- Zeros with a first count of 255. -/
def overrun : Block 2420 := ⟨List.replicate 2416 0 ++ [255, 0, 0, 0], length_overrun⟩

theorem overrun_unreadable : ¬Readable (hintRegion overrun.bytes) := by
  intro h
  exact absurd (h 0) (by decide +kernel)

/-- No key, message or SHAKE256 brings the verifier back from it. -/
theorem overrun_crashes : ¬∃ xof pk message, Returns xof pk message overrun.bytes := by
  rintro ⟨xof, pk, message, h⟩
  exact overrun_unreadable ((returns_iff xof pk message overrun).mp h).1

end DiscCleaner.MlDsa
