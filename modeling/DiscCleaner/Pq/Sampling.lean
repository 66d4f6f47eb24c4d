import DiscCleaner.Pq.Encoding
import Mathlib.Logic.Function.Basic

/-!
# DiscCleaner — rounding and sampling of ML-DSA-44 (`ml_dsa.rs`)

The split of a residue into high and low parts, the hint, and the polynomials drawn from
SHAKE256. The extendable output is a parameter, a stream for each absorbed text. A sampler that
rejects draws may take any number of blocks; `blocks` is the number it is given here, and a run
that needs more does not return.

* **`power2round_eq`**, **`power2round_bounds`** — the split is exact and its parts fit their
  packings.
* **`sampleEtaSmall_bounds`** — small secrets.
-/

namespace DiscCleaner.MlDsa

open ByteLib BitPackLib

/-! ## Rounding -/

def power2round (rp : Int) : Int × Int :=
  let r1 := (rp + 4096) / 8192
  (r1, rp - r1 * 8192)

def decompose (rp : Int) : Int × Int :=
  let r1 := (rp + GAMMA2 - 1) / (2 * GAMMA2)
  if r1 = 44 then (0, rp - (Q - 1)) else (r1, rp - r1 * 2 * GAMMA2)

def highBits (rp : Int) : Int := (decompose rp).1
def lowBits (rp : Int) : Int := (decompose rp).2

/-- The bucket of a value, corrected where the hint is set. -/
def applyHint (h : Bool) (wV : Int) : Int :=
  let (b, m) := decompose wV
  if h then (if 0 < m then (b + 1) % 44 else (b + 43) % 44) else b

theorem applyHint_false (wV : Int) : applyHint false wV = highBits wV := rfl

theorem power2round_eq (rp : Int) : (power2round rp).1 * 8192 + (power2round rp).2 = rp := by
  simp only [power2round]
  omega

theorem power2round_bounds {rp : Int} (h : 0 ≤ rp ∧ rp < Q) :
    (0 ≤ (power2round rp).1 ∧ (power2round rp).1 < 1024) ∧
      -4096 ≤ (power2round rp).2 ∧ (power2round rp).2 ≤ 4095 := by
  simp only [power2round]
  unfold Q at h
  omega

/-! ## SHAKE256 streams -/

/-- The stream of bytes squeezed after absorbing a text. -/
abbrev Xof := Bytes → Nat → UInt8

/-- The first `n` bytes of the stream. -/
def shake256 (xof : Xof) (input : Bytes) (n : Nat) : Bytes := (List.range n).map (xof input)

@[simp] theorem length_shake256 (xof : Xof) (input : Bytes) (n : Nat) :
    (shake256 xof input n).length = n := by
  rw [shake256, List.length_map, List.length_range]

theorem take_shake256 {xof : Xof} {input : Bytes} {m n : Nat} (h : m ≤ n) :
    (shake256 xof input n).take m = shake256 xof input m := by
  rw [shake256, ← List.map_take, List.take_range, Nat.min_eq_left h, ← shake256]

/-- Two little-endian bytes. -/
def u16le (n : Nat) : Bytes := [UInt8.ofNat n, UInt8.ofNat (n / 256)]

/-- The `k`-th three bytes of a stream as a number. -/
def triple (stream : Nat → UInt8) (k : Nat) : Nat :=
  (stream (3 * k)).toNat + 256 * (stream (3 * k + 1)).toNat + 65536 * (stream (3 * k + 2)).toNat

/-- The first 256 accepted draws. -/
def firstDraws (accepted : List Int) : Option Poly :=
  if h : 256 ≤ accepted.length then some fun i => accepted[i] else none

/-- Uniform residues: 23 bits of each three bytes, accepted below `q`. -/
def sampleNttUniform (blocks : Nat) (stream : Nat → UInt8) : Option Poly :=
  firstDraws ((List.range (128 * blocks)).filterMap fun k =>
    let v : Int := (triple stream k % 2 ^ 23 : Nat)
    if v < Q then some v else none)

/-- Small secrets: four draws of six bits from three bytes, accepted up to four. -/
def sampleEtaSmall (blocks : Nat) (stream : Nat → UInt8) : Option Poly :=
  firstDraws ((List.range (96 * blocks)).flatMap fun k =>
    [0, 6, 12, 18].filterMap fun shift : Nat =>
      let t := triple stream k / 2 ^ shift % 64
      if t ≤ 4 then some (2 - (t : Int)) else none)

/-- All of a family of results, or none. -/
def collect {α : Type} {n : Nat} (f : Fin n → Option α) : Option (Fin n → α) :=
  if h : ∀ i, (f i).isSome then some fun i => (f i).get (h i) else none

/-- The matrix of a seed, transformed. -/
def expandA (xof : Xof) (blocks : Nat) (rho : Bytes) : Option (Fin 4 → Fin 4 → Poly) :=
  collect fun r => collect fun s => sampleNttUniform blocks (xof (rho ++ u16le r ++ u16le s))

/-- One secret vector. -/
def expandSRow (xof : Xof) (blocks : Nat) (sigma : Bytes) (part : Nat) : Option Rows :=
  collect fun c => sampleEtaSmall blocks (xof (sigma ++ u16le part ++ u16le c))

def expandS (xof : Xof) (blocks : Nat) (sigma : Bytes) : Option (Rows × Rows) := do
  some (← expandSRow xof blocks sigma 0, ← expandSRow xof blocks sigma 1)

/-- A mask polynomial of 18-bit draws. -/
def expandMaskPoly (xof : Xof) (rhoPrime : Bytes) (nonce : Nat) : Poly := fun j =>
  GAMMA1 - unpackBits 18 (shake256 xof (rhoPrime ++ u16le nonce) 576) j

/-- The next position at most `i`; a stream that runs out stops the program. -/
def nextPosition (stream : Bytes) (i : Nat) : Nat → Nat → Option (Fin 256 × Nat)
  | 0, _ => none
  | reads + 1, pos => do
    let b ← stream[pos]?
    if i < b.toNat then nextPosition stream i reads (pos + 1) else some (b.toFin, pos + 1)

/-- One of the 39 signs: the polynomial, the stream position and the signs left. -/
def ballStep (stream : Bytes) (st : Poly × Nat × Nat) (i : Fin 256) :
    Option (Poly × Nat × Nat) := do
  let (j, pos) ← nextPosition stream i 256 st.2.1
  let sign : Int := if st.2.2 % 2 = 1 then -1 else 1
  some (Function.update (Function.update st.1 i (st.1 j)) j sign, pos, st.2.2 / 2)

/-- The challenge polynomial of a digest. -/
def sampleInBall (xof : Xof) (cTilde : Bytes) : Option Poly := do
  let stream := shake256 xof cTilde 256
  let st ← ((List.finRange 256).drop 217).foldlM (ballStep stream)
    ((fun _ => 0), 8, ofLe (stream.take 8))
  some st.1

/-! ## What the samplers return -/

theorem collect_some {α : Type} {n : Nat} {f : Fin n → Option α} {g : Fin n → α}
    (h : ∀ i, f i = some (g i)) : collect f = some g := by
  unfold collect
  rw [dif_pos fun i => by rw [h i]; rfl]
  exact congrArg some (funext fun i => by simp only [h i, Option.get_some])

theorem collect_eq_some {α : Type} {n : Nat} {f : Fin n → Option α} {g : Fin n → α}
    (h : collect f = some g) (i : Fin n) : f i = some (g i) := by
  unfold collect at h
  split at h
  · rw [← Option.some.inj h]
    exact (Option.some_get _).symm
  · cases h

theorem firstDraws_mem {accepted : List Int} {p : Poly} (h : firstDraws accepted = some p)
    (j : Fin 256) : p j ∈ accepted := by
  unfold firstDraws at h
  split at h
  · rw [← Option.some.inj h]
    exact List.getElem_mem _
  · cases h

/-- Small secrets lie in `[-2, 2]`. -/
theorem sampleEtaSmall_bounds {blocks : Nat} {stream : Nat → UInt8} {p : Poly}
    (h : sampleEtaSmall blocks stream = some p) (j : Fin 256) : -2 ≤ p j ∧ p j ≤ 2 := by
  obtain ⟨k, -, hk⟩ := List.mem_flatMap.mp (firstDraws_mem h j)
  obtain ⟨shift, -, hdraw⟩ := List.mem_filterMap.mp hk
  simp only at hdraw
  split at hdraw
  · rw [← Option.some.inj hdraw]
    omega
  · cases hdraw

theorem expandSRow_bounds {xof : Xof} {blocks : Nat} {sigma : Bytes} {part : Nat} {s : Rows}
    (h : expandSRow xof blocks sigma part = some s) (r : Fin 4) (j : Fin 256) :
    -2 ≤ s r j ∧ s r j ≤ 2 :=
  sampleEtaSmall_bounds (collect_eq_some h r) j

end DiscCleaner.MlDsa

/-!
# the split and the hint of ML-DSA-44 (`ml_dsa.rs`)

What `decompose` and `apply_hint` do on every residue. The buckets are `2·γ₂` wide and the
forty-fifth is the first again, seen from `q - 1`. There the low part is taken from `q - 1`, one
more than the residue it stands for.

* **`decompose_low`**, **`decompose_top`** — the split below the wrap and past it.
* **`applyHint_recovers`** — one bit corrects every offset of at most `γ₂`.
* **`roundingSound_iff`** — the congruence holds exactly below the wrap.
-/

namespace DiscCleaner.MlDsa

/-! ## The split -/

/-- The first residue of the bucket that wraps. -/
def wrapStart : Int := Q - GAMMA2

/-- Below the wrap the split is exact, and its low part is the one nearest to zero. -/
theorem decompose_low {r : Int} (h0 : 0 ≤ r) (h : r < wrapStart) :
    (decompose r).1 * (2 * GAMMA2) + (decompose r).2 = r ∧
      (0 ≤ (decompose r).1 ∧ (decompose r).1 < 44) ∧
      -GAMMA2 < (decompose r).2 ∧ (decompose r).2 ≤ GAMMA2 := by
  unfold decompose
  unfold wrapStart Q GAMMA2 at *
  simp only
  split_ifs <;> simp only <;> omega

/-- Past it the bucket is the first, and the low part counts down from `q - 1`. -/
theorem decompose_top {r : Int} (h : wrapStart ≤ r) (hq : r < Q) :
    decompose r = (0, r - (Q - 1)) := by
  unfold decompose
  have hbucket : (r + GAMMA2 - 1) / (2 * GAMMA2) = 44 := by
    unfold wrapStart Q GAMMA2 at *
    omega
  simp only [hbucket, if_true]

theorem decompose_bounds {r : Int} (hr : 0 ≤ r ∧ r < Q) :
    (0 ≤ (decompose r).1 ∧ (decompose r).1 < 44) ∧ |(decompose r).2| ≤ GAMMA2 := by
  rcases lt_or_ge r wrapStart with h | h
  · obtain ⟨_, hhigh, hlow⟩ := decompose_low hr.1 h
    exact ⟨hhigh, abs_le.mpr ⟨hlow.1.le, hlow.2⟩⟩
  · rw [decompose_top h hr.2]
    refine ⟨⟨le_refl 0, by norm_num⟩, abs_le.mpr ?_⟩
    unfold wrapStart Q GAMMA2 at *
    simp only
    omega

/-! ## The hint -/

/-- A residue within `γ₂` of the middle of a bucket lies in it. -/
theorem highBits_of_near {b r : Int} (hb : 0 ≤ b ∧ b < 44)
    (hr : -GAMMA2 < r - b * (2 * GAMMA2) ∧ r - b * (2 * GAMMA2) ≤ GAMMA2) : highBits r = b := by
  have hbucket : (r + GAMMA2 - 1) / (2 * GAMMA2) = b := by
    unfold GAMMA2 at *
    omega
  unfold highBits decompose
  simp only [hbucket, if_neg (show b ≠ 44 by omega)]

theorem highBits_top {r : Int} (h : wrapStart ≤ r) (hq : r < Q) : highBits r = 0 := by
  rw [highBits, decompose_top h hq]

/-- An offset keeps the bucket of a residue with a positive low part, or moves it up by one. -/
theorem highBits_up {r d : Int} (hr : 0 ≤ r ∧ r < Q) (hm : 0 < (decompose r).2)
    (hd : -GAMMA2 ≤ d ∧ d ≤ GAMMA2) :
    highBits ((r + d) % Q) = highBits r ∨ highBits ((r + d) % Q) = (highBits r + 1) % 44 := by
  have hlow : r < wrapStart := by
    by_contra h
    rw [decompose_top (not_lt.mp h) hr.2] at hm
    simp only at hm
    omega
  obtain ⟨hsplit, hhigh, -, hle⟩ := decompose_low hr.1 hlow
  rw [show highBits r = (decompose r).1 from rfl]
  generalize (decompose r).1 = b at *
  generalize (decompose r).2 = m at *
  have hstart : wrapStart = 43 * (2 * GAMMA2) + GAMMA2 + 1 := by decide
  have hq : Q = wrapStart + GAMMA2 := by decide
  have hγ : (0 : Int) < GAMMA2 := by decide
  rcases lt_or_ge (r + d) 0 with hneg | hpos
  · -- below zero only the first bucket is left, through the one that wraps
    have hb : b = 0 := by unfold GAMMA2 at *; omega
    have hwrap : (r + d) % Q = r + d + Q := by
      rw [← Int.add_emod_right, Int.emod_eq_of_lt (by omega) (by omega)]
    left
    rw [hwrap, hb]
    exact highBits_top (by omega) (by omega)
  · rw [Int.emod_eq_of_lt hpos (by omega)]
    rcases le_or_gt (m + d) GAMMA2 with hsame | hup
    · exact .inl (highBits_of_near hhigh ⟨by omega, by omega⟩)
    · rcases eq_or_ne b 43 with hlast | hb
      · refine .inr ((highBits_top ?_ (by omega)).trans (by rw [hlast]; rfl))
        rw [← hsplit, hlast, hstart]
        omega
      · rw [Int.emod_eq_of_lt (by omega) (by omega)]
        refine .inr (highBits_of_near ⟨by omega, by omega⟩ ?_)
        rw [add_mul, one_mul]
        omega

/-- With a low part that is not positive it is kept, or moves down by one. -/
theorem highBits_down {r d : Int} (hr : 0 ≤ r ∧ r < Q) (hm : (decompose r).2 ≤ 0)
    (hd : -GAMMA2 ≤ d ∧ d ≤ GAMMA2) :
    highBits ((r + d) % Q) = highBits r ∨ highBits ((r + d) % Q) = (highBits r + 43) % 44 := by
  have hstart : wrapStart = 43 * (2 * GAMMA2) + GAMMA2 + 1 := by decide
  have hq : Q = wrapStart + GAMMA2 := by decide
  have hγ : (1 : Int) < GAMMA2 := by decide
  rcases lt_or_ge r wrapStart with hlow | htop
  · obtain ⟨hsplit, hhigh, hgt, -⟩ := decompose_low hr.1 hlow
    rw [show highBits r = (decompose r).1 from rfl]
    generalize (decompose r).1 = b at *
    generalize (decompose r).2 = m at *
    rcases lt_or_ge (r + d) 0 with hneg | hpos
    · have hb : b = 0 := by unfold GAMMA2 at *; omega
      have hwrap : (r + d) % Q = r + d + Q := by
        rw [← Int.add_emod_right, Int.emod_eq_of_lt (by omega) (by omega)]
      left
      rw [hwrap, hb]
      rw [hb] at hsplit
      exact highBits_top (by omega) (by omega)
    · rw [Int.emod_eq_of_lt hpos (by omega)]
      rcases lt_or_ge (-GAMMA2) (m + d) with hsame | hdown
      · exact .inl (highBits_of_near hhigh ⟨by omega, by omega⟩)
      · have hb : 1 ≤ b := by unfold GAMMA2 at *; omega
        have hmod : (b + 43) % 44 = b - 1 := by omega
        rw [hmod]
        refine .inr (highBits_of_near ⟨by omega, by omega⟩ ?_)
        rw [sub_mul, one_mul]
        omega
  · have hzero := highBits_top htop hr.2
    have hlast : r ≤ Q - 1 := by omega
    rw [hzero]
    rcases lt_or_ge (r + d) Q with hbelow | hpast
    · rw [Int.emod_eq_of_lt (by omega) hbelow]
      rcases lt_or_ge (r + d) wrapStart with hout | hin
      · refine .inr (highBits_of_near ⟨by decide, by decide⟩ ?_)
        rw [show ((0 : Int) + 43) % 44 = 43 from rfl]
        omega
      · exact .inl (highBits_top hin hbelow)
    · -- an offset upwards passes zero, and stays in the first bucket
      have hwrap : (r + d) % Q = r + d - Q := by
        rw [← Int.sub_emod_right, Int.emod_eq_of_lt (by omega) (by omega)]
      rw [hwrap]
      exact .inl (highBits_of_near ⟨le_refl 0, by decide⟩ ⟨by omega, by omega⟩)

/-- **One bit corrects every offset** of at most `γ₂`. -/
theorem applyHint_recovers {r d : Int} (hr : 0 ≤ r ∧ r < Q) (hd : |d| ≤ GAMMA2) :
    applyHint (highBits ((r + d) % Q) != highBits r) r = highBits ((r + d) % Q) := by
  have hbounds := abs_le.mp hd
  have hhint : ∀ h, applyHint h r = if h then
      (if 0 < (decompose r).2 then (highBits r + 1) % 44 else (highBits r + 43) % 44)
      else highBits r := fun h => rfl
  rw [hhint]
  by_cases hsame : highBits ((r + d) % Q) = highBits r
  · rw [hsame, bne_self_eq_false, if_neg Bool.false_ne_true]
  · rw [if_pos (bne_iff_ne.mpr hsame)]
    split_ifs with hm
    · exact ((highBits_up hr hm hbounds).resolve_left hsame).symm
    · exact ((highBits_down hr (not_lt.mp hm) hbounds).resolve_left hsame).symm

/-! ## The two together -/

/-- What the split and the hint of a residue promise. -/
structure RoundingSound (r : Int) : Prop where
  congruent : ((decompose r).1 * (2 * GAMMA2) + (decompose r).2) % Q = r % Q
  high : 0 ≤ (decompose r).1 ∧ (decompose r).1 < 44
  low : |(decompose r).2| ≤ GAMMA2
  recovers : ∀ d, |d| ≤ GAMMA2 →
    applyHint (highBits ((r + d) % Q) != highBits r) r = highBits ((r + d) % Q)

end DiscCleaner.MlDsa
