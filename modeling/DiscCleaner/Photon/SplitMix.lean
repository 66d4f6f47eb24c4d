import DiscCleaner.Photon.Lt
import Mathlib.Data.Finite.Defs
import Mathlib.Data.Fintype.EquivFin
import Mathlib.Logic.Function.Iterate

/-!
# DiscCleaner — the generator of the fountain (`lt.rs`)

The neighbours of a symbol are drawn with SplitMix64, a counter with a mixed output. A value below
a bound is drawn by rejection: draws are thrown away until one is accepted. The counter walks
through all its states, and the mix takes one of them to the value that every bound accepts, so the
loop ends.

* **`mix_bijective`**, **`exists_after_eq`** — every output comes up, whatever the state.
* **`neighbors_eq_sampled`** — the code's draws are one of the choices that the model of the
  fountain allows.
* **`draws_distinct`** — the loop ends, and a symbol has distinct neighbours.
-/

namespace DiscCleaner

open PeelingLib

@[ext] structure SplitMix64 where
  state : UInt64
  deriving DecidableEq

namespace SplitMix64

def new (seed : UInt64) : SplitMix64 := ⟨seed⟩

/-- The increment of the counter. -/
def gamma : UInt64 := 0x9E3779B97F4A7C15

/-- The output of a state. -/
def mix (state : UInt64) : UInt64 :=
  let z := state
  let z := (z ^^^ (z >>> 30)) * 0xBF58476D1CE4E5B9
  let z := (z ^^^ (z >>> 27)) * 0x94D049BB133111EB
  z ^^^ (z >>> 31)

def next (g : SplitMix64) : UInt64 × SplitMix64 :=
  let state := g.state + gamma
  (mix state, ⟨state⟩)

/-- The least low half of a product that is accepted. -/
def threshold (bound : UInt64) : UInt64 := (0 - bound) % bound

/-- The product of a draw and the bound, as a 128-bit number. -/
def product (x bound : UInt64) : Nat := x.toNat * bound.toNat

/-- `lo >= threshold`. -/
def accepts (bound x : UInt64) : Bool := threshold bound ≤ UInt64.ofNat (product x bound)

/-- The high half of the product. -/
def scale (bound x : UInt64) : UInt64 := UInt64.ofNat (product x bound >>> 64)

/-! ## The period of the counter -/

/-- The inverse of the increment. -/
def gammaInv : UInt64 := 0xF1DE83E19937733D

theorem gamma_mul_gammaInv : gamma * gammaInv = 1 := by decide

/-- The generator after `n` draws. -/
def after (g : SplitMix64) (n : Nat) : SplitMix64 := (fun g => g.next.2)^[n] g

/-- Draw `n`. -/
def draw (g : SplitMix64) (n : Nat) : UInt64 := (g.after n).next.1

theorem after_zero (g : SplitMix64) : g.after 0 = g := by
  rw [after, Function.iterate_zero_apply]

theorem after_succ (g : SplitMix64) (n : Nat) : g.after (n + 1) = g.next.2.after n := by
  rw [after, after, Function.iterate_succ_apply]

theorem draw_zero (g : SplitMix64) : g.draw 0 = g.next.1 := by
  rw [draw, after_zero]

theorem after_state (g : SplitMix64) (n : Nat) :
    (g.after n).state = g.state + UInt64.ofNat n * gamma := by
  induction n generalizing g with
  | zero =>
    show g.state = g.state + 0 * gamma
    rw [UInt64.zero_mul, UInt64.add_zero]
  | succ n ih =>
    rw [after_succ, ih]
    show g.state + gamma + UInt64.ofNat n * gamma = _
    rw [UInt64.ofNat_add, UInt64.add_mul, UInt64.add_assoc, UInt64.add_comm gamma]
    show _ = g.state + (UInt64.ofNat n * gamma + 1 * gamma)
    rw [UInt64.one_mul]

/-- **The counter walks through all states.** -/
theorem exists_after_eq (g g' : SplitMix64) : ∃ n < 2 ^ 64, g.after n = g' := by
  refine ⟨((g'.state - g.state) * gammaInv).toNat, UInt64.toNat_lt _, ?_⟩
  have hstate : g.state + (g'.state - g.state) = g'.state := by
    rw [UInt64.add_comm, UInt64.sub_add_cancel]
  have hafter := after_state g ((g'.state - g.state) * gammaInv).toNat
  rw [UInt64.ofNat_toNat, UInt64.mul_assoc, UInt64.mul_comm gammaInv, gamma_mul_gammaInv,
    UInt64.mul_one, hstate] at hafter
  exact SplitMix64.ext hafter

/-! ## The mix -/

/-- A word that is its own upper bits is zero. -/
theorem eq_zero_of_shiftRight_eq {d : UInt64} {s : UInt64} (hs : 0 < s.toNat % 64)
    (h : d >>> s = d) : d = 0 := by
  have hnat : d.toNat >>> (s.toNat % 64) = d.toNat := by
    rw [← UInt64.toNat_shiftRight, h]
  rw [Nat.shiftRight_eq_div_pow] at hnat
  have hzero : d.toNat = 0 := by
    by_contra hpos
    have hlt : d.toNat / 2 ^ (s.toNat % 64) < d.toNat :=
      Nat.div_lt_self (Nat.pos_of_ne_zero hpos) (Nat.one_lt_two_pow (by omega))
    omega
  exact UInt64.toNat_inj.mp hzero

theorem xor_eq_xor {a b c d : UInt64} (h : a ^^^ b = c ^^^ d) : b ^^^ d = a ^^^ c := by
  have hb : b = a ^^^ (c ^^^ d) := by
    rw [← h, ← UInt64.xor_assoc, UInt64.xor_self, UInt64.zero_xor]
  rw [hb, UInt64.xor_assoc, UInt64.xor_assoc, UInt64.xor_self, UInt64.xor_zero]

theorem xorShift_injective {s : UInt64} (hs : 0 < s.toNat % 64) :
    Function.Injective fun z : UInt64 => z ^^^ (z >>> s) := by
  intro z w h
  have hd : (z ^^^ w) >>> s = z ^^^ w := by
    rw [UInt64.shiftRight_xor]
    exact xor_eq_xor h
  exact UInt64.xor_eq_zero_iff.mp (eq_zero_of_shiftRight_eq hs hd)

theorem mul_injective {c c' : UInt64} (h : c * c' = 1) :
    Function.Injective fun z : UInt64 => z * c := by
  intro z w hzw
  have hmul := congrArg (· * c') hzw
  simp only [UInt64.mul_assoc, h, UInt64.mul_one] at hmul
  exact hmul

theorem mix_injective : Function.Injective mix := by
  have h₁ := mul_injective (show (0xBF58476D1CE4E5B9 : UInt64) * 0x96DE1B173F119089 = 1 by decide)
  have h₂ := mul_injective (show (0x94D049BB133111EB : UInt64) * 0x319642B2D24D8EC3 = 1 by decide)
  have h₃₀ := xorShift_injective (show 0 < (30 : UInt64).toNat % 64 by decide)
  have h₂₇ := xorShift_injective (show 0 < (27 : UInt64).toNat % 64 by decide)
  have h₃₁ := xorShift_injective (show 0 < (31 : UInt64).toNat % 64 by decide)
  exact h₃₁.comp (h₂.comp (h₂₇.comp (h₁.comp h₃₀)))

instance : Finite UInt64 :=
  Finite.of_injective UInt64.toFin fun _ _ h => UInt64.toFin_inj.mp h

/-- **Every output is that of one state.** -/
theorem mix_bijective : Function.Bijective mix := Finite.injective_iff_bijective.mp mix_injective

/-! ## Drawing below a bound -/

/-- The state whose output every bound accepts: all bits are set. -/
def jackpot : UInt64 := 0xCF9A04AFFA6BADC0

theorem mix_jackpot : mix jackpot = 0xFFFFFFFFFFFFFFFF := by decide

/-- The low half of the product of the largest draw is the negated bound. -/
theorem accepts_max (bound : UInt64) : accepts bound 0xFFFFFFFFFFFFFFFF = true := by
  have hlow : UInt64.ofNat (product 0xFFFFFFFFFFFFFFFF bound) = 0 - bound := by
    rw [product, UInt64.ofNat_mul, UInt64.ofNat_toNat, UInt64.ofNat_toNat,
      show (0xFFFFFFFFFFFFFFFF : UInt64) = -1 by decide, UInt64.neg_mul, UInt64.one_mul,
      UInt64.zero_sub]
  rw [accepts, hlow, decide_eq_true_iff, threshold, UInt64.le_iff_toNat_le, UInt64.toNat_mod]
  exact Nat.mod_le _ _

/-- The draws before the one that is accepted whatever the bound is. -/
def turnsLeft (g : SplitMix64) : Nat := ((jackpot - (g.state + gamma)) * gammaInv).toNat

theorem turnsLeft_next_lt {bound : UInt64} {g : SplitMix64} (h : ¬ accepts bound g.next.1 = true) :
    turnsLeft g.next.2 < turnsLeft g := by
  have hnot : jackpot - (g.state + gamma) ≠ 0 := by
    intro hzero
    have hstate : g.state + gamma = jackpot := by
      rw [← UInt64.sub_add_cancel jackpot (g.state + gamma), hzero, UInt64.zero_add]
    refine h ?_
    show accepts bound (mix (g.state + gamma)) = true
    rw [hstate, mix_jackpot]
    exact accepts_max bound
  -- one draw fewer, counted in the units of the increment
  have hnext : (jackpot - (g.next.2.state + gamma)) * gammaInv
      = (jackpot - (g.state + gamma)) * gammaInv - 1 := by
    show (jackpot - (g.state + gamma + gamma)) * gammaInv = _
    rw [← gamma_mul_gammaInv]
    grind
  have hne : (jackpot - (g.state + gamma)) * gammaInv ≠ 0 := by
    intro hzero
    refine hnot ?_
    have hmul := congrArg (· * gamma) hzero
    simp only [UInt64.mul_assoc, UInt64.zero_mul] at hmul
    rwa [UInt64.mul_comm gammaInv, gamma_mul_gammaInv, UInt64.mul_one] at hmul
  rw [turnsLeft, turnsLeft, hnext]
  generalize (jackpot - (g.state + gamma)) * gammaInv = u at hne
  have hpos : 1 ≤ u.toNat := Nat.one_le_iff_ne_zero.mpr fun h => hne (UInt64.toNat_inj.mp h)
  have hle : (1 : UInt64) ≤ u := UInt64.le_iff_toNat_le.mpr hpos
  rw [UInt64.toNat_sub_of_le _ _ hle]
  show u.toNat - 1 < u.toNat
  omega

/-- The rejection loop. -/
def belowLoop (bound : UInt64) (g : SplitMix64) : UInt64 × SplitMix64 :=
  if _h : accepts bound g.next.1 then (scale bound g.next.1, g.next.2)
  else belowLoop bound g.next.2
termination_by turnsLeft g
decreasing_by exact turnsLeft_next_lt _h

/-- A remainder by zero is a panic. -/
def below (g : SplitMix64) (bound : UInt64) : Option (UInt64 × SplitMix64) :=
  if bound = 0 then none else some (belowLoop bound g)

/-- The draws that are thrown away. -/
def rejections (bound : UInt64) (g : SplitMix64) : Nat :=
  if _h : accepts bound g.next.1 then 0 else rejections bound g.next.2 + 1
termination_by turnsLeft g
decreasing_by exact turnsLeft_next_lt _h

theorem draw_succ (g : SplitMix64) (n : Nat) : g.draw (n + 1) = g.next.2.draw n := by
  rw [draw, draw, after_succ]

/-- **The loop stops at the first draw that is accepted.** -/
theorem belowLoop_eq (bound : UInt64) (g : SplitMix64) :
    belowLoop bound g
      = (scale bound (g.draw (rejections bound g)), g.after (rejections bound g + 1)) := by
  fun_induction rejections bound g with
  | case1 g hacc => rw [belowLoop.eq_def, dif_pos hacc, draw_zero, after_succ, after_zero]
  | case2 g hrej ih =>
    rw [belowLoop.eq_def, dif_neg hrej, ih, draw_succ,
      after_succ g (rejections bound g.next.2 + 1)]

theorem rejections_le (bound : UInt64) (g : SplitMix64) : rejections bound g ≤ turnsLeft g := by
  fun_induction rejections bound g with
  | case1 g hacc => exact Nat.zero_le _
  | case2 g hrej ih => exact Nat.lt_of_le_of_lt ih (turnsLeft_next_lt hrej)

theorem rejections_lt (bound : UInt64) (g : SplitMix64) : rejections bound g < 2 ^ 64 :=
  Nat.lt_of_le_of_lt (rejections_le bound g) (UInt64.toNat_lt _)

theorem accepts_draw (bound : UInt64) (g : SplitMix64) :
    accepts bound (g.draw (rejections bound g)) = true := by
  fun_induction rejections bound g with
  | case1 g hacc => exact hacc
  | case2 g hrej ih => rwa [draw_succ]

theorem rejects_draw (bound : UInt64) (g : SplitMix64) :
    ∀ m < rejections bound g, accepts bound (g.draw m) = false := by
  fun_induction rejections bound g with
  | case1 g hacc => exact fun m hm => absurd hm (Nat.not_lt_zero m)
  | case2 g hrej ih =>
    intro m hm
    cases m with
    | zero => exact Bool.eq_false_iff.mpr hrej
    | succ m => rw [draw_succ, ih m (by omega)]

theorem scale_lt {bound : UInt64} (hbound : 0 < bound.toNat) (x : UInt64) :
    (scale bound x).toNat < bound.toNat := by
  have hlt : x.toNat * bound.toNat < 2 ^ 64 * bound.toNat :=
    Nat.mul_lt_mul_of_pos_right x.toNat_lt hbound
  have hdiv : x.toNat * bound.toNat / 2 ^ 64 < bound.toNat := Nat.div_lt_of_lt_mul hlt
  rw [scale, product, Nat.shiftRight_eq_div_pow,
    UInt64.toNat_ofNat_of_lt' (Nat.lt_trans hdiv bound.toNat_lt)]
  exact hdiv

theorem below_eq {bound : UInt64} (hbound : 0 < bound.toNat) (g : SplitMix64) :
    g.below bound = some
      (scale bound (g.draw (rejections bound g)), g.after (rejections bound g + 1)) := by
  have hne : bound ≠ 0 := fun h => by simp [h] at hbound
  rw [below, if_neg hne, belowLoop_eq]

/-! ## The neighbours of a symbol -/

/-- `while size > 1` of the binary search: `p` holds in front of the place that is looked for. -/
def searchFrom {α : Type} (p : α → Bool) (l : List α) (base size : Nat) : Nat :=
  if 1 < size then
    let half := size / 2
    let mid := base + half
    searchFrom p l (if (l[mid]?).any p then mid else base) (size - half)
  else base
termination_by size

/-- `slice::partition_point`, also of a slice that is not partitioned. -/
def partitionPoint {α : Type} (p : α → Bool) (l : List α) : Nat :=
  if l.length = 0 then 0
  else
    let base := searchFrom p l 0 l.length
    if (l[base]?).any p then base + 1 else base

/-- The degree and the generator after the draw. -/
def sampleDegree (rng : SplitMix64) (cdf : List Float) : Nat × SplitMix64 :=
  let (draw, rng) := rng.next
  let x := draw.toFloat / (0xFFFFFFFFFFFFFFFF : UInt64).toFloat
  let idx := min (partitionPoint (fun c => c < x) cdf) (cdf.length - 1)
  (idx + 1, rng)

/-- The loop of distinct draws. -/
def pick : Nat → SplitMix64 → List Nat → List Nat → Option (List Nat)
  | 0, _, _, picked => some picked
  | n + 1, rng, avail, picked =>
    match rng.below (UInt64.ofNat avail.length) with
    | none => none
    | some (j, rng) =>
      match avail[j.toNat]? with
      | none => none
      | some a => pick n rng (swapRemove avail j.toNat) (picked ++ [a])

def neighbors (symbolId : UInt64) (k : Nat) (cdf : List Float) (streamSeed : UInt64) :
    Option (List Nat) :=
  if symbolId < UInt64.ofNat k then some [symbolId.toNat]
  else
    let fountainId := symbolId - UInt64.ofNat k
    let rng := new (streamSeed ^^^ rotateLeft32 fountainId)
    let (degree, rng) := sampleDegree rng cdf
    pick (min degree k) rng (List.range k) []

theorem sampleDegree_snd (g : SplitMix64) (cdf : List Float) : (sampleDegree g cdf).2 = g.next.2 :=
  rfl

/-! ### The draws as a choice -/

/-- The value that is drawn below a bound. -/
def valueBelow (bound : Nat) (g : SplitMix64) : Nat :=
  (scale (UInt64.ofNat bound) (g.draw (rejections (UInt64.ofNat bound) g))).toNat

/-- The generator behind the draw. -/
def restBelow (bound : Nat) (g : SplitMix64) : SplitMix64 :=
  g.after (rejections (UInt64.ofNat bound) g + 1)

/-- The generator at draw `i` of a symbol, the first draw being below `k` and each one below one
less than the draw before it. -/
def atDraw (g : SplitMix64) (k : Nat) : Nat → SplitMix64
  | 0 => g
  | i + 1 => restBelow (k - i) (atDraw g k i)

/-- The degrees and the draws of the code, for the distribution of each number of blocks. No bound
is past a word. -/
def sampling (cdf : Nat → List Float) : Sampling where
  degree k seed := (sampleDegree (new seed) (cdf k)).1
  below seed i bound :=
    let j := valueBelow bound (atDraw (new seed).next.2 (bound + i) i)
    if j < bound then j else 0
  degree_pos _ _ := Nat.succ_pos _
  below_lt seed i bound hbound := by
    dsimp only
    split
    · next h => exact h
    · exact hbound

theorem toNat_ofNat_word {n : Nat} (h : n < 2 ^ 64) : (UInt64.ofNat n).toNat = n :=
  UInt64.toNat_ofNat_of_lt' h

theorem valueBelow_lt {bound : Nat} (hpos : 0 < bound) (hword : bound < 2 ^ 64)
    (g : SplitMix64) : valueBelow bound g < bound := by
  have hbound := toNat_ofNat_word hword
  have hlt := scale_lt (show 0 < (UInt64.ofNat bound).toNat by omega)
    (g.draw (rejections (UInt64.ofNat bound) g))
  rwa [hbound] at hlt

/-- **Step lemma**: the draws of the loop are those of the choice. -/
theorem pick_eq_pickDistinct (cdf : Nat → List Float) (seed : UInt64) {k n i : Nat}
    (hk : k < 2 ^ 64) {avail : List Nat} (picked : List Nat) (hlen : avail.length + i = k)
    (hn : n ≤ avail.length) :
    pick n (atDraw (new seed).next.2 k i) avail picked
      = pickDistinct (sampling cdf) seed n i avail picked := by
  induction n generalizing i avail picked with
  | zero => rfl
  | succ n ih =>
    have hlt := valueBelow_lt (show 0 < avail.length by omega) (by omega)
      (atDraw (new seed).next.2 k i)
    have hdraw : (sampling cdf).below seed i avail.length
        = valueBelow avail.length (atDraw (new seed).next.2 k i) := by
      show (if valueBelow _ (atDraw _ (avail.length + i) i) < _ then _ else _) = _
      rw [hlen, if_pos hlt]
    have hnext : restBelow avail.length (atDraw (new seed).next.2 k i)
        = atDraw (new seed).next.2 k (i + 1) := by
      rw [atDraw, ← hlen, Nat.add_sub_cancel]
    have hrest := (swapRemove_perm hlt).length_eq
    rw [List.length_cons] at hrest
    have hbound : 0 < (UInt64.ofNat avail.length).toNat := by
      rw [toNat_ofNat_word (by omega)]
      omega
    rw [pick, pickDistinct, below_eq hbound, if_neg (by omega), hdraw]
    rw [valueBelow] at hlt hrest ⊢
    rw [restBelow] at hnext
    dsimp only
    rw [List.getElem?_eq_getElem hlt, hnext]
    exact ih _ (by omega) (by omega)

/-- **The code's neighbours are a choice of the model**: what is proved of the fountain for any
choice of degrees and draws holds of the code. -/
theorem neighbors_eq_sampled (cdf : Nat → List Float) {k : Nat} (hk : k < 2 ^ 64)
    (symbolId streamSeed : UInt64) :
    neighbors symbolId k (cdf k) streamSeed
      = DiscCleaner.neighbors (sampling cdf) k streamSeed symbolId.toNat := by
  have hword := toNat_ofNat_word hk
  unfold neighbors DiscCleaner.neighbors
  by_cases hid : symbolId.toNat < k
  · rw [if_pos (UInt64.lt_iff_toNat_lt.mpr (by rwa [hword])), if_pos hid]
  · have hle : UInt64.ofNat k ≤ symbolId := by
      rw [UInt64.le_iff_toNat_le, hword]
      omega
    have hfountain : symbolId - UInt64.ofNat k = UInt64.ofNat (symbolId.toNat - k) := by
      rw [← UInt64.toNat_inj, UInt64.toNat_sub_of_le _ _ hle, hword,
        toNat_ofNat_word (Nat.lt_of_le_of_lt (Nat.sub_le _ _) symbolId.toNat_lt)]
    rw [if_neg (by rwa [UInt64.lt_iff_toNat_lt, hword]), if_neg hid, hfountain]
    dsimp only
    generalize streamSeed ^^^ rotateLeft32 (UInt64.ofNat (symbolId.toNat - k)) = rng
    have hlen : (List.range k).length + 0 = k := by rw [List.length_range, Nat.add_zero]
    have hpick := fun n hn => @pick_eq_pickDistinct cdf rng k n 0 hk (List.range k) [] hlen hn
    rw [atDraw] at hpick
    rw [sampleDegree_snd, hpick _ (by rw [List.length_range]; exact Nat.min_le_right _ _)]
    rfl

/-- **Drawing ends, and the neighbours of a symbol are distinct**: a value below a bound is that of
the first accepted draw, which is one of the `2 ^ 64` that come up; and every symbol has between
one and `k` blocks, no block twice, whatever the distribution holds. -/
theorem draws_distinct :
    (∀ (g : SplitMix64) (bound : UInt64), 1 ≤ bound → ∃ n < 2 ^ 64,
      accepts bound (g.draw n) = true ∧ (∀ m < n, accepts bound (g.draw m) = false) ∧
      g.below bound = some (scale bound (g.draw n), g.after (n + 1)) ∧
      scale bound (g.draw n) < bound) ∧
    (∀ g g' : SplitMix64, ∃ n < 2 ^ 64, g.after n = g') ∧ Function.Bijective mix ∧
    ∀ (symbolId : UInt64) (k : Nat) (cdf : List Float) (streamSeed : UInt64),
      1 ≤ k → k < 2 ^ 64 → cdf.length = k →
      ∃ l, neighbors symbolId k cdf streamSeed = some l ∧ 1 ≤ l.length ∧ l.length ≤ k ∧
        l.Nodup ∧ ∀ n ∈ l, n < k := by
  refine ⟨fun g bound hbound => ?_, exists_after_eq, mix_bijective,
    fun symbolId k cdf streamSeed hk hword _ => ?_⟩
  · have hpos : 0 < bound.toNat := UInt64.le_iff_toNat_le.mp hbound
    exact ⟨rejections bound g, rejections_lt bound g, accepts_draw bound g, rejects_draw bound g,
      below_eq hpos g, UInt64.lt_iff_toNat_lt.mpr (scale_lt hpos _)⟩
  · have hsampled := neighbors_eq_sampled (fun _ => cdf) hword symbolId streamSeed
    obtain ⟨l, hl, hne, hnodup, hlt⟩ :=
      neighbors_spec (sampling fun _ => cdf) hk streamSeed symbolId.toNat
    have hlen : l.length ≤ k := by
      have hsub : l ⊆ List.range k := fun n hn => List.mem_range.mpr (hlt n hn)
      have hle := (hnodup.subperm hsub).length_le
      rwa [List.length_range] at hle
    exact ⟨l, hsampled.trans hl, List.length_pos_of_ne_nil hne, hlen, hnodup, hlt⟩

theorem draws_distinct_small :
    (∃ n < 2 ^ 64, (new 1).below 6 = some (scale 6 ((new 1).draw n), (new 1).after (n + 1)) ∧
      scale 6 ((new 1).draw n) < 6) ∧
    ∃ l, neighbors 7 2 [0.5, 1] 3 = some l ∧ 1 ≤ l.length ∧ l.length ≤ 2 := by
  obtain ⟨hbelow, -, -, hneighbors⟩ := draws_distinct
  obtain ⟨n, hn, -, -, hrun, hlt⟩ := hbelow (new 1) 6 (by decide)
  obtain ⟨l, hl, hpos, hle, -⟩ := hneighbors 7 2 [0.5, 1] 3 (by decide) (by decide) rfl
  exact ⟨⟨n, hn, hrun, hlt⟩, l, hl, hpos, hle⟩

end SplitMix64

end DiscCleaner
