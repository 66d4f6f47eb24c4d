import DiscCleaner.Cxl.Mailbox
import DiscCleaner.Lib.Slices
import DiscCleaner.Lib.Checked
import Mathlib.Data.Finset.Card

/-!
# DiscCleaner — what a sampled read-back has read (`dc-cxl/verify.rs`)

`verify_media_sampled` reads evenly spaced windows and reports their number and the dirty ones.
Every slice lies inside the media. The indices come from an integer interpolation: asked for more
windows than there are, it reads some of them again, and it never reads what lies behind the last
whole window.

* **`sampleIndex`** — the interpolation, and when it climbs.
* **`sampleMedia`** — the read-back with the windows it has read.
* **`sampling_honest_iff`** — when its report is about distinct windows and the whole media.
-/

namespace DiscCleaner

namespace Cxl

open ByteLib SliceLib CheckedLib

/-! ## Evenly spaced indices -/

/-- The window that sample `k` reads. The product is one of machine words and wraps. -/
def sampleIndex (usable nWindows k : Nat) : Nat :=
  if nWindows = 1 then 0 else k * (usable - 1) % 2 ^ 64 / (nWindows - 1)

/-- The products of the interpolation fit a machine word. -/
def SpacingFits (usable nWindows : Nat) : Prop := (nWindows - 1) * (usable - 1) < 2 ^ 64

instance (usable nWindows : Nat) : Decidable (SpacingFits usable nWindows) :=
  inferInstanceAs (Decidable (_ < _))

theorem sampleIndex_le {usable nWindows k : Nat} (hk : k < nWindows) :
    sampleIndex usable nWindows k ≤ usable - 1 := by
  unfold sampleIndex
  split
  · exact Nat.zero_le _
  · refine Nat.div_le_of_le_mul (le_trans (Nat.mod_le _ _) ?_)
    exact Nat.mul_le_mul_right _ (by omega)

theorem sampleIndex_lt {usable nWindows k : Nat} (husable : 0 < usable) (hk : k < nWindows) :
    sampleIndex usable nWindows k < usable := by
  have hle : sampleIndex usable nWindows k ≤ usable - 1 := sampleIndex_le hk
  omega

theorem sampleIndex_eq {usable nWindows k : Nat} (h : SpacingFits usable nWindows)
    (hk : k < nWindows) :
    sampleIndex usable nWindows k = k * (usable - 1) / (nWindows - 1) := by
  unfold sampleIndex
  split
  · next hone =>
    obtain rfl : k = 0 := by omega
    rw [Nat.zero_mul, Nat.zero_div]
  · have hfits : k * (usable - 1) < 2 ^ 64 :=
      lt_of_le_of_lt (Nat.mul_le_mul_right _ (by omega)) h
    rw [Nat.mod_eq_of_lt hfits]

/-- With no more samples than windows the indices climb. -/
theorem sampleIndex_strictMono {usable nWindows j k : Nat} (h : SpacingFits usable nWindows)
    (hle : nWindows ≤ usable) (hjk : j < k) (hk : k < nWindows) :
    sampleIndex usable nWindows j < sampleIndex usable nWindows k := by
  rw [sampleIndex_eq h (hjk.trans hk), sampleIndex_eq h hk]
  -- one step of the numerator is at least the denominator
  have hstep : j * (usable - 1) / (nWindows - 1) + 1
      ≤ (j * (usable - 1) + (nWindows - 1)) / (nWindows - 1) := by
    rw [Nat.add_div_right _ (by omega)]
  refine lt_of_lt_of_le (Nat.lt_of_succ_le hstep) (Nat.div_le_div_right ?_)
  calc j * (usable - 1) + (nWindows - 1) ≤ j * (usable - 1) + 1 * (usable - 1) := by omega
    _ = (j + 1) * (usable - 1) := by rw [Nat.add_mul]
    _ ≤ k * (usable - 1) := Nat.mul_le_mul_right _ hjk

/-- The last sample reads the last window. -/
theorem sampleIndex_last {usable nWindows : Nat} (h : SpacingFits usable nWindows)
    (hn : 2 ≤ nWindows) : sampleIndex usable nWindows (nWindows - 1) = usable - 1 := by
  rw [sampleIndex_eq h (by omega), Nat.mul_div_cancel_left _ (by omega)]

/-- When the products wrap, no sample reads the last window. -/
theorem sampleIndex_lt_last {usable nWindows k : Nat} (h : ¬ SpacingFits usable nWindows)
    (hk : k < nWindows) : sampleIndex usable nWindows k < usable - 1 := by
  unfold SpacingFits at h
  have hpos : 0 < usable - 1 := by
    by_contra hzero
    obtain h0 : usable - 1 = 0 := by omega
    rw [h0, Nat.mul_zero] at h
    exact h (by decide)
  unfold sampleIndex
  split
  · exact hpos
  · rw [Nat.div_lt_iff_lt_mul (by omega)]
    by_cases hlast : k = nWindows - 1
    · -- the last product is the one that does not fit
      have hmod := Nat.mod_lt (k * (usable - 1)) (show 0 < 2 ^ 64 by decide)
      rw [hlast] at hmod ⊢
      rw [Nat.mul_comm (usable - 1)]
      omega
    · refine lt_of_le_of_lt (Nat.mod_le _ _) ?_
      rw [Nat.mul_comm]
      exact Nat.mul_lt_mul_of_pos_left (by omega) hpos

/-- As many samples as windows read each of them. -/
theorem sampleIndex_self {usable k : Nat} (h : SpacingFits usable usable) (hk : k < usable) :
    sampleIndex usable usable k = k := by
  rw [sampleIndex_eq h hk]
  by_cases hone : usable = 1
  · subst hone
    obtain rfl : k = 0 := by omega
    rfl
  · exact Nat.mul_div_cancel k (by omega)

/-! ## The read-back -/

section sampling

variable (sha256 : Bytes → Bytes)

/-- The windows a read-back reads, in its order. -/
def readWindows (media : Bytes) (windowSize nWindows : Nat) : Option (List (Nat × Bytes)) :=
  let nWindows := max nWindows 1
  let windowSize := max windowSize 1
  if media = [] then some []
  else
    let usable := media.length / windowSize
    -- a medium shorter than a window is read whole
    if usable = 0 then some [(0, media)]
    else
      (List.range nWindows).mapM fun k => do
        let idx := sampleIndex usable nWindows k
        let start := idx * windowSize
        let window ← range? media start (start + windowSize)
        some (idx, window)

/-- `verify_media_sampled` with its slices, and the windows it has read. -/
def sampleMedia (media : Bytes) (windowSize nWindows : Nat) :
    Option (List (Nat × Bytes) × MediaVerification) := do
  let read ← readWindows media windowSize nWindows
  let nonzero := (read.filter fun window => window.2.any (· ≠ 0)).map Prod.fst
  some (read,
    { sampledWindows := read.length
      windowSize := max windowSize 1
      nonzeroWindows := nonzero
      mediaSha256 := if media.length ≤ 2 ^ 20 then some (hexSha256 sha256 media) else none
      allZero := nonzero.isEmpty })

/-- Window `idx` of a medium. -/
def mediaWindow (media : Bytes) (windowSize idx : Nat) : Nat × Bytes :=
  (idx, slice media (idx * windowSize) windowSize)

/-- The indices that are read. -/
def sampled (len windowSize nWindows : Nat) : List Nat :=
  if len = 0 then []
  else if len / windowSize = 0 then [0]
  else (List.range nWindows).map (sampleIndex (len / windowSize) nWindows)

theorem sampled_lt {len windowSize nWindows idx : Nat} (husable : 0 < len / windowSize)
    (h : idx ∈ sampled len windowSize nWindows) : idx < len / windowSize := by
  unfold sampled at h
  split at h
  · exact absurd h List.not_mem_nil
  · rw [if_neg husable.ne'] at h
    obtain ⟨k, hk, rfl⟩ := List.mem_map.mp h
    exact sampleIndex_lt husable (List.mem_range.mp hk)

/-- **No slice is out of range.** -/
theorem readWindows_eq (media : Bytes) (windowSize nWindows : Nat) :
    readWindows media windowSize nWindows
      = some ((sampled media.length (max windowSize 1) (max nWindows 1)).map
          (mediaWindow media (max windowSize 1))) := by
  unfold readWindows sampled
  by_cases hnil : media = []
  · simp [hnil]
  · have hlen : media.length ≠ 0 := fun h => hnil (List.length_eq_zero_iff.mp h)
    simp only [if_neg hnil, if_neg hlen]
    split
    · next hshort =>
      have hlt : media.length < max windowSize 1 :=
        (Nat.div_eq_zero_iff_lt (by omega)).mp hshort
      simp [mediaWindow, slice, List.take_of_length_le hlt.le]
    · next husable =>
      rw [List.map_map]
      refine mapM_eq_some_map fun k hk => ?_
      have hidx := sampleIndex_lt (Nat.pos_of_ne_zero husable) (List.mem_range.mp hk)
      have hend : sampleIndex (media.length / max windowSize 1) (max nWindows 1) k
          * max windowSize 1 + max windowSize 1 ≤ media.length := by
        calc _ = (sampleIndex (media.length / max windowSize 1) (max nWindows 1) k + 1)
              * max windowSize 1 := by rw [Nat.add_mul, Nat.one_mul]
          _ ≤ media.length / max windowSize 1 * max windowSize 1 := Nat.mul_le_mul_right _ hidx
          _ ≤ media.length := Nat.div_mul_le_self _ _
      rw [range?_eq (Nat.le_add_right _ _) hend, Nat.add_sub_cancel_left]
      rfl

/-- Where the products fit a machine word the report is that of `verifyMediaSampled`. -/
theorem sampleMedia_snd {media : Bytes} {windowSize nWindows : Nat}
    (h : SpacingFits (media.length / max windowSize 1) (max nWindows 1)) :
    (sampleMedia sha256 media windowSize nWindows).map Prod.snd
      = some (verifyMediaSampled sha256 media windowSize nWindows) := by
  unfold sampleMedia verifyMediaSampled
  rw [readWindows_eq]
  by_cases hnil : media = []
  · simp [hnil, sampled]
  · have hlen : media.length ≠ 0 := fun h => hnil (List.length_eq_zero_iff.mp h)
    simp only [if_neg hnil, sampled, if_neg hlen]
    by_cases husable : media.length / max windowSize 1 = 0
    · have hlt : media.length < max windowSize 1 :=
        (Nat.div_eq_zero_iff_lt (by omega)).mp husable
      have hwhole : slice media (0 * max windowSize 1) (max windowSize 1) = media := by
        rw [slice, Nat.zero_mul, List.drop_zero, List.take_of_length_le hlt.le]
      have hfilter : ([(0, media)].filter fun window : Nat × Bytes => window.2.any (· ≠ 0)).map
          Prod.fst = if media.any (· ≠ 0) then [0] else [] := by
        rw [List.filter_cons]
        split <;> rfl
      simp only [if_pos husable, List.map_cons, List.map_nil, mediaWindow, hwhole,
        Option.bind_eq_bind, Option.bind_some, Option.map_some, hfilter]
      rfl
    · have hidx : (List.range (max nWindows 1)).map
            (sampleIndex (media.length / max windowSize 1) (max nWindows 1))
          = (List.range (max nWindows 1)).map fun k => if max nWindows 1 = 1 then 0
            else k * (media.length / max windowSize 1 - 1) / (max nWindows 1 - 1) := by
        refine List.map_congr_left fun k hk => ?_
        rw [sampleIndex_eq h (List.mem_range.mp hk)]
        split
        · next hone =>
          obtain rfl : k = 0 := by rw [hone] at hk; exact Nat.lt_one_iff.mp (List.mem_range.mp hk)
          rw [Nat.zero_mul, Nat.zero_div]
        · rfl
      simp only [if_neg husable, hidx, Option.bind_eq_bind, Option.bind_some, Option.map_some,
        List.filter_map, List.map_map, List.length_map, List.length_range]
      rfl

/-! ## What a report says -/

/-- Byte `i` lies in a window that was read. -/
def Covered (windowSize : Nat) (read : List (Nat × Bytes)) (i : Nat) : Prop :=
  ∃ window ∈ read, window.1 * windowSize ≤ i ∧ i < window.1 * windowSize + window.2.length

/-- The number of windows, a short last one included. -/
def windowCount (len windowSize : Nat) : Nat := (len + windowSize - 1) / windowSize

/-- A report about what was read: distinct windows, each dirty one once, both ends of the media when
two windows are asked for, and the whole media when as many windows are asked for as there are. -/
structure SaysWhatItRead (media : Bytes) (windowSize nWindows : Nat) (read : List (Nat × Bytes))
    (v : MediaVerification) : Prop where
  distinct : v.sampledWindows = (read.map Prod.fst).toFinset.card
  dirty : ∀ idx, idx ∈ v.nonzeroWindows ↔ ∃ window ∈ read, window.1 = idx ∧ ∃ b ∈ window.2, b ≠ 0
  once : v.nonzeroWindows.Nodup
  ends : 2 ≤ nWindows → media ≠ [] →
    Covered (max windowSize 1) read 0 ∧ Covered (max windowSize 1) read (media.length - 1)
  complete : windowCount media.length (max windowSize 1) ≤ nWindows →
    (v.allZero = true ↔ ∀ b ∈ media, b = 0)

/-- The samples fall on different windows, and no byte stands behind the last one. -/
def SampledOnce (len windowSize nWindows : Nat) : Prop :=
  let usable := len / max windowSize 1
  usable = 0 ∨ (max nWindows 1 ≤ usable ∧ SpacingFits usable (max nWindows 1)
    ∧ (nWindows < 2 ∨ max windowSize 1 ∣ len))

theorem mem_slice {media : Bytes} {start n : Nat} {b : UInt8} :
    b ∈ slice media start n ↔ ∃ i, start ≤ i ∧ i < start + n ∧ media[i]? = some b := by
  unfold slice
  rw [List.mem_iff_getElem?]
  simp only [List.getElem?_take, List.getElem?_drop]
  constructor
  · intro ⟨i, hi⟩
    split at hi
    · next hlt => exact ⟨start + i, Nat.le_add_right _ _, Nat.add_lt_add_left hlt _, hi⟩
    · exact absurd hi (by simp)
  · intro ⟨i, hstart, hend, hi⟩
    refine ⟨i - start, ?_⟩
    rw [if_pos (by omega), Nat.add_sub_cancel' hstart]
    exact hi

section report

variable {media : Bytes} {windowSize nWindows : Nat}

/-- What the sampled windows are called. -/
theorem map_fst_mediaWindow (l : List Nat) :
    (l.map (mediaWindow media windowSize)).map Prod.fst = l := by
  rw [List.map_map]
  exact List.map_id l

/-- Enough windows for each byte show whether the media is zero. -/
theorem all_zero_iff {l : List Nat}
    (h : ∀ i < media.length, ∃ idx ∈ l, idx * windowSize ≤ i ∧ i < idx * windowSize + windowSize) :
    (∀ idx ∈ l, ∀ b ∈ slice media (idx * windowSize) windowSize, b = 0) ↔ ∀ b ∈ media, b = 0 := by
  constructor
  · intro hall b hb
    obtain ⟨i, hi⟩ := List.mem_iff_getElem?.mp hb
    obtain ⟨hlt, -⟩ := List.getElem?_eq_some_iff.mp hi
    obtain ⟨idx, hidx, hlow, hhigh⟩ := h i hlt
    exact hall idx hidx b (mem_slice.mpr ⟨i, hlow, hhigh, hi⟩)
  · intro hall idx _ b hb
    obtain ⟨i, -, -, hi⟩ := mem_slice.mp hb
    exact hall b (List.mem_iff_getElem?.mpr ⟨i, hi⟩)

theorem nodup_sampled {len : Nat} (h : SpacingFits (len / windowSize) nWindows)
    (hle : nWindows ≤ len / windowSize) : (sampled len windowSize nWindows).Nodup := by
  unfold sampled
  split
  · exact List.nodup_nil
  · split
    · simp
    · refine List.nodup_range.map_on fun j hj k hk heq => ?_
      rw [List.mem_range] at hj hk
      rcases Nat.lt_trichotomy j k with hlt | heq' | hlt
      · exact absurd heq (sampleIndex_strictMono h hle hlt hk).ne
      · exact heq'
      · exact absurd heq.symm (sampleIndex_strictMono h hle hlt hj).ne

/-- Distinct samples are no more than there are windows. -/
theorem le_usable_of_nodup {len : Nat} (husable : 0 < len / windowSize)
    (h : (sampled len windowSize nWindows).Nodup) : nWindows ≤ len / windowSize := by
  have hlen : len ≠ 0 := fun h0 => by simp [h0] at husable
  have hsub : sampled len windowSize nWindows ⊆ List.range (len / windowSize) := fun idx hidx =>
    List.mem_range.mpr (sampled_lt husable hidx)
  have hcard := (h.subperm hsub).length_le
  rwa [sampled, if_neg hlen, if_neg husable.ne', List.length_map, List.length_range,
    List.length_range] at hcard

/-- A window in front of the end is whole. -/
theorem length_mediaWindow {idx : Nat} (h : idx < media.length / windowSize) :
    (mediaWindow media windowSize idx).2.length = windowSize := by
  have hmul := Nat.div_mul_le_self media.length windowSize
  have hend : (idx + 1) * windowSize ≤ media.length / windowSize * windowSize :=
    Nat.mul_le_mul_right _ h
  rw [Nat.add_mul, Nat.one_mul] at hend
  rw [mediaWindow, slice, List.length_take, List.length_drop]
  omega

/-- The last byte is read with the last whole window, if at all. -/
theorem covered_last {l : List Nat} (hwindow : 0 < windowSize)
    (husable : 0 < media.length / windowSize) (hl : ∀ idx ∈ l, idx < media.length / windowSize) :
    Covered windowSize (l.map (mediaWindow media windowSize)) (media.length - 1) ↔
      media.length / windowSize - 1 ∈ l ∧ windowSize ∣ media.length := by
  have hmul := Nat.div_mul_le_self media.length windowSize
  constructor
  · intro ⟨window, hmem, hlow, hhigh⟩
    obtain ⟨idx, hidx, rfl⟩ := List.mem_map.mp hmem
    have hlt := hl idx hidx
    rw [length_mediaWindow hlt] at hhigh
    change media.length - 1 < idx * windowSize + windowSize at hhigh
    -- the window ends where the whole windows end, so they end with the media
    have hend : (idx + 1) * windowSize ≤ media.length / windowSize * windowSize :=
      Nat.mul_le_mul_right _ hlt
    have hsucc : (idx + 1) * windowSize = idx * windowSize + windowSize := Nat.succ_mul _ _
    have hlast : (idx + 1) * windowSize = media.length / windowSize * windowSize := by omega
    have hidx' : idx + 1 = media.length / windowSize := Nat.eq_of_mul_eq_mul_right hwindow hlast
    refine ⟨?_, Dvd.intro_left (media.length / windowSize) (by omega)⟩
    rwa [← hidx', Nat.add_sub_cancel]
  · intro ⟨hmem, hdvd⟩
    refine ⟨_, List.mem_map_of_mem hmem, ?_⟩
    have hwhole := Nat.div_mul_cancel hdvd
    have hsub := Nat.sub_mul (media.length / windowSize) 1 windowSize
    rw [Nat.one_mul] at hsub
    have hle : windowSize ≤ media.length / windowSize * windowSize :=
      Nat.le_mul_of_pos_left _ husable
    rw [length_mediaWindow (by omega)]
    show (media.length / windowSize - 1) * windowSize ≤ media.length - 1
      ∧ media.length - 1 < (media.length / windowSize - 1) * windowSize + windowSize
    omega

/-- The windows of a list in which some byte is set. -/
def dirtyWindows (media : Bytes) (windowSize : Nat) (l : List Nat) : List Nat :=
  l.filter fun idx => (slice media (idx * windowSize) windowSize).any (· ≠ 0)

theorem mem_dirtyWindows {l : List Nat} {idx : Nat} :
    idx ∈ dirtyWindows media windowSize l ↔ ∃ window ∈ l.map (mediaWindow media windowSize),
      window.1 = idx ∧ ∃ b ∈ window.2, b ≠ 0 := by
  rw [dirtyWindows, List.mem_filter, List.any_eq_true]
  simp only [decide_eq_true_eq, List.mem_map, mediaWindow, exists_exists_and_eq_and,
    ne_eq]
  constructor
  · intro ⟨hidx, hdirty⟩
    exact ⟨idx, hidx, rfl, hdirty⟩
  · rintro ⟨_, hidx, rfl, hdirty⟩
    exact ⟨hidx, hdirty⟩

theorem dirtyWindows_isEmpty_iff {l : List Nat} :
    (dirtyWindows media windowSize l).isEmpty = true ↔
      ∀ idx ∈ l, ∀ b ∈ slice media (idx * windowSize) windowSize, b = 0 := by
  rw [dirtyWindows, List.isEmpty_iff, List.filter_eq_nil_iff]
  simp

/-- The read-back returns, whatever the sizes. -/
theorem sampleMedia_eq (media : Bytes) (windowSize nWindows : Nat) :
    ∃ v, sampleMedia sha256 media windowSize nWindows
        = some ((sampled media.length (max windowSize 1) (max nWindows 1)).map
            (mediaWindow media (max windowSize 1)), v) ∧
      v.sampledWindows = (sampled media.length (max windowSize 1) (max nWindows 1)).length ∧
      v.nonzeroWindows = dirtyWindows media (max windowSize 1)
        (sampled media.length (max windowSize 1) (max nWindows 1)) ∧
      v.allZero = v.nonzeroWindows.isEmpty := by
  refine ⟨_, by rw [sampleMedia, readWindows_eq]; rfl, List.length_map _, ?_, rfl⟩
  rw [List.filter_map, List.map_map]
  exact List.map_id _

/-- A report counts distinct windows exactly if no window is sampled twice. -/
theorem length_eq_card_iff {l : List Nat} : l.length = l.toFinset.card ↔ l.Nodup := by
  rw [List.card_toFinset]
  constructor
  · intro h
    exact List.dedup_eq_self.mp ((List.dedup_sublist l).eq_of_length h.symm)
  · intro h
    rw [h.dedup]

theorem sampledOnce_of_says {read : List (Nat × Bytes)} {v : MediaVerification}
    (hread : read = (sampled media.length (max windowSize 1) (max nWindows 1)).map
      (mediaWindow media (max windowSize 1)))
    (hcount : v.sampledWindows
      = (sampled media.length (max windowSize 1) (max nWindows 1)).length)
    (h : SaysWhatItRead media windowSize nWindows read v) :
    SampledOnce media.length windowSize nWindows := by
  rcases Nat.eq_zero_or_pos (media.length / max windowSize 1) with hzero | husable
  · exact .inl hzero
  have hnil : media ≠ [] := fun h => by simp [h] at husable
  have hnodup : (sampled media.length (max windowSize 1) (max nWindows 1)).Nodup := by
    have hdistinct := h.distinct
    rw [hcount, hread, map_fst_mediaWindow] at hdistinct
    exact length_eq_card_iff.mp hdistinct
  have hle := le_usable_of_nodup husable hnodup
  by_cases hone : nWindows < 2
  · refine .inr ⟨hle, ?_, .inl hone⟩
    -- a single sample multiplies nothing
    have hmax : max nWindows 1 = 1 := by omega
    rw [hmax, SpacingFits]
    simp
  · obtain ⟨hmem, hdvd⟩ := (covered_last (by omega) husable fun idx hidx =>
      sampled_lt husable hidx).mp (hread ▸ (h.ends (by omega) hnil).2)
    refine .inr ⟨hle, ?_, .inr hdvd⟩
    by_contra hwraps
    have hlen : media.length ≠ 0 := fun h0 => hnil (List.length_eq_zero_iff.mp h0)
    rw [sampled, if_neg hlen, if_neg husable.ne'] at hmem
    obtain ⟨k, hk, hlast⟩ := List.mem_map.mp hmem
    exact absurd hlast (sampleIndex_lt_last hwraps (List.mem_range.mp hk)).ne

/-- Asked for as many windows as there are, a sampling without repetitions reads every byte. -/
theorem covers_of_count (h : SampledOnce media.length windowSize nWindows)
    (hcount : windowCount media.length (max windowSize 1) ≤ nWindows) :
    ∀ i < media.length, ∃ idx ∈ sampled media.length (max windowSize 1) (max nWindows 1),
      idx * max windowSize 1 ≤ i ∧ i < idx * max windowSize 1 + max windowSize 1 := by
  intro i hi
  have hwindow : 0 < max windowSize 1 := by omega
  set w := max windowSize 1 with hw
  have hlen : media.length ≠ 0 := by omega
  have hdiv := Nat.div_add_mod i w
  have hmod := Nat.mod_lt i hwindow
  rw [Nat.mul_comm] at hdiv
  rcases Nat.eq_zero_or_pos (media.length / w) with hzero | husable
  · have hlt : media.length < w := (Nat.div_eq_zero_iff_lt hwindow).mp hzero
    exact ⟨0, by rw [sampled, if_neg hlen, if_pos hzero]; exact List.mem_singleton_self 0,
      by omega, by omega⟩
  · obtain ⟨hle, hfits, -⟩ : max nWindows 1 ≤ media.length / w
        ∧ SpacingFits (media.length / w) (max nWindows 1) ∧ _ := h.resolve_left husable.ne'
    -- the whole windows are all windows, and the samples are as many
    have hcount' : media.length / w ≤ windowCount media.length w :=
      Nat.div_le_div_right (by omega)
    have hall : max nWindows 1 = media.length / w := by omega
    have hwhole : media.length ≤ media.length / w * w := by
      have hceil : windowCount media.length w = media.length / w := by omega
      have hlast := Nat.lt_div_mul_add (a := media.length + w - 1) hwindow
      unfold windowCount at hceil
      rw [hceil] at hlast
      omega
    refine ⟨i / w, ?_, by omega, by omega⟩
    have hidx : i / w < media.length / w := by
      rw [Nat.div_lt_iff_lt_mul hwindow]
      omega
    rw [sampled, if_neg hlen, if_neg husable.ne', hall]
    rw [hall] at hfits
    exact List.mem_map.mpr ⟨i / w, List.mem_range.mpr hidx, sampleIndex_self hfits hidx⟩

/-- Both ends of a medium shorter than a window. -/
theorem covered_short (hnil : media ≠ []) (hshort : media.length / max windowSize 1 = 0) :
    ∀ i < media.length, Covered (max windowSize 1)
      ((sampled media.length (max windowSize 1) (max nWindows 1)).map
        (mediaWindow media (max windowSize 1))) i := by
  intro i hi
  have hlen : media.length ≠ 0 := fun h0 => hnil (List.length_eq_zero_iff.mp h0)
  have hlt : media.length < max windowSize 1 := (Nat.div_eq_zero_iff_lt (by omega)).mp hshort
  rw [sampled, if_neg hlen, if_pos hshort]
  refine ⟨_, List.mem_singleton_self _, ?_⟩
  show 0 * max windowSize 1 ≤ i ∧ i < 0 * max windowSize 1
    + (slice media (0 * max windowSize 1) (max windowSize 1)).length
  rw [slice, List.length_take, List.length_drop]
  omega

/-- Both ends of a medium of whole windows. -/
theorem covered_ends (hn : 2 ≤ nWindows) (husable : 0 < media.length / max windowSize 1)
    (hfits : SpacingFits (media.length / max windowSize 1) (max nWindows 1))
    (hdvd : max windowSize 1 ∣ media.length) :
    let read := (sampled media.length (max windowSize 1) (max nWindows 1)).map
      (mediaWindow media (max windowSize 1))
    Covered (max windowSize 1) read 0 ∧ Covered (max windowSize 1) read (media.length - 1) := by
  have hlen : media.length ≠ 0 := fun h0 => by simp [h0] at husable
  have hmem : ∀ k < max nWindows 1, sampleIndex (media.length / max windowSize 1) (max nWindows 1) k
      ∈ sampled media.length (max windowSize 1) (max nWindows 1) := by
    intro k hk
    rw [sampled, if_neg hlen, if_neg husable.ne']
    exact List.mem_map_of_mem (List.mem_range.mpr hk)
  constructor
  · have hfirst := hmem 0 (by omega)
    rw [sampleIndex_eq hfits (by omega), Nat.zero_mul, Nat.zero_div] at hfirst
    refine ⟨_, List.mem_map_of_mem hfirst, ?_⟩
    rw [length_mediaWindow husable]
    show 0 * max windowSize 1 ≤ 0 ∧ 0 < 0 * max windowSize 1 + max windowSize 1
    omega
  · have hlast := hmem (max nWindows 1 - 1) (by omega)
    rw [sampleIndex_last hfits (by omega)] at hlast
    exact (covered_last (by omega) husable fun idx hidx => sampled_lt husable hidx).mpr ⟨hlast, hdvd⟩

theorem says_of_sampledOnce {v : MediaVerification}
    (hcount : v.sampledWindows
      = (sampled media.length (max windowSize 1) (max nWindows 1)).length)
    (hdirty : v.nonzeroWindows = dirtyWindows media (max windowSize 1)
      (sampled media.length (max windowSize 1) (max nWindows 1)))
    (hzero : v.allZero = v.nonzeroWindows.isEmpty)
    (h : SampledOnce media.length windowSize nWindows) :
    SaysWhatItRead media windowSize nWindows
      ((sampled media.length (max windowSize 1) (max nWindows 1)).map
        (mediaWindow media (max windowSize 1))) v := by
  have hnodup : (sampled media.length (max windowSize 1) (max nWindows 1)).Nodup := by
    rcases h with hshort | ⟨hle, hfits, -⟩
    · unfold sampled
      split
      · exact List.nodup_nil
      · exact List.nodup_cons.mpr ⟨List.not_mem_nil, List.nodup_nil⟩
    · exact nodup_sampled hfits hle
  refine ⟨?_, fun idx => by rw [hdirty]; exact mem_dirtyWindows, ?_, ?_, ?_⟩
  · rw [hcount, map_fst_mediaWindow]
    exact length_eq_card_iff.mpr hnodup
  · rw [hdirty]
    exact hnodup.filter _
  · intro hn hnil
    rcases Nat.eq_zero_or_pos (media.length / max windowSize 1) with hshort | husable
    · have hpos : 0 < media.length := List.length_pos_of_ne_nil hnil
      exact ⟨covered_short hnil hshort 0 hpos, covered_short hnil hshort _ (by omega)⟩
    · obtain ⟨-, hfits, hdvd⟩ := h.resolve_left husable.ne'
      exact covered_ends hn husable hfits (hdvd.resolve_left (by omega))
  · intro hall
    rw [hzero, hdirty, dirtyWindows_isEmpty_iff]
    exact all_zero_iff (covers_of_count h hall)

end report

/-- **A sampled read-back**: it returns for every size, and its report says what it has read exactly
if the samples fall on different windows and no byte stands behind the last one. -/
theorem sampling_honest_iff (media : Bytes) (windowSize nWindows : Nat) : ∃ read v,
    sampleMedia sha256 media windowSize nWindows = some (read, v) ∧
      (SaysWhatItRead media windowSize nWindows read v ↔
        SampledOnce media.length windowSize nWindows) := by
  obtain ⟨v, heq, hcount, hdirty, hzero⟩ := sampleMedia_eq sha256 media windowSize nWindows
  refine ⟨_, v, heq, ?_⟩
  constructor
  · exact sampledOnce_of_says rfl hcount
  · exact says_of_sampledOnce hcount hdirty hzero

/-- A medium whose last byte is set, read in two windows of two bytes: the first window is read
twice, counted as two, and the report says that all is zero. -/
theorem tail_not_sampled : ∃ read v,
    sampleMedia id [0, 0, 1] 2 2 = some (read, v) ∧ read = [(0, [0, 0]), (0, [0, 0])] ∧
      v.sampledWindows = 2 ∧ v.allZero = true ∧ windowCount 3 2 ≤ 2 ∧
      ¬ SaysWhatItRead [0, 0, 1] 2 2 read v := by
  refine ⟨[(0, [0, 0]), (0, [0, 0])], _, rfl, rfl, rfl, rfl, by decide, fun h => ?_⟩
  have hcomplete := (h.complete (by decide)).mp rfl 1 (by decide)
  exact absurd hcomplete (by decide)

end sampling

end Cxl

end DiscCleaner
