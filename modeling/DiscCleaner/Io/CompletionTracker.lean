import Mathlib.Data.Finset.Card
import Mathlib.Order.Bounds.Defs

/-!
# DiscCleaner — the completion tracker (`tracker.rs`)

Completions arrive in any order; the tracker keeps the contiguous watermark, the completions
ahead of it, and how far it has committed. Window indices are machine words. While some window
from the start on is still missing, the committed ranges tile the windows from the start and
hold only harvested windows, and a full commit moves the watermark to the first missing
window. Once no window is missing, the contiguous watermark has wrapped.
-/

namespace DiscCleaner

structure RangeCommitSpec where
  firstWindow : UInt64
  numWindows : UInt64
  deriving DecidableEq

structure CompletionTracker where
  committed : UInt64
  contiguous : UInt64
  harvestedHoles : Finset UInt64

namespace CompletionTracker

def new (startWindow : UInt64) : CompletionTracker := ⟨startWindow, startWindow, ∅⟩

/-- The `while` loop of `on_cqe`: each turn takes a hole out of the set. -/
def advance (t : CompletionTracker) : CompletionTracker :=
  if t.contiguous ∈ t.harvestedHoles then
    advance ⟨t.committed, t.contiguous + 1, t.harvestedHoles.erase t.contiguous⟩
  else t
termination_by t.harvestedHoles.card
decreasing_by exact Finset.card_erase_lt_of_mem (by assumption)

def onCqe (t : CompletionTracker) (window : UInt64) : CompletionTracker :=
  if window < t.contiguous then t
  else advance { t with harvestedHoles := insert window t.harvestedHoles }

def canCommit (t : CompletionTracker) : Bool := t.committed < t.contiguous

def commit (t : CompletionTracker) (upto : UInt64) :
    Option RangeCommitSpec × CompletionTracker :=
  let target := if upto ≤ t.contiguous then upto else t.contiguous
  if t.committed < target then
    (some ⟨t.committed, target - t.committed⟩, { t with committed := target })
  else (none, t)

def commitAllContiguous (t : CompletionTracker) : Option RangeCommitSpec × CompletionTracker :=
  t.commit t.contiguous

end CompletionTracker

/-! ## Runs -/

inductive TrackerOp where
  | onCqe (window : UInt64)
  | commit (upto : UInt64)
  | commitAllContiguous

/-- What an operation emits, and the tracker behind it. -/
def CompletionTracker.perform (t : CompletionTracker) :
    TrackerOp → Option RangeCommitSpec × CompletionTracker
  | .onCqe window => (none, t.onCqe window)
  | .commit upto => t.commit upto
  | .commitAllContiguous => t.commitAllContiguous

/-- A tracker with the specs it has emitted, in order. -/
structure TrackerRun where
  tracker : CompletionTracker
  emitted : List RangeCommitSpec

namespace TrackerRun

def step (r : TrackerRun) (op : TrackerOp) : TrackerRun :=
  ⟨(r.tracker.perform op).2, r.emitted ++ (r.tracker.perform op).1.toList⟩

def of (startWindow : UInt64) (ops : List TrackerOp) : TrackerRun :=
  ops.foldl step ⟨.new startWindow, []⟩

theorem of_concat (startWindow : UInt64) (ops : List TrackerOp) (op : TrackerOp) :
    of startWindow (ops ++ [op]) = (of startWindow ops).step op := by
  rw [of, List.foldl_append]
  rfl

end TrackerRun

/-- The windows whose completion was harvested. -/
def harvested (ops : List TrackerOp) : List UInt64 :=
  ops.filterMap fun
    | .onCqe window => some window
    | _ => none

/-! ## Ranges in a row -/

/-- Non-empty ranges, each starting where the one before it ends, from `first` to `last`. -/
def Tiles (first : Nat) : List RangeCommitSpec → Nat → Prop
  | [], last => first = last
  | spec :: specs, last =>
    spec.firstWindow.toNat = first ∧ 0 < spec.numWindows.toNat
      ∧ Tiles (first + spec.numWindows.toNat) specs last

namespace Tiles

theorem concat {first mid : Nat} {specs : List RangeCommitSpec} (h : Tiles first specs mid)
    {spec : RangeCommitSpec} (hfirst : spec.firstWindow.toNat = mid)
    (hpos : 0 < spec.numWindows.toNat) :
    Tiles first (specs ++ [spec]) (mid + spec.numWindows.toNat) := by
  induction specs generalizing first with
  | nil =>
    obtain rfl : first = mid := h
    exact ⟨hfirst, hpos, rfl⟩
  | cons s specs ih =>
    obtain ⟨hs, hspos, hrest⟩ := h
    exact ⟨hs, hspos, ih hrest⟩

theorem first_le {first last : Nat} {specs : List RangeCommitSpec} (h : Tiles first specs last) :
    ∀ spec ∈ specs, first ≤ spec.firstWindow.toNat := by
  induction specs generalizing first with
  | nil => simp
  | cons s specs ih =>
    obtain ⟨hs, hspos, hrest⟩ := h
    intro spec hspec
    rcases List.mem_cons.mp hspec with rfl | hmem
    · omega
    · have := ih hrest spec hmem
      omega

/-- Ranges in a row are disjoint, each behind the ones before it. -/
theorem pairwise {first last : Nat} {specs : List RangeCommitSpec} (h : Tiles first specs last) :
    specs.Pairwise fun s t =>
      s.firstWindow.toNat + s.numWindows.toNat ≤ t.firstWindow.toNat := by
  induction specs generalizing first with
  | nil => exact List.Pairwise.nil
  | cons s specs ih =>
    obtain ⟨hs, hspos, hrest⟩ := h
    refine List.Pairwise.cons (fun t ht => ?_) (ih hrest)
    rw [hs]
    exact hrest.first_le t ht

end Tiles

/-! ## The invariant -/

/-- A window from `start` on that has not been harvested. -/
def Missing (start : UInt64) (seen : List UInt64) (w : UInt64) : Prop :=
  start.toNat ≤ w.toNat ∧ w ∉ seen

/-- **What relates the hole set and the two watermarks**: everything from the start to the
contiguous watermark was harvested, the committed watermark lies between, and the harvested
windows from the contiguous watermark on are exactly the holes. -/
structure TrackerInv (start : UInt64) (seen : List UInt64) (t : CompletionTracker) : Prop where
  start_le : start.toNat ≤ t.committed.toNat
  committed_le : t.committed.toNat ≤ t.contiguous.toNat
  below : ∀ w : UInt64, start.toNat ≤ w.toNat → w.toNat < t.contiguous.toNat → w ∈ seen
  hole_seen : ∀ w ∈ t.harvestedHoles, w ∈ seen
  seen_hole : ∀ w ∈ seen, t.contiguous.toNat ≤ w.toNat → w ∈ t.harvestedHoles

namespace TrackerInv

variable {start : UInt64} {seen : List UInt64} {t : CompletionTracker}

theorem new (start : UInt64) : TrackerInv start [] (.new start) where
  start_le := Nat.le_refl _
  committed_le := Nat.le_refl _
  below _ hlo hhi := absurd hlo (Nat.not_le.mpr hhi)
  hole_seen _ hw := absurd hw (Finset.notMem_empty _)
  seen_hole _ hw := absurd hw List.not_mem_nil

/-- With a window missing, a harvested contiguous watermark can move on without wrapping. -/
theorem contiguous_lt (h : TrackerInv start seen t) {w : UInt64} (hw : Missing start seen w)
    (hhole : t.contiguous ∈ t.harvestedHoles) : t.contiguous.toNat < w.toNat := by
  rcases Nat.lt_trichotomy t.contiguous.toNat w.toNat with hlt | heq | hgt
  · exact hlt
  · exact absurd (UInt64.toNat_inj.mp heq ▸ h.hole_seen _ hhole) hw.2
  · exact absurd (h.below w hw.1 hgt) hw.2

/-- **Step lemma for the loop**: it keeps the invariant and ends at the first window that is
not harvested. Induction on the holes left. -/
theorem advance (h : TrackerInv start seen t) {w : UInt64} (hw : Missing start seen w) :
    TrackerInv start seen t.advance ∧ t.advance.committed = t.committed
      ∧ t.advance.contiguous ∉ seen := by
  induction hcard : t.harvestedHoles.card using Nat.strong_induction_on generalizing t with
  | _ n ih =>
    rw [CompletionTracker.advance]
    by_cases hhole : t.contiguous ∈ t.harvestedHoles
    · rw [if_pos hhole]
      have hlt := h.contiguous_lt hw hhole
      have hbound := w.toNat_lt
      have hnext : (t.contiguous + 1).toNat = t.contiguous.toNat + 1 := by
        rw [UInt64.toNat_add, show (1 : UInt64).toNat = 1 from rfl]
        omega
      refine ih _ (hcard ▸ Finset.card_erase_lt_of_mem hhole) ?_ rfl
      constructor
      · exact h.start_le
      · show t.committed.toNat ≤ (t.contiguous + 1).toNat
        have := h.committed_le
        omega
      · intro v hlo hhi
        rw [hnext] at hhi
        by_cases hv : v.toNat < t.contiguous.toNat
        · exact h.below v hlo hv
        · have heq : v = t.contiguous := UInt64.toNat_inj.mp (by omega)
          rw [heq]
          exact h.hole_seen _ hhole
      · intro v hv
        exact h.hole_seen v (Finset.mem_of_mem_erase hv)
      · intro v hv hle
        rw [hnext] at hle
        have hne : v ≠ t.contiguous := fun heq => by
          rw [heq] at hle
          omega
        exact Finset.mem_erase.mpr ⟨hne, h.seen_hole v hv (by omega)⟩
    · rw [if_neg hhole]
      exact ⟨h, rfl, fun hseen => hhole (h.seen_hole _ hseen (Nat.le_refl _))⟩

/-- **Step lemma**: a harvested completion. -/
theorem onCqe (h : TrackerInv start seen t) (hclear : t.contiguous ∉ seen) {window w : UInt64}
    (hw : Missing start (seen ++ [window]) w) :
    TrackerInv start (seen ++ [window]) (t.onCqe window)
      ∧ (t.onCqe window).committed = t.committed
      ∧ (t.onCqe window).contiguous ∉ seen ++ [window] := by
  unfold CompletionTracker.onCqe
  by_cases hbelow : window < t.contiguous
  · rw [if_pos hbelow]
    rw [UInt64.lt_iff_toNat_lt] at hbelow
    refine ⟨⟨h.start_le, h.committed_le, ?_, ?_, ?_⟩, rfl, ?_⟩
    · intro v hlo hhi
      exact List.mem_append_left _ (h.below v hlo hhi)
    · intro v hv
      exact List.mem_append_left _ (h.hole_seen v hv)
    · intro v hv hle
      rcases List.mem_append.mp hv with hold | hnew
      · exact h.seen_hole v hold hle
      · rw [List.mem_singleton.mp hnew] at hle
        omega
    · rw [List.mem_append, List.mem_singleton, not_or]
      refine ⟨hclear, fun heq => ?_⟩
      rw [heq] at hbelow
      omega
  · rw [if_neg hbelow]
    have hinserted : TrackerInv start (seen ++ [window])
        { t with harvestedHoles := insert window t.harvestedHoles } := by
      refine ⟨h.start_le, h.committed_le, ?_, ?_, ?_⟩
      · intro v hlo hhi
        exact List.mem_append_left _ (h.below v hlo hhi)
      · intro v hv
        rcases Finset.mem_insert.mp hv with rfl | hold
        · exact List.mem_append_right _ (List.mem_singleton_self _)
        · exact List.mem_append_left _ (h.hole_seen v hold)
      · intro v hv hle
        rcases List.mem_append.mp hv with hold | hnew
        · exact Finset.mem_insert_of_mem (h.seen_hole v hold hle)
        · rw [List.mem_singleton.mp hnew]
          exact Finset.mem_insert_self _ _
    exact hinserted.advance hw

/-- **Step lemma**: a commit emits the windows between the old and the new watermark, all of
them below the contiguous one. -/
theorem commit (h : TrackerInv start seen t) (upto : UInt64) :
    TrackerInv start seen (t.commit upto).2
      ∧ (t.commit upto).2.contiguous = t.contiguous
      ∧ match (t.commit upto).1 with
        | none => (t.commit upto).2 = t
        | some spec => spec.firstWindow = t.committed ∧ 0 < spec.numWindows.toNat
          ∧ spec.firstWindow.toNat + spec.numWindows.toNat
            = (t.commit upto).2.committed.toNat := by
  unfold CompletionTracker.commit
  dsimp only
  generalize htarget : (if upto ≤ t.contiguous then upto else t.contiguous) = target
  have hle : target.toNat ≤ t.contiguous.toNat := by
    rw [← htarget]
    split
    · next hupto => exact UInt64.le_iff_toNat_le.mp hupto
    · exact Nat.le_refl _
  by_cases hlt : t.committed < target
  · rw [if_pos hlt]
    rw [UInt64.lt_iff_toNat_lt] at hlt
    have hnum : (target - t.committed).toNat = target.toNat - t.committed.toNat :=
      UInt64.toNat_sub_of_le _ _ (UInt64.le_iff_toNat_le.mpr hlt.le)
    refine ⟨⟨h.start_le.trans hlt.le, hle, h.below, h.hole_seen, h.seen_hole⟩, rfl, rfl, ?_, ?_⟩
    · show 0 < (target - t.committed).toNat
      omega
    · show t.committed.toNat + (target - t.committed).toNat = target.toNat
      omega
  · rw [if_neg hlt]
    exact ⟨h, rfl, rfl⟩

/-- A full commit brings the committed watermark up to the contiguous one. -/
theorem commitAll_committed (h : TrackerInv start seen t) :
    t.commitAllContiguous.2.committed = t.contiguous := by
  have hle := h.committed_le
  rw [CompletionTracker.commitAllContiguous, CompletionTracker.commit, if_pos (UInt64.le_iff_toNat_le.mpr (Nat.le_refl _))]
  by_cases hlt : t.committed < t.contiguous
  · rw [if_pos hlt]
  · rw [if_neg hlt]
    rw [UInt64.lt_iff_toNat_lt] at hlt
    show t.committed = t.contiguous
    exact UInt64.toNat_inj.mp (by omega)

end TrackerInv

/-! ## Whole runs -/

theorem harvested_concat (ops : List TrackerOp) (op : TrackerOp) :
    harvested (ops ++ [op]) = harvested ops ++ harvested [op] := by
  rw [harvested, List.filterMap_append]
  rfl

theorem Missing.of_append {start : UInt64} {seen more : List UInt64} {w : UInt64}
    (h : Missing start (seen ++ more) w) : Missing start seen w :=
  ⟨h.1, fun hseen => h.2 (List.mem_append_left _ hseen)⟩

/-- What holds in every state of a run: the invariant, the contiguous watermark at a window
that is not harvested, and the emitted ranges in a row up to the committed watermark. -/
structure RunInv (start : UInt64) (ops : List TrackerOp) : Prop where
  inv : TrackerInv start (harvested ops) (TrackerRun.of start ops).tracker
  clear : (TrackerRun.of start ops).tracker.contiguous ∉ harvested ops
  tiles : Tiles start.toNat (TrackerRun.of start ops).emitted
    (TrackerRun.of start ops).tracker.committed.toNat

theorem RunInv.commit {start : UInt64} {ops : List TrackerOp} {op : TrackerOp} {upto : UInt64}
    (h : RunInv start ops) (hop : (TrackerRun.of start ops).tracker.perform op
      = (TrackerRun.of start ops).tracker.commit upto) (hseen : harvested [op] = []) :
    RunInv start (ops ++ [op]) := by
  obtain ⟨hinv, hclear, htiles⟩ := h
  obtain ⟨hnext, hsame, hspec⟩ := hinv.commit upto
  constructor
  · rw [harvested_concat, hseen, List.append_nil, TrackerRun.of_concat, TrackerRun.step, hop]
    exact hnext
  · rw [harvested_concat, hseen, List.append_nil, TrackerRun.of_concat, TrackerRun.step, hop]
    exact hsame ▸ hclear
  · rw [TrackerRun.of_concat, TrackerRun.step, hop]
    cases hemit : ((TrackerRun.of start ops).tracker.commit upto).1 with
    | none =>
      rw [hemit] at hspec
      simp only [Option.toList_none, List.append_nil]
      rw [hspec]
      exact htiles
    | some spec =>
      rw [hemit] at hspec
      obtain ⟨hfirst, hpos, hend⟩ := hspec
      simp only [Option.toList_some]
      rw [← hend, hfirst]
      exact htiles.concat (by rw [hfirst]) hpos

/-- **Run lemma**: a run keeps it while a window is missing. -/
theorem runInv {start : UInt64} {ops : List TrackerOp} {w : UInt64}
    (hw : Missing start (harvested ops) w) : RunInv start ops := by
  induction ops using List.reverseRecOn with
  | nil => exact ⟨TrackerInv.new start, List.not_mem_nil, rfl⟩
  | append_singleton ops op ih =>
    have hbefore := ih (harvested_concat ops op ▸ hw).of_append
    cases op with
    | onCqe window =>
      rw [harvested_concat] at hw
      obtain ⟨hinv, hsame, hclear⟩ := hbefore.inv.onCqe hbefore.clear hw
      constructor
      · rw [harvested_concat, TrackerRun.of_concat]
        exact hinv
      · rw [harvested_concat, TrackerRun.of_concat]
        exact hclear
      · rw [TrackerRun.of_concat, TrackerRun.step]
        show Tiles _ (_ ++ []) (CompletionTracker.onCqe _ window).committed.toNat
        rw [List.append_nil, hsame]
        exact hbefore.tiles
    | commit upto => exact hbefore.commit rfl rfl
    | commitAllContiguous => exact hbefore.commit rfl rfl

/-! ## Commits and holes -/

/-- The least window from the start on that has not been harvested. -/
def FirstMissing (start : UInt64) (seen : List UInt64) (w : UInt64) : Prop :=
  Missing start seen w ∧ ∀ v, Missing start seen v → w.toNat ≤ v.toNat

/-- In every state of the run: the emitted ranges follow one another from the start, disjoint,
up to the committed watermark; whatever the next operation emits holds only windows that are
harvested already; and a full commit moves the committed watermark to the first missing
window. -/
def NeverAcrossHole (start : UInt64) (ops : List TrackerOp) : Prop :=
  ∀ before after, ops = before ++ after →
    let r := TrackerRun.of start before
    Tiles start.toNat r.emitted r.tracker.committed.toNat
      ∧ (r.emitted.Pairwise fun s t =>
          s.firstWindow.toNat + s.numWindows.toNat ≤ t.firstWindow.toNat)
      ∧ (∀ op spec, (r.tracker.perform op).1 = some spec → ∀ w : UInt64,
          spec.firstWindow.toNat ≤ w.toNat →
          w.toNat < spec.firstWindow.toNat + spec.numWindows.toNat → w ∈ harvested before)
      ∧ FirstMissing start (harvested before) r.tracker.commitAllContiguous.2.committed

/-- A commit emits harvested windows only. -/
theorem TrackerInv.commit_covers {start : UInt64} {seen : List UInt64} {t : CompletionTracker}
    (h : TrackerInv start seen t) {upto : UInt64} {spec : RangeCommitSpec}
    (hspec : (t.commit upto).1 = some spec) {w : UInt64}
    (hlo : spec.firstWindow.toNat ≤ w.toNat)
    (hhi : w.toNat < spec.firstWindow.toNat + spec.numWindows.toNat) : w ∈ seen := by
  obtain ⟨hinv, hsame, hemit⟩ := h.commit upto
  rw [hspec] at hemit
  obtain ⟨hfirst, -, hend⟩ := hemit
  have hstart := h.start_le
  have hcommitted := hinv.committed_le
  rw [hsame] at hcommitted
  rw [hfirst] at hlo
  exact h.below w (by omega) (by omega)

/-- A run that keeps its promises has a window missing. -/
theorem NeverAcrossHole.exists_missing {start : UInt64} {ops : List TrackerOp}
    (h : NeverAcrossHole start ops) : ∃ w, Missing start (harvested ops) w := by
  obtain ⟨-, -, -, hfirst⟩ := h ops [] (List.append_nil ops).symm
  exact ⟨_, hfirst.1⟩

/-- **Never across a hole, exactly**: a run keeps its promises in every state if and only if
some window from the start on is never harvested. -/
theorem never_across_hole_iff (start : UInt64) (ops : List TrackerOp) :
    NeverAcrossHole start ops ↔ ∃ w, Missing start (harvested ops) w := by
  refine ⟨NeverAcrossHole.exists_missing, ?_⟩
  · rintro ⟨w, hw⟩ before after rfl
    have hbefore : Missing start (harvested before) w := by
      rw [harvested, List.filterMap_append] at hw
      exact hw.of_append
    have h := runInv hbefore
    refine ⟨h.tiles, h.tiles.pairwise, ?_, ?_⟩
    · intro op spec hspec v hlo hhi
      cases op with
      | onCqe window => cases hspec
      | commit upto => exact h.inv.commit_covers hspec hlo hhi
      | commitAllContiguous => exact h.inv.commit_covers hspec hlo hhi
    · rw [h.inv.commitAll_committed]
      refine ⟨⟨h.inv.start_le.trans h.inv.committed_le, h.clear⟩, fun v hv => ?_⟩
      by_contra hlt
      exact hv.2 (h.inv.below v hv.1 (by omega))

/-! ### The last window

A tracker that starts at the largest window index. -/

/-- **The last window is never committed**: its completion wraps the contiguous watermark to 0,
and a full commit leaves the committed watermark on the harvested window. -/
theorem last_window_not_committed :
    let r := TrackerRun.of 0xFFFFFFFFFFFFFFFF [.onCqe 0xFFFFFFFFFFFFFFFF]
    r.tracker.contiguous = 0 ∧ r.tracker.commitAllContiguous.1 = none
      ∧ r.tracker.commitAllContiguous.2.committed = 0xFFFFFFFFFFFFFFFF
      ∧ ¬ NeverAcrossHole 0xFFFFFFFFFFFFFFFF [.onCqe 0xFFFFFFFFFFFFFFFF] := by
  have htracker : (TrackerRun.of 0xFFFFFFFFFFFFFFFF [.onCqe 0xFFFFFFFFFFFFFFFF]).tracker
      = ⟨0xFFFFFFFFFFFFFFFF, 0, ∅⟩ := by
    show CompletionTracker.onCqe ⟨0xFFFFFFFFFFFFFFFF, 0xFFFFFFFFFFFFFFFF, ∅⟩ 0xFFFFFFFFFFFFFFFF = _
    rw [CompletionTracker.onCqe, if_neg (by decide), CompletionTracker.advance, if_pos (by simp),
      CompletionTracker.advance, if_neg (by decide)]
    rfl
  dsimp only
  rw [htracker]
  refine ⟨rfl, by decide, by decide, fun hkept => ?_⟩
  obtain ⟨w, hlo, hmissing⟩ := hkept.exists_missing
  apply hmissing
  have hbound := w.toNat_lt
  have hmax : (0xFFFFFFFFFFFFFFFF : UInt64).toNat = 2 ^ 64 - 1 := by decide
  have hlast : w = 0xFFFFFFFFFFFFFFFF := UInt64.toNat_inj.mp (by omega)
  rw [hlast]
  exact List.mem_singleton_self _

end DiscCleaner
