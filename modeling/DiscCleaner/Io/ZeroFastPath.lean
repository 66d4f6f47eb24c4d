import DiscCleaner.Io.PassContent

/-!
# DiscCleaner — the zero fast path against the plain pass

A zero pass that returns leaves the zeros a buffered pass would leave: where a chunk fails,
the fallback overwrites whatever it left behind. What it reports is another matter. The
fallback is a buffered pass from the window the failed chunk starts in, and its outcome, which
counts from that window, is returned for the whole pass.
-/

namespace DiscCleaner

open ByteLib MediaLib ProgLib

namespace SyncEngine

variable {eng : SyncEngine} {env : CallEnv}

/-! ## What a zero pass leaves -/

/-- `zeroPattern` needs no keystream. -/
theorem zeroPattern_materialized (ks : Keystream) : Materialized ks zeroPattern :=
  .declared (p := .zero) rfl

/-- The outcome and content of a buffered pass of zeros. -/
theorem writePass_zeroPattern {passIndex : UInt8} {span : LbaSpan} {startWindow poll : Nat}
    {trace trace' : Trace} {outcome : PassOutcome}
    (h : eng.writePass env passIndex zeroPattern span startWindow poll trace
      = (.ok outcome, trace')) :
    outcome.windowsWritten = span.totalWindows - startWindow
      ∧ outcome.bytesWritten = span.totalBytes - startWindow * span.windowBytes
      ∧ ∀ m, Overwrites (span.tail startWindow) (fun _ => 0) (applyTrace trace m)
        (applyTrace trace' m) := by
  obtain ⟨hwindows, hbytes, hcontent⟩ :=
    writePass_overwrites (zeroPattern_materialized ⟨fun _ _ n => List.replicate n 0, by simp⟩) h
  exact ⟨hwindows, hbytes, fun m =>
    (hcontent m).congr fun a _ => prescribed_zeroPattern span a⟩

/-- A failed chunk, and a rest that is zeroed from the window the chunk starts in. -/
theorem fallback_overwrites {span : LbaSpan} {startWindow current length : Nat}
    {content : Nat → UInt8} {m before after : Media}
    (hcurrent : startWindow * span.windowBytes ≤ current) (hlt : current < span.totalBytes)
    (hlength : current + length ≤ span.totalBytes)
    (hsofar : Overwrites (Set.Ico (startWindow * span.windowBytes) current) (fun _ => 0) m before)
    (hrest : Overwrites (span.tail (current / span.windowBytes)) (fun _ => 0)
      ((Event.scrambled current length content).apply before) after) :
    Overwrites (Set.Ico (startWindow * span.windowBytes) span.totalBytes) (fun _ => 0) m after := by
  -- The fallback starts at or below `current` and at or above the start window.
  have hstart : startWindow ≤ current / span.windowBytes :=
    (Nat.le_div_iff_mul_le span.windowBytes_pos).mpr hcurrent
  have hlo := Nat.mul_le_mul_right span.windowBytes hstart
  have hhi := Nat.div_mul_le_self current span.windowBytes
  constructor
  · intro a ha
    by_cases hold : a ∈ span.tail (current / span.windowBytes)
    · exact hrest.inside a hold
    · have hbelow : a < current / span.windowBytes * span.windowBytes :=
        Nat.lt_of_not_le fun hle => hold ⟨hle, ha.2⟩
      rw [hrest.outside a hold,
        Event.scrambled_outside _ _ (fun hmem => absurd hmem.1 (by omega))]
      exact hsofar.inside a ⟨ha.1, by omega⟩
  · intro a ha
    have hnot : a ∉ span.tail (current / span.windowBytes) :=
      fun hmem => ha ⟨hlo.trans hmem.1, hmem.2⟩
    rw [hrest.outside a hnot, Event.scrambled_outside _ _
      (fun hmem => ha ⟨hcurrent.trans hmem.1, by have := hmem.2; omega⟩)]
    exact hsofar.outside a fun hmem => ha ⟨hmem.1, hmem.2.trans hlt⟩

/-- **Run lemma**: with the bytes from the start window to `current` zeroed, a loop that
returns has zeroed the rest, fallback or not. Induction on the bytes left. -/
theorem zeroLoop_overwrites {passIndex : UInt8} {span : LbaSpan}
    {startWindow k current zeroed : Nat} {trace trace' : Trace} {outcome : PassOutcome}
    {m : Media} (hcurrent : startWindow * span.windowBytes ≤ current)
    (hsofar : Overwrites (Set.Ico (startWindow * span.windowBytes) current) (fun _ => 0) m
      (applyTrace trace m))
    (h : eng.zeroLoop env passIndex span startWindow k current zeroed trace
      = (.ok outcome, trace')) :
    Overwrites (Set.Ico (startWindow * span.windowBytes) (max current span.totalBytes))
      (fun _ => 0) m (applyTrace trace' m) := by
  induction hleft : span.totalBytes - current using Nat.strong_induction_on
    generalizing k current zeroed trace with
  | _ left ih =>
    have hchunk := maxWriteZeroesBytes_pos
    by_cases hlt : current < span.totalBytes
    · rw [Nat.max_eq_right hlt.le]
      cases hcancel : env.cancelled k with
      | true =>
        rw [zeroLoop_cancelled hlt hcancel] at h
        cases h
      | false =>
        cases hzero : env.zeroout k with
        | failed leftover =>
          rw [zeroLoop_fallback hlt hcancel hzero] at h
          obtain ⟨-, -, hcontent⟩ := writePass_zeroPattern h
          have hrest := hcontent m
          rw [applyTrace_concat] at hrest
          exact fallback_overwrites hcurrent hlt (by omega) hsofar hrest
        | ok =>
          rw [zeroLoop_next hlt hcancel hzero] at h
          have hzeroed := hsofar.union (Event.wrote_overwrites current
            (min (span.totalBytes - current) maxWriteZeroesBytes) (fun _ => 0)
            (applyTrace trace m))
          rw [Set.Ico_union_Ico_eq_Ico hcurrent (by omega), ← applyTrace_concat] at hzeroed
          have hrest := ih (span.totalBytes
            - (current + min (span.totalBytes - current) maxWriteZeroesBytes)) (by omega)
            (by omega) hzeroed h rfl
          rw [Nat.max_eq_right (by omega)] at hrest
          exact hrest
    · rw [zeroLoop, if_neg hlt] at h
      cases h
      rw [Nat.max_eq_left (by omega)]
      exact hsofar

/-! ## What a zero pass reports -/

/-- Chunk `k + j` is the first to fail, and it starts inside the span. -/
def FirstFailure (zeroout : Nat → ZerooutResult) (span : LbaSpan) (k current j : Nat) : Prop :=
  (∀ i < j, zeroout (k + i) = .ok) ∧ (∃ left, zeroout (k + j) = .failed left)
    ∧ current + j * maxWriteZeroesBytes < span.totalBytes

theorem FirstFailure.unique {zeroout : Nat → ZerooutResult} {span : LbaSpan}
    {k current i j : Nat} (hi : FirstFailure zeroout span k current i)
    (hj : FirstFailure zeroout span k current j) : i = j := by
  obtain ⟨hibefore, ⟨ileft, ihere⟩, -⟩ := hi
  obtain ⟨hjbefore, ⟨jleft, jhere⟩, -⟩ := hj
  rcases Nat.lt_trichotomy i j with hlt | heq | hgt
  · exact absurd ((hjbefore i hlt).symm.trans ihere) (by simp)
  · exact heq
  · exact absurd ((hibefore j hgt).symm.trans jhere) (by simp)

/-- A failure behind a zeroed chunk is one chunk nearer for the rest of the loop. -/
theorem firstFailure_succ_iff {zeroout : Nat → ZerooutResult} (span : LbaSpan) {k : Nat}
    (current : Nat) (hzero : zeroout k = .ok) (j : Nat) :
    FirstFailure zeroout span k current (j + 1)
      ↔ FirstFailure zeroout span (k + 1)
        (current + min (span.totalBytes - current) maxWriteZeroesBytes) j := by
  unfold FirstFailure
  rw [show k + 1 + j = k + (j + 1) by omega, Nat.succ_mul]
  have hbefore : (∀ i < j + 1, zeroout (k + i) = .ok) ↔ ∀ i < j, zeroout (k + 1 + i) = .ok := by
    constructor
    · intro hall i hi
      rw [show k + 1 + i = k + (i + 1) by omega]
      exact hall (i + 1) (by omega)
    · intro hall i hi
      cases i with
      | zero => exact hzero
      | succ i =>
        rw [show k + (i + 1) = k + 1 + i by omega]
        exact hall i (by omega)
  rw [hbefore]
  refine and_congr_right fun _ => and_congr_right fun _ => ?_
  have hchunk := maxWriteZeroesBytes_pos
  have hj := Nat.zero_le (j * maxWriteZeroesBytes)
  omega

/-- **Run lemma**: a loop that returns either met no failure and reports what it was asked
for, or reports the windows from the one its first failed chunk starts in. -/
theorem zeroLoop_outcome {passIndex : UInt8} {span : LbaSpan}
    {startWindow k current zeroed : Nat} {trace trace' : Trace} {outcome : PassOutcome}
    (h : eng.zeroLoop env passIndex span startWindow k current zeroed trace
      = (.ok outcome, trace')) :
    ((∀ j, ¬ FirstFailure env.zeroout span k current j)
        ∧ outcome.windowsWritten = span.totalWindows - startWindow
        ∧ outcome.bytesWritten = zeroed + (span.totalBytes - current))
      ∨ ∃ j, FirstFailure env.zeroout span k current j
        ∧ outcome.windowsWritten
          = span.totalWindows - (current + j * maxWriteZeroesBytes) / span.windowBytes
        ∧ outcome.bytesWritten = span.totalBytes
          - (current + j * maxWriteZeroesBytes) / span.windowBytes * span.windowBytes := by
  induction hleft : span.totalBytes - current using Nat.strong_induction_on
    generalizing k current zeroed trace with
  | _ left ih =>
    have hchunk := maxWriteZeroesBytes_pos
    by_cases hlt : current < span.totalBytes
    · cases hcancel : env.cancelled k with
      | true =>
        rw [zeroLoop_cancelled hlt hcancel] at h
        cases h
      | false =>
        cases hzero : env.zeroout k with
        | failed leftover =>
          rw [zeroLoop_fallback hlt hcancel hzero] at h
          obtain ⟨hwindows, hbytes, -⟩ := writePass_zeroPattern h
          refine Or.inr ⟨0, ⟨fun i hi => absurd hi (Nat.not_lt_zero i), ⟨leftover, hzero⟩, ?_⟩, ?_⟩
          · rw [Nat.zero_mul]
            exact hlt
          · rw [Nat.zero_mul]
            exact ⟨hwindows, hbytes⟩
        | ok =>
          have hshift := firstFailure_succ_iff span current hzero
          rw [zeroLoop_next hlt hcancel hzero] at h
          rcases ih (span.totalBytes
            - (current + min (span.totalBytes - current) maxWriteZeroesBytes)) (by omega) h rfl
            with ⟨hnone, hwindows, hbytes⟩ | ⟨j, hfirst, hwindows, hbytes⟩
          · refine Or.inl ⟨fun j hj => ?_, hwindows, by omega⟩
            cases j with
            | zero =>
              obtain ⟨-, ⟨left, hfailed⟩, -⟩ := hj
              exact absurd (hzero.symm.trans hfailed) (by simp)
            | succ j => exact hnone j ((hshift j).mp hj)
          · have hinside := hfirst.2.2
            have hwhole : min (span.totalBytes - current) maxWriteZeroesBytes
                = maxWriteZeroesBytes := by omega
            rw [hwhole, show current + maxWriteZeroesBytes + j * maxWriteZeroesBytes
              = current + (j + 1) * maxWriteZeroesBytes by rw [Nat.succ_mul]; omega]
              at hwindows hbytes
            exact Or.inr ⟨j + 1, (hshift j).mpr hfirst, hwindows, hbytes⟩
    · rw [zeroLoop, if_neg hlt] at h
      cases h
      refine Or.inl ⟨fun j hj => ?_, rfl, ?_⟩
      · have hinside := hj.2.2
        omega
      · show zeroed = zeroed + left
        omega

theorem zeroLoop_total {span : LbaSpan} (h : WritesThrough env span 0)
    (hbuffer : span.windowLen 0 ≤ eng.bufferLen) (passIndex : UInt8)
    (startWindow k current zeroed : Nat) (trace : Trace) :
    ∃ outcome trace', eng.zeroLoop env passIndex span startWindow k current zeroed trace
      = (.ok outcome, trace') := by
  induction hleft : span.totalBytes - current using Nat.strong_induction_on
    generalizing k current zeroed trace with
  | _ left ih =>
    have hchunk := maxWriteZeroesBytes_pos
    by_cases hlt : current < span.totalBytes
    · cases hzero : env.zeroout k with
      | failed leftover =>
        rw [zeroLoop_fallback hlt (h.1 k) hzero]
        exact writePass_total h hbuffer passIndex zeroPattern (k + 1) _ (Nat.zero_le _)
      | ok =>
        rw [zeroLoop_next hlt (h.1 k) hzero]
        exact ih _ (by omega) _ _ _ _ rfl
    · rw [zeroLoop, if_neg hlt]
      exact ⟨_, _, rfl⟩

/-! ## Agreement -/

/-- Whenever the zero pass and a buffered pass of zeros from the same window both return, they
leave the same bytes from that window on, nothing below it has changed, and they report the
same counts. -/
def AgreesWithPlain (eng : SyncEngine) (zeroout : Nat → ZerooutResult) (span : LbaSpan)
    (startWindow : Nat) : Prop :=
  ∀ (env plainEnv : CallEnv) (passIndex : UInt8) (outcome plain : PassOutcome)
    (trace plainTrace : Trace), env.zeroout = zeroout →
    eng.zeroPass env passIndex span startWindow = (.ok outcome, trace) →
    eng.writePass plainEnv passIndex zeroPattern span startWindow 0 [] = (.ok plain, plainTrace) →
    (∀ media,
        (∀ a ∈ span.tail startWindow, applyTrace trace media a = applyTrace plainTrace media a)
          ∧ ∀ a < startWindow * span.windowBytes, applyTrace trace media a = media a)
      ∧ outcome.windowsWritten = plain.windowsWritten
      ∧ outcome.bytesWritten = plain.bytesWritten

/-- The fast path is not used, or there is nothing to zero, or the start offset is a machine
word and the first chunk that fails starts inside the start window. -/
def FailsInStartWindow (eng : SyncEngine) (zeroout : Nat → ZerooutResult) (span : LbaSpan)
    (startWindow : Nat) : Prop :=
  let start := startWindow * span.windowBytes
  eng.supportsWriteZeroes = true → start % 2 ^ 64 < span.totalBytes →
    start < 2 ^ 64 ∧ ∀ j, FirstFailure zeroout span 0 start j →
      j * maxWriteZeroesBytes < span.windowBytes

theorem agreesWithPlain_of_failsInStartWindow {zeroout : Nat → ZerooutResult} {span : LbaSpan}
    {startWindow : Nat} (h : FailsInStartWindow eng zeroout span startWindow) :
    AgreesWithPlain eng zeroout span startWindow := by
  intro env plainEnv passIndex outcome plain trace plainTrace henv hzero hplain
  obtain ⟨hwindows, hbytes, hcontent⟩ := writePass_zeroPattern hplain
  have hbelow : ∀ a < startWindow * span.windowBytes, a ∉ span.tail startWindow :=
    fun a ha hmem => absurd hmem.1 (Nat.not_le.mpr ha)
  unfold zeroPass at hzero
  by_cases hfast : eng.supportsWriteZeroes = true
  · rw [if_pos hfast] at hzero
    by_cases hstart : startWindow * span.windowBytes % 2 ^ 64 < span.totalBytes
    · obtain ⟨hword, hfirst⟩ := h hfast hstart
      rw [Nat.mod_eq_of_lt hword] at hzero hstart
      have hzeros : ∀ m, Overwrites (span.tail startWindow) (fun _ => 0) m (applyTrace trace m) := by
        intro m
        have hrun := zeroLoop_overwrites (m := m) (Nat.le_refl _) (by
          rw [Set.Ico_self]
          exact Overwrites.refl _ _) hzero
        rw [Nat.max_eq_right hstart.le] at hrun
        exact hrun
      refine ⟨fun media => ⟨fun a ha => ?_, fun a ha => ?_⟩, ?_⟩
      · rw [(hzeros media).inside a ha, (hcontent media).inside a ha]
      · exact (hzeros media).outside a (hbelow a ha)
      · rw [hwindows, hbytes]
        rcases zeroLoop_outcome hzero with ⟨-, hw, hb⟩ | ⟨j, hj, hw, hb⟩
        · exact ⟨hw, by omega⟩
        · rw [henv] at hj
          have hsame : (startWindow * span.windowBytes + j * maxWriteZeroesBytes)
              / span.windowBytes = startWindow := by
            rw [Nat.add_comm, Nat.add_mul_div_right _ _ span.windowBytes_pos,
              Nat.div_eq_of_lt (hfirst j hj), Nat.zero_add]
          rw [hsame] at hw hb
          exact ⟨hw, hb⟩
    · -- The wrapped offset is at most the real one, so the tail is empty.
      have hwrap := Nat.mod_le (startWindow * span.windowBytes) (2 ^ 64)
      rw [zeroLoop, if_neg hstart] at hzero
      cases hzero
      refine ⟨fun media => ⟨fun a ha => ?_, fun a _ => rfl⟩, hwindows.symm, ?_⟩
      · have hlo := ha.1
        have hhi := ha.2
        omega
      · show 0 = plain.bytesWritten
        omega
  · rw [if_neg hfast] at hzero
    obtain ⟨hw, hb, hzeros⟩ := writePass_zeroPattern hzero
    refine ⟨fun media => ⟨fun a ha => ?_, fun a ha => ?_⟩, hw.trans hwindows.symm,
      hb.trans hbytes.symm⟩
    · rw [(hzeros media).inside a ha, (hcontent media).inside a ha]
    · exact (hzeros media).outside a (hbelow a ha)

/-- An environment that lets every transfer through. -/
def openEnv (zeroout : Nat → ZerooutResult) (span : LbaSpan) : CallEnv where
  cancelled _ := false
  pwrite _ := [.done span.windowBytes]
  pread _ := []
  zeroout := zeroout
  fsync := none
  durationMs := 0

theorem openEnv_writesThrough (zeroout : Nat → ZerooutResult) (span : LbaSpan) :
    WritesThrough (openEnv zeroout span) span 0 := by
  refine ⟨fun _ => rfl, fun w _ _ => ?_⟩
  have hlen := span.windowLen_le w
  exact (Transfers.of_eq_zero (by omega) []).done span.windowBytes_pos

theorem failsInStartWindow_of_agreesWithPlain {zeroout : Nat → ZerooutResult} {span : LbaSpan}
    {startWindow : Nat} (hbuffer : span.windowLen 0 ≤ eng.bufferLen)
    (h : AgreesWithPlain eng zeroout span startWindow) :
    FailsInStartWindow eng zeroout span startWindow := by
  intro hfast hstart
  have hthrough := openEnv_writesThrough zeroout span
  obtain ⟨plain, plainTrace, hplain⟩ :=
    writePass_total hthrough hbuffer 0 zeroPattern 0 [] (Nat.zero_le startWindow)
  obtain ⟨outcome, trace, hzero⟩ :=
    zeroLoop_total hthrough hbuffer 0 startWindow 0 (startWindow * span.windowBytes % 2 ^ 64) 0 []
  obtain ⟨-, hwindows, hbytes⟩ :=
    h (openEnv zeroout span) (openEnv zeroout span) 0 outcome plain trace plainTrace rfl
      (by rw [zeroPass, if_pos hfast]; exact hzero) hplain
  obtain ⟨hplainWindows, hplainBytes, -⟩ := writePass_zeroPattern hplain
  have htotal := span.totalBytes_lt
  rcases zeroLoop_outcome hzero with ⟨hnone, -, hb⟩ | ⟨j, hj, hw, -⟩
  · -- Without a failure the bytes agree only if the offset did not wrap.
    have hword : startWindow * span.windowBytes < 2 ^ 64 := by omega
    rw [Nat.mod_eq_of_lt hword] at hnone
    exact ⟨hword, fun j hj => absurd hj (hnone j)⟩
  · -- With one, the windows agree only if the fallback starts at the start window.
    have hinside := hj.2.2
    generalize hoffset : startWindow * span.windowBytes % 2 ^ 64 + j * maxWriteZeroesBytes = offset
      at hw hinside
    have hdiv := Nat.div_mul_le_self offset span.windowBytes
    have hexists : offset / span.windowBytes < span.totalWindows :=
      span.lt_totalWindows_iff.mpr (hdiv.trans_lt hinside)
    have hsame : startWindow = offset / span.windowBytes := by omega
    have hspread := Nat.lt_div_mul_add (a := offset) span.windowBytes_pos
    rw [← hsame] at hdiv hspread
    have hword : startWindow * span.windowBytes < 2 ^ 64 := by omega
    rw [Nat.mod_eq_of_lt hword] at hoffset hj
    refine ⟨hword, fun i hi => ?_⟩
    rw [hi.unique hj]
    omega

/-- **The fast path, exactly**: with a buffer for the span's windows, a zero pass agrees with
the plain pass if and only if no chunk behind the start window is the first to fail and the
start offset does not wrap into the span. -/
theorem zero_fast_path_agrees_iff (eng : SyncEngine) (zeroout : Nat → ZerooutResult)
    (span : LbaSpan) (startWindow : Nat) (hbuffer : span.windowLen 0 ≤ eng.bufferLen) :
    AgreesWithPlain eng zeroout span startWindow
      ↔ FailsInStartWindow eng zeroout span startWindow :=
  ⟨failsInStartWindow_of_agreesWithPlain hbuffer, agreesWithPlain_of_failsInStartWindow⟩

/-! ### A second chunk that fails

Two chunks of 2 GiB in windows of 2 MiB; the kernel zeroes the first and refuses the second. -/

def twoChunkSpan : LbaSpan := LbaSpan.new (2 * maxWriteZeroesBytes) 512 (2 * 1024 * 1024)

theorem maxWriteZeroesBytes_eq : maxWriteZeroesBytes = 2147483648 := by
  rw [maxWriteZeroesBytes]

theorem twoChunkSpan_totalBytes : twoChunkSpan.totalBytes = 4294967296 := by
  rw [twoChunkSpan, LbaSpan.new, maxWriteZeroesBytes_eq]
  norm_num

theorem twoChunkSpan_windowBytes : twoChunkSpan.windowBytes = 2097152 := by
  rw [twoChunkSpan, LbaSpan.new]
  norm_num

theorem twoChunkSpan_totalWindows : twoChunkSpan.totalWindows = 2048 := by
  rw [LbaSpan.totalWindows, twoChunkSpan_totalBytes, twoChunkSpan_windowBytes]

def fastEngine : SyncEngine := ⟨2097152, true⟩

theorem twoChunkSpan_fits : twoChunkSpan.windowLen 0 ≤ fastEngine.bufferLen :=
  (twoChunkSpan.windowLen_le 0).trans (Nat.le_of_eq twoChunkSpan_windowBytes)

def refuseSecond (k : Nat) : ZerooutResult := if k = 0 then .ok else .failed fun _ => 0xFF

theorem refuseSecond_firstFailure : FirstFailure refuseSecond twoChunkSpan 0 0 1 := by
  refine ⟨fun i hi => ?_, ⟨fun _ => 0xFF, rfl⟩, ?_⟩
  · rw [Nat.lt_one_iff.mp hi]
    rfl
  · rw [maxWriteZeroesBytes_eq, twoChunkSpan_totalBytes]
    omega

/-- **Half the device in the report**: the zero pass returns after the whole device is zeroed
and reports 1024 windows, where the plain pass reports 2048. -/
theorem fallback_reports_rest :
    (∃ outcome trace, fastEngine.zeroPass (openEnv refuseSecond twoChunkSpan) 0 twoChunkSpan 0
          = (.ok outcome, trace)
        ∧ outcome.windowsWritten = 1024 ∧ outcome.bytesWritten = 2147483648)
      ∧ (∃ plain plainTrace, fastEngine.writePass (openEnv refuseSecond twoChunkSpan) 0
            zeroPattern twoChunkSpan 0 0 [] = (.ok plain, plainTrace)
        ∧ plain.windowsWritten = 2048 ∧ plain.bytesWritten = 4294967296)
      ∧ ¬ AgreesWithPlain fastEngine refuseSecond twoChunkSpan 0 := by
  have hthrough := openEnv_writesThrough refuseSecond twoChunkSpan
  refine ⟨?_, ?_, fun hagrees => ?_⟩
  · obtain ⟨outcome, trace, hzero⟩ := zeroLoop_total hthrough twoChunkSpan_fits 0 0 0 0 0 []
    refine ⟨outcome, trace, ?_, ?_⟩
    · rw [zeroPass, if_pos (show fastEngine.supportsWriteZeroes = true from rfl), Nat.zero_mul,
        Nat.zero_mod]
      exact hzero
    · rcases zeroLoop_outcome hzero with ⟨hnone, -⟩ | ⟨j, hj, hwindows, hbytes⟩
      · exact absurd refuseSecond_firstFailure (hnone 1)
      · rw [hj.unique refuseSecond_firstFailure, maxWriteZeroesBytes_eq,
          twoChunkSpan_windowBytes] at hwindows hbytes
        rw [twoChunkSpan_totalWindows] at hwindows
        rw [twoChunkSpan_totalBytes] at hbytes
        omega
  · obtain ⟨plain, plainTrace, hplain⟩ :=
      writePass_total hthrough twoChunkSpan_fits 0 zeroPattern 0 [] (Nat.le_refl 0)
    obtain ⟨hwindows, hbytes, -⟩ := writePass_zeroPattern hplain
    rw [twoChunkSpan_totalWindows] at hwindows
    rw [twoChunkSpan_totalBytes, Nat.zero_mul] at hbytes
    exact ⟨plain, plainTrace, hplain, hwindows, hbytes⟩
  · obtain ⟨-, hfirst⟩ := failsInStartWindow_of_agreesWithPlain twoChunkSpan_fits hagrees rfl
      (by rw [Nat.zero_mul, Nat.zero_mod, twoChunkSpan_totalBytes]; omega)
    rw [Nat.zero_mul] at hfirst
    have hsmall := hfirst 1 refuseSecond_firstFailure
    rw [maxWriteZeroesBytes_eq, twoChunkSpan_windowBytes] at hsmall
    omega

/-- The same device, zeroed without a refusal: both passes agree. -/
theorem zero_fast_path_agrees_sample :
    twoChunkSpan.windowLen 0 ≤ fastEngine.bufferLen
      ∧ AgreesWithPlain fastEngine (fun _ => .ok) twoChunkSpan 0 := by
  refine ⟨twoChunkSpan_fits, (zero_fast_path_agrees_iff fastEngine (fun _ => .ok) twoChunkSpan 0
    twoChunkSpan_fits).mpr fun _ _ => ⟨?_, fun j hj => ?_⟩⟩
  · rw [Nat.zero_mul]
    exact Nat.two_pow_pos 64
  · obtain ⟨-, ⟨left, hfailed⟩, -⟩ := hj
    cases hfailed

end SyncEngine

end DiscCleaner
