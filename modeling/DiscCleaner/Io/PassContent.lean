import DiscCleaner.Io.DrainPoint

/-!
# DiscCleaner — what a pass leaves on the medium

A buffered pass that returns has overwritten the span from its start window to the end with
the bytes its source prescribes, and nothing else. A read-back of such a medium shows the
sink every sampled window once, in order, and calls it valid exactly when each of its bytes is
the prescribed one. Short transfers and interrupted calls leave no mark on either.
-/

namespace DiscCleaner

open ByteLib MediaLib ProgLib

/-! ## Windows and their bytes -/

namespace LbaSpan

variable (span : LbaSpan)

/-- The length of window `w`: a full window, or what is left of the span. -/
def windowLen (w : Nat) : Nat := min (span.totalBytes - w * span.windowBytes) span.windowBytes

theorem windowLen_le (w : Nat) : span.windowLen w ≤ span.windowBytes := Nat.min_le_right _ _

/-- No window is longer than the first. -/
theorem windowLen_le_first (w : Nat) : span.windowLen w ≤ span.windowLen 0 := by
  unfold windowLen
  omega

/-- The addresses of window `w`. -/
def window (w : Nat) : Set Nat :=
  Set.Ico (w * span.windowBytes) (w * span.windowBytes + span.windowLen w)

/-- The addresses from window `w` to the end of the span. -/
def tail (w : Nat) : Set Nat := Set.Ico (w * span.windowBytes) span.totalBytes

variable {span}

/-- Inside a window, the window index and the position in it are those of the address. -/
theorem div_mod_of_mem_window {w a : Nat} (h : a ∈ span.window w) :
    a / span.windowBytes = w ∧ a % span.windowBytes = a - w * span.windowBytes := by
  obtain ⟨hlo, hhi⟩ := h
  have hlen := span.windowLen_le w
  have hdiv : a / span.windowBytes = w := by
    rw [Nat.div_eq_iff span.windowBytes_pos]
    have := span.windowBytes_pos
    omega
  refine ⟨hdiv, ?_⟩
  rw [Nat.mod_eq_sub_div_mul, hdiv]

/-- An address of the span lies in the window its quotient names. -/
theorem mem_window_iff {w a : Nat} :
    a ∈ span.window w ↔ a < span.totalBytes ∧ a / span.windowBytes = w := by
  constructor
  · intro h
    refine ⟨?_, (div_mod_of_mem_window h).1⟩
    obtain ⟨hlo, hhi⟩ := h
    rw [windowLen] at hhi
    omega
  · rintro ⟨htotal, hdiv⟩
    have hlo : w * span.windowBytes ≤ a := hdiv ▸ Nat.div_mul_le_self a span.windowBytes
    have hhi := Nat.lt_div_mul_add (a := a) span.windowBytes_pos
    rw [hdiv] at hhi
    refine ⟨hlo, ?_⟩
    rw [windowLen]
    omega

/-- The windows tile the tail: the first one, then the tail behind it. -/
theorem tail_eq {w : Nat} : span.tail w = span.window w ∪ span.tail (w + 1) := by
  ext a
  have hpos := span.windowBytes_pos
  simp only [tail, window, windowLen, Set.mem_union, Set.mem_Ico, Nat.succ_mul]
  omega

theorem tail_eq_empty {w : Nat} (h : span.totalWindows ≤ w) : span.tail w = ∅ := by
  have hlast : ¬ w < span.totalWindows := by omega
  rw [span.lt_totalWindows_iff, Nat.not_lt] at hlast
  exact Set.Ico_eq_empty (Nat.not_lt.mpr hlast)

end LbaSpan

/-- The byte a source prescribes at an address: the window the address lies in, filled to the
window's length. -/
def prescribed (pat : PatternSource) (span : LbaSpan) (a : Nat) : UInt8 :=
  let w := a / span.windowBytes
  (pat.fill w (span.windowLen w)).getD (a % span.windowBytes) 0

theorem prescribed_of_mem_window {pat : PatternSource} {span : LbaSpan} {w a : Nat}
    (h : a ∈ span.window w) :
    prescribed pat span a = (pat.fill w (span.windowLen w)).getD (a - w * span.windowBytes) 0 := by
  obtain ⟨hdiv, hmod⟩ := LbaSpan.div_mod_of_mem_window h
  rw [prescribed, hmod, hdiv]

/-- Every byte of a zero pattern is zero. -/
theorem prescribed_zeroPattern (span : LbaSpan) (a : Nat) : prescribed zeroPattern span a = 0 := by
  show (List.replicate _ (0 : UInt8)).getD _ 0 = 0
  rw [List.getD_eq_getElem?_getD, List.getElem?_replicate]
  split <;> rfl

/-! ## Answers that finish a transfer -/

/-- The answers move `need` bytes: interruptions and non-empty counts until they are moved.
What comes afterwards is not asked for. -/
def Transfers : Nat → List SysResult → Prop
  | 0, _ => True
  | _ + 1, [] => False
  | need + 1, .interrupted :: rs => Transfers (need + 1) rs
  | _ + 1, .failed _ :: _ => False
  | _ + 1, .done 0 :: _ => False
  | need + 1, .done (n + 1) :: rs => Transfers (need - n) rs

namespace Transfers

variable {need n : Nat} {rs : List SysResult}

theorem of_eq_zero (h : need = 0) (rs : List SysResult) : Transfers need rs := by
  rw [h, Transfers]
  trivial

theorem interrupted (h : Transfers need rs) : Transfers need (.interrupted :: rs) := by
  cases need with
  | zero => exact of_eq_zero rfl _
  | succ need => exact h

theorem done (hn : 0 < n) (h : Transfers (need - n) rs) : Transfers need (.done n :: rs) := by
  obtain ⟨n, rfl⟩ := Nat.exists_eq_add_one_of_ne_zero (Nat.pos_iff_ne_zero.mp hn)
  cases need with
  | zero => exact of_eq_zero rfl _
  | succ need =>
    rw [Nat.add_sub_add_right] at h
    exact h

end Transfers

namespace SyncEngine

variable {eng : SyncEngine} {env : CallEnv}

/-! ## Writing -/

/-- **The `pwrite` loop writes what is left of the window**, in however many pieces. -/
theorem pwriteAll_overwrites {span : LbaSpan} {data : Bytes} {offset : Nat}
    {rs : List SysResult} {written : Nat} {trace trace' : Trace}
    (h : pwriteAll span data offset rs written trace = (.ok (), trace')) (m : Media) :
    Overwrites (Set.Ico (offset + written) (offset + data.length))
      (fun a => data.getD (a - offset) 0) (applyTrace trace m) (applyTrace trace' m) := by
  have hdone : data.length ≤ written →
      Set.Ico (offset + written) (offset + data.length) = ∅ :=
    fun hlen => Set.Ico_eq_empty (by omega)
  induction rs generalizing written trace with
  | nil =>
    unfold pwriteAll at h
    split at h
    · next hlen =>
      cases h
      rw [hdone hlen]
      exact Overwrites.refl _ _
    · cases h
  | cons r rs ih =>
    unfold pwriteAll at h
    split at h
    · next hlen =>
      cases h
      rw [hdone hlen]
      exact Overwrites.refl _ _
    · next hlen =>
      split at h
      · exact ih h hdone
      · cases h
      · cases h
      · next n =>
        have hpiece := Event.wrote_overwrites (offset + written)
          (min (n + 1) (data.length - written)) (fun i => data.getD (written + i) 0)
          (applyTrace trace m)
        have hrest := ih h (fun hlen => Set.Ico_eq_empty (by omega))
        rw [applyTrace_concat] at hrest
        -- The piece and the rest of the window are adjacent.
        rw [show Set.Ico (offset + written) (offset + data.length)
            = Set.Ico (offset + written)
                (offset + written + min (n + 1) (data.length - written))
              ∪ Set.Ico (offset + (written + min (n + 1) (data.length - written)))
                (offset + data.length) by
          rw [Nat.add_assoc offset written, Set.Ico_union_Ico_eq_Ico (by omega) (by omega)]]
        refine (hpiece.congr ?_).union hrest
        intro a ha
        show data.getD (written + (a - (offset + written))) 0 = data.getD (a - offset) 0
        obtain ⟨hlo, -⟩ := ha
        rw [show written + (a - (offset + written)) = a - offset by omega]

theorem pwriteAll_total (span : LbaSpan) {data : Bytes} (offset : Nat) {rs : List SysResult}
    {written : Nat} (trace : Trace) (h : Transfers (data.length - written) rs) :
    ∃ trace', pwriteAll span data offset rs written trace = (.ok (), trace') := by
  induction rs generalizing written trace with
  | nil =>
    unfold pwriteAll
    by_cases hlen : data.length ≤ written
    · exact ⟨trace, if_pos hlen⟩
    · rw [show data.length - written = (data.length - written - 1) + 1 by omega] at h
      exact h.elim
  | cons r rs ih =>
    unfold pwriteAll
    by_cases hlen : data.length ≤ written
    · exact ⟨trace, if_pos hlen⟩
    · rw [if_neg hlen]
      rw [show data.length - written = (data.length - written - 1) + 1 by omega] at h
      cases r with
      | interrupted =>
        refine ih trace ?_
        rw [show data.length - written = (data.length - written - 1) + 1 by omega]
        exact h
      | failed errno => exact h.elim
      | done n =>
        cases n with
        | zero => exact h.elim
        | succ n =>
          refine ih _ ?_
          rw [show data.length - (written + min (n + 1) (data.length - written))
            = data.length - written - 1 - n by omega]
          exact h

/-- **Step lemma**: a turn that completes has written its window, whole. -/
theorem writeWindow_overwrites {passIndex : UInt8} {pat : PatternSource} {span : LbaSpan}
    {poll w n : Nat} {trace trace' : Trace}
    (h : eng.writeWindow env passIndex pat span poll w trace = (.ok n, trace'))
    (hw : w < span.totalWindows) :
    n = span.windowLen w ∧ n ≤ eng.bufferLen ∧ ∀ m,
      Overwrites (span.window w)
        (fun a => (eng.windowData pat w n).getD (a - w * span.windowBytes) 0)
        (applyTrace trace m) (applyTrace trace' m) := by
  obtain ⟨hrange, hpos⟩ := span.windowByteRange_of_lt hw
  unfold writeWindow at h
  rw [hrange] at h
  split at h
  · cases h
  · dsimp only at h
    rw [if_neg (by omega)] at h
    split at h
    · cases h
    · next hbuffer =>
      split at h
      · next hwrite =>
        cases h
        refine ⟨rfl, by omega, fun m => ?_⟩
        have hcontent := pwriteAll_overwrites hwrite m
        rw [windowData_length (by omega), Nat.add_zero] at hcontent
        exact hcontent
      · cases h
      · cases h
      · cases h

/-- What a window is filled with is what its source prescribes. -/
theorem windowData_eq {ks : Keystream} {pat : PatternSource} (hpat : Materialized ks pat)
    {w len : Nat} (hlen : len ≤ eng.bufferLen) : eng.windowData pat w len = pat.fill w len := by
  unfold windowData
  split
  · next hinv => exact hpat.fill_take hinv hlen w
  · rfl

/-- **Run lemma**: the window loop writes the span from `w` to its end. Induction on the
windows left; the windows tile what is left of the span. -/
theorem writeLoop_overwrites {ks : Keystream} {passIndex : UInt8} {pat : PatternSource}
    (hpat : Materialized ks pat) {span : LbaSpan} {n poll w bytes total : Nat}
    {trace trace' : Trace} (hn : n = span.totalWindows - w)
    (h : eng.writeLoop env passIndex pat span n poll w bytes trace = (.ok total, trace')) :
    total = bytes + (span.totalBytes - w * span.windowBytes) ∧ ∀ m,
      Overwrites (span.tail w) (prescribed pat span) (applyTrace trace m)
        (applyTrace trace' m) := by
  induction n generalizing poll w bytes trace with
  | zero =>
    rw [writeLoop] at h
    cases h
    have hlast : ¬ w < span.totalWindows := by omega
    rw [span.lt_totalWindows_iff] at hlast
    refine ⟨by omega, fun m => ?_⟩
    rw [LbaSpan.tail_eq_empty (by omega)]
    exact Overwrites.refl _ _
  | succ n ih =>
    have hw : w < span.totalWindows := by omega
    have hfirst := span.lt_totalWindows_iff.mp hw
    unfold writeLoop at h
    cases hturn : eng.writeWindow env passIndex pat span poll w trace with
    | mk result trace₁ =>
      rw [hturn] at h
      cases result with
      | ok len =>
        obtain ⟨hlen, hbuffer, hwindow⟩ := writeWindow_overwrites hturn hw
        have hpos := span.windowBytes_pos
        cases len with
        | zero =>
          rw [LbaSpan.windowLen] at hlen
          omega
        | succ len =>
          obtain ⟨htotal, hrest⟩ := ih (by omega) h
          constructor
          · rw [htotal, hlen, LbaSpan.windowLen, Nat.succ_mul]
            omega
          · intro m
            rw [LbaSpan.tail_eq]
            refine ((hwindow m).congr ?_).union (hrest m)
            intro a ha
            rw [prescribed_of_mem_window ha, windowData_eq hpat hbuffer, hlen]
      | err e => cases h
      | panic => cases h
      | blocked => cases h

/-- **A pass that returns** has written the span from its start window to the end, and reports
just that. -/
theorem writePass_overwrites {ks : Keystream} {passIndex : UInt8} {pat : PatternSource}
    (hpat : Materialized ks pat) {span : LbaSpan} {startWindow poll : Nat}
    {trace trace' : Trace} {outcome : PassOutcome}
    (h : eng.writePass env passIndex pat span startWindow poll trace = (.ok outcome, trace')) :
    outcome.windowsWritten = span.totalWindows - startWindow
      ∧ outcome.bytesWritten = span.totalBytes - startWindow * span.windowBytes
      ∧ ∀ m, Overwrites (span.tail startWindow) (prescribed pat span) (applyTrace trace m)
        (applyTrace trace' m) := by
  unfold writePass at h
  split at h
  · next hloop =>
    cases h
    obtain ⟨hbytes, hcontent⟩ := writeLoop_overwrites hpat rfl hloop
    refine ⟨rfl, ?_, hcontent⟩
    rw [hbytes, Nat.zero_add]
  · cases h
  · cases h
  · cases h

/-! ## A pass that is let through -/

/-- No cancellation is seen, and the answers move every window from `first` on. -/
def WritesThrough (env : CallEnv) (span : LbaSpan) (first : Nat) : Prop :=
  (∀ n, env.cancelled n = false)
    ∧ ∀ w, first ≤ w → w < span.totalWindows → Transfers (span.windowLen w) (env.pwrite w)

theorem writeLoop_total {span : LbaSpan} {first : Nat} (h : WritesThrough env span first)
    (hbuffer : span.windowLen 0 ≤ eng.bufferLen) (passIndex : UInt8) (pat : PatternSource)
    {n w : Nat} (poll bytes : Nat) (trace : Trace) (hn : n = span.totalWindows - w)
    (hw : first ≤ w) :
    ∃ total trace',
      eng.writeLoop env passIndex pat span n poll w bytes trace = (.ok total, trace') := by
  induction n generalizing poll w bytes trace with
  | zero => exact ⟨bytes, trace, rfl⟩
  | succ n ih =>
    have hlt : w < span.totalWindows := by omega
    obtain ⟨hrange, hpos⟩ := span.windowByteRange_of_lt hlt
    have hfits := span.windowLen_le_first w
    have htransfer := h.2 w hw hlt
    have hlen : (eng.windowData pat w (span.windowLen w)).length = span.windowLen w :=
      windowData_length (by omega)
    obtain ⟨trace₁, hwrite⟩ :=
      pwriteAll_total span (w * span.windowBytes) trace
        (show Transfers ((eng.windowData pat w (span.windowLen w)).length - 0) _ by
          rw [hlen]; exact htransfer)
    have hturn : eng.writeWindow env passIndex pat span poll w trace
        = (.ok (span.windowLen w), trace₁) := by
      unfold writeWindow
      rw [if_neg (by simp [h.1 poll]), hrange]
      dsimp only
      rw [if_neg (by omega), if_neg (by unfold LbaSpan.windowLen at *; omega)]
      rw [LbaSpan.windowLen] at hwrite
      rw [hwrite]
      rfl
    obtain ⟨len, hsucc⟩ : ∃ len, span.windowLen w = len + 1 :=
      Nat.exists_eq_succ_of_ne_zero (by unfold LbaSpan.windowLen; omega)
    rw [writeLoop, hturn, hsucc]
    exact ih _ _ _ (by omega) (by omega)

theorem writePass_total {span : LbaSpan} {first : Nat} (h : WritesThrough env span first)
    (hbuffer : span.windowLen 0 ≤ eng.bufferLen) (passIndex : UInt8) (pat : PatternSource)
    {startWindow : Nat} (poll : Nat) (trace : Trace) (hw : first ≤ startWindow) :
    ∃ outcome trace',
      eng.writePass env passIndex pat span startWindow poll trace = (.ok outcome, trace') := by
  obtain ⟨total, trace', hloop⟩ :=
    writeLoop_total h hbuffer passIndex pat poll 0 trace rfl hw
  rw [writePass, hloop]
  exact ⟨_, trace', rfl⟩

end SyncEngine

end DiscCleaner
