import DiscCleaner.Io.SyncEngine

/-!
# DiscCleaner — drain points of the synchronous engine

A cancelled pass reports the last window it completed. The report is honest when every window
up to it was written by the call or lies below the window the call started at. Both loops
compute it as the current window less one, saturating at zero: with nothing completed they
still report window 0.
-/

namespace DiscCleaner

open ByteLib MediaLib ProgLib

/-! ## Honest reports -/

/-- Every byte of window `v` was written. -/
def WindowWritten (span : LbaSpan) (trace : Trace) (v : Nat) : Prop :=
  ∀ a, a / span.windowBytes = v → a < span.totalBytes → Covered trace a

/-- The window was written by this call, or before it. -/
def Accounted (span : LbaSpan) (startWindow : Nat) (trace : Trace) (v : Nat) : Prop :=
  v < startWindow ∨ WindowWritten span trace v

/-- **An honest drain point**: an interrupted call that names a window names its own pass, and
every window up to the named one is accounted for. -/
def HonestDrain {α : Type} (span : LbaSpan) (passIndex : UInt8) (startWindow : Nat)
    (r : CallResult α × Trace) : Prop :=
  ∀ p w, r.1 = .err (.interrupted (some (p, w))) →
    p = passIndex ∧ ∀ v ≤ w, Accounted span startWindow r.2 v

theorem Accounted.append {span : LbaSpan} {startWindow v : Nat} {trace : Trace}
    (h : Accounted span startWindow trace v) (more : Trace) :
    Accounted span startWindow (trace ++ more) v := by
  rcases h with hbelow | hwritten
  · exact Or.inl hbelow
  · exact Or.inr fun a hv ha => (hwritten a hv ha).append more

/-- Bytes below `current` that lie in no earlier window make the windows below it accounted
for. -/
theorem accounted_of_bytes {span : LbaSpan} {startWindow current v : Nat} {trace : Trace}
    (h : ∀ a < current, a / span.windowBytes < startWindow ∨ Covered trace a)
    (hv : v < current / span.windowBytes) : Accounted span startWindow trace v := by
  by_cases hstart : v < startWindow
  · exact Or.inl hstart
  · refine Or.inr fun a ha _ => ?_
    have hpos := span.windowBytes_pos
    have hcurrent : a < current := by
      rw [← ha, Nat.lt_div_iff_mul_lt hpos] at hv
      have hrange := Nat.lt_div_mul_add (a := a) hpos
      omega
    rcases h a hcurrent with hbelow | hcovered
    · exact absurd (ha ▸ hbelow) hstart
    · exact hcovered

namespace SyncEngine

variable {eng : SyncEngine} {env : CallEnv}

/-! ## One window -/

theorem pwriteAll_extends (span : LbaSpan) (data : Bytes) (offset : Nat) (rs : List SysResult)
    (written : Nat) (trace : Trace) :
    ∃ more, (pwriteAll span data offset rs written trace).2 = trace ++ more := by
  induction rs generalizing written trace with
  | nil =>
    unfold pwriteAll
    split
    · exact ⟨[], (List.append_nil trace).symm⟩
    · exact ⟨[], (List.append_nil trace).symm⟩
  | cons r rs ih =>
    unfold pwriteAll
    split
    · exact ⟨[], (List.append_nil trace).symm⟩
    · split
      · exact ih written trace
      · exact ⟨[], (List.append_nil trace).symm⟩
      · exact ⟨[], (List.append_nil trace).symm⟩
      · obtain ⟨more, hmore⟩ := ih (written + min (_ + 1) (data.length - written))
          (trace ++ [pwriteEvent data offset written (_ + 1)])
        exact ⟨_, by rw [hmore, List.append_assoc]⟩

/-- **The `pwrite` loop covers the window** it returns from. Induction on the answers; the
bytes before `written` are covered all along. -/
theorem pwriteAll_covers {span : LbaSpan} {data : Bytes} {offset : Nat} {rs : List SysResult}
    {written : Nat} {trace trace' : Trace}
    (h : pwriteAll span data offset rs written trace = (.ok (), trace'))
    (hdone : ∀ a, offset ≤ a → a < offset + written → Covered trace a) :
    ∀ a, offset ≤ a → a < offset + data.length → Covered trace' a := by
  induction rs generalizing written trace with
  | nil =>
    unfold pwriteAll at h
    split at h
    · next hlen =>
      cases h
      intro a hlo hhi
      exact hdone a hlo (by omega)
    · cases h
  | cons r rs ih =>
    unfold pwriteAll at h
    split at h
    · next hlen =>
      cases h
      intro a hlo hhi
      exact hdone a hlo (by omega)
    · split at h
      · exact ih h hdone
      · cases h
      · cases h
      · apply ih h
        intro a hlo hhi
        rw [pwriteEvent, covered_concat_wrote]
        by_cases hold : a < offset + written
        · exact Or.inl (hdone a hlo hold)
        · exact Or.inr ⟨by omega, by omega⟩

theorem pwriteAll_not_interrupted {span : LbaSpan} {data : Bytes} {offset : Nat}
    {rs : List SysResult} {written : Nat} {trace : Trace} {c : Option (UInt8 × Nat)} :
    (pwriteAll span data offset rs written trace).1 ≠ .err (.interrupted c) := by
  induction rs generalizing written trace with
  | nil =>
    unfold pwriteAll
    split <;> simp
  | cons r rs ih =>
    unfold pwriteAll
    split
    · simp
    · split
      · exact ih
      · simp
      · simp
      · exact ih

theorem windowData_length {pat : PatternSource} {w len : Nat} (h : len ≤ eng.bufferLen) :
    (eng.windowData pat w len).length = len := by
  unfold windowData
  split
  · rw [List.length_take, pat.fill_length]
    omega
  · exact pat.fill_length w len

/-- A window of positive length starts at its multiple of the window size. -/
theorem windowByteRange_of_ne_zero {span : LbaSpan} {w : Nat}
    (h : (span.windowByteRange w).2 ≠ 0) :
    span.windowByteRange w
      = (w * span.windowBytes, min (span.totalBytes - w * span.windowBytes) span.windowBytes) := by
  have htotal := span.totalBytes_lt
  unfold LbaSpan.windowByteRange at h ⊢
  by_cases hfit : w * span.windowBytes < 2 ^ 64
  · rw [if_pos hfit]
  · -- A saturated offset lies behind every span, so the window would be empty.
    rw [if_neg hfit] at h
    simp only at h
    omega

/-- **Step lemma**: a turn that completes keeps the trace and covers its window. -/
theorem writeWindow_ok {passIndex : UInt8} {pat : PatternSource} {span : LbaSpan}
    {poll w n : Nat} {trace trace' : Trace}
    (h : eng.writeWindow env passIndex pat span poll w trace = (.ok n, trace')) :
    (∃ more, trace' = trace ++ more) ∧ (n ≠ 0 → WindowWritten span trace' w) := by
  unfold writeWindow at h
  split at h
  · cases h
  · dsimp only at h
    split at h
    · cases h
      exact ⟨⟨[], (List.append_nil trace).symm⟩, fun hn => absurd rfl hn⟩
    · next hlen =>
      split at h
      · cases h
      · next hbuffer =>
        have hrange := windowByteRange_of_ne_zero hlen
        rw [hrange] at h hbuffer
        simp only at h hbuffer
        split at h
        · next hwrite =>
          cases h
          have hextends := pwriteAll_extends span
            (eng.windowData pat w (min (span.totalBytes - w * span.windowBytes) span.windowBytes))
            (w * span.windowBytes) (env.pwrite w) 0 trace
          rw [hwrite] at hextends
          refine ⟨hextends, fun _ a ha htotal => ?_⟩
          have hlo : w * span.windowBytes ≤ a := by
            rw [← ha]
            exact Nat.div_mul_le_self a span.windowBytes
          have hhi := Nat.lt_div_mul_add (a := a) span.windowBytes_pos
          rw [ha] at hhi
          apply pwriteAll_covers hwrite (fun b hb hb' => absurd hb (by omega)) a hlo
          rw [windowData_length (by omega)]
          omega
        · cases h
        · cases h
        · cases h

/-- **Step lemma**: a turn is interrupted only by a poll, before it touches the medium. -/
theorem writeWindow_interrupted {passIndex : UInt8} {pat : PatternSource} {span : LbaSpan}
    {poll w : Nat} {trace trace' : Trace} {c : Option (UInt8 × Nat)}
    (h : eng.writeWindow env passIndex pat span poll w trace
      = (.err (.interrupted c), trace')) :
    env.cancelled poll = true ∧ c = some (passIndex, w - 1) ∧ trace' = trace := by
  unfold writeWindow at h
  split at h
  · next hcancel =>
    cases h
    exact ⟨hcancel, rfl, rfl⟩
  · dsimp only at h
    split at h
    · cases h
    · split at h
      · cases h
      · split at h
        · cases h
        · next hwrite =>
          cases h
          exact absurd (congrArg Prod.fst hwrite) pwriteAll_not_interrupted
        · cases h
        · cases h

/-! ## The window loop -/

/-- **Run lemma**: with every window below `w` accounted for, the loop from `w` reports
honestly, unless it is cancelled at window 0 of a pass that starts there. -/
theorem writeLoop_honest {passIndex : UInt8} {pat : PatternSource} {span : LbaSpan}
    {startWindow n poll w bytes : Nat} {trace : Trace}
    (hbelow : ∀ v < w, Accounted span startWindow trace v)
    (hfirst : w = 0 → n ≠ 0 → 0 < startWindow ∨ env.cancelled poll = false) :
    HonestDrain span passIndex startWindow
      (eng.writeLoop env passIndex pat span n poll w bytes trace) := by
  induction n generalizing poll w bytes trace with
  | zero =>
    intro p through h
    simp [writeLoop] at h
  | succ n ih =>
    unfold writeLoop
    cases hturn : eng.writeWindow env passIndex pat span poll w trace with
    | mk result trace' =>
      cases result with
      | ok len =>
        obtain ⟨⟨more, hmore⟩, hwritten⟩ := writeWindow_ok hturn
        cases len with
        | zero =>
          intro p through h
          simp at h
        | succ len =>
          apply ih
          · intro v hv
            rcases Nat.lt_succ_iff_lt_or_eq.mp hv with hlt | heq
            · exact hmore ▸ (hbelow v hlt).append more
            · exact Or.inr (heq ▸ hwritten (Nat.succ_ne_zero len))
          · intro hw
            exact absurd hw (Nat.succ_ne_zero w)
      | err e =>
        intro p through h
        simp only [Outcome.err.injEq] at h
        rw [h] at hturn
        obtain ⟨hcancel, hclaim, htrace⟩ := writeWindow_interrupted hturn
        rw [Option.some.injEq, Prod.mk.injEq] at hclaim
        refine ⟨hclaim.1, fun v hv => ?_⟩
        show Accounted span startWindow trace' v
        rw [htrace]
        rw [hclaim.2] at hv
        -- The claim is `w - 1`, which is below `w` except at window 0.
        by_cases hw : w = 0
        · rcases hfirst hw (Nat.succ_ne_zero n) with hstart | hpoll
          · exact Or.inl (by omega)
          · simp [hcancel] at hpoll
        · exact hbelow v (by omega)
      | panic =>
        intro p through h
        simp at h
      | blocked =>
        intro p through h
        simp at h

/-- A pass reports what its window loop reports. -/
theorem writePass_honest_iff {passIndex : UInt8} {pat : PatternSource} {span : LbaSpan}
    {first poll startWindow : Nat} {trace : Trace} :
    HonestDrain span passIndex startWindow
        (eng.writePass env passIndex pat span first poll trace)
      ↔ HonestDrain span passIndex startWindow
        (eng.writeLoop env passIndex pat span (span.totalWindows - first) poll first 0 trace) := by
  unfold writePass HonestDrain
  cases eng.writeLoop env passIndex pat span (span.totalWindows - first) poll first 0 trace with
  | mk result trace' => cases result <;> simp

/-- Cancelled at the first poll with windows left, a pass from window 0 claims window 0. -/
theorem writePass_first_poll {passIndex : UInt8} {pat : PatternSource} {span : LbaSpan}
    {poll : Nat} {trace : Trace} (htotal : 0 < span.totalBytes)
    (hcancel : env.cancelled poll = true) :
    eng.writePass env passIndex pat span 0 poll trace
      = (.err (.interrupted (some (passIndex, 0))), trace) := by
  obtain ⟨n, hn⟩ := Nat.exists_eq_succ_of_ne_zero
    (Nat.pos_iff_ne_zero.mp (span.totalWindows_pos_iff.mpr htotal))
  unfold writePass
  rw [Nat.sub_zero, hn, Nat.succ_eq_add_one, writeLoop, writeWindow, if_pos hcancel]

/-- A report of window 0 from a pass that starts there is false while a byte of the window is
missing. -/
theorem not_honest_of_missing {span : LbaSpan} {passIndex : UInt8} {trace : Trace} {a : Nat}
    {r : CallResult PassOutcome × Trace}
    (hr : r = (.err (.interrupted (some (passIndex, 0))), trace))
    (hwindow : a < span.windowBytes) (htotal : a < span.totalBytes)
    (hmissing : ¬ Covered trace a) : ¬ HonestDrain span passIndex 0 r := by
  intro hhonest
  rw [hr] at hhonest
  obtain ⟨-, hclaim⟩ := hhonest passIndex 0 rfl
  rcases hclaim 0 (Nat.le_refl 0) with hbelow | hwritten
  · exact absurd hbelow (Nat.lt_irrefl 0)
  · exact hmissing (hwritten a (Nat.div_eq_of_lt hwindow) htotal)

/-! ## The chunk loop -/

/-- Polls and chunks pass up to chunk `k + j` exclusively. -/
def ChunksClear (env : CallEnv) (k j : Nat) : Prop :=
  ∀ i < j, env.cancelled (k + i) = false ∧ env.zeroout (k + i) = .ok

/-- The cancellation is seen while chunk `k` is to be zeroed: by the poll before it, or, when
the chunk fails, by the first poll of the fallback. -/
def CancelledAtChunk (env : CallEnv) (k : Nat) : Prop :=
  env.cancelled k = true
    ∨ (∃ left, env.zeroout k = .failed left) ∧ env.cancelled (k + 1) = true

/-- **Step lemma**: a zeroed chunk moves the loop on. -/
theorem zeroLoop_next {passIndex : UInt8} {span : LbaSpan}
    {startWindow k current zeroed : Nat} {trace : Trace} (hlt : current < span.totalBytes)
    (hpoll : env.cancelled k = false) (hzero : env.zeroout k = .ok) :
    eng.zeroLoop env passIndex span startWindow k current zeroed trace
      = eng.zeroLoop env passIndex span startWindow (k + 1)
        (current + min (span.totalBytes - current) maxWriteZeroesBytes)
        (zeroed + min (span.totalBytes - current) maxWriteZeroesBytes)
        (trace ++ [.wrote current (min (span.totalBytes - current) maxWriteZeroesBytes)
          fun _ => 0]) := by
  rw [zeroLoop, if_pos hlt, if_neg (by simp [hpoll])]
  dsimp only
  rw [hzero]

theorem zeroLoop_cancelled {passIndex : UInt8} {span : LbaSpan}
    {startWindow k current zeroed : Nat} {trace : Trace} (hlt : current < span.totalBytes)
    (hpoll : env.cancelled k = true) :
    eng.zeroLoop env passIndex span startWindow k current zeroed trace
      = (.err (.interrupted (some (passIndex, current / span.windowBytes - 1))), trace) := by
  rw [zeroLoop, if_pos hlt, if_pos hpoll]

/-- **Step lemma**: a failed chunk hands the rest to the buffered pass, from the window the
chunk starts in. -/
theorem zeroLoop_fallback {passIndex : UInt8} {span : LbaSpan}
    {startWindow k current zeroed : Nat} {trace : Trace} (hlt : current < span.totalBytes)
    (hpoll : env.cancelled k = false) {left : Nat → UInt8} (hzero : env.zeroout k = .failed left) :
    eng.zeroLoop env passIndex span startWindow k current zeroed trace
      = eng.writePass env passIndex zeroPattern span (current / span.windowBytes) (k + 1)
        (trace ++ [.scrambled current (min (span.totalBytes - current) maxWriteZeroesBytes)
          left]) := by
  rw [zeroLoop, if_pos hlt, if_neg (by simp [hpoll])]
  dsimp only
  rw [hzero]

/-- Below the window of `current` everything is accounted for. -/
theorem cancelled_honest {span : LbaSpan} {passIndex : UInt8} {startWindow current : Nat}
    {trace : Trace} (hbelow : ∀ a < current, a / span.windowBytes < startWindow ∨ Covered trace a)
    (hstart : current / span.windowBytes = 0 → 0 < startWindow) :
    HonestDrain span passIndex startWindow
      ((.err (.interrupted (some (passIndex, current / span.windowBytes - 1))), trace) :
        CallResult PassOutcome × Trace) := by
  intro p through h
  simp only [Outcome.err.injEq, DcError.interrupted.injEq, Option.some.injEq,
    Prod.mk.injEq] at h
  refine ⟨h.1.symm, fun v hv => ?_⟩
  show Accounted span startWindow trace v
  rw [← h.2] at hv
  by_cases hwindow : current / span.windowBytes = 0
  · have hpos := hstart hwindow
    exact Or.inl (by omega)
  · exact accounted_of_bytes hbelow (Nat.lt_of_le_sub_one (Nat.pos_of_ne_zero hwindow) hv)

/-- The polls and chunks seen from the next chunk on. -/
theorem ChunksClear.succ {k j : Nat} (hpoll : env.cancelled k = false) (hzero : env.zeroout k = .ok)
    (h : ChunksClear env (k + 1) j) : ChunksClear env k (j + 1) := by
  intro i hi
  cases i with
  | zero => exact ⟨hpoll, hzero⟩
  | succ i =>
    rw [show k + (i + 1) = k + 1 + i by omega]
    exact h i (by omega)

/-- **Run lemma**: with every byte below `current` in an earlier window or covered, the chunk
loop reports honestly, unless it is cancelled while still inside window 0 of a pass that
starts there. Induction on the bytes left. -/
theorem zeroLoop_honest {passIndex : UInt8} {span : LbaSpan}
    {startWindow k current zeroed : Nat} {trace : Trace}
    (hbelow : ∀ a < current, a / span.windowBytes < startWindow ∨ Covered trace a)
    (hclear : 0 < startWindow ∨ ∀ j, ChunksClear env k j →
      current + j * maxWriteZeroesBytes < min span.windowBytes span.totalBytes →
        ¬ CancelledAtChunk env (k + j)) :
    HonestDrain span passIndex startWindow
      (eng.zeroLoop env passIndex span startWindow k current zeroed trace) := by
  induction hleft : span.totalBytes - current using Nat.strong_induction_on
    generalizing k current zeroed trace with
  | _ left ih =>
    by_cases hlt : current < span.totalBytes
    · -- Where the loop stands inside window 0, the environment does not cancel it.
      have hhere : current / span.windowBytes = 0 → 0 < startWindow ∨ ¬ CancelledAtChunk env k := by
        intro hwindow
        rcases hclear with hstart | hclear
        · exact Or.inl hstart
        · right
          have hin := (Nat.div_eq_zero_iff_lt span.windowBytes_pos).mp hwindow
          have hnow := hclear 0 (fun i hi => absurd hi (Nat.not_lt_zero i))
          rw [Nat.zero_mul, Nat.add_zero, Nat.add_zero] at hnow
          exact hnow (Nat.lt_min.mpr ⟨hin, hlt⟩)
      cases hcancel : env.cancelled k with
      | true =>
        rw [zeroLoop_cancelled hlt hcancel]
        refine cancelled_honest hbelow fun hwindow => ?_
        exact (hhere hwindow).resolve_right fun hnot => hnot (Or.inl hcancel)
      | false =>
        cases hzero : env.zeroout k with
        | failed leftover =>
          rw [zeroLoop_fallback hlt hcancel hzero]
          -- The fallback starts at the window of `current`; the windows below are done.
          apply writePass_honest_iff.mpr
          apply writeLoop_honest
          · intro v hv
            exact (accounted_of_bytes hbelow hv).append _
          · intro hwindow _
            rcases hhere hwindow with hstart | hnot
            · exact Or.inl hstart
            · right
              by_contra hpoll
              rw [Bool.not_eq_false] at hpoll
              exact hnot (Or.inr ⟨⟨leftover, hzero⟩, hpoll⟩)
        | ok =>
          have hpos := maxWriteZeroesBytes_pos
          rw [zeroLoop_next hlt hcancel hzero]
          apply ih (span.totalBytes
            - (current + min (span.totalBytes - current) maxWriteZeroesBytes)) (by omega)
          · intro a ha
            rw [covered_concat_wrote]
            by_cases hold : a < current
            · exact (hbelow a hold).imp id Or.inl
            · exact Or.inr (Or.inr ⟨by omega, ha⟩)
          · -- A chunk behind this one is one chunk nearer for the rest of the loop.
            refine hclear.imp id fun hclear j hchunks hin => ?_
            have hchunk : min (span.totalBytes - current) maxWriteZeroesBytes
                = maxWriteZeroesBytes := by omega
            rw [Nat.add_right_comm k 1 j]
            apply hclear (j + 1) (hchunks.succ hcancel hzero)
            rw [hchunk] at hin
            rw [Nat.succ_mul]
            omega
          · rfl
    · rw [zeroLoop, if_neg hlt]
      intro p through h
      simp at h

/-- From window 0, the loop reaches chunk `k` when the polls and chunks before it pass, with
exactly the bytes of those chunks covered. -/
theorem zeroLoop_reaches (eng : SyncEngine) (passIndex : UInt8) {span : LbaSpan} {k : Nat}
    (hclear : ChunksClear env 0 k) (hlt : k * maxWriteZeroesBytes < span.totalBytes) :
    ∃ trace, (∀ a, Covered trace a → a < k * maxWriteZeroesBytes)
      ∧ eng.zeroLoop env passIndex span 0 0 0 0 []
        = eng.zeroLoop env passIndex span 0 k (k * maxWriteZeroesBytes)
          (k * maxWriteZeroesBytes) trace := by
  induction k with
  | zero =>
    refine ⟨[], fun a ha => absurd ha (not_covered_nil a), ?_⟩
    rw [Nat.zero_mul]
  | succ k ih =>
    rw [Nat.succ_mul] at hlt
    obtain ⟨trace, hcovered, hreach⟩ :=
      ih (fun i hi => hclear i (Nat.lt_succ_of_lt hi)) (by omega)
    obtain ⟨hpoll, hzero⟩ := hclear k (Nat.lt_succ_self k)
    rw [Nat.zero_add] at hpoll hzero
    have hchunk : min (span.totalBytes - k * maxWriteZeroesBytes) maxWriteZeroesBytes
        = maxWriteZeroesBytes := by omega
    refine ⟨trace ++ [.wrote (k * maxWriteZeroesBytes) maxWriteZeroesBytes fun _ => 0], ?_, ?_⟩
    · intro a ha
      rw [covered_concat_wrote] at ha
      rw [Nat.succ_mul]
      rcases ha with hold | hnew
      · have := hcovered a hold
        omega
      · exact hnew.2
    · rw [hreach, zeroLoop_next (by omega) hpoll hzero, hchunk, Nat.succ_mul]

/-! ## Where the engine over-claims -/

/-- A buffered pass over-claims when it starts at window 0 of a non-empty span and its first
poll sees the cancellation. -/
def WriteClaimsEarly (env : CallEnv) (span : LbaSpan) (startWindow : Nat) : Prop :=
  startWindow = 0 ∧ 0 < span.totalBytes ∧ env.cancelled 0 = true

/-- A zero pass over-claims when it starts at window 0 and the cancellation is seen at a chunk
that starts inside window 0; without the fast path it is a buffered pass. -/
def ZeroClaimsEarly (eng : SyncEngine) (env : CallEnv) (span : LbaSpan) (startWindow : Nat) :
    Prop :=
  if eng.supportsWriteZeroes then
    startWindow = 0 ∧ ∃ k, ChunksClear env 0 k
      ∧ k * maxWriteZeroesBytes < min span.windowBytes span.totalBytes
      ∧ CancelledAtChunk env k
  else WriteClaimsEarly env span startWindow

theorem writePass_honest {passIndex : UInt8} {pat : PatternSource} {span : LbaSpan}
    {startWindow : Nat} (h : ¬ WriteClaimsEarly env span startWindow) :
    HonestDrain span passIndex startWindow
      (eng.writePass env passIndex pat span startWindow 0 []) := by
  apply writePass_honest_iff.mpr
  apply writeLoop_honest
  · intro v hv
    exact Or.inl hv
  · intro hzero hwindows
    right
    by_contra hpoll
    rw [Bool.not_eq_false] at hpoll
    rw [hzero, Nat.sub_zero, ← Nat.pos_iff_ne_zero, span.totalWindows_pos_iff] at hwindows
    exact h ⟨hzero, hwindows, hpoll⟩

theorem writePass_not_honest {passIndex : UInt8} {pat : PatternSource} {span : LbaSpan}
    {startWindow : Nat} (h : WriteClaimsEarly env span startWindow) :
    ¬ HonestDrain span passIndex startWindow
      (eng.writePass env passIndex pat span startWindow 0 []) := by
  obtain ⟨hstart, htotal, hcancel⟩ := h
  rw [hstart]
  exact not_honest_of_missing (writePass_first_poll htotal hcancel) span.windowBytes_pos htotal
    (not_covered_nil 0)

theorem zeroPass_honest {passIndex : UInt8} {span : LbaSpan} {startWindow : Nat}
    (h : ¬ ZeroClaimsEarly eng env span startWindow) :
    HonestDrain span passIndex startWindow (eng.zeroPass env passIndex span startWindow) := by
  unfold ZeroClaimsEarly at h
  unfold zeroPass
  by_cases hfast : eng.supportsWriteZeroes = true
  · rw [if_pos hfast] at h ⊢
    apply zeroLoop_honest
    · -- The start offset, wrapped or not, is at most the start of the start window.
      intro a ha
      left
      have hwrap := Nat.mod_le (startWindow * span.windowBytes) (2 ^ 64)
      rw [Nat.div_lt_iff_lt_mul span.windowBytes_pos]
      omega
    · by_cases hstart : startWindow = 0
      · right
        intro j hchunks hin hcancelled
        rw [hstart, Nat.zero_mul, Nat.zero_mod, Nat.zero_add] at hin
        rw [Nat.zero_add] at hcancelled
        exact h ⟨hstart, j, hchunks, hin, hcancelled⟩
      · exact Or.inl (Nat.pos_of_ne_zero hstart)
  · rw [if_neg hfast] at h ⊢
    exact writePass_honest h

theorem zeroPass_not_honest {passIndex : UInt8} {span : LbaSpan} {startWindow : Nat}
    (h : ZeroClaimsEarly eng env span startWindow) :
    ¬ HonestDrain span passIndex startWindow (eng.zeroPass env passIndex span startWindow) := by
  unfold ZeroClaimsEarly at h
  unfold zeroPass
  by_cases hfast : eng.supportsWriteZeroes = true
  · rw [if_pos hfast] at h ⊢
    obtain ⟨hstart, k, hchunks, hin, hcancelled⟩ := h
    obtain ⟨hwindow, htotal⟩ := Nat.lt_min.mp hin
    obtain ⟨trace, hcovered, hreach⟩ :=
      zeroLoop_reaches eng passIndex hchunks htotal
    have hmissing : ¬ Covered trace (k * maxWriteZeroesBytes) :=
      fun ha => absurd (hcovered _ ha) (Nat.lt_irrefl _)
    have hdiv : k * maxWriteZeroesBytes / span.windowBytes = 0 := Nat.div_eq_of_lt hwindow
    rw [hstart, Nat.zero_mul, Nat.zero_mod, hreach, zeroLoop, if_pos htotal, hdiv]
    by_cases hpoll : env.cancelled k = true
    · rw [if_pos hpoll]
      exact not_honest_of_missing rfl hwindow htotal hmissing
    · rw [if_neg hpoll]
      rcases hcancelled with hcancel | ⟨⟨leftover, hzero⟩, hnext⟩
      · exact absurd hcancel hpoll
      · dsimp only
        rw [hzero]
        -- The failed chunk leaves no byte written, and the fallback is cancelled at once.
        apply not_honest_of_missing (writePass_first_poll (by omega) hnext) hwindow htotal
        rw [covered_concat_scrambled]
        exact hmissing
  · rw [if_neg hfast] at h ⊢
    exact writePass_not_honest h

/-- **Drain points, exactly**: a pass reports honestly if and only if the cancellation is not
seen while it still stands in a window 0 it started at. -/
theorem drain_points_honest_iff (eng : SyncEngine) (env : CallEnv) (passIndex : UInt8)
    (pat : PatternSource) (span : LbaSpan) (startWindow : Nat) :
    (HonestDrain span passIndex startWindow
          (eng.writePass env passIndex pat span startWindow 0 [])
        ↔ ¬ WriteClaimsEarly env span startWindow)
      ∧ (HonestDrain span passIndex startWindow (eng.zeroPass env passIndex span startWindow)
        ↔ ¬ ZeroClaimsEarly eng env span startWindow) := by
  refine ⟨⟨?_, writePass_honest⟩, ⟨?_, zeroPass_honest⟩⟩
  · intro hhonest hearly
    exact writePass_not_honest hearly hhonest
  · intro hhonest hearly
    exact zeroPass_not_honest hearly hhonest

/-! ### A cancellation before the first write

A two-window device and a process that was asked to stop before the pass began. -/

def stoppedEnv : CallEnv where
  cancelled _ := true
  pwrite _ := []
  pread _ := []
  zeroout _ := .ok
  fsync := none
  durationMs := 0

def smallSpan : LbaSpan := LbaSpan.new 8192 512 4096

/-- **Nothing written, window 0 claimed**: by the buffered pass and by the fast path. -/
theorem stopped_pass_claims_window_zero :
    (SyncEngine.mk 4096 false).writePass stoppedEnv 0 zeroPattern smallSpan 0 0 []
        = (.err (.interrupted (some (0, 0))), [])
      ∧ (SyncEngine.mk 4096 true).zeroPass stoppedEnv 0 smallSpan 0
        = (.err (.interrupted (some (0, 0))), [])
      ∧ ¬ HonestDrain smallSpan 0 0
          ((SyncEngine.mk 4096 false).writePass stoppedEnv 0 zeroPattern smallSpan 0 0 [])
      ∧ ¬ HonestDrain smallSpan 0 0
          ((SyncEngine.mk 4096 true).zeroPass stoppedEnv 0 smallSpan 0) := by
  have htotal : 0 < smallSpan.totalBytes := by decide
  refine ⟨writePass_first_poll htotal rfl, ?_, writePass_not_honest ⟨rfl, htotal, rfl⟩, ?_⟩
  · rw [zeroPass, if_pos rfl, zeroLoop, if_pos (by decide),
      if_pos (show stoppedEnv.cancelled 0 = true from rfl)]
    rfl
  · apply zeroPass_not_honest
    rw [ZeroClaimsEarly, if_pos rfl]
    exact ⟨rfl, 0, fun i hi => absurd hi (Nat.not_lt_zero i), by decide, Or.inl rfl⟩

end SyncEngine

end DiscCleaner
