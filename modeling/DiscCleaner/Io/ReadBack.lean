import DiscCleaner.Io.PassContent

/-!
# DiscCleaner — write, then verify

The read-back of a medium, window by window: what the sink is shown depends only on the
medium, however the kernel cut the transfers. Behind a completed pass every sampled window is
valid; on any medium a sampled window with a wrong byte is not.
-/

namespace DiscCleaner

open ByteLib MediaLib ProgLib

/-! ## What a read-back should show -/

/-- Every byte of the window is the prescribed one. -/
def WindowHolds (pat : PatternSource) (span : LbaSpan) (media : Media) (w : Nat) : Prop :=
  ∀ a ∈ span.window w, media a = prescribed pat span a

/-- What the sink is shown of a window. -/
def windowRead (pat : PatternSource) (span : LbaSpan) (media : Media) (w : Nat) :
    StreamVerifier.WindowRead :=
  let data := media.slice (w * span.windowBytes) (span.windowLen w)
  ⟨w, data = pat.fill w (span.windowLen w), data⟩

/-- The windows of a sample, in increasing order. -/
def sampledWindows (span : LbaSpan) (stride : Nat) : List Nat :=
  (List.range span.totalWindows).filter fun w => max stride 1 ∣ w

theorem windowIsSampled_iff (w stride : Nat) :
    LbaSpan.windowIsSampled w (max stride 1) = true ↔ max stride 1 ∣ w := by
  unfold LbaSpan.windowIsSampled
  rw [Bool.or_eq_true, decide_eq_true_iff, decide_eq_true_iff, ← Nat.dvd_iff_mod_eq_zero]
  refine ⟨fun h => h.elim (fun hone => ?_) id, Or.inr⟩
  rw [show max stride 1 = 1 by omega]
  exact Nat.one_dvd w

/-- A window is shown as valid exactly when each of its bytes is the prescribed one. -/
theorem windowRead_valid_iff {pat : PatternSource} {span : LbaSpan} {media : Media} {w : Nat} :
    (windowRead pat span media w).isValid = true ↔ WindowHolds pat span media w := by
  have hlen := pat.fill_length w (span.windowLen w)
  have hslice := @Media.slice_eq_iff media (w * span.windowBytes) (pat.fill w (span.windowLen w))
  rw [hlen] at hslice
  rw [windowRead, decide_eq_true_iff, hslice]
  constructor
  · intro h a ha
    have hbyte := h (a - w * span.windowBytes) (by
      obtain ⟨hlo, hhi⟩ := ha
      omega)
    rw [prescribed_of_mem_window ha, ← hbyte, Nat.add_sub_cancel' ha.1]
  · intro h i hi
    have ha : w * span.windowBytes + i ∈ span.window w := ⟨by omega, by omega⟩
    rw [h _ ha, prescribed_of_mem_window ha, Nat.add_sub_cancel_left]

namespace SyncEngine

variable {eng : SyncEngine} {env : CallEnv}

/-! ## Reading -/

/-- **The `pread` loop returns the window**, in however many pieces. Induction on the answers;
what has been read is a slice of the medium all along. -/
theorem preadAll_total (media : Media) (span : LbaSpan) (offset len : Nat)
    {rs : List SysResult} {got : Nat} (hgot : got ≤ len) (h : Transfers (len - got) rs) :
    preadAll media span offset len rs (media.slice offset got) = .ok (media.slice offset len) := by
  induction rs generalizing got with
  | nil =>
    unfold preadAll
    rw [Media.slice_length]
    by_cases hlen : len ≤ got
    · rw [if_pos hlen, Nat.le_antisymm hgot hlen]
    · rw [show len - got = (len - got - 1) + 1 by omega] at h
      exact h.elim
  | cons r rs ih =>
    unfold preadAll
    rw [Media.slice_length]
    by_cases hlen : len ≤ got
    · rw [if_pos hlen, Nat.le_antisymm hgot hlen]
    · rw [if_neg hlen]
      rw [show len - got = (len - got - 1) + 1 by omega] at h
      match r, h with
      | .interrupted, h =>
        apply ih hgot
        rw [show len - got = (len - got - 1) + 1 by omega]
        exact h
      | .done (n + 1), h =>
        show preadAll media span offset len rs
          (media.slice offset got ++ media.slice (offset + got) (min (n + 1) (len - got))) = _
        rw [Media.slice_append]
        apply ih (by omega)
        rw [show len - (got + min (n + 1) (len - got)) = len - got - 1 - n by omega]
        exact h

/-- No cancellation is seen, and the answers move every window. -/
def ReadsThrough (env : CallEnv) (span : LbaSpan) : Prop :=
  ∀ w < span.totalWindows,
    env.cancelled w = false ∧ Transfers (span.windowLen w) (env.pread w)

/-- **Step lemma**: a turn shows the sink its window if the window is in the sample, and
nothing otherwise. -/
theorem readWindow_eq {ks : Keystream} {pat : PatternSource} (hpat : Materialized ks pat)
    {span : LbaSpan} (h : ReadsThrough env span) (hbuffer : span.windowLen 0 ≤ eng.bufferLen)
    (media : Media) (stride : Nat) {w : Nat} (hw : w < span.totalWindows) :
    eng.readWindow env media pat span (max stride 1) w
      = .ok (some (if max stride 1 ∣ w then [windowRead pat span media w] else [])) := by
  obtain ⟨hcancel, htransfer⟩ := h w hw
  obtain ⟨hrange, hpos⟩ := span.windowByteRange_of_lt hw
  have hfits := span.windowLen_le_first w
  have hexpected : expectedData pat span w (span.windowLen w) = pat.fill w (span.windowLen w) := by
    unfold expectedData
    split
    · next hinv => exact hpat.fill_take hinv (span.windowLen_le w) w
    · rfl
  have hread := preadAll_total media span (w * span.windowBytes) (span.windowLen w)
    (Nat.zero_le _) htransfer
  unfold readWindow
  rw [if_neg (by simp [hcancel])]
  by_cases hsampled : max stride 1 ∣ w
  · rw [if_neg (not_not_intro ((windowIsSampled_iff w stride).mpr hsampled)), hrange,
      if_pos hsampled]
    dsimp only
    rw [if_neg (by omega), if_neg (by unfold LbaSpan.windowLen at *; omega)]
    unfold LbaSpan.windowLen at hread hexpected
    rw [show ([] : Bytes) = media.slice (w * span.windowBytes) 0 from rfl, hread]
    dsimp only
    rw [hexpected]
    rfl
  · rw [if_pos (fun h => hsampled ((windowIsSampled_iff w stride).mp h)), if_neg hsampled]

/-- **Run lemma**: the loop from `w` shows the sink the sampled windows from `w` on, in
order. -/
theorem readLoop_eq {ks : Keystream} {pat : PatternSource} (hpat : Materialized ks pat)
    {span : LbaSpan} (h : ReadsThrough env span) (hbuffer : span.windowLen 0 ≤ eng.bufferLen)
    (media : Media) (stride : Nat) {n w : Nat} (reads : List StreamVerifier.WindowRead)
    (hn : w + n = span.totalWindows) :
    eng.readLoop env media pat span (max stride 1) n w reads
      = (.ok (), reads ++ ((List.range' w n).filter fun v => max stride 1 ∣ v).map
          (windowRead pat span media)) := by
  induction n generalizing w reads with
  | zero => simp [readLoop]
  | succ n ih =>
    rw [readLoop, readWindow_eq hpat h hbuffer media stride (by omega), List.range'_succ]
    dsimp only
    rw [ih _ (by omega)]
    by_cases hsampled : max stride 1 ∣ w
    · rw [if_pos hsampled, List.filter_cons_of_pos (by simpa using hsampled), List.map_cons,
        List.append_assoc, List.singleton_append]
    · rw [if_neg hsampled, List.filter_cons_of_neg (by simpa using hsampled), List.append_nil]

/-- **A read-back that is let through** shows the sink the sampled windows of the medium. -/
theorem readVerify_eq {ks : Keystream} {pat : PatternSource} (hpat : Materialized ks pat)
    {span : LbaSpan} (h : ReadsThrough env span) (hbuffer : span.windowLen 0 ≤ eng.bufferLen)
    (media : Media) (stride : Nat) :
    eng.readVerify env media pat span stride
      = (.ok (), (sampledWindows span stride).map (windowRead pat span media)) := by
  rw [readVerify, readLoop_eq hpat h hbuffer media stride [] (Nat.zero_add _), sampledWindows,
    List.range_eq_range', List.nil_append]

/-- A pass that returns had a buffer for each of its windows. -/
theorem bufferLen_of_writePass {passIndex : UInt8} {pat : PatternSource}
    {span : LbaSpan} {poll : Nat} {trace trace' : Trace} {outcome : PassOutcome}
    (h : eng.writePass env passIndex pat span 0 poll trace = (.ok outcome, trace')) :
    span.windowLen 0 ≤ eng.bufferLen := by
  by_cases hwindows : 0 < span.totalWindows
  · obtain ⟨n, hn⟩ := Nat.exists_eq_succ_of_ne_zero (Nat.pos_iff_ne_zero.mp hwindows)
    unfold writePass at h
    rw [Nat.sub_zero, hn, writeLoop] at h
    cases hturn : eng.writeWindow env passIndex pat span poll 0 trace with
    | mk result trace₁ =>
      rw [hturn] at h
      cases result with
      | ok len =>
        obtain ⟨hlen, hbuffer, -⟩ := writeWindow_overwrites hturn hwindows
        exact hlen ▸ hbuffer
      | err e => cases h
      | panic => cases h
      | blocked => cases h
  · rw [span.totalWindows_pos_iff] at hwindows
    unfold LbaSpan.windowLen
    omega

/-! ## Write, then verify -/

/-- **Complete in both directions**: a pass from window 0 that returns has put the prescribed
bytes on the whole span and nothing beyond it. A read-back of that medium then shows each
sampled window once, in increasing order, and valid. On any medium, a sampled window is shown
as valid exactly when each of its bytes is the prescribed one. -/
theorem write_then_verify {ks : Keystream} {pat : PatternSource} (hpat : Materialized ks pat)
    (eng : SyncEngine) (env readEnv : CallEnv) (passIndex : UInt8) (span : LbaSpan)
    (stride : Nat) (media : Media) {outcome : PassOutcome} {trace : Trace}
    (hwrite : eng.writePass env passIndex pat span 0 0 [] = (.ok outcome, trace))
    (hread : ReadsThrough readEnv span) :
    ((∀ a < span.totalBytes, applyTrace trace media a = prescribed pat span a)
        ∧ ∀ a, span.totalBytes ≤ a → applyTrace trace media a = media a)
      ∧ (∃ reads, eng.readVerify readEnv (applyTrace trace media) pat span stride
            = (.ok (), reads)
          ∧ reads.map (·.index) = sampledWindows span stride
          ∧ ∀ r ∈ reads, r.isValid = true)
      ∧ ∀ media', ∃ reads, eng.readVerify readEnv media' pat span stride = (.ok (), reads)
          ∧ reads.map (·.index) = sampledWindows span stride
          ∧ ∀ r ∈ reads, r.isValid = true ↔ WindowHolds pat span media' r.index := by
  have hbuffer := bufferLen_of_writePass hwrite
  obtain ⟨-, -, hcontent⟩ := writePass_overwrites hpat hwrite
  have hinside : ∀ a < span.totalBytes, applyTrace trace media a = prescribed pat span a :=
    fun a ha => (hcontent media).inside a ⟨by omega, ha⟩
  have hshown : ∀ media', ∃ reads,
      eng.readVerify readEnv media' pat span stride = (.ok (), reads)
        ∧ reads.map (·.index) = sampledWindows span stride
        ∧ ∀ r ∈ reads, r.isValid = true ↔ WindowHolds pat span media' r.index := by
    intro media'
    refine ⟨_, readVerify_eq hpat hread hbuffer media' stride, ?_, ?_⟩
    · rw [List.map_map]
      exact List.map_id _
    · intro r hr
      obtain ⟨w, -, rfl⟩ := List.mem_map.mp hr
      exact windowRead_valid_iff
  refine ⟨⟨hinside, fun a ha => (hcontent media).outside a fun h => ?_⟩, ?_, hshown⟩
  · exact absurd h.2 (Nat.not_lt.mpr ha)
  · obtain ⟨reads, hreads, hindices, hvalid⟩ := hshown (applyTrace trace media)
    refine ⟨reads, hreads, hindices, fun r hr => (hvalid r hr).mpr fun a ha => ?_⟩
    exact hinside a (LbaSpan.mem_window_iff.mp ha).1

/-! ### A span that ends inside a window

Two windows, the second of 904 bytes; every transfer is interrupted once and then comes in
pieces. -/

def brokenTransfers : List SysResult := [.done 100, .interrupted, .done 3000, .done 4096]

def brokenEnv : CallEnv where
  cancelled _ := false
  pwrite _ := brokenTransfers
  pread _ := brokenTransfers
  zeroout _ := .ok
  fsync := none
  durationMs := 0

def shortSpan : LbaSpan := LbaSpan.new 5000 512 4096

/-- Three pieces with an interruption behind the first. -/
theorem transfers_pieces {need a b c : Nat} (ha : 0 < a) (hb : 0 < b) (hc : 0 < c)
    (h : need ≤ a + b + c) : Transfers need [.done a, .interrupted, .done b, .done c] := by
  have hlast : Transfers (need - a - b - c) [] := Transfers.of_eq_zero (by omega) []
  have hpieces : Transfers (need - a) [.done b, .done c] := (hlast.done hc).done hb
  exact hpieces.interrupted.done ha

theorem brokenTransfers_transfers {need : Nat} (h : need ≤ 4096) :
    Transfers need brokenTransfers :=
  transfers_pieces (by decide) (by decide) (by decide) (by omega)

theorem zeros_length (_ : Block 32) (_ : Bytes) (n : Nat) :
    (List.replicate n (0 : UInt8)).length = n := List.length_replicate

def zeroKeystream : Keystream where
  bytes _ _ n := List.replicate n 0
  bytes_length := zeros_length

theorem write_then_verify_sample :
    ∃ outcome trace,
      (SyncEngine.mk 4096 false).writePass brokenEnv 0 (fixedPattern 0xAA) shortSpan 0 0 []
          = (.ok outcome, trace)
        ∧ (∀ a < 5000, applyTrace trace (fun _ => 0) a
            = prescribed (fixedPattern 0xAA) shortSpan a)
        ∧ ∃ reads, (SyncEngine.mk 4096 false).readVerify brokenEnv
            (applyTrace trace fun _ => 0) (fixedPattern 0xAA) shortSpan 1 = (.ok (), reads)
          ∧ reads.map (·.index) = [0, 1] ∧ ∀ r ∈ reads, r.isValid = true := by
  have hlen : ∀ w, shortSpan.windowLen w ≤ 4096 := fun w => shortSpan.windowLen_le w
  have hwrites : WritesThrough brokenEnv shortSpan 0 :=
    ⟨fun _ => rfl, fun w _ _ => brokenTransfers_transfers (hlen w)⟩
  have hreads : ReadsThrough brokenEnv shortSpan :=
    fun w _ => ⟨rfl, brokenTransfers_transfers (hlen w)⟩
  obtain ⟨outcome, trace, hwrite⟩ :=
    @writePass_total ⟨4096, false⟩ brokenEnv shortSpan 0 hwrites (hlen 0) 0 (fixedPattern 0xAA)
      0 0 [] (Nat.le_refl 0)
  have hpat : Materialized zeroKeystream (fixedPattern 0xAA) := .declared (p := .fixed 0xAA) rfl
  obtain ⟨⟨hinside, -⟩, hback, -⟩ :=
    write_then_verify hpat ⟨4096, false⟩ brokenEnv brokenEnv 0 shortSpan 1 (fun _ => 0) hwrite
      hreads
  exact ⟨outcome, trace, hwrite, hinside, hback⟩

end SyncEngine

end DiscCleaner
