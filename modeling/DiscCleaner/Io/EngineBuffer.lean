import DiscCleaner.Io.ZeroFastPath

/-!
# DiscCleaner — the buffer an engine gets (`buffer_pool.rs`, `sync_engine.rs`, `execute.rs`)

A run builds its span and its engine from the same plan. The span raises a small window to 4096
bytes; the buffer has the window of the plan as it stands.

* **`windowByteRange_le_first`** — no window is longer than window 0, a saturated one included.
* **`SyncEngine.writePass_noUnwind`**, **`zeroPass_noUnwind`**, **`readVerify_noUnwind`** — the
  passes of an engine whose buffer holds window 0.
* **`neverFaults_iff`** — what the plan and the device have to satisfy.
-/

namespace DiscCleaner

open ByteLib MediaLib ProgLib

/-! ## Building the engine -/

/-- `AlignedBuffer::allocate` with an alignment of 4096: the length of the buffer. `granted` tells
for which capacities the allocator has memory. -/
def AlignedBuffer.allocate (granted : Nat → Bool) (size : Nat) : Option Nat :=
  if size = 0 then none
  else
    let v := size + (4096 - 1)
    -- `checked_add`
    if 2 ^ 64 ≤ v then none
    else if granted (v - v % 4096) then some size
    else none

def SyncEngine.new (granted : Nat → Bool) (windowBytes : Nat) (supportsWriteZeroes : Bool) :
    Option SyncEngine :=
  (AlignedBuffer.allocate granted windowBytes).map fun bufferLen => ⟨bufferLen, supportsWriteZeroes⟩

/-- `UringEngine::try_new`: every call is passed on to a synchronous engine, whether the kernel
offers the rings or not. -/
def UringEngine.tryNew (granted : Nat → Bool) (windowBytes : Nat) (supportsWriteZeroes : Bool) :
    Option SyncEngine :=
  SyncEngine.new granted windowBytes supportsWriteZeroes

/-- `create_engine`; the allocator is asked again after a refusal. -/
def createEngine (granted again : Nat → Bool) (windowBytes : Nat) (supportsWriteZeroes : Bool) :
    Option SyncEngine :=
  match UringEngine.tryNew granted windowBytes supportsWriteZeroes with
  | some uring => some uring
  | none => SyncEngine.new again windowBytes supportsWriteZeroes

inductive EngineChoice where
  | sync
  | uring
  | auto
  deriving DecidableEq

/-- The engine of `execute_device_inner`. -/
def executeEngine (granted again : Nat → Bool) (choice : EngineChoice) (planWindowBytes : Nat)
    (supportsWriteZeroes : Bool) : Option SyncEngine :=
  match choice with
  | .sync => SyncEngine.new granted planWindowBytes supportsWriteZeroes
  | .uring => UringEngine.tryNew granted planWindowBytes supportsWriteZeroes
  | .auto => createEngine granted again planWindowBytes supportsWriteZeroes

theorem AlignedBuffer.eq_of_allocate {granted : Nat → Bool} {size len : Nat}
    (h : AlignedBuffer.allocate granted size = some len) : len = size := by
  unfold allocate at h
  split at h
  · cases h
  · dsimp only at h
    split at h
    · cases h
    · split at h
      · exact (Option.some.inj h).symm
      · cases h

theorem SyncEngine.bufferLen_of_new {granted : Nat → Bool} {windowBytes : Nat} {zeroes : Bool}
    {eng : SyncEngine} (h : SyncEngine.new granted windowBytes zeroes = some eng) :
    eng.bufferLen = windowBytes := by
  obtain ⟨len, hlen, rfl⟩ := Option.map_eq_some_iff.mp h
  exact AlignedBuffer.eq_of_allocate hlen

/-- Whatever the choice, the buffer has the window of the plan. -/
theorem bufferLen_of_executeEngine {granted again : Nat → Bool} {choice : EngineChoice}
    {planWindowBytes : Nat} {zeroes : Bool} {eng : SyncEngine}
    (h : executeEngine granted again choice planWindowBytes zeroes = some eng) :
    eng.bufferLen = planWindowBytes := by
  cases choice with
  | sync => exact SyncEngine.bufferLen_of_new h
  | uring => exact SyncEngine.bufferLen_of_new h
  | auto =>
    simp only [executeEngine, createEngine] at h
    split at h
    · next huring =>
      cases h
      exact SyncEngine.bufferLen_of_new huring
    · exact SyncEngine.bufferLen_of_new h

/-! ## Windows and buffers -/

/-- No window is longer than the first. -/
theorem LbaSpan.windowByteRange_le_first (span : LbaSpan) (w : Nat) :
    (span.windowByteRange w).2 ≤ span.windowLen 0 := by
  unfold windowByteRange windowLen
  simp only
  omega

theorem LbaSpan.windowByteRange_le (span : LbaSpan) (w : Nat) :
    (span.windowByteRange w).2 ≤ span.windowBytes :=
  (span.windowByteRange_le_first w).trans (span.windowLen_le 0)

/-- A call that ends in any other way than by unwinding. -/
def NoUnwind {α : Type} : CallResult α → Prop
  | .panic => False
  | _ => True

@[simp] theorem noUnwind_ok {α : Type} (a : α) : NoUnwind (.ok a) := trivial

@[simp] theorem noUnwind_err {α : Type} (e : DcError) : NoUnwind (.err e : CallResult α) :=
  trivial

@[simp] theorem noUnwind_blocked {α : Type} : NoUnwind (.blocked : CallResult α) := trivial

theorem NoUnwind.ne_panic {α : Type} {r : CallResult α} (h : NoUnwind r) : r ≠ .panic := by
  rintro rfl
  exact h

namespace SyncEngine

variable {eng : SyncEngine} {env : CallEnv} {span : LbaSpan}

theorem pwriteAll_noUnwind (data : Bytes) (offset : Nat) (rs : List SysResult) (written : Nat)
    (trace : Trace) : NoUnwind (pwriteAll span data offset rs written trace).1 := by
  induction rs generalizing written trace with
  | nil =>
    unfold pwriteAll
    split <;> simp
  | cons r rs ih =>
    unfold pwriteAll
    split
    · simp
    · split
      · exact ih ..
      · simp
      · simp
      · exact ih ..

/-- **Step lemma**: a turn of the window loop unwinds only at a window the buffer cannot hold. -/
theorem writeWindow_noUnwind (hfit : span.windowLen 0 ≤ eng.bufferLen) (passIndex : UInt8)
    (pat : PatternSource) (poll w : Nat) (trace : Trace) :
    NoUnwind (eng.writeWindow env passIndex pat span poll w trace).1 := by
  have hlen := (span.windowByteRange_le_first w).trans hfit
  unfold writeWindow
  split
  · simp
  · dsimp only
    rw [if_neg (Nat.not_lt.mpr hlen)]
    split
    · simp
    · split
      · simp
      · simp
      · next hpwrite => exact absurd (congrArg Prod.fst hpwrite) (pwriteAll_noUnwind ..).ne_panic
      · simp

/-- **Run lemma**, by induction on the windows left. -/
theorem writeLoop_noUnwind (hfit : span.windowLen 0 ≤ eng.bufferLen) (passIndex : UInt8)
    (pat : PatternSource) (n poll w bytes : Nat) (trace : Trace) :
    NoUnwind (eng.writeLoop env passIndex pat span n poll w bytes trace).1 := by
  induction n generalizing poll w bytes trace with
  | zero => simp [writeLoop]
  | succ n ih =>
    unfold writeLoop
    split
    · simp
    · exact ih ..
    · simp
    · next hturn => exact absurd (congrArg Prod.fst hturn) (writeWindow_noUnwind hfit ..).ne_panic
    · simp

theorem writePass_noUnwind (hfit : span.windowLen 0 ≤ eng.bufferLen) (passIndex : UInt8)
    (pat : PatternSource) (startWindow poll : Nat) (trace : Trace) :
    NoUnwind (eng.writePass env passIndex pat span startWindow poll trace).1 := by
  unfold writePass
  split
  · simp
  · simp
  · next hloop => exact absurd (congrArg Prod.fst hloop) (writeLoop_noUnwind hfit ..).ne_panic
  · simp

/-- The chunk loop touches the buffer where it falls back. Induction along its recursion. -/
theorem zeroLoop_noUnwind (hfit : span.windowLen 0 ≤ eng.bufferLen) (passIndex : UInt8)
    (startWindow k current zeroed : Nat) (trace : Trace) :
    NoUnwind (eng.zeroLoop env passIndex span startWindow k current zeroed trace).1 := by
  fun_induction zeroLoop eng env passIndex span startWindow k current zeroed trace with
  | case1 => simp
  | case2 => exact writePass_noUnwind hfit ..
  | case3 _ _ _ _ _ _ _ _ ih => exact ih
  | case4 => simp

theorem zeroPass_noUnwind (hfit : span.windowLen 0 ≤ eng.bufferLen) (passIndex : UInt8)
    (startWindow : Nat) : NoUnwind (eng.zeroPass env passIndex span startWindow).1 := by
  unfold zeroPass
  split
  · exact zeroLoop_noUnwind hfit ..
  · exact writePass_noUnwind hfit ..

theorem preadAll_noUnwind (media : Media) (offset len : Nat) (rs : List SysResult) (data : Bytes) :
    NoUnwind (preadAll media span offset len rs data) := by
  induction rs generalizing data with
  | nil =>
    unfold preadAll
    split <;> simp
  | cons r rs ih =>
    unfold preadAll
    split
    · simp
    · split
      · exact ih ..
      · simp
      · simp
      · exact ih ..

theorem readWindow_noUnwind (hfit : span.windowLen 0 ≤ eng.bufferLen) (media : Media)
    (pat : PatternSource) (stride w : Nat) :
    NoUnwind (eng.readWindow env media pat span stride w) := by
  have hlen := (span.windowByteRange_le_first w).trans hfit
  unfold readWindow
  split
  · simp
  · split
    · simp
    · dsimp only
      rw [if_neg (Nat.not_lt.mpr hlen)]
      split
      · simp
      · split
        · simp
        · simp
        · next hpread => exact absurd hpread (preadAll_noUnwind ..).ne_panic
        · simp

theorem readLoop_noUnwind (hfit : span.windowLen 0 ≤ eng.bufferLen) (media : Media)
    (pat : PatternSource) (stride n w : Nat) (reads : List StreamVerifier.WindowRead) :
    NoUnwind (eng.readLoop env media pat span stride n w reads).1 := by
  induction n generalizing w reads with
  | zero => simp [readLoop]
  | succ n ih =>
    unfold readLoop
    split
    · simp
    · exact ih ..
    · simp
    · next hturn => exact absurd hturn (readWindow_noUnwind hfit ..).ne_panic
    · simp

theorem readVerify_noUnwind (hfit : span.windowLen 0 ≤ eng.bufferLen) (media : Media)
    (pat : PatternSource) (stride : Nat) :
    NoUnwind (eng.readVerify env media pat span stride).1 :=
  readLoop_noUnwind hfit media pat (max stride 1) span.totalWindows 0 []

/-- A buffered pass that nobody cancels slices window 0 first. -/
theorem writePass_unwinds (hshort : eng.bufferLen < span.windowLen 0)
    (hpoll : env.cancelled 0 = false) (passIndex : UInt8) (pat : PatternSource) :
    ¬NoUnwind (eng.writePass env passIndex pat span 0 0 []).1 := by
  have hpos : 0 < span.windowLen 0 := by omega
  have htotal : 0 < span.totalBytes := by
    unfold LbaSpan.windowLen at hpos
    omega
  have hwindow : 0 < span.totalWindows := span.totalWindows_pos_iff.mpr htotal
  obtain ⟨windows, hwindows⟩ : ∃ windows, span.totalWindows - 0 = windows + 1 :=
    ⟨span.totalWindows - 1, by omega⟩
  have hturn : eng.writeWindow env passIndex pat span 0 0 [] = (.panic, []) := by
    have hlen : (span.windowByteRange 0).2 = span.windowLen 0 := by
      rw [(span.windowByteRange_of_lt hwindow).1]
      rfl
    unfold writeWindow
    rw [hpoll]
    simp only [Bool.false_eq_true, if_false]
    rw [if_neg (by omega), if_pos (hlen ▸ hshort)]
  rw [writePass, hwindows, writeLoop, hturn]
  exact id

end SyncEngine

/-! ## Plans and devices -/

/-- No call of the engine slices past a buffer or divides by zero, whatever the kernel answers and
wherever a pass starts. The second buffer of a read-back has the window of the span; the divisors
are the block size, the window and the stride, which is at least 1. -/
structure NeverFaults (span : LbaSpan) (eng : SyncEngine) : Prop where
  writePass : ∀ env passIndex pat startWindow,
    NoUnwind (eng.writePass env passIndex pat span startWindow 0 []).1
  zeroPass : ∀ env passIndex startWindow,
    NoUnwind (eng.zeroPass env passIndex span startWindow).1
  readVerify : ∀ env media pat stride, NoUnwind (eng.readVerify env media pat span stride).1
  expected : ∀ w, (span.windowByteRange w).2 ≤ span.windowBytes
  divisors : span.logicalBlockSize ≠ 0 ∧ span.windowBytes ≠ 0

theorem windowLen_new {sizeBytes planWindowBytes : Nat} (logicalBlockSize : Nat)
    (hsize : sizeBytes < 2 ^ 64) (hplan : planWindowBytes < 2 ^ 64) :
    (LbaSpan.new sizeBytes logicalBlockSize planWindowBytes).windowLen 0
      = min sizeBytes (max planWindowBytes 4096) := by
  have htotal : (LbaSpan.new sizeBytes logicalBlockSize planWindowBytes).totalBytes = sizeBytes :=
    Nat.mod_eq_of_lt hsize
  have hwindow : (LbaSpan.new sizeBytes logicalBlockSize planWindowBytes).windowBytes
      = max planWindowBytes 4096 := congrArg (max · 4096) (Nat.mod_eq_of_lt hplan)
  rw [LbaSpan.windowLen, htotal, hwindow, Nat.zero_mul, Nat.sub_zero]

/-- **The buffer fits the windows** exactly when the plan's window has 4096 bytes or the whole
device. -/
theorem neverFaults_iff {granted again : Nat → Bool} {choice : EngineChoice}
    {sizeBytes logicalBlockSize planWindowBytes : Nat} {zeroes : Bool} {eng : SyncEngine}
    (hsize : sizeBytes < 2 ^ 64) (hplan : planWindowBytes < 2 ^ 64)
    (h : executeEngine granted again choice planWindowBytes zeroes = some eng) :
    NeverFaults (LbaSpan.new sizeBytes logicalBlockSize planWindowBytes) eng ↔
      min sizeBytes 4096 ≤ planWindowBytes := by
  have hbuffer := bufferLen_of_executeEngine h
  have hfirst := windowLen_new logicalBlockSize hsize hplan
  generalize LbaSpan.new sizeBytes logicalBlockSize planWindowBytes = span at hfirst ⊢
  constructor
  · intro hnever
    by_contra hshort
    exact SyncEngine.writePass_unwinds (by omega) rfl 0 zeroPattern
      (hnever.writePass (SyncEngine.openEnv (fun _ => .ok) span) 0 zeroPattern 0)
  · intro hwindow
    have hfit : span.windowLen 0 ≤ eng.bufferLen := by omega
    have hblock := span.logicalBlockSize_ge
    have hpos := span.windowBytes_pos
    exact {
      writePass _ passIndex pat startWindow :=
        SyncEngine.writePass_noUnwind hfit passIndex pat startWindow 0 []
      zeroPass _ passIndex startWindow := SyncEngine.zeroPass_noUnwind hfit passIndex startWindow
      readVerify _ media pat stride := SyncEngine.readVerify_noUnwind hfit media pat stride
      expected := span.windowByteRange_le
      divisors := ⟨by omega, by omega⟩ }

/-- The smallest disk that may be wiped, and the default window of 2 MiB. -/
theorem neverFaults_default :
    NeverFaults (LbaSpan.new (2 ^ 20) 512 (2 * 1024 * 1024)) ⟨2 * 1024 * 1024, false⟩ :=
  (@neverFaults_iff (fun _ => true) (fun _ => true) .auto (2 ^ 20) 512 (2 * 1024 * 1024) false _
    (by decide) (by decide) (by rfl)).mpr (by decide)

def oneBlockSpan : LbaSpan := LbaSpan.new (2 ^ 20) 512 512

/-- A plan with windows of one block, on the same disk: the first write slices 4096 bytes of a
buffer of 512. -/
theorem one_block_window_faults :
    executeEngine (fun _ => true) (fun _ => true) .auto 512 false = some ⟨512, false⟩ ∧
      ¬NeverFaults oneBlockSpan ⟨512, false⟩ :=
  ⟨by rfl, fun hnever => SyncEngine.writePass_unwinds (by decide) rfl 0 zeroPattern
    (hnever.writePass (SyncEngine.openEnv (fun _ => .ok) oneBlockSpan) 0 zeroPattern 0)⟩

end DiscCleaner
