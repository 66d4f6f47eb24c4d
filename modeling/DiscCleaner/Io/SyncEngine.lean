import DiscCleaner.Io.Engine
import DiscCleaner.Lib.Media

/-!
# DiscCleaner — the synchronous engine (`sync_engine.rs`)

One `pwrite` at a time, window by window; a zero pass tries `BLKZEROOUT` in chunks first.
What the kernel answers and when a cancellation is seen is the environment of a call; what
the call did to the medium is its trace. Progress reports only feed displays and the thermal
pacer, whose one effect on the engine is to request a cancellation, so they appear as
cancellations of the environment.
-/

namespace DiscCleaner

open ByteLib MediaLib

/-! ## The environment of a call -/

/-- The answer of one `pwrite` or `pread`: `EINTR`, another error, or a byte count. -/
inductive SysResult where
  | interrupted
  | failed (errno : Int)
  | done (n : Nat)
  deriving DecidableEq

/-- The answer of one `BLKZEROOUT`; a failed one leaves its range in any state. -/
inductive ZerooutResult where
  | ok
  | failed (left : Nat → UInt8)

/-- What the kernel and the process do during one engine call. `cancelled n` is what the
`n`-th poll sees; `pwrite w` and `pread w` are the answers while window `w` is transferred,
the call hanging when they run out; `zeroout k` answers for chunk `k`. -/
structure CallEnv where
  cancelled : Nat → Bool
  pwrite : Nat → List SysResult
  pread : Nat → List SysResult
  zeroout : Nat → ZerooutResult
  fsync : Option Int
  durationMs : Nat

structure SyncEngine where
  bufferLen : Nat
  supportsWriteZeroes : Bool

/-- The chunk of a zero pass: 2 GiB. -/
def maxWriteZeroesBytes : Nat := 2 * 1024 * 1024 * 1024

theorem maxWriteZeroesBytes_pos : 0 < maxWriteZeroesBytes := by decide

namespace SyncEngine

variable (eng : SyncEngine) (env : CallEnv)

/-! ## Writing one window -/

/-- The bytes `slice` holds for a window: an invariant source has filled the whole buffer
once, any other fills the window. -/
def windowData (pat : PatternSource) (w len : Nat) : Bytes :=
  if pat.windowInvariant then (pat.fill 0 eng.bufferLen).take len else pat.fill w len

/-- What one `pwrite` puts on the medium; the kernel never takes more than it is offered. -/
def pwriteEvent (data : Bytes) (offset written n : Nat) : Event :=
  .wrote (offset + written) (min n (data.length - written)) fun i => data.getD (written + i) 0

/-- The `pwrite` loop over a window. -/
def pwriteAll (span : LbaSpan) (data : Bytes) (offset : Nat) :
    List SysResult → Nat → Trace → CallResult Unit × Trace
  | [], written, trace =>
    if data.length ≤ written then (.ok (), trace) else (.blocked, trace)
  | r :: rs, written, trace =>
    if data.length ≤ written then (.ok (), trace)
    else
      match r with
      | .interrupted => pwriteAll span data offset rs written trace
      | .failed errno =>
        (.err (.io "pwrite" errno (some (offset / span.logicalBlockSize))), trace)
      | .done 0 =>
        (.err (.io "pwrite" 5 (some ((offset + written) / span.logicalBlockSize))), trace)
      | .done (n + 1) =>
        pwriteAll span data offset rs (written + min (n + 1) (data.length - written))
          (trace ++ [pwriteEvent data offset written (n + 1)])

/-- One turn of the window loop; it returns the bytes written, 0 for the `break`. -/
def writeWindow (passIndex : UInt8) (pat : PatternSource) (span : LbaSpan) (poll w : Nat)
    (trace : Trace) : CallResult Nat × Trace :=
  if env.cancelled poll then (.err (.interrupted (some (passIndex, w - 1))), trace)
  else
    let (offset, len) := span.windowByteRange w
    if len = 0 then (.ok 0, trace)
    else if eng.bufferLen < len then (.panic, trace)
    else
      match pwriteAll span (eng.windowData pat w len) offset (env.pwrite w) 0 trace with
      | (.ok (), trace) => (.ok len, trace)
      | (.err e, trace) => (.err e, trace)
      | (.panic, trace) => (.panic, trace)
      | (.blocked, trace) => (.blocked, trace)

/-- The window loop: how many windows are left, the next poll, the next window, and the bytes
written so far. -/
def writeLoop (passIndex : UInt8) (pat : PatternSource) (span : LbaSpan) :
    Nat → Nat → Nat → Nat → Trace → CallResult Nat × Trace
  | 0, _, _, bytes, trace => (.ok bytes, trace)
  | n + 1, poll, w, bytes, trace =>
    match eng.writeWindow env passIndex pat span poll w trace with
    | (.ok 0, trace) => (.ok bytes, trace)
    | (.ok (len + 1), trace) =>
      writeLoop passIndex pat span n (poll + 1) (w + 1) (bytes + (len + 1)) trace
    | (.err e, trace) => (.err e, trace)
    | (.panic, trace) => (.panic, trace)
    | (.blocked, trace) => (.blocked, trace)

/-- `write_pass`, its polls counted from `poll` and its events put behind `trace`. -/
def writePass (passIndex : UInt8) (pat : PatternSource) (span : LbaSpan)
    (startWindow poll : Nat) (trace : Trace) : CallResult PassOutcome × Trace :=
  match eng.writeLoop env passIndex pat span (span.totalWindows - startWindow) poll startWindow
    0 trace with
  | (.ok bytes, trace) =>
    (.ok
      { windowsWritten := span.totalWindows - startWindow
        bytesWritten := bytes
        fastPathUsed := false
        durationMs := env.durationMs }, trace)
  | (.err e, trace) => (.err e, trace)
  | (.panic, trace) => (.panic, trace)
  | (.blocked, trace) => (.blocked, trace)

/-! ## The zero fast path -/

/-- The chunk loop: chunk `k` starts at `current`. A failed chunk falls back to a buffered
pass from the window the chunk starts in. -/
def zeroLoop (passIndex : UInt8) (span : LbaSpan) (startWindow k current zeroed : Nat)
    (trace : Trace) : CallResult PassOutcome × Trace :=
  if current < span.totalBytes then
    if env.cancelled k then
      (.err (.interrupted (some (passIndex, current / span.windowBytes - 1))), trace)
    else
      let thisChunk := min (span.totalBytes - current) maxWriteZeroesBytes
      match env.zeroout k with
      | .failed left =>
        eng.writePass env passIndex zeroPattern span (current / span.windowBytes) (k + 1)
          (trace ++ [.scrambled current thisChunk left])
      | .ok =>
        zeroLoop passIndex span startWindow (k + 1) (current + thisChunk) (zeroed + thisChunk)
          (trace ++ [.wrote current thisChunk fun _ => 0])
  else
    (.ok
      { windowsWritten := span.totalWindows - startWindow
        bytesWritten := zeroed
        fastPathUsed := true
        durationMs := env.durationMs }, trace)
termination_by span.totalBytes - current
decreasing_by
  have := maxWriteZeroesBytes_pos
  omega

/-- `zero_pass`; the start offset is a wrapping product of machine words. -/
def zeroPass (passIndex : UInt8) (span : LbaSpan) (startWindow : Nat) :
    CallResult PassOutcome × Trace :=
  if eng.supportsWriteZeroes then
    eng.zeroLoop env passIndex span startWindow 0
      (startWindow * span.windowBytes % 2 ^ 64) 0 []
  else eng.writePass env passIndex zeroPattern span startWindow 0 []

/-! ## Reading back -/

/-- The `pread` loop over a window of the medium. -/
def preadAll (media : Media) (span : LbaSpan) (offset len : Nat) :
    List SysResult → Bytes → CallResult Bytes
  | [], data => if len ≤ data.length then .ok data else .blocked
  | r :: rs, data =>
    if len ≤ data.length then .ok data
    else
      match r with
      | .interrupted => preadAll media span offset len rs data
      | .failed errno => .err (.io "pread" errno (some (offset / span.logicalBlockSize)))
      | .done 0 =>
        .err (.io "pread" 5 (some ((offset + data.length) / span.logicalBlockSize)))
      | .done (n + 1) =>
        preadAll media span offset len rs
          (data ++ (List.range (min (n + 1) (len - data.length))).map
            fun i => media (offset + data.length + i))

/-- What a window should hold: the expected buffer has the length of a window. -/
def expectedData (pat : PatternSource) (span : LbaSpan) (w len : Nat) : Bytes :=
  if pat.windowInvariant then (pat.fill 0 span.windowBytes).take len else pat.fill w len

/-- One window of the read-back: what the sink is shown, nothing for a window outside the
sample. The inner `none` is the `break`. -/
def readWindow (media : Media) (pat : PatternSource) (span : LbaSpan) (stride w : Nat) :
    CallResult (Option (List StreamVerifier.WindowRead)) :=
  if env.cancelled w then .err (.interrupted none)
  else if ¬ LbaSpan.windowIsSampled w stride then .ok (some [])
  else
    let (offset, len) := span.windowByteRange w
    if len = 0 then .ok none
    else if eng.bufferLen < len then .panic
    else
      match preadAll media span offset len (env.pread w) [] with
      | .ok data => .ok (some [⟨w, data = expectedData pat span w len, data⟩])
      | .err e => .err e
      | .panic => .panic
      | .blocked => .blocked

def readLoop (media : Media) (pat : PatternSource) (span : LbaSpan) (stride : Nat) :
    Nat → Nat → List StreamVerifier.WindowRead →
      CallResult Unit × List StreamVerifier.WindowRead
  | 0, _, reads => (.ok (), reads)
  | n + 1, w, reads =>
    match eng.readWindow env media pat span stride w with
    | .ok none => (.ok (), reads)
    | .ok (some more) => readLoop media pat span stride n (w + 1) (reads ++ more)
    | .err e => (.err e, reads)
    | .panic => (.panic, reads)
    | .blocked => (.blocked, reads)

def readVerify (media : Media) (pat : PatternSource) (span : LbaSpan) (stride : Nat) :
    CallResult Unit × List StreamVerifier.WindowRead :=
  eng.readLoop env media pat span (max stride 1) span.totalWindows 0 []

def flush : CallResult Unit :=
  match env.fsync with
  | none => .ok ()
  | some errno => .err (.io "fsync" errno none)

/-! ## The engine on a device -/

/-- A device under the engine: its medium and how many calls have been made. -/
structure Device where
  media : Media
  calls : Nat

/-- The engine as callers see it; `envs n` is the environment of the `n`-th call. -/
def toEngine (envs : Nat → CallEnv) : Engine Device where
  writePass passIndex pat span startWindow dev :=
    let (result, trace) :=
      eng.writePass (envs dev.calls) passIndex pat span startWindow 0 []
    (result, ⟨applyTrace trace dev.media, dev.calls + 1⟩)
  zeroPass passIndex span startWindow dev :=
    let (result, trace) := eng.zeroPass (envs dev.calls) passIndex span startWindow
    (result, ⟨applyTrace trace dev.media, dev.calls + 1⟩)
  readVerify pat span stride dev :=
    let (result, reads) := eng.readVerify (envs dev.calls) dev.media pat span stride
    (result, reads, ⟨dev.media, dev.calls + 1⟩)
  flush dev := (flush (envs dev.calls), ⟨dev.media, dev.calls + 1⟩)

end SyncEngine

end DiscCleaner
