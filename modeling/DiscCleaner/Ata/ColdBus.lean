import DiscCleaner.Lib.Transition
import DiscCleaner.Lib.Dialogue

/-!
# DiscCleaner — the cold-bus ladder (`coldbus.rs`)

A frozen drive is detached and found again by a host rescan, then its port is sent through a runtime
suspend; after each rung the drive is asked whether it is still frozen. Sysfs and the drive answer
as they like. The port is switched to `auto` before its status is read, and back to `on` only if the
status says that it is suspended.

* **`attemptColdUnfreeze`** — the ladder, as requests and what it makes of the answers.
* **`lunRung_ends`**, **`pmRung_ends`** — the ways a rung can go.
* **`ladder_restores_iff`** — what the ladder records, decides and leaves behind.
-/

namespace DiscCleaner

namespace ColdBus

open DialogueLib CustodyLib

/-! ## Sysfs and the drive -/

inductive Request where
  | readLink (path : String)
  | write (path value : String)
  | read (path : String)
  | recheck
  deriving DecidableEq

/-- An answer, read at the type of its request: the text of a link or an attribute, whether a write
was taken, whether the drive is still frozen. -/
structure Answer where
  text : Except String String
  written : Except String Unit
  frozen : Except String Bool

abbrev SysfsExchange : Type := Exchange Request Answer

/-- `sysfs.write_str`. -/
def writeStr {α : Type} (path value : String)
    (next : Except String Unit → Dialogue Request Answer α) : Dialogue Request Answer α :=
  .ask (.write path value) fun a => next a.written

/-- `sysfs.read_str`. -/
def readStr {α : Type} (path : String)
    (next : Except String String → Dialogue Request Answer α) : Dialogue Request Answer α :=
  .ask (.read path) fun a => next a.text

/-- `sysfs.read_link`. -/
def readLink {α : Type} (path : String)
    (next : Except String String → Dialogue Request Answer α) : Dialogue Request Answer α :=
  .ask (.readLink path) fun a => next a.text

/-- `recheck()`. -/
def recheck {α : Type} (next : Except String Bool → Dialogue Request Answer α) :
    Dialogue Request Answer α :=
  .ask .recheck fun a => next a.frozen

section ends

variable {α : Type} {es : List SysfsExchange} {out : α}

theorem ends_writeStr {path value : String} {next : Except String Unit → Dialogue Request Answer α} :
    (writeStr path value next).Ends es out ↔
      ∃ a es', es = ⟨.write path value, a⟩ :: es' ∧ (next a.written).Ends es' out :=
  Dialogue.ends_ask

theorem ends_readStr {path : String} {next : Except String String → Dialogue Request Answer α} :
    (readStr path next).Ends es out ↔
      ∃ a es', es = ⟨.read path, a⟩ :: es' ∧ (next a.text).Ends es' out := Dialogue.ends_ask

theorem ends_recheck {next : Except String Bool → Dialogue Request Answer α} :
    (recheck next).Ends es out ↔
      ∃ a es', es = ⟨.recheck, a⟩ :: es' ∧ (next a.frozen).Ends es' out := Dialogue.ends_ask

end ends

/-! ## The device chain -/

/-- `link.components()`, by name. -/
def components (link : String) : List String :=
  ((link.toList.splitOn '/').filter (· ≠ [])).map String.ofList

/-- The prefix, then digits only. -/
def isNumbered (start name : String) : Bool :=
  start.toList.isPrefixOf name.toList && (name.toList.drop start.length).all Char.isDigit

/-- The last component of a link that is the prefix with a number. -/
def lastNumbered (start link : String) : Option String :=
  (components link).foldl (fun found name => if isNumbered start name then some name else found) none

/-- The component of the device chain of a block device, or why there is none. -/
def resolve (start : String) (missing : String → String) (blockName : String) {α : Type}
    (next : Except String String → Dialogue Request Answer α) : Dialogue Request Answer α :=
  readLink ("/sys/block/" ++ blockName) fun
    | .error e => next (.error e)
    | .ok link =>
      match lastNumbered start link with
      | some name => next (.ok name)
      | none => next (.error (missing link))

def resolveScsiHost (blockName : String) {α : Type} :
    (Except String String → Dialogue Request Answer α) → Dialogue Request Answer α :=
  resolve "host" (fun link => "no scsi_host component in the device chain of /sys/block/"
    ++ blockName ++ " (" ++ link ++ ")") blockName

def resolveAtaPort (blockName : String) {α : Type} :
    (Except String String → Dialogue Request Answer α) → Dialogue Request Answer α :=
  resolve "ata" (fun link => "no ata_port component in the device chain of /sys/block/"
    ++ blockName ++ " (" ++ link ++ ") — not a libata device?") blockName

/-! ## The ladder -/

structure ColdBusStepRecord where
  step : String
  sysfsWrites : List (String × String)
  outcome : String
  deriving DecidableEq

inductive ColdBusOutcome where
  | cleared (steps : List ColdBusStepRecord)
  | stillFrozen (steps : List ColdBusStepRecord) (advisory : String)
  deriving DecidableEq

def PHYSICAL_POWER_CYCLE_ADVISORY : String :=
  "Drive is frozen by host firmware/BIOS and survived the cold-bus reset ladder. Power-cycle the " ++
  "drive WITHOUT letting firmware re-freeze (hot-plug the drive, or attach it to a controller " ++
  "that does not assert freeze-lock at power-on), then retry the purge."

def deletePath (blockName : String) : String := "/sys/block/" ++ blockName ++ "/device/delete"

def scanPath (host : String) : String := "/sys/class/scsi_host/" ++ host ++ "/scan"

def controlPath (port : String) : String := "/sys/class/ata_port/" ++ port ++ "/power/control"

def statusPath (port : String) : String := "/sys/class/ata_port/" ++ port ++ "/power/runtime_status"

/-- The writes of a rung that were taken, and its outcome before the drive is asked. -/
structure Rung where
  writes : List (String × String)
  outcome : String

/-- LUN delete and host rescan. -/
def lunRung (blockName host : String) : Dialogue Request Answer Rung :=
  writeStr (deletePath blockName) "1" fun
    | .error e => .done ⟨[], "FAILED: " ++ e⟩
    | .ok () =>
      writeStr (scanPath host) "- - -" fun
        | .error e => .done ⟨[(deletePath blockName, "1")], "FAILED: " ++ e⟩
        | .ok () => .done ⟨[(deletePath blockName, "1"), (scanPath host, "- - -")], "EXECUTED"⟩

/-- Runtime-PM cycle of the port. -/
def pmRung (port : String) : Dialogue Request Answer Rung :=
  writeStr (controlPath port) "auto" fun
    | .error e => .done ⟨[], "FAILED: " ++ e⟩
    | .ok () =>
      readStr (statusPath port) fun
        | .error e => .done ⟨[(controlPath port, "auto")], "FAILED: " ++ e⟩
        | .ok status =>
          if status ≠ "suspended" then
            .done ⟨[(controlPath port, "auto")],
              "FAILED: port did not reach runtime suspend (status '" ++ status ++ "')"⟩
          else
            writeStr (controlPath port) "on" fun
              | .error e => .done ⟨[(controlPath port, "auto")], "FAILED: " ++ e⟩
              | .ok () =>
                .done ⟨[(controlPath port, "auto"), (controlPath port, "on")], "EXECUTED"⟩

/-- What follows a rung: the drive is asked, the step recorded. The ladder ends, or goes on. -/
def judge (step : String) (steps : List ColdBusStepRecord) (rung : Rung)
    (goOn : List ColdBusStepRecord → Dialogue Request Answer ColdBusOutcome) :
    Dialogue Request Answer ColdBusOutcome :=
  recheck fun
    | .error reason =>
      .done (.stillFrozen (steps ++ [⟨step, rung.writes, "RECHECK_UNRESOLVED: " ++ reason⟩])
        PHYSICAL_POWER_CYCLE_ADVISORY)
    | .ok true => goOn (steps ++ [⟨step, rung.writes, rung.outcome⟩])
    | .ok false =>
      .done (.cleared (steps ++
        [⟨step, rung.writes, rung.outcome ++ " — freeze cleared on re-probe"⟩]))

/-- A rung that has nothing to work on. -/
def skipped (step reason : String) (steps : List ColdBusStepRecord) : ColdBusOutcome :=
  .stillFrozen (steps ++ [⟨step, [], "SKIPPED: " ++ reason⟩]) PHYSICAL_POWER_CYCLE_ADVISORY

def attemptColdUnfreeze (blockName : String) : Dialogue Request Answer ColdBusOutcome :=
  resolveScsiHost blockName fun
    | .error reason => .done (skipped "lun-delete-host-rescan" reason [])
    | .ok host =>
      (lunRung blockName host).andThen fun rung =>
        judge "lun-delete-host-rescan" [] rung fun steps =>
          resolveAtaPort blockName fun
            | .error reason => .done (skipped "ata-port-runtime-pm-cycle" reason steps)
            | .ok port =>
              (pmRung port).andThen fun rung =>
                judge "ata-port-runtime-pm-cycle" steps rung fun steps =>
                  .done (.stillFrozen steps PHYSICAL_POWER_CYCLE_ADVISORY)

/-! ## What is read off the exchanges -/

def ColdBusOutcome.steps : ColdBusOutcome → List ColdBusStepRecord
  | cleared steps => steps
  | stillFrozen steps _ => steps

/-- The writes of the records, in order. -/
def recorded (steps : List ColdBusStepRecord) : List (String × String) :=
  steps.flatMap ColdBusStepRecord.sysfsWrites

/-- A write that was taken. -/
def taken (e : SysfsExchange) : Option (String × String) :=
  match e.request, e.reply.written with
  | .write path value, .ok () => some (path, value)
  | _, _ => none

/-- What the drive said. -/
def verdict (e : SysfsExchange) : Option (Except String Bool) :=
  match e.request with
  | .recheck => some e.reply.frozen
  | _ => none

/-- The LUN is detached. -/
def detaches (blockName : String) (e : SysfsExchange) : Option Unit :=
  if taken e = some (deletePath blockName, "1") then some () else none

/-- A host rescan is attempted. -/
def rescans (host : String) (e : SysfsExchange) : Option Unit :=
  if e.request = .write (scanPath host) "- - -" then some () else none

/-- The power control of a port is left to the kernel. -/
def releases (port : String) (e : SysfsExchange) : Option Unit :=
  if taken e = some (controlPath port, "auto") then some () else none

/-- The port is told to be on. -/
def resumes (port : String) (e : SysfsExchange) : Option Unit :=
  if e.request = .write (controlPath port) "on" then some () else none

/-- The ladder is cleared by the last word of the drive, records the writes that were taken, and
takes back what it disturbed. -/
structure Restores (blockName : String) (es : List SysfsExchange) (out : ColdBusOutcome) : Prop where
  cleared_iff : (∃ steps, out = .cleared steps) ↔ (es.filterMap verdict).getLast? = some (.ok false)
  records : recorded out.steps = es.filterMap taken
  rescanned : ∃ host, Settled (detaches blockName) (rescans host) es
  resumed : ∀ port, Settled (releases port) (resumes port) es

/-- Whenever the port is left to the kernel, the next thing that is read is that it is suspended. -/
def SuspendsOnAuto : List SysfsExchange → Prop
  | [] => True
  | e :: es => (∀ port, releases port e = some () →
      ∃ status rest, es = status :: rest ∧ status.reply.text = .ok "suspended") ∧ SuspendsOnAuto es

/-- An exchange that writes nothing gives nothing out. -/
theorem taken_eq_none {e : SysfsExchange} (h : ∀ path value, e.request ≠ .write path value) :
    taken e = none := by
  unfold taken
  split
  · next path value hrequest _ => exact absurd hrequest (h path value)
  · rfl

theorem releases_eq_none {port : String} {e : SysfsExchange}
    (h : ∀ path, taken e ≠ some (path, "auto")) : releases port e = none := if_neg (h _)

theorem suspendsOnAuto_cons {e : SysfsExchange} {es : List SysfsExchange}
    (h : ∀ path, taken e ≠ some (path, "auto")) :
    SuspendsOnAuto (e :: es) ↔ SuspendsOnAuto es := by
  rw [SuspendsOnAuto]
  exact and_iff_right fun port hport => absurd (hport.symm.trans (releases_eq_none h)) nofun

theorem suspendsOnAuto_append {es fs : List SysfsExchange}
    (h : ∀ e ∈ es, ∀ path, taken e ≠ some (path, "auto")) :
    SuspendsOnAuto (es ++ fs) ↔ SuspendsOnAuto fs := by
  induction es with
  | nil => rfl
  | cons e es ih =>
    rw [List.cons_append, suspendsOnAuto_cons (h e List.mem_cons_self)]
    exact ih fun e' he' => h e' (List.mem_cons_of_mem e he')

/-! ## The rungs -/

theorem taken_write {path value : String} {a : Answer} :
    taken ⟨.write path value, a⟩ = if a.written = .ok () then some (path, value) else none := by
  unfold taken
  cases a.written <;> rfl

/-- The ways the first rung can go: what it records was taken, no port is touched, and a detached
LUN is looked for again. -/
theorem lunRung_ends {blockName host : String} {es : List SysfsExchange} {rung : Rung}
    (h : (lunRung blockName host).Ends es rung) :
    es.filterMap taken = rung.writes ∧ es.filterMap verdict = [] ∧
      Settled (detaches blockName) (rescans host) es ∧
      ∀ e ∈ es, ∀ path, taken e ≠ some (path, "auto") := by
  obtain ⟨a, es', rfl, hrest⟩ := ends_writeStr.mp h
  have hone : ∀ path, taken ⟨.write (deletePath blockName) "1", a⟩ ≠ some (path, "auto") := by
    intro path
    rw [taken_write]
    split <;> simp
  cases hdelete : a.written with
  | error e =>
    rw [hdelete] at hrest
    obtain ⟨rfl, rfl⟩ := Dialogue.ends_done.mp hrest
    refine ⟨by simp [taken_write, hdelete], rfl, ?_, by simpa using hone⟩
    exact ⟨fun _ hgives => absurd hgives (by simp [detaches, taken_write, hdelete]), trivial⟩
  | ok u =>
    rw [hdelete] at hrest
    obtain ⟨a', es'', rfl, hend⟩ := ends_writeStr.mp hrest
    have hscan : ∀ path, taken ⟨.write (scanPath host) "- - -", a'⟩ ≠ some (path, "auto") := by
      intro path
      rw [taken_write]
      split <;> simp
    have hsettled : Settled (detaches blockName) (rescans host)
        [⟨.write (deletePath blockName) "1", a⟩, ⟨.write (scanPath host) "- - -", a'⟩] := by
      refine ⟨fun _ _ => ⟨_, List.mem_singleton_self _, if_pos rfl⟩, fun _ hgives => ?_, trivial⟩
      refine absurd hgives ?_
      rw [detaches, taken_write]
      split <;> simp
    cases hwrite : a'.written with
    | error e =>
      rw [hwrite] at hend
      obtain ⟨rfl, rfl⟩ := Dialogue.ends_done.mp hend
      exact ⟨by simp [taken_write, hdelete, hwrite], rfl, hsettled, by simp [hone, hscan]⟩
    | ok u' =>
      rw [hwrite] at hend
      obtain ⟨rfl, rfl⟩ := Dialogue.ends_done.mp hend
      exact ⟨by simp [taken_write, hdelete, hwrite], rfl, hsettled, by simp [hone, hscan]⟩

theorem releases_write {port port' : String} {a : Answer} :
    releases port ⟨.write (controlPath port') "auto", a⟩ = some () ↔
      a.written = .ok () ∧ controlPath port' = controlPath port := by
  unfold releases
  rw [taken_write]
  cases a.written <;> simp

/-- Exchanges with the drive leave no port to the kernel, and resume none. -/
theorem rechecks_quiet {fs : List SysfsExchange} (h : ∀ e ∈ fs, e.request = .recheck) :
    (∀ port, Idle (releases port) fs) ∧ (∀ port, ∀ e ∈ fs, resumes port e ≠ some ()) ∧
      SuspendsOnAuto fs := by
  have htaken : ∀ e ∈ fs, ∀ path, taken e ≠ some (path, "auto") := by
    intro e he path
    rw [taken_eq_none fun path value => by rw [h e he]; exact nofun]
    exact nofun
  refine ⟨fun port e he => releases_eq_none (htaken e he), fun port e he => ?_, ?_⟩
  · rw [resumes, h e he]
    simp
  · rw [← List.append_nil fs, suspendsOnAuto_append htaken]
    trivial

/-- A port that is left to the kernel and not found suspended is not switched on again. -/
theorem stuck_port {port : String} {a status : Answer} {fs : List SysfsExchange}
    (hauto : a.written = .ok ()) (htext : status.text ≠ .ok "suspended")
    (hfs : ∀ e ∈ fs, e.request = .recheck) :
    let es : List SysfsExchange :=
      ⟨.write (controlPath port) "auto", a⟩ :: ⟨.read (statusPath port), status⟩ :: fs
    (∀ p, Settled (releases p) (resumes p) es) ↔ SuspendsOnAuto es := by
  have hreleases : releases port ⟨.write (controlPath port) "auto", a⟩ = some () :=
    releases_write.mpr ⟨hauto, rfl⟩
  refine iff_of_false (fun hsettled => ?_) fun hsuspends => ?_
  · refine @not_settled _ _ _ _ [] _ _ _ hreleases (fun f hf => ?_) (hsettled port)
    rcases List.mem_cons.mp hf with rfl | hf
    · simp [resumes]
    · exact (rechecks_quiet hfs).2.1 port f hf
  · obtain ⟨status', rest, heq, hsuspended⟩ := hsuspends.1 port hreleases
    rw [← (List.cons.inj heq).1] at hsuspended
    exact htext hsuspended

/-- A port that is found suspended is told to be on. -/
theorem resumed_port {port : String} {a status a' : Answer} {fs : List SysfsExchange}
    (htext : status.text = .ok "suspended") (hfs : ∀ e ∈ fs, e.request = .recheck) :
    let es : List SysfsExchange :=
      ⟨.write (controlPath port) "auto", a⟩ :: ⟨.read (statusPath port), status⟩
        :: ⟨.write (controlPath port) "on", a'⟩ :: fs
    (∀ p, Settled (releases p) (resumes p) es) ∧ SuspendsOnAuto es := by
  obtain ⟨hidle, -, hsuspends⟩ := rechecks_quiet hfs
  have hstatus : ∀ path, taken ⟨.read (statusPath port), status⟩ ≠ some (path, "auto") := by
    rw [taken_eq_none (by simp)]
    simp
  have hon : ∀ path, taken ⟨.write (controlPath port) "on", a'⟩ ≠ some (path, "auto") := by
    intro path
    rw [taken_write]
    split <;> simp
  constructor
  · intro p
    refine ⟨fun _ hgives => ?_, ?_⟩
    · obtain ⟨-, hpath⟩ := releases_write.mp hgives
      exact ⟨_, List.mem_cons_of_mem _ List.mem_cons_self, by rw [hpath]; exact if_pos rfl⟩
    · rw [settled_cons_of_idle (releases_eq_none hstatus),
        settled_cons_of_idle (releases_eq_none hon)]
      exact (hidle p).settled
  · refine ⟨fun _ _ => ⟨_, _, rfl, htext⟩, ?_⟩
    rw [suspendsOnAuto_cons hstatus, suspendsOnAuto_cons hon]
    exact hsuspends

/-- The ways the second rung can go, with what follows on the drive: the port is told to be on
exactly if its status was that it is suspended. -/
theorem pmRung_ends {port : String} {es : List SysfsExchange} {rung : Rung}
    (h : (pmRung port).Ends es rung) :
    es.filterMap taken = rung.writes ∧ es.filterMap verdict = [] ∧
      (∀ blockName, ∀ e ∈ es, detaches blockName e = none) ∧
      ∀ fs : List SysfsExchange, (∀ e ∈ fs, e.request = .recheck) →
        ((∀ p, Settled (releases p) (resumes p) (es ++ fs)) ↔ SuspendsOnAuto (es ++ fs)) := by
  obtain ⟨a, es', rfl, hrest⟩ := ends_writeStr.mp h
  have hquiet : ∀ value, value ≠ "1" → ∀ blockName (a : Answer),
      detaches blockName ⟨.write (controlPath port) value, a⟩ = none := by
    intro value hvalue blockName a
    rw [detaches, taken_write]
    split <;> simp [hvalue]
  cases hauto : a.written with
  | error e =>
    rw [hauto] at hrest
    obtain ⟨rfl, rfl⟩ := Dialogue.ends_done.mp hrest
    refine ⟨by simp [taken_write, hauto], rfl, by simp [hquiet], fun fs hfs => ?_⟩
    obtain ⟨hidle, -, hsuspends⟩ := rechecks_quiet hfs
    have htaken : ∀ path, taken ⟨.write (controlPath port) "auto", a⟩ ≠ some (path, "auto") := by
      simp [taken_write, hauto]
    rw [List.singleton_append, suspendsOnAuto_cons htaken]
    refine iff_of_true (fun p => ?_) hsuspends
    rw [settled_cons_of_idle (releases_eq_none htaken)]
    exact (hidle p).settled
  | ok u =>
    rw [hauto] at hrest
    obtain ⟨status, es'', rfl, hend⟩ := ends_readStr.mp hrest
    have hstatus : taken ⟨.read (statusPath port), status⟩ = none :=
      taken_eq_none (by simp)
    have hread : ∀ blockName, detaches blockName ⟨.read (statusPath port), status⟩ = none := by
      intro blockName
      rw [detaches, hstatus]
      rfl
    cases htext : status.text with
    | error e =>
      rw [htext] at hend
      obtain ⟨rfl, rfl⟩ := Dialogue.ends_done.mp hend
      exact ⟨by simp [taken_write, hauto, hstatus], rfl, by simp [hquiet, hread],
        fun fs hfs => stuck_port hauto (by rw [htext]; exact nofun) hfs⟩
    | ok text =>
      rw [htext] at hend
      by_cases hsuspended : text = "suspended"
      · subst hsuspended
        dsimp only at hend
        rw [if_neg (not_not.mpr rfl)] at hend
        obtain ⟨a', es''', rfl, hon⟩ := ends_writeStr.mp hend
        have hboth : ∀ fs : List SysfsExchange, (∀ e ∈ fs, e.request = .recheck) → _ :=
          fun fs hfs => @resumed_port port a status a' fs htext hfs
        cases hwrite : a'.written with
        | error e =>
          rw [hwrite] at hon
          obtain ⟨rfl, rfl⟩ := Dialogue.ends_done.mp hon
          exact ⟨by simp [taken_write, hauto, hstatus, hwrite], rfl,
            by simp [hquiet, hread],
            fun fs hfs => iff_of_true (hboth fs hfs).1 (hboth fs hfs).2⟩
        | ok u' =>
          rw [hwrite] at hon
          obtain ⟨rfl, rfl⟩ := Dialogue.ends_done.mp hon
          exact ⟨by simp [taken_write, hauto, hstatus, hwrite], rfl,
            by simp [hquiet, hread],
            fun fs hfs => iff_of_true (hboth fs hfs).1 (hboth fs hfs).2⟩
      · dsimp only at hend
        rw [if_pos hsuspended] at hend
        obtain ⟨rfl, rfl⟩ := Dialogue.ends_done.mp hend
        exact ⟨by simp [taken_write, hauto, hstatus], rfl, by simp [hquiet, hread],
          fun fs hfs => stuck_port hauto (by rw [htext]; simpa using hsuspended) hfs⟩

/-! ## The ladder -/

/-- What is left of the ladder, whose steps so far are recorded, keeps to its part. -/
structure Owes (blockName : String) (steps : List ColdBusStepRecord) (es : List SysfsExchange)
    (out : ColdBusOutcome) : Prop where
  cleared_iff : (∃ steps, out = .cleared steps) ↔ (es.filterMap verdict).getLast? = some (.ok false)
  records : recorded out.steps = recorded steps ++ es.filterMap taken
  keeps : Idle (detaches blockName) es
  resumed : (∀ port, Settled (releases port) (resumes port) es) ↔ SuspendsOnAuto es

theorem recorded_append (steps : List ColdBusStepRecord) (step : ColdBusStepRecord) :
    recorded (steps ++ [step]) = recorded steps ++ step.sysfsWrites := by
  simp [recorded]

/-- A ladder that ends here without a word of the drive. -/
theorem Owes.stop {blockName : String} {steps : List ColdBusStepRecord} {step : ColdBusStepRecord}
    (hwrites : step.sysfsWrites = []) (advisory : String) :
    Owes blockName steps [] (.stillFrozen (steps ++ [step]) advisory) where
  cleared_iff := by simp
  records := by
    show recorded (steps ++ [step]) = _
    rw [recorded_append, hwrites]
    rfl
  keeps := fun _ he => absurd he List.not_mem_nil
  resumed := iff_of_true (fun _ => trivial) trivial

/-- An exchange that is neither a write nor a word of the drive changes nothing. -/
theorem Owes.cons {blockName : String} {steps : List ColdBusStepRecord} {es : List SysfsExchange}
    {out : ColdBusOutcome} {e : SysfsExchange} (h : Owes blockName steps es out)
    (htaken : taken e = none) (hverdict : verdict e = none) : Owes blockName steps (e :: es) out := by
  have hauto : ∀ path, taken e ≠ some (path, "auto") := by simp [htaken]
  have hdetaches : detaches blockName e = none := by simp [detaches, htaken]
  refine ⟨?_, ?_, List.forall_mem_cons.mpr ⟨hdetaches, h.keeps⟩, ?_⟩
  · rw [List.filterMap_cons_none hverdict]
    exact h.cleared_iff
  · rw [List.filterMap_cons_none htaken]
    exact h.records
  · rw [suspendsOnAuto_cons hauto, ← h.resumed]
    exact forall_congr' fun port => settled_cons_of_idle (releases_eq_none hauto)

/-- The ways the drive's word can go. -/
theorem judge_ends {step : String} {steps : List ColdBusStepRecord} {rung : Rung}
    {goOn : List ColdBusStepRecord → Dialogue Request Answer ColdBusOutcome}
    {es : List SysfsExchange} {out : ColdBusOutcome} (h : (judge step steps rung goOn).Ends es out) :
    ∃ (a : Answer) (es' : List SysfsExchange) (record : ColdBusStepRecord),
      es = ⟨.recheck, a⟩ :: es' ∧ record.sysfsWrites = rung.writes ∧
      ((a.frozen = .ok true ∧ (goOn (steps ++ [record])).Ends es' out) ∨
        (a.frozen = .ok false ∧ es' = [] ∧ out = .cleared (steps ++ [record])) ∨
        (∃ reason, a.frozen = .error reason ∧ es' = [] ∧
          out = .stillFrozen (steps ++ [record]) PHYSICAL_POWER_CYCLE_ADVISORY)) := by
  obtain ⟨a, es', rfl, hrest⟩ := ends_recheck.mp h
  match hfrozen : a.frozen, hrest with
  | .error reason, hrest =>
    obtain ⟨hes, hout⟩ := Dialogue.ends_done.mp hrest
    exact ⟨a, es', _, rfl, rfl, .inr (.inr ⟨reason, hfrozen, hes, hout⟩)⟩
  | .ok true, hrest => exact ⟨a, es', _, rfl, rfl, .inl ⟨hfrozen, hrest⟩⟩
  | .ok false, hrest =>
    obtain ⟨hes, hout⟩ := Dialogue.ends_done.mp hrest
    exact ⟨a, es', _, rfl, rfl, .inr (.inl ⟨hfrozen, hes, hout⟩)⟩

theorem getLast?_cons_frozen {vs : List (Except String Bool)} :
    (Except.ok true :: vs).getLast? = some (.ok false) ↔ vs.getLast? = some (.ok false) := by
  cases vs with
  | nil => simp
  | cons v vs => rw [List.getLast?_cons_cons]

/-- The drive's word and what follows it, with the writes of the rung before. -/
theorem judge_owes {blockName step : String} {steps : List ColdBusStepRecord} {rung : Rung}
    {goOn : List ColdBusStepRecord → Dialogue Request Answer ColdBusOutcome}
    (hgoOn : ∀ steps es out, (goOn steps).Ends es out → Owes blockName steps es out)
    {es : List SysfsExchange} {out : ColdBusOutcome} (h : (judge step steps rung goOn).Ends es out) :
    ((∃ steps, out = .cleared steps) ↔ (es.filterMap verdict).getLast? = some (.ok false)) ∧
      recorded out.steps = recorded steps ++ (rung.writes ++ es.filterMap taken) ∧
      Idle (detaches blockName) es ∧
      ((∀ port, Settled (releases port) (resumes port) es) ↔ SuspendsOnAuto es) := by
  obtain ⟨a, es', record, rfl, hwrites, hcases⟩ := judge_ends h
  have htaken : taken ⟨.recheck, a⟩ = none := taken_eq_none (by simp)
  have hauto : ∀ path, taken ⟨.recheck, a⟩ ≠ some (path, "auto") := by simp [htaken]
  have hdetaches : detaches blockName ⟨.recheck, a⟩ = none := by simp [detaches, htaken]
  have hverdict : verdict ⟨.recheck, a⟩ = some a.frozen := rfl
  rw [List.filterMap_cons_some hverdict, List.filterMap_cons_none htaken]
  rcases hcases with ⟨hfrozen, hend⟩ | ⟨hfrozen, rfl, rfl⟩ | ⟨reason, hfrozen, rfl, rfl⟩
  · have howes := hgoOn _ _ _ hend
    refine ⟨?_, ?_, List.forall_mem_cons.mpr ⟨hdetaches, howes.keeps⟩, ?_⟩
    · rw [hfrozen, getLast?_cons_frozen]
      exact howes.cleared_iff
    · rw [howes.records, recorded_append, hwrites, List.append_assoc]
    · rw [suspendsOnAuto_cons hauto, ← howes.resumed]
      exact forall_congr' fun port => settled_cons_of_idle (releases_eq_none hauto)
  · refine ⟨by simp [hfrozen], ?_, List.forall_mem_singleton.mpr hdetaches, ?_⟩
    · show recorded (steps ++ [record]) = _
      rw [recorded_append, hwrites, List.filterMap_nil, List.append_nil]
    · rw [suspendsOnAuto_cons hauto]
      exact iff_of_true (fun _ => (settled_cons_of_idle (releases_eq_none hauto)).mpr trivial) trivial
  · refine ⟨by simp [hfrozen], ?_, List.forall_mem_singleton.mpr hdetaches, ?_⟩
    · show recorded (steps ++ [record]) = _
      rw [recorded_append, hwrites, List.filterMap_nil, List.append_nil]
    · rw [suspendsOnAuto_cons hauto]
      exact iff_of_true (fun _ => (settled_cons_of_idle (releases_eq_none hauto)).mpr trivial) trivial

theorem resolve_ends {start blockName : String} {missing : String → String} {α : Type}
    {next : Except String String → Dialogue Request Answer α} {es : List SysfsExchange} {out : α}
    (h : (resolve start missing blockName next).Ends es out) :
    ∃ (a : Answer) (es' : List SysfsExchange) (found : Except String String),
      es = ⟨.readLink ("/sys/block/" ++ blockName), a⟩ :: es' ∧ (next found).Ends es' out := by
  obtain ⟨a, es', rfl, hrest⟩ := Dialogue.ends_ask.mp h
  refine ⟨a, es', ?_⟩
  match a.text, hrest with
  | .error e, hrest => exact ⟨_, rfl, hrest⟩
  | .ok link, hrest =>
    dsimp only at hrest
    split at hrest
    · exact ⟨_, rfl, hrest⟩
    · exact ⟨_, rfl, hrest⟩

theorem Owes.readLink {blockName path : String} {steps : List ColdBusStepRecord} {a : Answer}
    {es : List SysfsExchange} {out : ColdBusOutcome} (h : Owes blockName steps es out) :
    Owes blockName steps (⟨.readLink path, a⟩ :: es) out :=
  h.cons (taken_eq_none (by simp)) rfl

/-- The second rung and the end of the ladder. -/
theorem pmRung_owes {blockName port step : String} {steps : List ColdBusStepRecord}
    {es : List SysfsExchange} {out : ColdBusOutcome}
    (h : ((pmRung port).andThen fun rung => judge step steps rung fun steps =>
      .done (.stillFrozen steps PHYSICAL_POWER_CYCLE_ADVISORY)).Ends es out) :
    Owes blockName steps es out := by
  obtain ⟨es₁, rung, es₂, rfl, hrung, hjudge⟩ := Dialogue.ends_andThen.mp h
  obtain ⟨htaken, hverdict, hkeeps, hresumed⟩ := pmRung_ends hrung
  have hlast : ∀ steps es out, (Dialogue.done (Q := Request) (R := Answer)
      (ColdBusOutcome.stillFrozen steps PHYSICAL_POWER_CYCLE_ADVISORY)).Ends es out →
        Owes blockName steps es out := by
    intro steps es out hend
    obtain ⟨rfl, rfl⟩ := Dialogue.ends_done.mp hend
    exact ⟨by simp, (List.append_nil _).symm, fun _ he => absurd he List.not_mem_nil,
      iff_of_true (fun _ => trivial) trivial⟩
  have hrechecks : ∀ e ∈ es₂, e.request = .recheck := by
    obtain ⟨a, es', record, rfl, -, hcases⟩ := judge_ends hjudge
    have hnil : es' = [] := by
      rcases hcases with ⟨-, hend⟩ | ⟨-, hnil, -⟩ | ⟨_, -, hnil, -⟩
      · exact (Dialogue.ends_done.mp hend).1
      · exact hnil
      · exact hnil
    rw [hnil]
    exact List.forall_mem_singleton.mpr rfl
  obtain ⟨hcleared, hrecords, hidle, -⟩ := @judge_owes blockName _ _ _ _ hlast _ _ hjudge
  refine ⟨?_, ?_, ?_, hresumed es₂ hrechecks⟩
  · rw [List.filterMap_append, hverdict, List.nil_append]
    exact hcleared
  · rw [List.filterMap_append, htaken]
    exact hrecords
  · exact List.forall_mem_append.mpr ⟨hkeeps blockName, hidle⟩

/-- What the ladder does after a LUN rescan that did not help. -/
theorem pmStep_owes {blockName : String} {steps : List ColdBusStepRecord} {es : List SysfsExchange}
    {out : ColdBusOutcome}
    (h : (resolveAtaPort blockName fun
      | .error reason => .done (skipped "ata-port-runtime-pm-cycle" reason steps)
      | .ok port =>
        (pmRung port).andThen fun rung =>
          judge "ata-port-runtime-pm-cycle" steps rung fun steps =>
            .done (.stillFrozen steps PHYSICAL_POWER_CYCLE_ADVISORY)).Ends es out) :
    Owes blockName steps es out := by
  obtain ⟨a, es', found, rfl, hnext⟩ := resolve_ends h
  refine Owes.readLink ?_
  cases found with
  | error reason =>
    obtain ⟨rfl, rfl⟩ := Dialogue.ends_done.mp hnext
    exact .stop rfl _
  | ok port => exact pmRung_owes hnext

/-- **Every way the ladder can go.** -/
theorem ladder_ends {blockName : String} {es : List SysfsExchange} {out : ColdBusOutcome}
    (h : (attemptColdUnfreeze blockName).Ends es out) :
    Restores blockName es out ↔ SuspendsOnAuto es := by
  unfold attemptColdUnfreeze at h
  have hrest : ((∃ steps, out = .cleared steps) ↔
        (es.filterMap verdict).getLast? = some (.ok false)) ∧
      recorded out.steps = es.filterMap taken ∧
      (∃ host, Settled (detaches blockName) (rescans host) es) ∧
      ((∀ port, Settled (releases port) (resumes port) es) ↔ SuspendsOnAuto es) := by
    obtain ⟨a, es', found, rfl, hnext⟩ := resolve_ends h
    cases found with
    | error reason =>
      obtain ⟨rfl, rfl⟩ := Dialogue.ends_done.mp hnext
      have howes : Owes blockName [] [⟨.readLink ("/sys/block/" ++ blockName), a⟩]
          (skipped "lun-delete-host-rescan" reason []) := (Owes.stop rfl _).readLink
      exact ⟨howes.cleared_iff, howes.records, ⟨"", howes.keeps.settled⟩, howes.resumed⟩
    | ok host =>
      obtain ⟨es₁, rung, es₂, rfl, hrung, hjudge⟩ := Dialogue.ends_andThen.mp hnext
      obtain ⟨htaken, hverdict, hrescanned, hauto⟩ := lunRung_ends hrung
      obtain ⟨hcleared, hrecords, hidle, hresumed⟩ :=
        @judge_owes blockName _ _ _ _ (fun _ _ _ => pmStep_owes) _ _ hjudge
      have hlink : taken ⟨.readLink ("/sys/block/" ++ blockName), a⟩ = none :=
        taken_eq_none (by simp)
      have hlink' : ∀ path, taken ⟨.readLink ("/sys/block/" ++ blockName), a⟩
          ≠ some (path, "auto") := by simp [hlink]
      refine ⟨?_, ?_, ⟨host, ?_⟩, ?_⟩
      · rw [List.filterMap_cons_none rfl, List.filterMap_append, hverdict]
        exact hcleared
      · rw [List.filterMap_cons_none hlink, List.filterMap_append, htaken]
        exact hrecords
      · rw [settled_cons_of_idle (by simp [detaches, hlink])]
        exact hrescanned.append hidle.settled
      · rw [suspendsOnAuto_cons hlink', suspendsOnAuto_append hauto, ← hresumed]
        refine forall_congr' fun port => ?_
        rw [settled_cons_of_idle (releases_eq_none hlink'),
          settled_append fun e he => releases_eq_none (hauto e he)]
  constructor
  · intro hrestores
    exact hrest.2.2.2.mp hrestores.resumed
  · intro hsuspends
    exact ⟨hrest.1, hrest.2.1, hrest.2.2.1, hrest.2.2.2.mpr hsuspends⟩

/-- **The cold-bus ladder**, whatever sysfs and the drive answer: it records, decides and restores
exactly if a port that is left to the kernel is found suspended at once. -/
theorem ladder_restores_iff (respond : Responder Request Answer) (blockName : String) :
    Restores blockName ((attemptColdUnfreeze blockName).run respond []).2
        ((attemptColdUnfreeze blockName).run respond []).1 ↔
      SuspendsOnAuto ((attemptColdUnfreeze blockName).run respond []).2 :=
  ladder_ends (Dialogue.ends_run respond _)

/-- A chain of `ata3` and `host3` whose port stays active and whose drive stays frozen. -/
def activePort : Responder Request Answer := fun _ request =>
  { text := match request with
      | .readLink _ => .ok "/sys/devices/ata3/host3/target3:0:0/3:0:0:0/block/sda"
      | _ => .ok "active"
    written := .ok ()
    frozen := .ok true }

/-- The port is left to the kernel. -/
theorem activePort_left_on_auto : ¬ Restores "sda"
    ((attemptColdUnfreeze "sda").run activePort []).2
    ((attemptColdUnfreeze "sda").run activePort []).1 := by
  intro h
  have hlog : ((attemptColdUnfreeze "sda").run activePort []).2.drop 5
      = [⟨.write (controlPath "ata3") "auto", activePort [] (.write (controlPath "ata3") "auto")⟩,
        ⟨.read (statusPath "ata3"), activePort [] (.read (statusPath "ata3"))⟩,
        ⟨.recheck, activePort [] .recheck⟩] := by
    rfl
  have hsettled := h.resumed "ata3"
  rw [← List.take_append_drop 5 ((attemptColdUnfreeze "sda").run activePort []).2, hlog] at hsettled
  have hreleases : releases "ata3"
      ⟨.write (controlPath "ata3") "auto", activePort [] (.write (controlPath "ata3") "auto")⟩
      = some () := releases_write.mpr ⟨rfl, rfl⟩
  refine not_settled hreleases (fun f hf => ?_) hsettled
  -- the status is read and the drive asked, and nothing is written
  simp only [List.mem_cons, List.not_mem_nil, or_false] at hf
  rcases hf with rfl | rfl <;> simp [resumes]

end ColdBus

end DiscCleaner
