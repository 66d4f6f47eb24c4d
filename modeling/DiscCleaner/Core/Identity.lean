import DiscCleaner.Core.Plan
import DiscCleaner.Lib.Checks

/-!
# DiscCleaner — the two identity comparators (`dc-core/identity.rs`, `dc-probe/identity.rs`)

`check_compatibility` guards a resumed plan, `compare` the running target. Both walk the optional
fields one after another and return at the first contradiction.

* **`checkCompatibility_refused`**, **`compare_contradicts`** — when each of them refuses.
* **`compare_swap`** — swapping the sides swaps the report.
* **`comparatorsAgree_iff`** — they agree exactly where the device-mapper fields do, or where
  another field contradicts in both.
-/

namespace DiscCleaner

open Checks

/-! ## `StableIdentity::check_compatibility` -/

/-- One optional field: two values must be the same, a missing one is at most a warning. -/
def checkField (what : String) (missing extra : List String) (expected observed : Option String) :
    Except String (List String) :=
  match expected, observed with
  | some a, some b =>
    if a ≠ b then .error s!"{what} contradiction! Expected: '{a}', Observed: '{b}'" else .ok []
  | some _, none => .ok missing
  | none, some _ => .ok extra
  | none, none => .ok []

namespace StableIdentity

def checkDmUuid : Option String → Option String → Except String (List String) :=
  checkField "Device-Mapper UUID" ["DM UUID missing in observed target"]
    ["DM UUID present in observed target but absent in expected"]

def checkSerial : Option String → Option String → Except String (List String) :=
  checkField "Serial number"
    ["Drive serial missing in observed target (possible bridge difference)"]
    ["Drive serial observed but absent in expected baseline"]

def checkWwn : Option String → Option String → Except String (List String) :=
  checkField "WWN" ["WWN missing in observed target"]
    ["WWN observed but absent in expected baseline"]

def checkModel : Option String → Option String → Except String (List String) :=
  checkField "Model name" [] []

/-- The warnings of two compatible identities, or the first contradiction. -/
def checkCompatibility (self other : StableIdentity) : Except String (List String) :=
  let expected := self.sizeBytes
  let observed := other.sizeBytes
  if expected ≠ observed then
    .error s!"Size contradiction! Expected: {expected} bytes, Observed: {observed} bytes"
  else do
    let dmUuid ← checkDmUuid self.dmUuid other.dmUuid
    let serial ← checkSerial self.serial other.serial
    let wwn ← checkWwn self.wwn other.wwn
    let model ← checkModel self.model other.model
    .ok (dmUuid ++ serial ++ wwn ++ model)

end StableIdentity

/-! ## `IdentityComparator::compare` -/

inductive IdentityComparison where
  | «match»
  | matchWithWarnings (absentFields : List String)
  | contradiction (field expected observed : String)
  | sizeMismatch (expected observed : Nat)
  deriving DecidableEq

namespace IdentityComparator

/-- One optional field; the early return is an error. -/
def compareField (field : String) (expected observed : Option String) :
    Except IdentityComparison (List String) :=
  match expected, observed with
  | some e, some o => if e ≠ o then .error (.contradiction field e o) else .ok []
  | some _, none => .ok [field]
  | none, some _ => .ok [field]
  | none, none => .ok []

/-- A device-mapper field, whose absence on one side is a contradiction. -/
def compareDm (field : String) (expected observed : Option String) :
    Except IdentityComparison (List String) :=
  if (expected.isSome ∨ observed.isSome) ∧ expected ≠ observed then
    .error (.contradiction field (expected.getD "") (observed.getD ""))
  else .ok []

/-- The checks of `compare`, with the absent fields they noted. -/
def compareFields (expected observed : StableIdentity) : Except IdentityComparison (List String) :=
  if expected.sizeBytes ≠ observed.sizeBytes then
    .error (.sizeMismatch expected.sizeBytes observed.sizeBytes)
  else do
    let serial ← compareField "serial" expected.serial observed.serial
    let wwn ← compareField "wwn" expected.wwn observed.wwn
    let model ← compareField "model" expected.model observed.model
    let dmName ← compareDm "dm_name" expected.dmName observed.dmName
    let dmUuid ← compareDm "dm_uuid" expected.dmUuid observed.dmUuid
    .ok (serial ++ wwn ++ model ++ dmName ++ dmUuid)

def compare (expected observed : StableIdentity) : IdentityComparison :=
  match compareFields expected observed with
  | .error early => early
  | .ok absent => if absent.isEmpty then .match else .matchWithWarnings absent

end IdentityComparator

/-! ## When each refuses -/

open StableIdentity IdentityComparator

/-- Both sides name the field, and differ. -/
def Clash (expected observed : Option String) : Prop :=
  ∃ a ∈ expected, ∃ b ∈ observed, a ≠ b

theorem clash_symm {e o : Option String} : Clash e o ↔ Clash o e :=
  ⟨fun ⟨a, ha, b, hb, hne⟩ => ⟨b, hb, a, ha, hne.symm⟩,
    fun ⟨a, ha, b, hb, hne⟩ => ⟨b, hb, a, ha, hne.symm⟩⟩

theorem clash_some {a b : String} : Clash (some a) (some b) ↔ a ≠ b := by simp [Clash]

theorem not_clash_none_left {o : Option String} : ¬Clash none o := by simp [Clash]

theorem not_clash_none_right {e : Option String} : ¬Clash e none := by simp [Clash]

theorem Clash.ne {e o : Option String} (h : Clash e o) : e ≠ o := by
  obtain ⟨a, ha, b, hb, hne⟩ := h
  rintro rfl
  exact hne (Option.mem_unique ha hb)

theorem checkField_refused {what : String} {missing extra : List String} {e o : Option String} :
    Refused (checkField what missing extra e o) ↔ Clash e o := by
  unfold checkField
  split
  · rw [refused_ite, clash_some, or_iff_left (not_refused_ok _)]
  · exact iff_of_false (not_refused_ok _) not_clash_none_right
  · exact iff_of_false (not_refused_ok _) not_clash_none_left
  · exact iff_of_false (not_refused_ok _) not_clash_none_left

theorem compareField_refused {field : String} {e o : Option String} :
    Refused (compareField field e o) ↔ Clash e o := by
  unfold compareField
  split
  · rw [refused_ite, clash_some, or_iff_left (not_refused_ok _)]
  · exact iff_of_false (not_refused_ok _) not_clash_none_right
  · exact iff_of_false (not_refused_ok _) not_clash_none_left
  · exact iff_of_false (not_refused_ok _) not_clash_none_left

/-- Absent on both sides is the only absence the device-mapper check lets pass. -/
theorem compareDm_refused {field : String} {e o : Option String} :
    Refused (compareDm field e o) ↔ e ≠ o := by
  rw [compareDm, refused_ite, or_iff_left (not_refused_ok _)]
  refine and_iff_right_of_imp fun hne => ?_
  by_contra hnone
  rw [not_or, Option.not_isSome_iff_eq_none, Option.not_isSome_iff_eq_none] at hnone
  exact hne (hnone.1.trans hnone.2.symm)

/-- A field both comparators compare two-sidedly contradicts. -/
def SharedClash (expected observed : StableIdentity) : Prop :=
  expected.sizeBytes ≠ observed.sizeBytes ∨ Clash expected.serial observed.serial ∨
    Clash expected.wwn observed.wwn ∨ Clash expected.model observed.model

theorem checkCompatibility_refused (e o : StableIdentity) :
    Refused (e.checkCompatibility o) ↔ SharedClash e o ∨ Clash e.dmUuid o.dmUuid := by
  have hfields : ∀ (x y z w : Except String (List String)),
      Refused (x >>= fun a => y >>= fun b => z >>= fun c => w >>= fun d => .ok (a ++ b ++ c ++ d))
        ↔ Refused x ∨ Refused y ∨ Refused z ∨ Refused w ∨ False := fun x y z w =>
    refused_bind fun _ => refused_bind fun _ => refused_bind fun _ => refused_bind fun _ =>
      iff_of_false (not_refused_ok _) id
  rw [checkCompatibility, refused_ite, hfields]
  simp only [checkDmUuid, checkSerial, checkWwn, checkModel, checkField_refused, SharedClash]
  tauto

/-- The verdicts that stop a wipe. -/
def IdentityComparison.Contradicts : IdentityComparison → Prop
  | .match | .matchWithWarnings _ => False
  | .contradiction .. | .sizeMismatch .. => True

theorem compareFields_refused (e o : StableIdentity) :
    Refused (compareFields e o) ↔
      SharedClash e o ∨ e.dmName ≠ o.dmName ∨ e.dmUuid ≠ o.dmUuid := by
  have hfields : ∀ (x y z w v : Except IdentityComparison (List String)),
      Refused (x >>= fun a => y >>= fun b => z >>= fun c => w >>= fun d => v >>= fun f =>
          .ok (a ++ b ++ c ++ d ++ f))
        ↔ Refused x ∨ Refused y ∨ Refused z ∨ Refused w ∨ Refused v ∨ False := fun x y z w v =>
    refused_bind fun _ => refused_bind fun _ => refused_bind fun _ => refused_bind fun _ =>
      refused_bind fun _ => iff_of_false (not_refused_ok _) id
  rw [compareFields, refused_ite, hfields]
  simp only [compareField_refused, compareDm_refused, SharedClash]
  tauto

/-- An early return is a verdict that stops. -/
theorem compareFields_failsIn (e o : StableIdentity) :
    FailsIn IdentityComparison.Contradicts (compareFields e o) := by
  have hfield : ∀ field (a b : Option String),
      FailsIn IdentityComparison.Contradicts (compareField field a b) := by
    intro field a b
    unfold compareField
    split
    · exact FailsIn.ite trivial (failsIn_ok _ _)
    · exact failsIn_ok _ _
    · exact failsIn_ok _ _
    · exact failsIn_ok _ _
  have hdm : ∀ field (a b : Option String),
      FailsIn IdentityComparison.Contradicts (compareDm field a b) :=
    fun _ _ _ => FailsIn.ite trivial (failsIn_ok _ _)
  exact FailsIn.ite trivial ((hfield _ _ _).bind fun _ => (hfield _ _ _).bind fun _ =>
    (hfield _ _ _).bind fun _ => (hdm _ _ _).bind fun _ => (hdm _ _ _).bind fun _ => failsIn_ok _ _)

theorem compare_contradicts (e o : StableIdentity) :
    (compare e o).Contradicts ↔ SharedClash e o ∨ e.dmName ≠ o.dmName ∨ e.dmUuid ≠ o.dmUuid := by
  rw [← compareFields_refused, IdentityComparator.compare]
  cases h : compareFields e o with
  | error early => exact iff_of_true (compareFields_failsIn e o early h) (refused_error early)
  | ok absent =>
    refine iff_of_false ?_ (not_refused_ok absent)
    simp only
    split_ifs <;> exact id

/-! ## Swapping the sides -/

/-- The report with what was expected and what was observed exchanged. -/
def IdentityComparison.swap : IdentityComparison → IdentityComparison
  | .match => .match
  | .matchWithWarnings absent => .matchWithWarnings absent
  | .contradiction field e o => .contradiction field o e
  | .sizeMismatch e o => .sizeMismatch o e

theorem contradicts_swap (c : IdentityComparison) : c.swap.Contradicts ↔ c.Contradicts := by
  cases c <;> exact Iff.rfl

theorem compareField_swap (field : String) (e o : Option String) :
    compareField field o e = (compareField field e o).mapError IdentityComparison.swap := by
  cases e with
  | none => cases o <;> rfl
  | some a =>
    cases o with
    | none => rfl
    | some b =>
      simp only [compareField]
      by_cases h : a = b
      · rw [if_neg (not_not.mpr h.symm), if_neg (not_not.mpr h)]
        rfl
      · rw [if_pos (Ne.symm h), if_pos h]
        rfl

theorem compareDm_swap (field : String) (e o : Option String) :
    compareDm field o e = (compareDm field e o).mapError IdentityComparison.swap := by
  unfold compareDm
  by_cases h : (e.isSome ∨ o.isSome) ∧ e ≠ o
  · rw [if_pos h, if_pos ⟨h.1.symm, h.2.symm⟩]
    rfl
  · rw [if_neg h, if_neg fun h' => h ⟨h'.1.symm, h'.2.symm⟩]
    rfl

theorem compareFields_swap (e o : StableIdentity) :
    compareFields o e = (compareFields e o).mapError IdentityComparison.swap := by
  unfold compareFields
  by_cases h : e.sizeBytes = o.sizeBytes
  · rw [if_neg (not_not.mpr h), if_neg (not_not.mpr h.symm)]
    simp only [mapError_bind, ← compareField_swap, ← compareDm_swap]
    rfl
  · rw [if_pos h, if_pos (Ne.symm h)]
    rfl

/-- **Swapping the sides swaps the report.** -/
theorem compare_swap (e o : StableIdentity) : compare o e = (compare e o).swap := by
  rw [IdentityComparator.compare, IdentityComparator.compare, compareFields_swap]
  cases compareFields e o with
  | error early => rfl
  | ok absent =>
    simp only [Except.mapError]
    split_ifs <;> rfl

theorem sharedClash_symm {e o : StableIdentity} : SharedClash e o ↔ SharedClash o e :=
  or_congr ne_comm (or_congr clash_symm (or_congr clash_symm clash_symm))

/-! ## Where they agree -/

/-- The comparators give one answer, whichever side is called expected. -/
structure ComparatorsAgree (expected observed : StableIdentity) : Prop where
  same : Refused (expected.checkCompatibility observed) ↔ (compare expected observed).Contradicts
  checkSymm : Refused (observed.checkCompatibility expected) ↔
    Refused (expected.checkCompatibility observed)
  compareSymm : (compare observed expected).Contradicts ↔ (compare expected observed).Contradicts

/-- **They agree exactly** where a field both know contradicts, two-sided, or the device-mapper
name and UUID are the same on both sides, absence included. -/
theorem comparatorsAgree_iff (e o : StableIdentity) :
    ComparatorsAgree e o ↔
      SharedClash e o ∨ Clash e.dmUuid o.dmUuid ∨ (e.dmName = o.dmName ∧ e.dmUuid = o.dmUuid) := by
  have hsame : (Refused (e.checkCompatibility o) ↔ (compare e o).Contradicts) ↔
      SharedClash e o ∨ Clash e.dmUuid o.dmUuid ∨ (e.dmName = o.dmName ∧ e.dmUuid = o.dmUuid) := by
    rw [checkCompatibility_refused, compare_contradicts]
    have hne : Clash e.dmUuid o.dmUuid → e.dmUuid ≠ o.dmUuid := Clash.ne
    tauto
  refine ⟨fun h => hsame.mp h.same, fun h => ⟨hsame.mpr h, ?_, ?_⟩⟩
  · rw [checkCompatibility_refused, checkCompatibility_refused, sharedClash_symm, clash_symm]
  · rw [compare_swap, contradicts_swap]

/-- Two targets that differ in their device-mapper name only. -/
theorem comparators_disagree_on_dmName :
    let expected : StableIdentity :=
      ⟨none, none, none, 4096, .deviceMapper, some "vault", none⟩
    let observed : StableIdentity :=
      ⟨none, none, none, 4096, .deviceMapper, some "other", none⟩
    expected.checkCompatibility observed = .ok [] ∧
      compare expected observed = .contradiction "dm_name" "vault" "other" ∧
      ¬ComparatorsAgree expected observed := by
  refine ⟨rfl, by decide, fun h => ?_⟩
  have hrefused := h.same.mpr (by rw [compare_contradicts]; exact .inr (.inl (by decide)))
  exact not_refused_ok [] hrefused

end DiscCleaner
