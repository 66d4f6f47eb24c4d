import Mathlib

/-!
# DiscCleaner — the keyring registry (`keyring.rs`)

Keys are registered, superseded by a rotation and revoked; a signature is judged by the first
entry with its key hash. Both timestamps are overwritten in place, so an operation can move
the instant from which a key is suspect. Suspicion stays exactly when no operation moves it
past the activation of the key.
-/

namespace DiscCleaner

/-! ## The registry -/

structure KeyringEntry where
  keyHash : String
  identity : String
  role : String
  activeFromUtc : Nat
  supersededAtUtc : Option Nat
  revokedAtUtc : Option Nat
  deriving DecidableEq

/-- `superseded_at_utc = Some(timestamp_utc)`. -/
def KeyringEntry.supersede (timestampUtc : Nat) (e : KeyringEntry) : KeyringEntry :=
  { e with supersededAtUtc := some timestampUtc }

/-- `revoked_at_utc = Some(timestamp_utc)`. -/
def KeyringEntry.revoke (timestampUtc : Nat) (e : KeyringEntry) : KeyringEntry :=
  { e with revokedAtUtc := some timestampUtc }

structure KeyringRegistry where
  schema : String
  entries : List KeyringEntry
  deriving DecidableEq

namespace KeyringRegistry

def new : KeyringRegistry := ⟨"dc-keyring/1", []⟩

/-- `iter().find`: the first entry with the key hash. -/
def find (reg : KeyringRegistry) (keyHash : String) : Option KeyringEntry :=
  reg.entries.find? (·.keyHash = keyHash)

/-- `iter_mut().find`, then an assignment through the reference it returns. -/
def modifyFirst (keyHash : String) (f : KeyringEntry → KeyringEntry) :
    List KeyringEntry → List KeyringEntry
  | [] => []
  | e :: es => if e.keyHash = keyHash then f e :: es else e :: modifyFirst keyHash f es

def registerKey (reg : KeyringRegistry) (entry : KeyringEntry) : KeyringRegistry :=
  { reg with entries := reg.entries ++ [entry] }

/-- The old key is superseded at the timestamp, the new one active from it. -/
def rotateKeyBilateral (reg : KeyringRegistry) (oldKeyHash : String) (newEntry : KeyringEntry)
    (timestampUtc : Nat) : Except String KeyringRegistry :=
  match reg.find oldKeyHash with
  | none => .error "OLD_KEY_NOT_FOUND_IN_KEYRING"
  | some _ =>
    .ok { reg with
      entries := modifyFirst oldKeyHash (KeyringEntry.supersede timestampUtc) reg.entries
        ++ [{ newEntry with activeFromUtc := timestampUtc }] }

def revokeKey (reg : KeyringRegistry) (keyHash : String) (timestampUtc : Nat) :
    Except String KeyringRegistry :=
  match reg.find keyHash with
  | none => .error "KEY_NOT_FOUND_IN_KEYRING"
  | some _ =>
    .ok { reg with
      entries := modifyFirst keyHash (KeyringEntry.revoke timestampUtc) reg.entries }

/-- A recorded timestamp that the signing time has reached. -/
def reached (at? : Option Nat) (signedAtUtc : Nat) : Bool := at?.any (· ≤ signedAtUtc)

def evaluateSignatureAtTime (reg : KeyringRegistry) (keyHash : String) (signedAtUtc : Nat) :
    Except String String :=
  match reg.find keyHash with
  | none => .error "KEY_UNKNOWN_IN_REGISTRY"
  | some entry =>
    if reached entry.revokedAtUtc signedAtUtc then .ok "SUSPECT_REVOKED_KEY"
    else if reached entry.supersededAtUtc signedAtUtc then .ok "SUSPECT_SUPERSEDED_KEY"
    else if signedAtUtc < entry.activeFromUtc then .error "SIGNATURE_PRIOR_TO_KEY_ACTIVATION"
    else .ok "VALID_AT_TIME"

end KeyringRegistry

/-! ## Runs -/

inductive KeyringOp where
  | registerKey (entry : KeyringEntry)
  | rotateKeyBilateral (oldKeyHash : String) (newEntry : KeyringEntry) (timestampUtc : Nat)
  | revokeKey (keyHash : String) (timestampUtc : Nat)

namespace KeyringRegistry

/-- A call; one that fails leaves the registry as it was. -/
def perform (reg : KeyringRegistry) : KeyringOp → KeyringRegistry
  | .registerKey entry => reg.registerKey entry
  | .rotateKeyBilateral old entry ts => (reg.rotateKeyBilateral old entry ts).toOption.getD reg
  | .revokeKey key ts => (reg.revokeKey key ts).toOption.getD reg

def performAll (reg : KeyringRegistry) (ops : List KeyringOp) : KeyringRegistry :=
  ops.foldl perform reg

@[simp] theorem performAll_nil (reg : KeyringRegistry) : reg.performAll [] = reg := rfl

@[simp] theorem performAll_cons (reg : KeyringRegistry) (op : KeyringOp) (ops : List KeyringOp) :
    reg.performAll (op :: ops) = (reg.perform op).performAll ops := rfl

theorem performAll_append (reg : KeyringRegistry) (ops more : List KeyringOp) :
    reg.performAll (ops ++ more) = (reg.performAll ops).performAll more :=
  List.foldl_append

end KeyringRegistry

/-! ## The instant a key becomes suspect -/

/-- A timestamp that may be missing, as a point on the time line or its end. -/
def instant : Option Nat → WithTop Nat
  | none => ⊤
  | some t => WithTop.some t

/-- The earlier of revocation and supersession. -/
def KeyringEntry.suspectFrom (e : KeyringEntry) : WithTop Nat :=
  min (instant e.revokedAtUtc) (instant e.supersededAtUtc)

theorem instant_le_iff (at? : Option Nat) (t : Nat) :
    instant at? ≤ WithTop.some t ↔ KeyringRegistry.reached at? t = true := by
  cases at? with
  | none => simp [instant, KeyringRegistry.reached]
  | some s =>
    show WithTop.some s ≤ WithTop.some t ↔ decide (s ≤ t) = true
    rw [WithTop.coe_le_coe, decide_eq_true_iff]

theorem KeyringEntry.suspectFrom_le_iff (e : KeyringEntry) (t : Nat) :
    e.suspectFrom ≤ WithTop.some t ↔ KeyringRegistry.reached e.revokedAtUtc t = true
      ∨ KeyringRegistry.reached e.supersededAtUtc t = true := by
  rw [KeyringEntry.suspectFrom, inf_le_iff, instant_le_iff, instant_le_iff]

namespace KeyringRegistry

/-- `evaluate_signature_at_time` answers with one of the two suspect verdicts. -/
def Suspect (reg : KeyringRegistry) (key : String) (t : Nat) : Prop :=
  reg.evaluateSignatureAtTime key t = .ok "SUSPECT_REVOKED_KEY"
    ∨ reg.evaluateSignatureAtTime key t = .ok "SUSPECT_SUPERSEDED_KEY"

def Valid (reg : KeyringRegistry) (key : String) (t : Nat) : Prop :=
  reg.evaluateSignatureAtTime key t = .ok "VALID_AT_TIME"

theorem suspect_iff {reg : KeyringRegistry} {key : String} {t : Nat} :
    reg.Suspect key t ↔ ∃ e, reg.find key = some e ∧ e.suspectFrom ≤ WithTop.some t := by
  unfold Suspect evaluateSignatureAtTime
  cases hfind : reg.find key with
  | none => simp
  | some e =>
    simp only [Option.some.injEq, exists_eq_left', e.suspectFrom_le_iff]
    by_cases hrevoked : reached e.revokedAtUtc t = true
    · simp [hrevoked]
    · by_cases hsuperseded : reached e.supersededAtUtc t = true
      · simp [hrevoked, hsuperseded]
      · by_cases hactive : t < e.activeFromUtc
        · simp [hrevoked, hsuperseded, hactive]
        · simp [hrevoked, hsuperseded, hactive]

theorem valid_iff {reg : KeyringRegistry} {key : String} {t : Nat} :
    reg.Valid key t
      ↔ ∃ e, reg.find key = some e ∧ ¬ e.suspectFrom ≤ WithTop.some t ∧ e.activeFromUtc ≤ t := by
  unfold Valid evaluateSignatureAtTime
  cases hfind : reg.find key with
  | none => simp
  | some e =>
    simp only [Option.some.injEq, exists_eq_left', e.suspectFrom_le_iff]
    by_cases hrevoked : reached e.revokedAtUtc t = true
    · simp [hrevoked]
    · by_cases hsuperseded : reached e.supersededAtUtc t = true
      · simp [hrevoked, hsuperseded]
      · by_cases hactive : t < e.activeFromUtc
        · simp [hrevoked, hsuperseded, hactive]
        · simp [hrevoked, hsuperseded, hactive]
          omega

/-! ## What an operation does to a lookup -/

theorem find_modifyFirst (key : String) {f : KeyringEntry → KeyringEntry}
    (hf : ∀ e, (f e).keyHash = e.keyHash) (es : List KeyringEntry) (k : String) :
    (modifyFirst key f es).find? (·.keyHash = k)
      = if k = key then (es.find? (·.keyHash = k)).map f else es.find? (·.keyHash = k) := by
  induction es with
  | nil => simp [modifyFirst]
  | cons e es ih =>
    by_cases hkey : e.keyHash = key
    · by_cases hk : k = key
      · simp [modifyFirst, hkey, hk, hf]
      · have hne : ¬ key = k := fun h => hk h.symm
        simp [modifyFirst, hkey, hk, hf, hne]
    · rw [modifyFirst, if_neg hkey]
      by_cases hk : e.keyHash = k
      · have hne : ¬ k = key := fun h => hkey (hk.trans h)
        simp [hk, hne]
      · simp only [List.find?_cons, hk, decide_false]
        exact ih

/-- After a modification a known key is judged by its old entry, or it is the modified key. -/
theorem find_modified {reg : KeyringRegistry} {key k : String} {found e : KeyringEntry}
    (f : KeyringEntry → KeyringEntry) (hf : ∀ e, (f e).keyHash = e.keyHash)
    (hkey : reg.find key = some found) (h : reg.find k = some e) :
    (modifyFirst key f reg.entries).find? (·.keyHash = k) = some e
      ∨ found = e ∧ (modifyFirst key f reg.entries).find? (·.keyHash = k) = some (f e) := by
  rw [find_modifyFirst key hf]
  by_cases hk : k = key
  · right
    rw [if_pos hk, show reg.entries.find? _ = some e from h]
    rw [hk, hkey] at h
    exact ⟨Option.some.inj h, rfl⟩
  · left
    rw [if_neg hk]
    exact h

/-- An entry that was found before an appended one is still the one found. -/
theorem find_append {es more : List KeyringEntry} {k : String} {e : KeyringEntry}
    (h : es.find? (·.keyHash = k) = some e) : (es ++ more).find? (·.keyHash = k) = some e := by
  rw [List.find?_append, h, Option.some_or]

/-- The entry an operation overwrites, if it finds it, and what it becomes. -/
def overwritten (reg : KeyringRegistry) : KeyringOp → Option (KeyringEntry × KeyringEntry)
  | .registerKey _ => none
  | .rotateKeyBilateral old _ ts =>
    (reg.find old).map fun e => (e, e.supersede ts)
  | .revokeKey key ts => (reg.find key).map fun e => (e, e.revoke ts)

/-- **Step lemma**: a key that was known is judged by the same entry afterwards, or by what
the operation made of it. -/
theorem find_perform {reg : KeyringRegistry} (op : KeyringOp) {k : String} {e : KeyringEntry}
    (h : reg.find k = some e) :
    (reg.perform op).find k = some e
      ∨ ∃ e', reg.overwritten op = some (e, e') ∧ (reg.perform op).find k = some e' := by
  cases op with
  | registerKey entry => exact Or.inl (find_append h)
  | rotateKeyBilateral old entry ts =>
    cases hold : reg.find old with
    | none =>
      rw [perform, rotateKeyBilateral, hold]
      exact Or.inl h
    | some found =>
      rw [perform, rotateKeyBilateral, overwritten, hold]
      rcases find_modified (KeyringEntry.supersede ts) (fun _ => rfl) hold h with hkept | ⟨hsame, hnew⟩
      · exact Or.inl (find_append hkept)
      · exact Or.inr ⟨_, by rw [hsame]; rfl, find_append hnew⟩
  | revokeKey key ts =>
    cases hkey : reg.find key with
    | none =>
      rw [perform, revokeKey, hkey]
      exact Or.inl h
    | some found =>
      rw [perform, revokeKey, overwritten, hkey]
      rcases find_modified (KeyringEntry.revoke ts) (fun _ => rfl) hkey h with hkept | ⟨hsame, hnew⟩
      · exact Or.inl hkept
      · exact Or.inr ⟨_, by rw [hsame]; rfl, hnew⟩

/-- The overwritten entry is the one found for its key, and so is its replacement. -/
theorem find_of_overwritten {reg : KeyringRegistry} {op : KeyringOp} {e e' : KeyringEntry}
    (h : reg.overwritten op = some (e, e')) :
    reg.find e.keyHash = some e ∧ (reg.perform op).find e.keyHash = some e'
      ∧ e'.activeFromUtc = e.activeFromUtc := by
  have hmodified : ∀ {key : String} {f : KeyringEntry → KeyringEntry},
      (∀ e, (f e).keyHash = e.keyHash) → reg.find key = some e →
      e.keyHash = key ∧ (modifyFirst key f reg.entries).find? (·.keyHash = key) = some (f e) := by
    intro key f hf hfind
    have hhash : e.keyHash = key := by simpa using List.find?_some hfind
    rw [find_modifyFirst key hf, if_pos rfl, show reg.entries.find? _ = some e from hfind]
    exact ⟨hhash, rfl⟩
  cases op with
  | registerKey entry => cases h
  | rotateKeyBilateral old entry ts =>
    obtain ⟨found, hold, hpair⟩ := Option.map_eq_some_iff.mp h
    obtain ⟨rfl, rfl⟩ := Prod.mk.inj hpair
    obtain ⟨hhash, hnew⟩ := hmodified (f := KeyringEntry.supersede ts)
      (fun _ => rfl) hold
    rw [hhash, perform, rotateKeyBilateral, hold]
    exact ⟨rfl, find_append hnew, rfl⟩
  | revokeKey key ts =>
    obtain ⟨found, hkey, hpair⟩ := Option.map_eq_some_iff.mp h
    obtain ⟨rfl, rfl⟩ := Prod.mk.inj hpair
    obtain ⟨hhash, hnew⟩ := hmodified (f := KeyringEntry.revoke ts)
      (fun _ => rfl) hkey
    rw [hhash, perform, revokeKey, hkey]
    exact ⟨rfl, hnew, rfl⟩

/-! ## Suspicion over runs -/

/-- The replacement is suspect only from a later instant, at which the key is active. -/
def Postpones (e e' : KeyringEntry) : Prop :=
  max e.suspectFrom (WithTop.some e.activeFromUtc) < e'.suspectFrom

/-- The operation does not put off the suspicion of the entry it overwrites. -/
def Harmless (reg : KeyringRegistry) (op : KeyringOp) : Prop :=
  ∀ e e', reg.overwritten op = some (e, e') → ¬ Postpones e e'

/-- Every operation of the run is harmless where it is performed. -/
def HarmlessRun (reg : KeyringRegistry) (ops : List KeyringOp) : Prop :=
  ∀ before op after, ops = before ++ op :: after → (reg.performAll before).Harmless op

/-- A signature that is suspect somewhere in the run is not valid anywhere after that. -/
def SuspicionKept (reg : KeyringRegistry) (ops : List KeyringOp) : Prop :=
  ∀ before middle after, ops = before ++ middle ++ after → ∀ key t,
    (reg.performAll before).Suspect key t → ¬ (reg.performAll (before ++ middle)).Valid key t

/-- What harmless operations keep: the entry a key is judged by keeps its activation, and its
suspicion moves at most up to that. -/
def Tightens (reg reg' : KeyringRegistry) : Prop :=
  ∀ key e, reg.find key = some e → ∃ e', reg'.find key = some e'
    ∧ e'.activeFromUtc = e.activeFromUtc
    ∧ e'.suspectFrom ≤ max e.suspectFrom (WithTop.some e.activeFromUtc)

theorem Tightens.refl (reg : KeyringRegistry) : Tightens reg reg :=
  fun _ e h => ⟨e, h, rfl, le_max_left _ _⟩

theorem Tightens.trans {reg reg' reg'' : KeyringRegistry} (h : Tightens reg reg')
    (h' : Tightens reg' reg'') : Tightens reg reg'' := by
  intro key e hfind
  obtain ⟨e', hfind', hactive, hsuspect⟩ := h key e hfind
  obtain ⟨e'', hfind'', hactive', hsuspect'⟩ := h' key e' hfind'
  refine ⟨e'', hfind'', hactive'.trans hactive, hsuspect'.trans ?_⟩
  rw [hactive]
  exact max_le hsuspect (le_max_right _ _)

/-- **Step lemma**: a harmless operation tightens the registry. -/
theorem Harmless.tightens {reg : KeyringRegistry} {op : KeyringOp} (h : reg.Harmless op) :
    Tightens reg (reg.perform op) := by
  intro key e hfind
  rcases find_perform op hfind with hkept | ⟨e', hover, hnew⟩
  · exact ⟨e, hkept, rfl, le_max_left _ _⟩
  · exact ⟨e', hnew, (find_of_overwritten hover).2.2, not_lt.mp (h e e' hover)⟩

/-- **Run lemma**: so does a run of them. -/
theorem HarmlessRun.tightens {reg : KeyringRegistry} {ops : List KeyringOp}
    (h : reg.HarmlessRun ops) : Tightens reg (reg.performAll ops) := by
  induction ops generalizing reg with
  | nil => exact Tightens.refl reg
  | cons op ops ih =>
    have hfirst : reg.Harmless op := h [] op ops rfl
    refine hfirst.tightens.trans (ih fun before op' after heq => ?_)
    exact h (op :: before) op' after (by rw [heq]; rfl)

/-- In a tightened registry a suspect signature is not valid. -/
theorem Tightens.not_valid {reg reg' : KeyringRegistry} (h : Tightens reg reg') {key : String}
    {t : Nat} (hsuspect : reg.Suspect key t) : ¬ reg'.Valid key t := by
  intro hvalid
  obtain ⟨e, hfind, hreached⟩ := suspect_iff.mp hsuspect
  obtain ⟨e', hfind', hclear, hactive⟩ := valid_iff.mp hvalid
  obtain ⟨e'', hfind'', hsame, hle⟩ := h key e hfind
  obtain rfl := Option.some.inj (hfind'.symm.trans hfind'')
  refine hclear (hle.trans (max_le hreached ?_))
  rw [← hsame]
  exact WithTop.coe_le_coe.mpr hactive

/-- A harmful operation makes a suspect signature valid: one made once the key was both
suspect and active. -/
theorem exists_revived {reg : KeyringRegistry} {op : KeyringOp} (h : ¬ reg.Harmless op) :
    ∃ key t, reg.Suspect key t ∧ (reg.perform op).Valid key t := by
  unfold Harmless at h
  push Not at h
  obtain ⟨e, e', hover, hpostpones⟩ := h
  obtain ⟨hfind, hnew, hactive⟩ := find_of_overwritten hover
  obtain ⟨t, ht, -⟩ := WithTop.lt_iff_exists_coe.mp hpostpones
  rw [Postpones, ht] at hpostpones
  refine ⟨e.keyHash, t, suspect_iff.mpr ⟨e, hfind, ?_⟩, valid_iff.mpr ⟨e', hnew, ?_, ?_⟩⟩
  · exact (le_max_left _ _).trans ht.le
  · exact not_le.mpr hpostpones
  · rw [hactive]
    exact WithTop.coe_le_coe.mp ((le_max_right _ _).trans ht.le)

/-- **Suspicion is monotone, exactly**: in a run of any length it is never lifted if and only
if no operation of the run puts off the suspicion of the entry it overwrites. -/
theorem suspicionKept_iff (ops : List KeyringOp) :
    new.SuspicionKept ops ↔ new.HarmlessRun ops := by
  constructor
  · intro hkept before op after heq
    by_contra hharm
    obtain ⟨key, t, hsuspect, hvalid⟩ := exists_revived hharm
    apply hkept before [op] after (by rw [heq, List.append_assoc]; rfl) key t hsuspect
    rw [performAll_append]
    exact hvalid
  · intro hharmless before middle after heq key t hsuspect
    have hmiddle : (new.performAll before).HarmlessRun middle := by
      intro first op rest hmid
      rw [← performAll_append]
      apply hharmless (before ++ first) op (rest ++ after)
      rw [heq, hmid]
      simp only [List.append_assoc, List.cons_append]
    rw [performAll_append]
    exact hmiddle.tightens.not_valid hsuspect

/-! ### A key revoked twice -/

def leakedKey : KeyringEntry := ⟨"K", "Officer", "Auditor", 100, none, none⟩

/-- **Revoked again, valid again**: a signature of time 600 is suspect after the revocation at
500 and valid after one at 1000. -/
theorem revoked_twice_revives :
    (new.performAll [.registerKey leakedKey, .revokeKey "K" 500]).evaluateSignatureAtTime "K" 600
        = .ok "SUSPECT_REVOKED_KEY"
      ∧ (new.performAll [.registerKey leakedKey, .revokeKey "K" 500, .revokeKey "K" 1000]
          ).evaluateSignatureAtTime "K" 600 = .ok "VALID_AT_TIME"
      ∧ ¬ new.SuspicionKept
          [.registerKey leakedKey, .revokeKey "K" 500, .revokeKey "K" 1000] := by
  have hsuspect : (new.performAll [.registerKey leakedKey, .revokeKey "K" 500]
      ).evaluateSignatureAtTime "K" 600 = .ok "SUSPECT_REVOKED_KEY" := by decide
  have hvalid : (new.performAll
      [.registerKey leakedKey, .revokeKey "K" 500, .revokeKey "K" 1000]
      ).evaluateSignatureAtTime "K" 600 = .ok "VALID_AT_TIME" := by decide
  refine ⟨hsuspect, hvalid, fun hkept => ?_⟩
  exact hkept [.registerKey leakedKey, .revokeKey "K" 500] [.revokeKey "K" 1000] [] rfl "K" 600
    (Or.inl hsuspect) hvalid

end KeyringRegistry

end DiscCleaner
