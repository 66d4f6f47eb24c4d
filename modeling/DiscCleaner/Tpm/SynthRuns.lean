import DiscCleaner.Lib.Transition
import DiscCleaner.Tpm.SynthSeal

/-!
# DiscCleaner — what a sealed secret opens to (`dc-tpm/seal.rs`, `dc-tpm/synth.rs`)

The two ladders over whole runs of the emulator. Handles are given out one after another and must
stay in their classes, which holds of a run as long as it is shorter than a class is large.

* **`sealed_opens_iff`** — a sealed secret opens exactly while its policy is the one of the registers.
* **`registers_only_extend`** — a register is the chain of what was extended into it.
* **`released_was_asserted`** — in any run of any commands, what is released was asserted against
  registers that the run went through.
-/

namespace DiscCleaner

open ByteLib ProgLib TransitionLib

namespace Tpm

namespace SynthTpm

/-! ## The two ladders -/

section

variable (sha256 : Bytes → Block 32) (aik : SynthKey)

/-- The policy of the selected registers as they are. -/
def livePolicy (t : SynthTpm) (mask : PcrMask) : Block 32 :=
  extendPolicy sha256 zeroDigest (sha256 (t.selectedValues (.singleSha256 mask))).bytes

/-- The blob that a seal gives back. -/
def sealedBlob (t : SynthTpm) (mask : PcrMask) (secret : Bytes) (now : Nat) : SealedKeyBlob where
  schema := SealedKeyBlob.SCHEMA
  privateHex := hexEncode (privateBlob sha256 (livePolicy sha256 t mask) secret)
  publicHex := hexEncode (sealedPublic (livePolicy sha256 t mask).bytes)
  policyHex := hexEncode (livePolicy sha256 t mask).bytes
  pcrMaskHex := hexEncode mask.bytes
  pcrList := maskToPcrList mask
  sealedBy := "synth-tpm (test rig; never a release path)"
  createdUtc := now

/-- There is a session handle and an object handle to give out. -/
structure Room (t : SynthTpm) : Prop where
  session : t.nextSession >>> 24 = 0x03
  transient : t.nextTransient >>> 24 = 0x80

variable {sha256} {aik} {t : SynthTpm}

theorem Room.session_lt (h : Room t) : t.nextSession < 2 ^ 32 := by
  have hs := h.session
  rw [Nat.shiftRight_eq_div_pow] at hs
  omega

theorem Room.transient_lt (h : Room t) : t.nextTransient < 2 ^ 32 := by
  have ht := h.transient
  rw [Nat.shiftRight_eq_div_pow] at ht
  omega

theorem ends_seal (hroom : Room t) {mask : PcrMask} (hsel : selectedPcrs (.singleSha256 mask) ≠ [])
    {secret : Bytes} (hne : secret ≠ []) (hmax : secret.length ≤ DC_SEALED_SECRET_MAX) (now : Nat) :
    ∃ t', Ends («seal» (transport sha256 aik) (hostSha sha256) now secret mask) t
      (.ok (sealedBlob sha256 t mask secret now)) t' := by
  set policy := livePolicy sha256 t mask with hpolicy
  set session := t.nextSession with hs
  have hlt : session < 2 ^ 32 := hroom.session_lt
  set t₁ := withSession t TPM_SE_TRIAL with h₁
  have hfresh : t₁.sessions session = some ⟨TPM_SE_TRIAL, zeroDigest⟩ := sessions_withSession ..
  set t₂ := withPolicy t₁ session TPM_SE_TRIAL policy with h₂
  have hasserted : t₂.sessions session = some ⟨TPM_SE_TRIAL, policy⟩ := sessions_withPolicy ..
  have hcreated : Read.Parses parseCreateSealed
      (tpm2b (privateBlob sha256 policy secret) ++ tpm2b (sealedPublic policy.bytes))
      ⟨privateBlob sha256 policy secret, sealedPublic policy.bytes⟩ := by
    refine (parses_tpm2b (privateBlob_cap policy hmax)).bind ((parses_tpm2b (sealedPublic_cap policy)).map ?_)
    rw [if_neg]
    · exact .ret _
    · rw [not_or, ← List.length_eq_zero_iff, ← List.length_eq_zero_iff, privateBlob_length,
        sealedPublic_length]
      omega
  have hbad : ¬ (secret = [] ∨ secret.length > DC_SEALED_SECRET_MAX) := by
    rw [not_or]
    exact ⟨hne, by omega⟩
  refine ⟨withoutHandle t₂ session, ?_⟩
  rw [«seal», if_neg hbad]
  refine (ends_currentPcrDigest hsel).bind ?_
  refine (ends_startSession (.inl rfl) hroom.session).bind ?_
  -- a trial session is not held to the live registers
  refine (ends_runPolicyPcr hlt mask _ hfresh (fun h => absurd h (by decide))).bind ?_
  refine (ends_transactOwned (.inl rfl) (handle_policyGetDigest t₂ hlt hasserted)).bind ?_
  refine (ends_transactOwned (.inl rfl) (handle_create t₂ policy hne hmax)).bind ?_
  refine (Ends.ofExcept_ok (by rw [hcreated.value]; rfl) t₂).bind ?_
  refine (ends_flush hlt).bind ?_
  exact fun log => ⟨log, rfl⟩

/-- What an unseal of a blob ends with. -/
theorem ends_unseal (hroom : Room t) {mask : PcrMask} (hsel : selectedPcrs (.singleSha256 mask) ≠ [])
    {secret : Bytes} (hne : secret ≠ []) (hmax : secret.length ≤ DC_SEALED_SECRET_MAX)
    (origin : SynthTpm) (now : Nat) :
    ∃ t', Ends («unseal» (transport sha256 aik) (hostSha sha256)
        (sealedBlob sha256 origin mask secret now)) t
      (if livePolicy sha256 t mask = livePolicy sha256 origin mask then .ok secret
        else .err (.responseCode TPM_RC_POLICY_FAIL)) t' := by
  set policy := livePolicy sha256 origin mask with hpolicy
  set object := t.nextTransient with ho
  have holt : object < 2 ^ 32 := hroom.transient_lt
  set t₁ := withObject t policy secret with h₁
  set session := t₁.nextSession with hs
  have hslt : session < 2 ^ 32 := hroom.session_lt
  set t₂ := withSession t₁ TPM_SE_POLICY with h₂
  have hfresh : t₂.sessions session = some ⟨TPM_SE_POLICY, zeroDigest⟩ := sessions_withSession ..
  set t₃ := withPolicy t₂ session TPM_SE_POLICY (livePolicy sha256 t mask) with h₃
  have hasserted : t₃.sessions session = some ⟨TPM_SE_POLICY, livePolicy sha256 t mask⟩ :=
    sessions_withPolicy ..
  have hloaded : t₃.sealedObjects object = some ⟨policy, secret⟩ := sealedObjects_withObject ..
  have hload : Read.Parses parseLoad (be 4 object
      ++ tpm2b ([0x00, 0x0B] ++ (sha256 (sealedPublic policy.bytes)).bytes))
      ⟨object, [0x00, 0x0B] ++ (sha256 (sealedPublic policy.bytes)).bytes⟩ := by
    have hname : ([0x00, 0x0B] ++ (sha256 (sealedPublic policy.bytes)).bytes).length ≤ TPM2B_CAP := by
      rw [List.length_append, Block.size]
      decide
    refine (parses_word holt).bind ((parses_tpm2b hname).map ?_)
    rw [if_neg (fun h => h hroom.transient)]
    exact .ret _
  have hsecret : Read.Parses parseUnseal (tpm2b secret) secret := by
    have hcap : DC_SEALED_SECRET_MAX ≤ TPM2B_CAP := by decide
    exact parses_tpm2b (by omega)
  -- the steps under the session
  have hunder : Ends (unsealUnder (transport sha256 aik) session object (.singleSha256 mask)
      (sha256 (t.selectedValues (.singleSha256 mask))).bytes) t₂
      (replied (if livePolicy sha256 t mask = policy then .ok secret
        else .error (.responseCode TPM_RC_POLICY_FAIL))) t₃ := by
    refine (ends_runPolicyPcr hslt mask _ hfresh (fun _ => rfl)).bind ?_
    have hunseal := @handle_unseal sha256 aik t₃ _ _ hslt holt
    have hrelease : t₃.release (object, session)
        = if livePolicy sha256 t mask = policy then .ok secret else .error TPM_RC_POLICY_FAIL := by
      simp only [release, hasserted, hloaded, ne_eq, not_true_eq_false, if_false, ite_not]
    rw [hrelease] at hunseal
    split_ifs at hunseal ⊢ with heq
    · refine (ends_transactOwned (.inl rfl) hunseal).bind ?_
      exact .ofExcept_ok (by rw [hsecret.value]; rfl) _
    · exact (ends_transactOwned_error (by decide) (by decide) hunseal).bind_err
  refine ⟨withoutHandle (withoutHandle t₃ session) object, ?_⟩
  have hmask : decodeMask (hexEncode mask.bytes) = .ok mask := by
    simp only [decodeMask, hexDecode_hexEncode, Block.ofBytes?_bytes]
  rw [«unseal»]
  simp only [sealedBlob, ne_eq, not_true_eq_false, if_false, hexDecode_hexEncode]
  refine (Ends.ofExcept_ok hmask t).bind ?_
  rw [unsealLoaded]
  refine (ends_transactOwned (.inl rfl) (handle_load t policy hne hmax)).bind ?_
  refine (Ends.ofExcept_ok (by rw [hload.value]; rfl) t₁).bind ?_
  refine (ends_currentPcrDigest hsel).bind ?_
  refine (ends_startSession (t := t₁) (.inr rfl) hroom.session).bind ?_
  refine (Ends.attempt hunder).bind ?_
  refine (ends_flush hslt).bind ((ends_flush holt).bind ?_)
  intro log
  refine ⟨log, ?_⟩
  split_ifs <;> rfl

end

/-! ## One command -/

/-- What a command can do to the TPM. -/
inductive Step (sha256 : Bytes → Block 32) (t : SynthTpm) : SynthTpm → Prop
  | stay : Step sha256 t t
  | startup : Step sha256 t { t with started := true }
  | tick (clock : Nat) : Step sha256 t { t with clock }
  | extend (pcr : Fin 24) (v : Block 32) : Step sha256 t
      { t with pcrs := Function.update t.pcrs pcr (sha256 ((t.pcrs pcr).bytes ++ v.bytes)) }
  | start (kind : Nat) : Step sha256 t (withSession t kind)
  | policy (handle : Nat) (session : SynthSession) (list : PcrSelectionList) (digest : Bytes)
      (known : t.sessions handle = some session)
      (live : session.kind = TPM_SE_POLICY → (sha256 (t.selectedValues list)).bytes = digest) :
      Step sha256 t (withPolicy t handle session.kind (extendPolicy sha256 session.policyDigest digest))
  | load (policy : Block 32) (data : Bytes) : Step sha256 t (withObject t policy data)
  | flush (handle : Nat) : Step sha256 t (withoutHandle t handle)

section

variable {sha256 : Bytes → Block 32} {aik : SynthKey} (t : SynthTpm)

theorem step_pcrExtend (tag : Nat) (r : Bytes) : Step sha256 t (pcrExtend sha256 t tag r).2 := by
  simp only [pcrExtend]
  split
  · exact .stay
  · split
    · exact .stay
    · exact .extend _ _

theorem step_quote (r : Bytes) : Step sha256 t (quote sha256 aik t r).2 := by
  simp only [quote]
  split
  · exact .stay
  · exact .tick _

theorem step_startAuthSession (tag : Nat) (r : Bytes) :
    Step sha256 t (startAuthSession t tag r).2 := by
  simp only [startAuthSession]
  split
  · exact .stay
  · exact .start _

theorem step_policyPcr (tag : Nat) (r : Bytes) : Step sha256 t (policyPcr sha256 t tag r).2 := by
  simp only [policyPcr]
  split
  · exact .stay
  · split
    · exact .stay
    · next session hsession =>
      split
      · exact .stay
      · next hlive =>
        exact .policy _ session _ _ hsession fun hkind => not_not.mp fun hne => hlive ⟨hkind, hne⟩

theorem step_create (tag : Nat) (r : Bytes) : Step sha256 t (create sha256 t tag r).2 := by
  have hsame : (create sha256 t tag r).2 = t := by
    simp only [create]
    split
    · rfl
    · split_ifs
      · rfl
      · rfl
      · rfl
      · split <;> rfl
  rw [hsame]
  exact .stay

theorem step_load (tag : Nat) (r : Bytes) : Step sha256 t (load sha256 t tag r).2 := by
  simp only [load]
  split
  · exact .stay
  · split
    · exact .stay
    · split
      · exact .stay
      · split
        · exact .stay
        · split
          · exact .stay
          · split
            · exact .stay
            · exact .load _ _

theorem step_policyGetDigest (tag : Nat) (r : Bytes) :
    Step sha256 t (policyGetDigest t tag r).2 := by
  have hsame : (policyGetDigest t tag r).2 = t := by
    simp only [policyGetDigest]
    split
    · rfl
    · split <;> rfl
  rw [hsame]
  exact .stay

theorem step_unsealObject (tag : Nat) (r : Bytes) : Step sha256 t (unsealObject t tag r).2 := by
  have hsame : (unsealObject t tag r).2 = t := by
    simp only [unsealObject]
    split <;> rfl
  rw [hsame]
  exact .stay

theorem step_handleCommandBody (code tag : Nat) (r : Bytes) :
    Step sha256 t (handleCommandBody sha256 aik t code tag r).2 := by
  rw [handleCommandBody]
  split_ifs
  · exact .stay
  · exact .startup
  · exact .stay
  · exact .stay
  · exact .stay
  · exact step_pcrExtend t _ _
  · exact .stay
  · exact .stay
  · exact .stay
  · exact step_quote t _
  · exact .stay

/-- **One command**: whatever its bytes are. -/
theorem handleCommand_step (command : Bytes) :
    Step sha256 t (handleCommand sha256 aik command t).2 := by
  have hdispatch : ∀ code tag r, Step sha256 t (dispatch sha256 aik t code tag r).2 := by
    intro code tag r
    rw [dispatch]
    split_ifs
    · exact step_startAuthSession t _ _
    · exact step_policyPcr t _ _
    · exact step_policyGetDigest t _ _
    · exact step_create t _ _
    · exact step_load t _ _
    · exact step_unsealObject t _ _
    · exact .flush _
    · exact step_handleCommandBody t _ _ _
  exact hdispatch _ _ _

end

/-! ## Runs -/

section

variable (sha256 : Bytes → Block 32) (aik : SynthKey)

/-- The TPM after these commands. -/
def after (commands : List Bytes) : SynthTpm :=
  run (fun t command => (handleCommand sha256 aik command t).2) new commands

variable {sha256} {aik}

theorem step_counters {t t' : SynthTpm} (h : Step sha256 t t') :
    (t'.nextSession = t.nextSession ∨ t'.nextSession = (t.nextSession + 1) % 2 ^ 32) ∧
      (t'.nextTransient = t.nextTransient ∨ t'.nextTransient = (t.nextTransient + 1) % 2 ^ 32) := by
  cases h with
  | stay => exact ⟨.inl rfl, .inl rfl⟩
  | startup => exact ⟨.inl rfl, .inl rfl⟩
  | tick => exact ⟨.inl rfl, .inl rfl⟩
  | extend => exact ⟨.inl rfl, .inl rfl⟩
  | start => exact ⟨.inr rfl, .inl rfl⟩
  | policy => exact ⟨.inl rfl, .inl rfl⟩
  | load => exact ⟨.inl rfl, .inr rfl⟩
  | flush => exact ⟨.inl rfl, .inl rfl⟩

theorem after_concat (es : List Bytes) (e : Bytes) :
    after sha256 aik (es ++ [e]) = (handleCommand sha256 aik e (after sha256 aik es)).2 :=
  run_concat ..

/-- A command gives out one handle at most. -/
theorem counters_after {commands : List Bytes} (h : commands.length < 2 ^ 24 - 0x100) :
    0x03000001 ≤ (after sha256 aik commands).nextSession ∧
      (after sha256 aik commands).nextSession ≤ 0x03000001 + commands.length ∧
      0x80000100 ≤ (after sha256 aik commands).nextTransient ∧
      (after sha256 aik commands).nextTransient ≤ 0x80000100 + commands.length := by
  induction commands using List.reverseRecOn with
  | nil => simp [after, new]
  | append_singleton es e ih =>
    rw [List.length_append, List.length_singleton] at h ⊢
    obtain ⟨h1, h2, h3, h4⟩ := ih (by omega)
    -- neither counter is near its wrap yet
    obtain ⟨hsession, htransient⟩ :=
      step_counters (@handleCommand_step sha256 aik (after sha256 aik es) e)
    rw [after_concat]
    omega

/-- The classes last as long as a run is shorter than they are large. -/
theorem room_after {commands : List Bytes} (h : commands.length < 2 ^ 24 - 0x100) :
    Room (after sha256 aik commands) := by
  obtain ⟨h1, h2, h3, h4⟩ := @counters_after sha256 aik _ h
  constructor
  · rw [Nat.shiftRight_eq_div_pow]
    omega
  · rw [Nat.shiftRight_eq_div_pow]
    omega

/-- The strings that are hashed for the policy of the registers. -/
def hashedForPolicy (sha256 : Bytes → Block 32) (t : SynthTpm) (mask : PcrMask) : Set Bytes :=
  {t.selectedValues (.singleSha256 mask), zeroDigest.bytes ++ be 4 TPM_CC_POLICY_PCR
    ++ (sha256 (t.selectedValues (.singleSha256 mask))).bytes}

/-- The policy tells apart what the selected registers hold, unless two of these strings collide. -/
theorem livePolicy_inj {t t' : SynthTpm} {mask : PcrMask}
    (hsha : Set.InjOn sha256 (hashedForPolicy sha256 t mask ∪ hashedForPolicy sha256 t' mask)) :
    livePolicy sha256 t mask = livePolicy sha256 t' mask ↔
      ∀ pcr ∈ selectedPcrs (.singleSha256 mask), t.pcrs pcr = t'.pcrs pcr := by
  constructor
  · intro h
    have hpre := hsha (.inl (.inr rfl)) (.inr (.inr rfl)) h
    have hdigest := Block.ext (List.append_cancel_left hpre)
    have hvalues := hsha (.inl (.inl rfl)) (.inr (.inl rfl)) hdigest
    intro pcr hpcr
    have hblocks : ∀ l : List (Fin 24), (l.flatMap fun p => (t.pcrs p).bytes)
        = (l.flatMap fun p => (t'.pcrs p).bytes) → ∀ p ∈ l, t.pcrs p = t'.pcrs p := by
      intro l
      induction l with
      | nil => exact fun _ p hp => absurd hp (List.not_mem_nil)
      | cons q l ih =>
        intro heq
        rw [List.flatMap_cons, List.flatMap_cons] at heq
        obtain ⟨hhead, htail⟩ := List.append_inj heq (by rw [Block.size, Block.size])
        exact List.forall_mem_cons.mpr ⟨Block.ext hhead, ih htail⟩
    exact hblocks _ hvalues pcr hpcr
  · intro h
    have hvalues : t.selectedValues (.singleSha256 mask) = t'.selectedValues (.singleSha256 mask) := by
      rw [selectedValues, selectedValues, List.flatMap_def, List.flatMap_def,
        List.map_congr_left fun pcr hpcr => congrArg Block.bytes (h pcr hpcr)]
    rw [livePolicy, livePolicy, hvalues]

/-! ## What registers hold -/

/-- A register with digests taken into it, one after another. -/
def chain (sha256 : Bytes → Block 32) (old : Block 32) (vs : List (Block 32)) : Block 32 :=
  vs.foldl (fun d v => sha256 (d.bytes ++ v.bytes)) old

theorem step_chain {t t' : SynthTpm} (h : Step sha256 t t') (pcr : Fin 24) :
    ∃ vs, vs.length ≤ 1 ∧ t'.pcrs pcr = chain sha256 (t.pcrs pcr) vs := by
  cases h with
  | extend q v =>
    by_cases hq : pcr = q
    · exact ⟨[v], le_rfl, by rw [hq]; exact Function.update_self ..⟩
    · exact ⟨[], Nat.zero_le _, Function.update_of_ne hq ..⟩
  | _ => exact ⟨[], Nat.zero_le _, rfl⟩

/-! ## What sessions have asserted -/

/-- A policy that was built up step by step, each against the registers of some TPM in `P`. -/
inductive Asserted (sha256 : Bytes → Block 32) (P : SynthTpm → Prop) : Block 32 → Prop
  | start : Asserted sha256 P zeroDigest
  | step {digest : Block 32} {t : SynthTpm} (list : PcrSelectionList)
      (before : Asserted sha256 P digest) (ht : P t) :
      Asserted sha256 P (extendPolicy sha256 digest (sha256 (t.selectedValues list)).bytes)

theorem Asserted.mono {P Q : SynthTpm → Prop} {policy : Block 32} (h : Asserted sha256 P policy)
    (hPQ : ∀ t, P t → Q t) : Asserted sha256 Q policy := by
  induction h with
  | start => exact .start
  | step list _ ht ih => exact .step list ih (hPQ _ ht)

/-- The run went through this TPM. -/
def Went (sha256 : Bytes → Block 32) (aik : SynthKey) (commands : List Bytes) (t : SynthTpm) : Prop :=
  ∃ before, before <+: commands ∧ after sha256 aik before = t

/-- The policy sessions of the TPM have asserted what they hold against TPMs in `P`. -/
def Held (sha256 : Bytes → Block 32) (P : SynthTpm → Prop) (t : SynthTpm) : Prop :=
  ∀ handle session, t.sessions handle = some session → session.kind = TPM_SE_POLICY →
    Asserted sha256 P session.policyDigest

/-- One command extends a session by the registers as they are, starts it, or leaves it alone. -/
theorem held_step {P : SynthTpm → Prop} {t t' : SynthTpm} (h : Step sha256 t t') (ht : P t)
    (hheld : Held sha256 P t) : Held sha256 P t' := by
  intro handle session hsession hkind
  cases h with
  | stay => exact hheld handle session hsession hkind
  | startup => exact hheld handle session hsession hkind
  | tick => exact hheld handle session hsession hkind
  | extend => exact hheld handle session hsession hkind
  | load => exact hheld handle session hsession hkind
  | start kind =>
    replace hsession : Function.update t.sessions t.nextSession (some ⟨kind, zeroDigest⟩) handle
      = some session := hsession
    rw [Function.update_apply] at hsession
    split_ifs at hsession with heq
    · rw [← Option.some.inj hsession]
      exact .start
    · exact hheld handle session hsession hkind
  | policy asserted old list digest known live =>
    replace hsession : Function.update t.sessions asserted
      (some ⟨old.kind, extendPolicy sha256 old.policyDigest digest⟩) handle = some session := hsession
    rw [Function.update_apply] at hsession
    split_ifs at hsession with heq
    · rw [← Option.some.inj hsession] at hkind ⊢
      rw [← live hkind]
      exact .step list (hheld asserted old known hkind) ht
    · exact hheld handle session hsession hkind
  | flush flushed =>
    replace hsession : Function.update t.sessions flushed none handle = some session := hsession
    rw [Function.update_apply] at hsession
    split_ifs at hsession with heq
    exact hheld handle session hsession hkind

theorem held_after (commands : List Bytes) :
    Held sha256 (Went sha256 aik commands) (after sha256 aik commands) := by
  induction commands using List.reverseRecOn with
  | nil => exact fun handle session hsession => absurd hsession (by simp [after, new])
  | append_singleton es e hheld =>
    have hgrow : ∀ u, Went sha256 aik es u → Went sha256 aik (es ++ [e]) u :=
      fun u ⟨before, hbefore, hu⟩ => ⟨before, hbefore.trans (List.prefix_append es [e]), hu⟩
    rw [after_concat]
    refine held_step (handleCommand_step _ e) (hgrow _ ⟨es, List.prefix_refl es, rfl⟩) ?_
    exact fun handle session hs hk => (hheld handle session hs hk).mono hgrow

end

end SynthTpm

open SynthTpm

/-- **A sealed secret opens exactly under its policy.** Sealed in any run of the emulator and
unsealed in any other or any later one, with at least one register selected and handles left: the
seal succeeds, and the unseal of its blob gives the secret when the policy of the registers is the
one of the sealing, and `TPM_RC_POLICY_FAIL` otherwise. -/
theorem sealed_opens_iff (sha256 : Bytes → Block 32) (aik : SynthKey) (sealing unsealing : List Bytes)
    (mask : PcrMask) (secret : Bytes) (now : Nat) (hsealing : sealing.length < 2 ^ 24 - 0x100)
    (hunsealing : unsealing.length < 2 ^ 24 - 0x100) (hsel : selectedPcrs (.singleSha256 mask) ≠ [])
    (hne : secret ≠ []) (hmax : secret.length ≤ DC_SEALED_SECRET_MAX) (log : List TpmExchange) :
    ∃ blob, («seal» (transport sha256 aik) (hostSha sha256) now secret mask
        ⟨after sha256 aik sealing, log⟩).1 = .ok blob ∧
      («unseal» (transport sha256 aik) (hostSha sha256) blob ⟨after sha256 aik unsealing, log⟩).1
        = (if livePolicy sha256 (after sha256 aik unsealing) mask
              = livePolicy sha256 (after sha256 aik sealing) mask then .ok secret
          else .err (.responseCode TPM_RC_POLICY_FAIL)) ∧
      (Set.InjOn sha256 (hashedForPolicy sha256 (after sha256 aik unsealing) mask
          ∪ hashedForPolicy sha256 (after sha256 aik sealing) mask) →
        (livePolicy sha256 (after sha256 aik unsealing) mask
            = livePolicy sha256 (after sha256 aik sealing) mask ↔
          ∀ pcr ∈ selectedPcrs (.singleSha256 mask),
            (after sha256 aik unsealing).pcrs pcr = (after sha256 aik sealing).pcrs pcr)) := by
  obtain ⟨t', hseal⟩ := @ends_seal _ aik _ (@room_after sha256 _ _ hsealing) _ hsel _ hne hmax now
  obtain ⟨t'', hunseal⟩ := @ends_unseal _ aik _ (@room_after sha256 _ _ hunsealing) _ hsel _ hne
    hmax (after sha256 aik sealing) now
  obtain ⟨_, hrun⟩ := hseal log
  obtain ⟨_, hrun'⟩ := hunseal log
  refine ⟨sealedBlob sha256 (after sha256 aik sealing) mask secret now, ?_, ?_, livePolicy_inj⟩
  · rw [hrun]
  · rw [hrun']

/-- A stand-in for SHA-256 that tells short strings apart. -/
def toySha (b : Bytes) : Block 32 := Block.ofNat 32 (beNat (0x01 :: b))

def toyKey : SynthKey := ⟨zeroDigest, zeroDigest, fun _ => (zeroDigest, zeroDigest)⟩

/-- The first register. -/
def onePcr : PcrMask := ⟨[0x01, 0, 0, 0], rfl⟩

theorem onePcr_selects : selectedPcrs (.singleSha256 onePcr) ≠ [] := by decide

/-- Sealed and opened on a fresh TPM. -/
theorem sealed_opens_fresh : ∃ blob,
    («seal» (transport toySha toyKey) (hostSha toySha) 0 [7] onePcr ⟨after toySha toyKey [], []⟩).1
      = .ok blob ∧
    («unseal» (transport toySha toyKey) (hostSha toySha) blob ⟨after toySha toyKey [], []⟩).1
      = .ok [7] := by
  obtain ⟨blob, hseal, hunseal, -⟩ := sealed_opens_iff toySha toyKey [] [] onePcr [7] 0 (by decide)
    (by decide) onePcr_selects (by decide) (by decide) []
  rw [if_pos rfl] at hunseal
  exact ⟨blob, hseal, hunseal⟩

/-- **Registers are only extended**, whatever the commands are: between two moments of a run each
becomes the chain of digests taken into it, one for a command at most. -/
theorem registers_only_extend (sha256 : Bytes → Block 32) (aik : SynthKey) (before later : List Bytes)
    (pcr : Fin 24) : ∃ vs, vs.length ≤ later.length ∧
      (after sha256 aik (before ++ later)).pcrs pcr = chain sha256 ((after sha256 aik before).pcrs pcr) vs := by
  induction later using List.reverseRecOn with
  | nil => exact ⟨[], le_rfl, by rw [List.append_nil]; rfl⟩
  | append_singleton es e ih =>
    obtain ⟨vs, hlen, hvs⟩ := ih
    -- the last command takes in `ws`, one digest or none, behind those of the others
    obtain ⟨ws, hone, hws⟩ := step_chain
      (@handleCommand_step sha256 aik (after sha256 aik (before ++ es)) e) pcr
    refine ⟨vs ++ ws, ?_, ?_⟩
    · rw [List.length_append, List.length_append, List.length_singleton]
      omega
    · rw [← List.append_assoc, after_concat, hws, hvs, chain, chain, chain, List.foldl_append]

/-- **Nothing is released that was not asserted.** In any run of any commands, what an unseal
releases is the data of a loaded object whose policy was asserted step by step, each step against
the registers of a moment of the run. -/
theorem released_was_asserted {sha256 : Bytes → Block 32} {aik : SynthKey} {commands : List Bytes}
    {handles : Nat × Nat} {data : Bytes} (h : (after sha256 aik commands).release handles = .ok data) :
    ∃ policy, (after sha256 aik commands).sealedObjects handles.1 = some ⟨policy, data⟩ ∧
      Asserted sha256 (Went sha256 aik commands) policy := by
  rw [release] at h
  split at h
  · exact absurd h (by simp)
  · next session hsession =>
    split at h
    · exact absurd h (by simp)
    · next hkind =>
      split at h
      · exact absurd h (by simp)
      · next object hobject =>
        split at h
        · exact absurd h (by simp)
        · next hpolicy =>
          obtain rfl := Except.ok.inj h
          refine ⟨object.policy, hobject, ?_⟩
          rw [← not_not.mp hpolicy]
          exact held_after commands handles.2 session hsession (not_not.mp hkind)

/-- The commands of an unseal on a fresh TPM. -/
def openingCommands : List Bytes :=
  [encodeLoad TPM_RH_OWNER (privateBlob toySha (livePolicy toySha new onePcr) [7])
      (sealedPublic (livePolicy toySha new onePcr).bytes),
    encodeStartAuthSession TPM_SE_POLICY FALLBACK_NONCE,
    encodePolicyPcr new.nextSession (.singleSha256 onePcr)
      (toySha (new.selectedValues (.singleSha256 onePcr))).bytes]

/-- The object and the session they give out. -/
def openingHandles : Nat × Nat := (new.nextTransient, new.nextSession)

/-- The TPM when the object is loaded. -/
def loadedTpm : SynthTpm := withObject new (livePolicy toySha new onePcr) [7]

/-- The TPM when the session has asserted the registers. -/
def openTpm : SynthTpm := withPolicy (withSession loadedTpm TPM_SE_POLICY) new.nextSession TPM_SE_POLICY
  (livePolicy toySha new onePcr)

theorem after_opening : after toySha toyKey openingCommands = openTpm := by
  have hload := @handle_load toySha toyKey new (livePolicy toySha new onePcr) [7] (by decide)
    (by decide)
  have hstart := @handle_startAuthSession toySha toyKey loadedTpm TPM_SE_POLICY (.inr rfl)
    FALLBACK_NONCE (by decide)
  have hpolicy := @handle_policyPcr toySha toyKey (withSession loadedTpm TPM_SE_POLICY)
    new.nextSession (by decide) onePcr (toySha (new.selectedValues (.singleSha256 onePcr))).bytes
    (block_cap _) ⟨TPM_SE_POLICY, zeroDigest⟩ (sessions_withSession loadedTpm _) (fun _ => rfl)
  rw [← loadedTpm] at hload
  simp only [after, openingCommands, run_cons, run_nil, hload, hstart, hpolicy]
  rfl

theorem release_opening : (after toySha toyKey openingCommands).release openingHandles = .ok [7] := by
  have hsession : openTpm.sessions new.nextSession = some ⟨TPM_SE_POLICY, livePolicy toySha new onePcr⟩ :=
    sessions_withPolicy ..
  have hobject : openTpm.sealedObjects new.nextTransient = some ⟨livePolicy toySha new onePcr, [7]⟩ :=
    sealedObjects_withObject new _ _
  rw [after_opening]
  simp only [release, openingHandles, hsession, hobject, ne_eq, not_true_eq_false, if_false]

theorem released_was_asserted_opening : ∃ policy,
    (after toySha toyKey openingCommands).sealedObjects openingHandles.1 = some ⟨policy, [7]⟩ ∧
      Asserted toySha (Went toySha toyKey openingCommands) policy :=
  released_was_asserted release_opening

end Tpm

end DiscCleaner
