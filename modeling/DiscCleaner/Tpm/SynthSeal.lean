import DiscCleaner.Tpm.Synth

/-!
# DiscCleaner — sealing against the synthetic TPM (`dc-tpm/seal.rs`, `dc-tpm/synth.rs`)

The host's ladders and the emulator's decoder, run against each other. Every command of the ladders
is read by the emulator as it was meant, and every answer by the host.
-/

namespace DiscCleaner

open ByteLib ProgLib

namespace Tpm

namespace SynthTpm

/-! ## What the emulator reads -/

section

open Scan

theorem takes_tpm2b {bs : Bytes} (h : bs.length ≤ TPM2B_CAP) : Takes Scan.tpm2b (tpm2b bs) bs := by
  have hlen : bs.length < 256 ^ 2 := by
    unfold TPM2B_CAP at h
    omega
  refine (Takes.word hlen).bind ?_
  rw [if_neg (by omega)]
  exact Takes.raw rfl

theorem block_cap (b : Block 32) : b.bytes.length ≤ TPM2B_CAP := by
  rw [b.size]
  decide

/-- A full mask is its own padding. -/
theorem padded_mask (mask : PcrMask) : PcrSelection.padded mask.bytes = mask := by
  refine Block.ext ?_
  show (mask.bytes ++ List.replicate 4 0).take 4 = mask.bytes
  rw [List.take_left' mask.size]

theorem takes_singleSha256 (mask : PcrMask) :
    Takes Scan.pcrSelectionList (PcrSelectionList.singleSha256 mask).write (.singleSha256 mask) := by
  have hone : Takes Scan.pcrSelection (PcrSelection.sha256 mask).write (.sha256 mask) := by
    rw [PcrSelection.write, List.append_assoc]
    refine (Takes.word (v := TPM_ALG_SHA256) (by decide)).bind ((Takes.word (v := 4) (by decide)).bind ?_)
    rw [if_neg (by decide)]
    refine (Takes.raw mask.size).map ?_
    rw [padded_mask]
    exact .ret _
  refine (Takes.word (v := 1) (by decide)).bind ?_
  rw [if_neg (by decide)]
  have htimes := @Takes.times _ Scan.pcrSelection PcrSelection.write [.sha256 mask]
    (List.forall_mem_singleton.mpr hone)
  exact htimes.map (.ret _)

variable {sha256 : Bytes → Block 32} {aik : SynthKey} (t : SynthTpm)

/-- Each command code has its handler. -/
theorem dispatch_arms (tag : Nat) (r : Bytes) :
    dispatch sha256 aik t TPM_CC_START_AUTH_SESSION tag r = startAuthSession t tag r ∧
    dispatch sha256 aik t TPM_CC_POLICY_PCR tag r = policyPcr sha256 t tag r ∧
    dispatch sha256 aik t TPM_CC_POLICY_GET_DIGEST tag r = policyGetDigest t tag r ∧
    dispatch sha256 aik t TPM_CC_CREATE tag r = create sha256 t tag r ∧
    dispatch sha256 aik t TPM_CC_LOAD tag r = load sha256 t tag r ∧
    dispatch sha256 aik t TPM_CC_UNSEAL tag r = unsealObject t tag r ∧
    dispatch sha256 aik t TPM_CC_FLUSH_CONTEXT tag r = flushContext t tag r ∧
    dispatch sha256 aik t TPM_CC_GET_RANDOM tag r = getRandom sha256 t tag r ∧
    dispatch sha256 aik t TPM_CC_PCR_READ tag r = pcrRead t tag r := by
  simp [dispatch, handleCommandBody, TPM_CC_START_AUTH_SESSION, TPM_CC_POLICY_PCR,
    TPM_CC_POLICY_GET_DIGEST, TPM_CC_CREATE, TPM_CC_LOAD, TPM_CC_UNSEAL, TPM_CC_FLUSH_CONTEXT,
    TPM_CC_STARTUP, TPM_CC_SHUTDOWN, TPM_CC_GET_RANDOM, TPM_CC_PCR_READ]

/-- The header of a command leads to its handler. -/
theorem handleCommand_into {tag code : Nat} (htag : tag < 2 ^ 16) (hcode : code < 2 ^ 32)
    (body : Bytes) :
    handleCommand sha256 aik (intoCommand tag code body) t = dispatch sha256 aik t code tag body := by
  have hcmd : intoCommand tag code body = be 2 tag ++ (be 4 (10 + body.length) ++ (be 4 code ++ body)) := by
    rw [intoCommand, List.append_assoc, List.append_assoc]
  rw [handleCommand, hcmd]
  simp only [Scan.u16, Scan.u32, (Takes.word (n := 2) htag).orElse,
    (Takes.written 4 (10 + body.length)).orElse, (Takes.word (n := 4) hcode).orElse]

theorem handle_getRandom : handleCommand sha256 aik (encodeGetRandom 16) t =
    (okResponse TPM_ST_NO_SESSIONS
      (tpm2b ((growPayload sha256 16 16 (sha256 (be 8 t.clock).reverse).bytes).take 16)), t) := by
  rw [encodeGetRandom, handleCommand_into t (by decide) (by decide)]
  rw [(dispatch_arms t _ _).2.2.2.2.2.2.2.1]
  simp only [getRandom, Scan.u16, (Takes.word (n := 2) (v := 16) (by decide)).orElse_end]

theorem handle_pcrRead (mask : PcrMask) :
    handleCommand sha256 aik (encodePcrRead (.singleSha256 mask)) t =
      (okResponse TPM_ST_NO_SESSIONS ((PcrSelectionList.singleSha256 mask).write
        ++ be 4 (selectedPcrs (.singleSha256 mask)).length
        ++ (selectedPcrs (.singleSha256 mask)).flatMap fun pcr => tpm2b (t.pcrs pcr).bytes), t) := by
  rw [encodePcrRead, handleCommand_into t (by decide) (by decide)]
  rw [(dispatch_arms t _ _).2.2.2.2.2.2.2.2]
  simp only [pcrRead, (takes_singleSha256 mask).orElse_end]

/-- The session that a start hands out. -/
def withSession (kind : Nat) : SynthTpm :=
  { t with
    nextSession := (t.nextSession + 1) % 2 ^ 32
    sessions := Function.update t.sessions t.nextSession (some ⟨kind, zeroDigest⟩) }

@[simp] theorem sessions_withSession (kind : Nat) :
    (withSession t kind).sessions t.nextSession = some ⟨kind, zeroDigest⟩ := Function.update_self ..

theorem handle_startAuthSession {kind : Nat} (hkind : kind = TPM_SE_TRIAL ∨ kind = TPM_SE_POLICY)
    {nonce : Bytes} (hnonce : nonce.length ≤ TPM2B_CAP) :
    handleCommand sha256 aik (encodeStartAuthSession kind nonce) t =
      (okResponse TPM_ST_NO_SESSIONS (be 4 t.nextSession ++ tpm2b nonce), withSession t kind) := by
  have hlt : kind < 256 ^ 2 := by
    rcases hkind with rfl | rfl <;> decide
  rw [encodeStartAuthSession, handleCommand_into t (by decide) (by decide)]
  rw [(dispatch_arms t _ _).1]
  simp only [startAuthSession, List.append_assoc, Scan.u16, Scan.u32,
    (Takes.word (n := 4) (v := TPM_RH_NULL) (by decide)).orElse, (takes_tpm2b hnonce).orElse,
    (@takes_tpm2b [] (by decide)).orElse, (Takes.word (n := 2) hlt).orElse]
  rw [if_neg (by rcases hkind with rfl | rfl <;> decide)]
  rfl

theorem sessionAuth_length (session : Nat) : (sessionAuth session).length = 9 := by
  simp [sessionAuth, tpm2b]

/-- A handle and an authorization area in front of the parameters. -/
theorem takes_authorized {handle : Nat} (hhandle : handle < 2 ^ 32) (session : Nat) (rest : Bytes) :
    Scan.u32.orElse 0 (be 4 handle ++ (sized (sessionAuth session) ++ rest))
      = (handle, sized (sessionAuth session) ++ rest) ∧
    Scan.u32.orElse 0 (sized (sessionAuth session) ++ rest) = (9, sessionAuth session ++ rest) ∧
    Scan.raw 9 (sessionAuth session ++ rest) = (some (sessionAuth session), rest) := by
  refine ⟨(Takes.word hhandle).orElse _ _, ?_, Takes.raw (sessionAuth_length session) rest⟩
  rw [sized, sessionAuth_length, List.append_assoc]
  exact (Takes.word (by decide)).orElse _ _

theorem handle_policyPcr {handle : Nat} (hhandle : handle < 2 ^ 32) (mask : PcrMask)
    {digest : Bytes} (hdigest : digest.length ≤ TPM2B_CAP) {session : SynthSession}
    (hsession : t.sessions handle = some session)
    (hlive : session.kind = TPM_SE_POLICY →
      (sha256 (t.selectedValues (.singleSha256 mask))).bytes = digest) :
    handleCommand sha256 aik (encodePolicyPcr handle (.singleSha256 mask) digest) t =
      (okResponse TPM_ST_SESSIONS [],
        { t with
          sessions := Function.update t.sessions handle
            (some { session with policyDigest := extendPolicy sha256 session.policyDigest digest }) }) := by
  rw [encodePolicyPcr, handleCommand_into t (by decide) (by decide), List.append_assoc,
    List.append_assoc]
  rw [(dispatch_arms t _ _).2.1]
  obtain ⟨h1, h2, h3⟩ := takes_authorized hhandle handle
    ((PcrSelectionList.singleSha256 mask).write ++ tpm2b digest)
  simp only [policyPcr, h1, h2, h3, (takes_singleSha256 mask).orElse,
    (takes_tpm2b hdigest).orElse_end, hsession]
  rw [if_neg fun h => h.2 (hlive h.1)]

theorem handle_policyGetDigest {handle : Nat} (hhandle : handle < 2 ^ 32) {session : SynthSession}
    (hsession : t.sessions handle = some session) :
    handleCommand sha256 aik (encodePolicyGetDigest handle) t =
      (okResponse TPM_ST_SESSIONS (tpm2b session.policyDigest.bytes), t) := by
  rw [encodePolicyGetDigest, handleCommand_into t (by decide) (by decide)]
  rw [(dispatch_arms t _ _).2.2.1]
  obtain ⟨h1, h2, h3⟩ := takes_authorized hhandle handle []
  rw [List.append_nil] at h1 h2
  simp only [policyGetDigest, h1, h2, h3, hsession]

theorem publicPolicy_sealedPublic (policy : Block 32) :
    Scan.u16.orElse 0 (sealedPublic policy.bytes) = (TPM_ALG_KEYEDHASH, (sealedPublic policy.bytes).drop 2) ∧
    Scan.u16.orElse 0 ((sealedPublic policy.bytes).drop 2)
      = (TPM_ALG_SHA256, (sealedPublic policy.bytes).drop 4) ∧
    Scan.u32.orElse 0 ((sealedPublic policy.bytes).drop 4)
      = (SEALED_OBJECT_ATTRIBUTES, (sealedPublic policy.bytes).drop 8) ∧
    (Scan.tpm2b.orElse [] ((sealedPublic policy.bytes).drop 8)).1 = policy.bytes := by
  have hsplit : sealedPublic policy.bytes = be 2 TPM_ALG_KEYEDHASH ++ (be 2 TPM_ALG_SHA256
      ++ (be 4 SEALED_OBJECT_ATTRIBUTES ++ (tpm2b policy.bytes ++ (be 2 TPM_ALG_NULL ++ tpm2b [])))) := by
    simp only [sealedPublic, List.append_assoc]
  rw [hsplit]
  refine ⟨(Takes.word (by decide)).orElse _ _, (Takes.word (by decide)).orElse _ _,
    (Takes.word (by decide)).orElse _ _, ?_⟩
  exact congrArg Prod.fst ((takes_tpm2b (block_cap policy)).orElse [] (be 2 TPM_ALG_NULL ++ tpm2b []))

theorem sealedPublic_length (policy : Block 32) : (sealedPublic policy.bytes).length = 46 := by
  simp [sealedPublic, tpm2b, policy.size]

theorem sealedPublic_cap (policy : Block 32) : (sealedPublic policy.bytes).length ≤ TPM2B_CAP := by
  rw [sealedPublic_length]
  decide

theorem handle_create (policy : Block 32) {secret : Bytes} (hne : secret ≠ [])
    (hmax : secret.length ≤ DC_SEALED_SECRET_MAX) :
    handleCommand sha256 aik (encodeCreateSealed TPM_RH_OWNER policy.bytes secret) t =
      (okResponse TPM_ST_SESSIONS (tpm2b (privateBlob sha256 policy secret)
        ++ tpm2b (sealedPublic policy.bytes)), t) := by
  have hcap : DC_SEALED_SECRET_MAX + 4 ≤ TPM2B_CAP := by decide
  have hsensitive : (tpm2b [] ++ tpm2b secret).length ≤ TPM2B_CAP := by
    simp only [tpm2b, List.length_append, be_length, List.length_nil]
    omega
  rw [encodeCreateSealed, handleCommand_into t (by decide) (by decide)]
  simp only [List.append_assoc]
  rw [(dispatch_arms t _ _).2.2.2.1]
  obtain ⟨h1, h2, h3⟩ := takes_authorized (show TPM_RH_OWNER < 2 ^ 32 by decide) TPM_RS_PW
    (tpm2b (tpm2b [] ++ tpm2b secret) ++ (tpm2b (sealedPublic policy.bytes) ++ (tpm2b [] ++ be 4 0)))
  obtain ⟨p1, p2, p3, p4⟩ := publicPolicy_sealedPublic policy
  simp only [create, emptyPwSession, h1, h2, h3, (takes_tpm2b hsensitive).orElse,
    (takes_tpm2b (sealedPublic_cap policy)).orElse, (@takes_tpm2b [] (by decide)).orElse,
    (@takes_tpm2b secret (by omega)).orElse_end, p1, p2, p3, p4, Block.ofBytes?_bytes]
  rw [if_neg (by simp), if_neg (by rw [not_or]; exact ⟨hne, by omega⟩), if_neg (by decide)]

theorem privateBlob_length (policy : Block 32) (secret : Bytes) :
    (privateBlob sha256 policy secret).length = 68 + secret.length := by
  simp only [privateBlob, List.length_append, policy.size, be_length, Block.size]
  omega

theorem privateBlob_cap (policy : Block 32) {secret : Bytes}
    (hmax : secret.length ≤ DC_SEALED_SECRET_MAX) :
    (privateBlob sha256 policy secret).length ≤ TPM2B_CAP := by
  have hcap : DC_SEALED_SECRET_MAX + 68 ≤ TPM2B_CAP := by decide
  rw [privateBlob_length]
  omega

theorem splitPrivate_privateBlob (policy : Block 32) {secret : Bytes}
    (hmax : secret.length ≤ DC_SEALED_SECRET_MAX) :
    splitPrivate (privateBlob sha256 policy secret)
      = (policy.bytes, secret.length, secret, (sha256 (policy.bytes ++ secret)).bytes) := by
  have hcap : DC_SEALED_SECRET_MAX < 256 ^ 4 := by decide
  have hsplit : privateBlob sha256 policy secret = policy.bytes ++ (be 4 secret.length ++ (secret
      ++ (sha256 (policy.bytes ++ secret)).bytes)) := by
    simp only [privateBlob, List.append_assoc]
  rw [splitPrivate, hsplit]
  simp only [(Takes.raw policy.size).orElse, Scan.u32,
    (Takes.word (n := 4) (v := secret.length) (by omega)).orElse]
  rw [if_pos (by rw [List.length_append]; omega)]
  simp only [(@Takes.raw secret _ rfl).orElse,
    (Takes.raw (Block.size (sha256 (policy.bytes ++ secret)))).orElse_end]

/-- The object that a load hands out. -/
def withObject (policy : Block 32) (data : Bytes) : SynthTpm :=
  { t with
    nextTransient := (t.nextTransient + 1) % 2 ^ 32
    sealedObjects := Function.update t.sealedObjects t.nextTransient (some ⟨policy, data⟩) }

@[simp] theorem sealedObjects_withObject (policy : Block 32) (data : Bytes) :
    (withObject t policy data).sealedObjects t.nextTransient = some ⟨policy, data⟩ :=
  Function.update_self ..

theorem handle_load (policy : Block 32) {secret : Bytes} (hne : secret ≠ [])
    (hmax : secret.length ≤ DC_SEALED_SECRET_MAX) :
    handleCommand sha256 aik (encodeLoad TPM_RH_OWNER (privateBlob sha256 policy secret)
        (sealedPublic policy.bytes)) t =
      (okResponse TPM_ST_SESSIONS (be 4 t.nextTransient
        ++ tpm2b ([0x00, 0x0B] ++ (sha256 (sealedPublic policy.bytes)).bytes)),
        withObject t policy secret) := by
  rw [encodeLoad, handleCommand_into t (by decide) (by decide)]
  simp only [List.append_assoc]
  rw [(dispatch_arms t _ _).2.2.2.2.1]
  obtain ⟨h1, h2, h3⟩ := takes_authorized (show TPM_RH_OWNER < 2 ^ 32 by decide) TPM_RS_PW
    (tpm2b (privateBlob sha256 policy secret) ++ tpm2b (sealedPublic policy.bytes))
  obtain ⟨p1, p2, p3, p4⟩ := publicPolicy_sealedPublic policy
  have hpolicy : publicPolicy (sealedPublic policy.bytes) = policy.bytes := by
    simp only [publicPolicy, p1, p2, p3, p4]
  have hpos : 0 < secret.length := List.length_pos_of_ne_nil hne
  simp only [load, emptyPwSession, h1, h2, h3, (takes_tpm2b (privateBlob_cap policy hmax)).orElse,
    (takes_tpm2b (sealedPublic_cap policy)).orElse_end, splitPrivate_privateBlob policy hmax,
    Block.ofBytes?_bytes, hpolicy]
  rw [if_neg (by simp), if_neg (by omega), if_neg (by simp), if_neg (by simp)]
  rfl

theorem handle_unseal {session object : Nat} (hsession : session < 2 ^ 32) (hobject : object < 2 ^ 32) :
    handleCommand sha256 aik (encodeUnseal session object) t =
      match t.release (object, session) with
      | .error code => (errorResponse code, t)
      | .ok data => (okResponse TPM_ST_SESSIONS (tpm2b data), t) := by
  rw [encodeUnseal, handleCommand_into t (by decide) (by decide)]
  rw [(dispatch_arms t _ _).2.2.2.2.2.1]
  obtain ⟨h1, h2, h3⟩ := takes_authorized hobject session []
  rw [List.append_nil] at h1 h2
  have hhandles : unsealHandles (be 4 object ++ sized (sessionAuth session)) = (object, session) := by
    have hauth : (Scan.u32.orElse 0 (sessionAuth session)).1 = session := by
      rw [sessionAuth, List.append_assoc, List.append_assoc]
      exact congrArg Prod.fst ((Takes.word hsession).orElse 0 _)
    simp only [unsealHandles, h1, h2]
    have harea : ((Scan.raw 9).orElse [] (sessionAuth session ++ [])).1 = sessionAuth session := by
      rw [Scan.orElse, h3]
      rfl
    rw [harea, hauth]
  -- with the handles as the handler reads them, both sides unfold to one match
  rw [← hhandles]
  rfl

/-- The state behind a flush. -/
def withoutHandle (handle : Nat) : SynthTpm :=
  { t with
    sessions := Function.update t.sessions handle none
    sealedObjects := Function.update t.sealedObjects handle none }

theorem handle_flushContext {handle : Nat} (hhandle : handle < 2 ^ 32) :
    handleCommand sha256 aik (encodeFlushContext handle) t =
      (okResponse TPM_ST_NO_SESSIONS [], withoutHandle t handle) := by
  rw [encodeFlushContext, handleCommand_into t (by decide) (by decide)]
  rw [(dispatch_arms t _ _).2.2.2.2.2.2.1]
  simp only [flushContext, Scan.u32, (Takes.word (n := 4) hhandle).orElse_end]
  rfl

end

/-! ## What the host makes of the answers -/

open Read

theorem parses_singleSha256 (mask : PcrMask) :
    Parses PcrSelectionList.read (PcrSelectionList.singleSha256 mask).write (.singleSha256 mask) := by
  have hselection : Parses PcrSelection.read (PcrSelection.sha256 mask).write (.sha256 mask) := by
    rw [PcrSelection.write, List.append_assoc]
    refine (parses_word (v := TPM_ALG_SHA256) (by decide)).bind
      ((parses_word (v := 4) (by decide)).bind ?_)
    rw [if_neg (by decide)]
    refine (parses_take mask.size).map ?_
    rw [padded_mask]
    exact .ret _
  refine (parses_word (v := 1) (by decide)).bind ?_
  rw [if_neg (by decide)]
  have htimes := @Parses.times _ _ PcrSelection.read PcrSelection.write [.sha256 mask]
    (List.forall_mem_singleton.mpr hselection)
  exact htimes.map (.ret _)

/-- The parameters of a success are read behind the header, with or without sessions. -/
theorem classifyResponse_ok {tag : Nat} (htag : tag = TPM_ST_SESSIONS ∨ tag = TPM_ST_NO_SESSIONS)
    (params : Bytes) : classifyResponse (okResponse tag params) = .ok params := by
  have hread : ∀ n v, Parses (Reader.word n) (be n v) (beNat (be n v)) := fun n v =>
    (parses_take (be_length n v)).map (.ret _)
  rcases htag with rfl | rfl
  · have hheader : Parses responseHeader (be 2 TPM_ST_SESSIONS_RSP
        ++ (be 4 (10 + (be 4 params.length ++ params).length) ++ (be 4 TPM_RC_SUCCESS
          ++ be 4 params.length))) (.ok ⟨TPM_ST_SESSIONS_RSP, TPM_RC_SUCCESS, 14⟩) := by
      refine (parses_word (by decide)).bind ((hread 4 _).bind ((parses_word (by decide)).bind ?_))
      rw [if_neg (by decide), if_pos rfl]
      exact (hread 4 _).map (.ret _)
    have hresponse : okResponse TPM_ST_SESSIONS params = (be 2 TPM_ST_SESSIONS_RSP
        ++ (be 4 (10 + (be 4 params.length ++ params).length) ++ (be 4 TPM_RC_SUCCESS
          ++ be 4 params.length))) ++ params := by
      simp only [okResponse, if_true, sessionsResponse, List.append_assoc]
    rw [classifyResponse, parseResponseHeader, hresponse, hheader.value_append]
    simp only [Except.map]
    rw [Nat.min_eq_left (by simp; omega), List.drop_left' (by simp)]
  · have hheader : Parses responseHeader (be 2 TPM_ST_NO_SESSIONS ++ (be 4 (10 + params.length)
        ++ be 4 TPM_RC_SUCCESS)) (.ok ⟨TPM_ST_NO_SESSIONS, TPM_RC_SUCCESS, 10⟩) := by
      refine (parses_word (by decide)).bind ((hread 4 _).bind ((parses_word (by decide)).map ?_))
      rw [if_neg (by decide), if_neg (by decide)]
      exact .ret _
    have hresponse : okResponse TPM_ST_NO_SESSIONS params = (be 2 TPM_ST_NO_SESSIONS
        ++ (be 4 (10 + params.length) ++ be 4 TPM_RC_SUCCESS)) ++ params := by
      rw [okResponse, if_neg (by decide)]
      simp only [List.append_assoc]
    rw [classifyResponse, parseResponseHeader, hresponse, hheader.value_append]
    simp only [Except.map]
    rw [Nat.min_eq_left (by simp; omega), List.drop_left' (by simp)]

theorem classifyResponse_error {code : Nat} (hcode : code < 2 ^ 32) (hne : code ≠ TPM_RC_SUCCESS) :
    classifyResponse (errorResponse code) = .error (.responseCode code) := by
  have hheader : Parses responseHeader (be 2 TPM_ST_NO_SESSIONS ++ (be 4 10 ++ be 4 code))
      (.error code) := by
    refine (parses_word (by decide)).bind ((parses_word (by decide)).bind ((parses_word hcode).map ?_))
    rw [if_pos hne]
    exact .ret _
  rw [classifyResponse, parseResponseHeader, errorResponse, List.append_assoc, hheader.value]
  rfl

/-! ## The host on the emulator -/

/-- The program ends so from any log, and leaves this TPM. -/
def Ends {S α : Type} (m : Prog (Host S) TpmError α) (t : S) (o : Outcome TpmError α) (t' : S) : Prop :=
  ∀ log, ∃ log', m ⟨t, log⟩ = (o, ⟨t', log'⟩)

namespace Ends

variable {S α β : Type} {m : Prog (Host S) TpmError α} {t t' t'' : S} {a : α}

theorem ret (a : α) (t : S) : Ends (pure a : Prog (Host S) TpmError α) t (.ok a) t :=
  fun log => ⟨log, rfl⟩

theorem bind {k : α → Prog (Host S) TpmError β} {o : Outcome TpmError β} (hm : Ends m t (.ok a) t')
    (hk : Ends (k a) t' o t'') : Ends (m >>= k) t o t'' := by
  intro log
  obtain ⟨log₁, hrun⟩ := hm log
  obtain ⟨log₂, hrest⟩ := hk log₁
  exact ⟨log₂, by rw [Prog.bind_run_ok hrun, hrest]⟩

theorem bind_err {k : α → Prog (Host S) TpmError β} {e : TpmError} (hm : Ends m t (.err e) t') :
    Ends (m >>= k) t (.err e) t' := by
  intro log
  obtain ⟨log', hrun⟩ := hm log
  exact ⟨log', Prog.bind_run_err hrun⟩

theorem ofExcept_ok {x : Except TpmError α} (h : x = .ok a) (t : S) :
    Ends (Prog.ofExcept x : Prog (Host S) TpmError α) t (.ok a) t := by
  rw [h]
  exact .ret a t

theorem attempt {r : Except TpmError α} (h : Ends m t (replied r) t') :
    Ends (Prog.attempt m) t (.ok r) t' := by
  intro log
  obtain ⟨log', hrun⟩ := h log
  refine ⟨log', ?_⟩
  unfold Prog.attempt
  rw [hrun]
  cases r <;> rfl

end Ends

section

variable {sha256 : Bytes → Block 32} {aik : SynthKey} {t t' : SynthTpm} {command response params : Bytes}

theorem ends_transact (h : handleCommand sha256 aik command t = (response, t')) :
    Ends (transact (transport sha256 aik) command) t (.ok response) t' := by
  intro log
  refine ⟨log ++ [⟨command, .ok response⟩], ?_⟩
  simp only [transact, transport, h, replied]

theorem ends_transactOwned {tag : Nat} (htag : tag = TPM_ST_SESSIONS ∨ tag = TPM_ST_NO_SESSIONS)
    (h : handleCommand sha256 aik command t = (okResponse tag params, t')) :
    Ends (transactOwned (transport sha256 aik) command) t (.ok params) t' :=
  (ends_transact h).bind (.ofExcept_ok (classifyResponse_ok htag params) t')

theorem ends_transactOwned_error {code : Nat} (hcode : code < 2 ^ 32) (hne : code ≠ TPM_RC_SUCCESS)
    (h : handleCommand sha256 aik command t = (errorResponse code, t')) :
    Ends (transactOwned (transport sha256 aik) command) t (.err (.responseCode code)) t' := by
  refine (ends_transact h).bind ?_
  rw [classifyResponse_error hcode hne]
  exact fun log => ⟨log, rfl⟩

/-- SHA-256 as the host uses it. -/
abbrev hostSha (sha256 : Bytes → Block 32) : Bytes → Bytes := fun b => (sha256 b).bytes

theorem length_selectedPcrs (mask : PcrMask) : (selectedPcrs (.singleSha256 mask)).length ≤ 24 := by
  have hlist : selectedPcrs (.singleSha256 mask)
      = (List.finRange 24).filter fun pcr : Fin 24 => (PcrSelection.sha256 mask).selects pcr := by
    show List.flatMap _ [PcrSelection.sha256 mask] = _
    rw [List.flatMap_singleton, if_neg (fun h => h rfl)]
  rw [hlist]
  exact (List.length_filter_le _ _).trans_eq List.length_finRange

/-- The registers as the host reads them back. -/
theorem parsePcrRead_live (mask : PcrMask) (t : SynthTpm) :
    parsePcrRead.value ((PcrSelectionList.singleSha256 mask).write
        ++ be 4 (selectedPcrs (.singleSha256 mask)).length
        ++ (selectedPcrs (.singleSha256 mask)).flatMap fun pcr => tpm2b (t.pcrs pcr).bytes)
      = .ok ⟨.singleSha256 mask, (selectedPcrs (.singleSha256 mask)).map fun pcr => (t.pcrs pcr).bytes⟩ := by
  have hdigest : ∀ pcr, Parses readDigest (tpm2b (t.pcrs pcr).bytes) (t.pcrs pcr).bytes := by
    intro pcr
    refine (parses_tpm2b (block_cap _)).map ?_
    rw [if_pos (Block.size _)]
    exact .ret _
  have hcount := length_selectedPcrs mask
  rw [List.append_assoc]
  refine Parses.value ((parses_singleSha256 mask).bind ((parses_word (by omega)).bind ?_))
  rw [if_neg (by omega)]
  have htimes := @Parses.times _ _ readDigest tpm2b
    ((selectedPcrs (.singleSha256 mask)).map fun pcr => (t.pcrs pcr).bytes)
    (by
      intro d hd
      obtain ⟨pcr, -, rfl⟩ := List.mem_map.mp hd
      exact hdigest pcr)
  rw [List.length_map, List.flatMap_map] at htimes
  exact htimes.map (.ret _)

/-- The digest over the live registers, as the host reads them. -/
theorem ends_currentPcrDigest {mask : PcrMask} (hsel : selectedPcrs (.singleSha256 mask) ≠ []) :
    Ends (currentPcrDigest (transport sha256 aik) (hostSha sha256) (.singleSha256 mask)) t
      (.ok (sha256 (t.selectedValues (.singleSha256 mask))).bytes) t := by
  refine (ends_transactOwned (.inr rfl) (handle_pcrRead t mask)).bind ?_
  refine (Ends.ofExcept_ok (by rw [parsePcrRead_live]; rfl) t).bind ?_
  have hne : ¬ (selectedPcrs (.singleSha256 mask)).map (fun pcr => (t.pcrs pcr).bytes) = [] := by
    rwa [List.map_eq_nil_iff]
  simp only [if_neg hne]
  have hvalues : ((selectedPcrs (.singleSha256 mask)).map fun pcr => (t.pcrs pcr).bytes).flatten
      = t.selectedValues (.singleSha256 mask) := by
    rw [selectedValues, List.flatMap_def]
  rw [hvalues]
  exact .ret _ t

/-- Sixteen random bytes are taken off the first digest. -/
theorem growPayload_sixteen (b : Block 32) : growPayload sha256 16 16 b.bytes = b.bytes := by
  rw [growPayload, if_neg (by rw [b.size]; decide)]

theorem ends_startSession {kind : Nat} (hkind : kind = TPM_SE_TRIAL ∨ kind = TPM_SE_POLICY)
    (hroom : t.nextSession >>> 24 = 0x03) :
    Ends (startSession (transport sha256 aik) kind) t (.ok t.nextSession) (withSession t kind) := by
  have hlt : t.nextSession < 2 ^ 32 := by
    rw [Nat.shiftRight_eq_div_pow] at hroom
    omega
  set nonce := (sha256 (be 8 t.clock).reverse).bytes.take 16 with hnonce
  have hlen : nonce.length = 16 := by
    rw [hnonce, List.length_take, Block.size]
    rfl
  have hcap : nonce.length ≤ TPM2B_CAP := by
    rw [hlen]
    decide
  have hne : nonce ≠ [] := by
    intro h
    rw [h] at hlen
    exact absurd hlen (by decide)
  have hrandom := @handle_getRandom sha256 aik t
  rw [growPayload_sixteen, ← hnonce] at hrandom
  have hstarted : Parses parseStartAuthSession (be 4 t.nextSession ++ tpm2b nonce)
      ⟨t.nextSession, nonce⟩ := by
    refine (parses_word hlt).bind ?_
    rw [if_neg (fun h => h hroom)]
    exact (parses_tpm2b hcap).map (.ret _)
  refine (ends_transactOwned (.inr rfl) hrandom).bind ?_
  refine (Ends.ofExcept_ok (by rw [(parses_tpm2b hcap).value]; rfl) t).bind ?_
  rw [if_neg hne]
  refine (ends_transactOwned (.inr rfl) (handle_startAuthSession t hkind hcap)).bind ?_
  refine (Ends.ofExcept_ok (by rw [hstarted.value]; rfl) _).bind ?_
  exact .ret _ _

/-- The state in which a session has asserted a digest. -/
def withPolicy (t : SynthTpm) (handle kind : Nat) (policy : Block 32) : SynthTpm :=
  { t with sessions := Function.update t.sessions handle (some ⟨kind, policy⟩) }

@[simp] theorem sessions_withPolicy (t : SynthTpm) (handle kind : Nat) (policy : Block 32) :
    (withPolicy t handle kind policy).sessions handle = some ⟨kind, policy⟩ := Function.update_self ..

theorem ends_runPolicyPcr {handle : Nat} (hhandle : handle < 2 ^ 32) (mask : PcrMask)
    (digest : Block 32) {kind : Nat} {old : Block 32}
    (hsession : t.sessions handle = some ⟨kind, old⟩)
    (hlive : kind = TPM_SE_POLICY → sha256 (t.selectedValues (.singleSha256 mask)) = digest) :
    Ends (runPolicyPcr (transport sha256 aik) handle (.singleSha256 mask) digest.bytes) t
      (.ok (extendPolicy sha256 old digest.bytes).bytes)
      (withPolicy t handle kind (extendPolicy sha256 old digest.bytes)) := by
  have hpolicy := @handle_policyPcr sha256 aik t _ hhandle mask _ (block_cap digest) _ hsession
    fun h => congrArg Block.bytes (hlive h)
  refine (ends_transactOwned (.inl rfl) hpolicy).bind ?_
  have hasserted : (withPolicy t handle kind (extendPolicy sha256 old digest.bytes)).sessions handle
      = some ⟨kind, extendPolicy sha256 old digest.bytes⟩ := sessions_withPolicy ..
  refine (ends_transactOwned (.inl rfl) (handle_policyGetDigest _ hhandle hasserted)).bind ?_
  exact .ofExcept_ok (by rw [parsePolicyDigest, (parses_tpm2b (block_cap _)).value]; rfl) _

theorem ends_flush {handle : Nat} (hhandle : handle < 2 ^ 32) :
    Ends (flush (transport sha256 aik) handle) t (.ok ()) (withoutHandle t handle) :=
  (Ends.attempt (r := .ok []) (ends_transactOwned (.inr rfl) (handle_flushContext t hhandle))).bind
    (.ret _ _)

end

end SynthTpm

end Tpm

end DiscCleaner
