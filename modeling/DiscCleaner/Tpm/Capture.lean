import DiscCleaner.Lib.Checks
import DiscCleaner.Tpm.Synth
import DiscCleaner.Tpm.Attest
import Mathlib.Data.List.GetD

/-!
# DiscCleaner — the capture of a quote (`dc-tpm/attest.rs`)

What `verify_quote` asks of a bundle, and the capture of one over any transport.

* **`verifyBundle_captured`** — a captured bundle is accepted again exactly when the response has its
  own sizes right and names its scheme.
-/

namespace DiscCleaner

open ByteLib ProgLib

namespace Tpm

open Read (Parses)

/-! ## The digest of the registers -/

/-- How many registers a selection names. -/
def PcrSelection.count (sel : PcrSelection) : Nat := (List.range 32).countP sel.selects

/-- The digest is over as many values as there are registers, in order. -/
theorem digestSelection_eq (values : List Bytes) (sel : PcrSelection) (hashed : Bytes) :
    digestSelection values sel hashed = hashed ++ (values.take sel.count).flatten := by
  have hloop : ∀ n, (List.range n).foldl (fun (state : Bytes × Nat) pcr =>
      if sel.selects pcr && decide (state.2 < values.length) then
        (state.1 ++ values.getD state.2 [], state.2 + 1)
      else state) (hashed, 0)
      = (hashed ++ (values.take ((List.range n).countP sel.selects)).flatten,
        min ((List.range n).countP sel.selects) values.length) := by
    intro n
    induction n with
    | zero => simp
    | succ n ih =>
      rw [List.range_succ, List.foldl_append, ih, List.foldl_cons, List.foldl_nil, List.countP_append,
        List.countP_singleton]
      set k := (List.range n).countP sel.selects with hk
      by_cases hsel : sel.selects n = true
      · by_cases hlen : k < values.length
        · rw [Nat.min_eq_left (by omega), hsel, if_pos (by simpa using hlen), if_pos rfl,
            List.take_succ_eq_append_getElem hlen, List.flatten_append, List.flatten_singleton,
            List.getD_eq_getElem _ _ hlen, List.append_assoc, Nat.min_eq_left (by omega)]
        · -- no value is left for this register
          rw [Nat.min_eq_right (by omega), if_neg (by simp), List.take_of_length_le (by omega),
            List.take_of_length_le (by omega), Nat.min_eq_right (by omega)]
      · rw [if_neg (by simp [hsel]), if_neg hsel, Nat.add_zero]
  rw [digestSelection, hloop]
  rfl

theorem recomputePcrDigest_single (crypto : QuoteCrypto) (mask : PcrMask) (values : List Bytes) :
    recomputePcrDigest crypto (.singleSha256 mask) values
      = (crypto.sha256 (values.take (PcrSelection.sha256 mask).count).flatten).bytes := by
  show (crypto.sha256 (digestSelection values (.sha256 mask) [])).bytes = _
  rw [digestSelection_eq, List.nil_append]

/-! ## Acceptance -/

theorem hexField_eq_ok {what text : String} {bytes : Bytes} :
    hexField what text = .ok bytes ↔ hexDecode text = some bytes := by
  rw [hexField]
  split
  · next h => simp [h]
  · next b h => simp [h]

theorem cryptoStep_eq_ok {α : Type} {what : String} {x : Except String α} {a : α} :
    cryptoStep what x = .ok a ↔ x = .ok a := by
  cases x <;> simp [cryptoStep]

/-- Past an early return of a `do` block. -/
theorem throw_eq_ok {α β : Type} {c : Prop} [Decidable c] {e : TpmError} {f : β → Except TpmError α}
    {x : Except TpmError α} {a : α} : (if c then throw e >>= f else x) = .ok a ↔ ¬ c ∧ x = .ok a := by
  by_cases hc : c
  · simp [hc, throw, throwThe, MonadExceptOf.throw, bind, Except.bind]
  · simp [hc]

theorem verifyQuote_iff {crypto : QuoteCrypto} {b : QuoteBundle} {attest : QuoteAttestation} {v : Bool} :
    verifyQuote crypto b attest = .ok v ↔ v = true ∧
      attest.magic = TPM_GENERATED ∧ attest.attestType = TPM_ST_ATTEST_QUOTE ∧
      hexDecode b.nonceHex = some attest.extraData ∧
      (∃ mask, hexDecode b.pcrMaskHex = some mask ∧
        attest.pcrSelection = .singleSha256 (bundleMask mask)) ∧
      (∃ values, pcrValues b.pcrValuesHex = .ok values ∧
        attest.pcrDigest = recomputePcrDigest crypto attest.pcrSelection values) ∧
      (∃ x y point key r s signature, hexDecode b.aikXHex = some x ∧ hexDecode b.aikYHex = some y ∧
        crypto.encodedPoint ([0x04] ++ x ++ y) = .ok point ∧ crypto.verifyingKey point = .ok key ∧
        hexDecode b.signatureRHex = some r ∧ hexDecode b.signatureSHex = some s ∧
        crypto.fromDer (signatureDer r s) = .ok signature ∧
        crypto.verify key attest.raw signature = .ok ()) := by
  simp only [verifyQuote, Checks.bind_eq_ok, throw_eq_ok, hexField_eq_ok, cryptoStep_eq_ok, ne_eq,
    not_not]
  constructor
  · rintro ⟨hmagic, htype, nonce, hnonce, heq, mask, hmask, hsel, values, hvalues, hdigest, x, hx, y,
      hy, point, hpoint, key, hkey, r, hr, s, hs, sig, hsig, _, hverify, hv⟩
    refine ⟨(Except.ok.inj hv).symm, hmagic, htype, ?_, ⟨mask, hmask, hsel⟩, ⟨values, hvalues, ?_⟩,
      x, y, point, key, r, s, sig, hx, hy, hpoint, hkey, hr, hs, hsig, hverify⟩
    · rw [heq, hnonce]
    · rw [hsel, hdigest]
  · rintro ⟨rfl, hmagic, htype, hnonce, ⟨mask, hmask, hsel⟩, ⟨values, hvalues, hdigest⟩, x, y, point,
      key, r, s, sig, hx, hy, hpoint, hkey, hr, hs, hsig, hverify⟩
    refine ⟨hmagic, htype, _, hnonce, rfl, mask, hmask, hsel, values, hvalues, ?_,
      x, hx, y, hy, point, hpoint, key, hkey, r, hr, s, hs, sig, hsig, (), hverify, rfl⟩
    rw [hdigest, hsel]

/-- The registers a bundle speaks of. -/
def QuoteBundle.mask (b : QuoteBundle) : Option PcrMask := (hexDecode b.pcrMaskHex).map bundleMask

/-! ## Capture -/

def DC_QUOTE_PCR_MASK : PcrMask := ⟨[0xFF, 0x0F, 0x00, 0x00], rfl⟩

structure EccPublicKey where
  curveId : Nat
  x : Bytes
  y : Bytes

structure AikHandle where
  persistent : Nat
  pub : EccPublicKey
  publicRaw : Bytes

def encodeQuote (signHandle : Nat) (qualifyingData : Bytes) (list : PcrSelectionList) : Bytes :=
  intoCommand TPM_ST_SESSIONS TPM_CC_QUOTE
    (be 4 signHandle ++ sized emptyPwSession ++ be 2 TPM_ALG_ECDSA ++ be 2 TPM_ALG_SHA256
      ++ tpm2b qualifyingData ++ list.write)

/-- `digits` hexadecimal digits. -/
def hexLower (digits n : Nat) : String :=
  String.ofList ((List.range digits).map fun i => hexDigit (n / 16 ^ (digits - 1 - i) % 16))

def hexUpper (digits n : Nat) : String := (hexLower digits n).map Char.toUpper

section

variable {S : Type} (crypto : QuoteCrypto) (tpm : Transport S)

def readPcrs (mask : PcrMask) : Prog (Host S) TpmError PcrReadResponse := do
  let params ← transactOwned tpm (encodePcrRead (.singleSha256 mask))
  Prog.ofExcept (wireResult (parsePcrRead.value params))

/-- The bundle that is put together from the two answers. -/
def capturedBundle (aik : AikHandle) (nonce : Bytes) (digests : List Bytes) (response : Bytes)
    (attest : QuoteAttestation) (sig : EcdsaSignature) : QuoteBundle where
  nonceHex := hexEncode nonce
  pcrMaskHex := hexEncode DC_QUOTE_PCR_MASK.bytes
  pcrValuesHex := digests.map hexEncode
  pcrDigestHex := hexEncode (recomputePcrDigest crypto (.singleSha256 DC_QUOTE_PCR_MASK) digests)
  quoteResponseHex := hexEncode response
  aikXHex := hexEncode aik.pub.x
  aikYHex := hexEncode aik.pub.y
  aikPublicTemplateHex := hexEncode aik.publicRaw
  attestation :=
    { magicHex := hexUpper 8 attest.magic
      attestTypeHex := hexUpper 4 attest.attestType
      qualifiedSignerHex := hexEncode attest.qualifiedSigner
      firmwareVersion := attest.firmwareVersion
      clockSafe := attest.clockSafe }
  signatureRHex := hexEncode sig.r
  signatureSHex := hexEncode sig.s
  tpmClock := attest.clock
  tpmResetCount := attest.resetCount
  tpmRestartCount := attest.restartCount
  locallyVerified := false

def generateQuote (aik : AikHandle) (nonce : Bytes) : Prog (Host S) TpmError QuoteBundle :=
  if nonce = [] ∨ nonce.length > 32 then
    Prog.fail (.policy "quote nonce must be 1..=32 bytes")
  else do
    let live ← readPcrs tpm DC_QUOTE_PCR_MASK
    let response ← transact tpm (encodeQuote aik.persistent nonce (.singleSha256 DC_QUOTE_PCR_MASK))
    let parts ← Prog.ofExcept (generatedParts response)
    let bundle := capturedBundle crypto aik nonce live.digests response parts.1 parts.2
    -- a quote that does not verify is never embedded
    let verdict ← Prog.ofExcept (verifyQuote crypto bundle parts.1)
    pure { bundle with locallyVerified := verdict }

end

theorem ofExcept_eq_ok {σ α : Type} {x : Except TpmError α} {s s' : σ} {a : α} :
    (Prog.ofExcept x : Prog σ TpmError α) s = (.ok a, s') ↔ x = .ok a ∧ s' = s := by
  cases x with
  | error e => simp [Prog.ofExcept, Prog.fail]
  | ok b => simp [Prog.ofExcept, Prog.ret, eq_comm]

theorem replied_eq_ok {α : Type} {x : Except TpmError α} {a : α} : replied x = .ok a ↔ x = .ok a := by
  cases x <;> simp [replied]

/-- What a capture has done when it ends with a bundle. -/
theorem generateQuote_ok {S : Type} {crypto : QuoteCrypto} {tpm : Transport S} {aik : AikHandle}
    {nonce : Bytes} {h h' : Host S} {b : QuoteBundle}
    (hrun : generateQuote crypto tpm aik nonce h = (.ok b, h')) :
    ∃ digests response attest sig, ⟨encodeQuote aik.persistent nonce (.singleSha256 DC_QUOTE_PCR_MASK),
        .ok response⟩ ∈ h'.log ∧
      generatedParts response = .ok (attest, sig) ∧
      verifyQuote crypto (capturedBundle crypto aik nonce digests response attest sig) attest = .ok true ∧
      b = { capturedBundle crypto aik nonce digests response attest sig with locallyVerified := true } := by
  rw [generateQuote] at hrun
  split_ifs at hrun with hnonce
  · exact absurd (Prod.mk.inj hrun).1 (by simp)
  obtain ⟨live, h₁, -, hrest⟩ := Prog.bind_eq_ok.mp hrun
  obtain ⟨response, h₂, hquote, hrest⟩ := Prog.bind_eq_ok.mp hrest
  obtain ⟨parts, h₃, hpartsRun, hrest⟩ := Prog.bind_eq_ok.mp hrest
  obtain ⟨verdict, h₄, hverdictRun, hret⟩ := Prog.bind_eq_ok.mp hrest
  obtain ⟨hparts, rfl⟩ := ofExcept_eq_ok.mp hpartsRun
  obtain ⟨hverdict, rfl⟩ := ofExcept_eq_ok.mp hverdictRun
  obtain ⟨hb, rfl⟩ := Prod.mk.inj hret
  obtain ⟨hanswer, rfl⟩ := Prod.mk.inj hquote
  rw [replied_eq_ok] at hanswer
  obtain rfl := (verifyQuote_iff.mp hverdict).1
  refine ⟨live.digests, response, parts.1, parts.2, ?_, hparts, hverdict, ?_⟩
  · simp only [hanswer, List.mem_append, List.mem_singleton, or_true]
  · exact (Outcome.ok.inj hb).symm

/-- Both routes read the same parts of a response; only an archived one has its sizes checked. -/
theorem archivedParts_of_generated {response : Bytes} {parts : QuoteAttestation × EcdsaSignature}
    (hparts : generatedParts response = .ok parts) (hsizes : checkSizes response = .ok ()) :
    archivedParts response = .ok parts := by
  rw [generatedParts] at hparts
  obtain ⟨params, hparams, hquote⟩ := Checks.bind_eq_ok.mp hparts
  rw [archivedParts]
  refine Checks.bind_eq_ok.mpr ⟨(), hsizes, Checks.bind_eq_ok.mpr ⟨params, hparams, ?_⟩⟩
  rw [quoteParts] at hquote ⊢
  obtain ⟨parsed, hparsed, hsig⟩ := Checks.bind_eq_ok.mp hquote
  obtain ⟨embedded, hembedded, hret⟩ := Checks.bind_eq_ok.mp hsig
  -- the names of the steps differ, the results do not
  have hstep : ∀ {α : Type} {a : α} {what what' : String} {x : Except WireError α},
      wireStep what x = .ok a → wireStep what' x = .ok a := by
    intro α a what what' x h
    cases x with
    | error e => cases h
    | ok b => exact h
  exact Checks.bind_eq_ok.mpr ⟨parsed, hstep hparsed, Checks.bind_eq_ok.mpr ⟨embedded, hstep hembedded, hret⟩⟩

/-- A bundle that verified when it was put together verifies again if the response declares its own
sizes and its scheme. -/
theorem verifyBundle_captured {crypto : QuoteCrypto} {aik : AikHandle} {nonce response : Bytes}
    {digests : List Bytes} {attest : QuoteAttestation} {sig : EcdsaSignature}
    (hparts : generatedParts response = .ok (attest, sig))
    (hverdict : verifyQuote crypto (capturedBundle crypto aik nonce digests response attest sig) attest
      = .ok true) :
    verifyBundle crypto (capturedBundle crypto aik nonce digests response attest sig) = .ok true ↔
      checkSizes response = .ok () ∧ sig.alg = TPM_ALG_ECDSA ∧ sig.hashAlg = TPM_ALG_SHA256 := by
  have hsame : checkSizes response = .ok () → archivedParts response = .ok (attest, sig) :=
    archivedParts_of_generated hparts
  simp only [verifyBundle, Checks.bind_eq_ok, throw_eq_ok, hexField_eq_ok, capturedBundle,
    hexDecode_hexEncode]
  constructor
  · rintro ⟨_, hresponse, parts, harchived, hscheme, -⟩
    obtain rfl := Option.some.inj hresponse
    have hsizes : checkSizes response = .ok () := by
      rw [archivedParts] at harchived
      obtain ⟨_, hsizes, -⟩ := Checks.bind_eq_ok.mp harchived
      exact hsizes
    obtain rfl := Except.ok.inj ((hsame hsizes).symm.trans harchived)
    rw [not_or, not_not, not_not] at hscheme
    exact ⟨hsizes, hscheme⟩
  · rintro ⟨hsizes, halg, hhash⟩
    have hscheme : ¬(sig.alg ≠ TPM_ALG_ECDSA ∨ sig.hashAlg ≠ TPM_ALG_SHA256) := by
      rw [not_or, not_not, not_not]
      exact ⟨halg, hhash⟩
    refine ⟨response, rfl, (attest, sig), hsame hsizes, hscheme, ?_⟩
    -- the archived components are the embedded ones, so the doctoring check passes
    simp only [ne_eq, not_true_eq_false, or_self, if_false]
    exact hverdict

end Tpm

end DiscCleaner
