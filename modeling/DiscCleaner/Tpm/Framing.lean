import DiscCleaner.Tpm.Attest

/-!
# DiscCleaner — the responses of TPM 2.0 Part 3 (`dc-tpm/structures.rs`, `dc-tpm/attest.rs`)

The output structures of `TPM2_PCR_Read` and `TPM2_Quote` as the standard lays them out, against the
parsers. `parse_pcr_read` has no update counter, and the quote parsers have no size in front of the
attestation; `verify_bundle` also has no room for a session area.

* **`parsePcrRead_standard_iff`** — a PCR_Read response is read back when it is all zeros.
* **`not_recovers`** — no quote response is read back.
-/

namespace DiscCleaner

open ByteLib

namespace Tpm

/-! ## The standard's structures -/

/-- `TPMS_PCR_SELECTION`: an algorithm, which is never `TPM_ALG_ERROR`, and a bitmap with its
length. -/
structure TpmsPcrSelection where
  hash : Nat
  pcrSelect : Bytes
  hash_ne : hash ≠ TPM_ALG_ERROR
  hash_lt : hash < 2 ^ 16
  pcrSelect_le : pcrSelect.length ≤ 4

def TpmsPcrSelection.bytes (s : TpmsPcrSelection) : Bytes :=
  be 2 s.hash ++ be 1 s.pcrSelect.length ++ s.pcrSelect

/-- The selection as the crate holds it. -/
def TpmsPcrSelection.held (s : TpmsPcrSelection) : PcrSelection := ⟨s.hash, PcrSelection.padded s.pcrSelect⟩

/-- `TPML_PCR_SELECTION`. -/
def selectionBytes (selections : List TpmsPcrSelection) : Bytes :=
  be 4 selections.length ++ selections.flatMap TpmsPcrSelection.bytes

/-- The output parameters of `TPM2_PCR_Read`, over the SHA-256 bank. -/
structure PcrReadOut where
  pcrUpdateCounter : UInt32
  pcrSelectionOut : List TpmsPcrSelection
  pcrValues : List (Block 32)
  pcrSelectionOut_le : pcrSelectionOut.length ≤ 4
  pcrValues_le : pcrValues.length ≤ 8

def PcrReadOut.parameters (out : PcrReadOut) : Bytes :=
  be 4 out.pcrUpdateCounter.toNat ++ (selectionBytes out.pcrSelectionOut ++
    (be 4 out.pcrValues.length ++ out.pcrValues.flatMap fun d => tpm2b d.bytes))

/-- What `parse_pcr_read` is to return for it. -/
def PcrReadOut.held (out : PcrReadOut) : PcrReadResponse :=
  ⟨⟨out.pcrSelectionOut.map TpmsPcrSelection.held⟩, out.pcrValues.map Block.bytes⟩

/-- `TPMS_ATTEST` of a quote. -/
structure TpmsAttest where
  qualifiedSigner : Bytes
  extraData : Bytes
  clock : UInt64
  resetCount : UInt32
  restartCount : UInt32
  safe : UInt8
  firmwareVersion : UInt64
  pcrSelect : List TpmsPcrSelection
  pcrDigest : Bytes

def TpmsAttest.bytes (a : TpmsAttest) : Bytes :=
  be 4 TPM_GENERATED ++ (be 2 TPM_ST_ATTEST_QUOTE ++ tpm2b a.qualifiedSigner ++ tpm2b a.extraData
    ++ be 8 a.clock.toNat ++ be 4 a.resetCount.toNat ++ be 4 a.restartCount.toNat ++ [a.safe]
    ++ be 8 a.firmwareVersion.toNat ++ selectionBytes a.pcrSelect ++ tpm2b a.pcrDigest)

def EcdsaSignature.bytes (s : EcdsaSignature) : Bytes :=
  be 2 s.alg ++ be 2 s.hashAlg ++ tpm2b s.r ++ tpm2b s.s

/-- The output of `TPM2_Quote`, and the response sessions behind it. -/
structure QuoteOut where
  quoted : TpmsAttest
  signature : EcdsaSignature
  sessions : Bytes

/-- `TPM2B_ATTEST`, then `TPMT_SIGNATURE`. -/
def QuoteOut.parameters (q : QuoteOut) : Bytes := tpm2b q.quoted.bytes ++ q.signature.bytes

def QuoteOut.response (q : QuoteOut) : Bytes :=
  be 2 TPM_ST_SESSIONS ++ be 4 (14 + q.parameters.length + q.sessions.length) ++ be 4 TPM_RC_SUCCESS
    ++ be 4 q.parameters.length ++ (q.parameters ++ q.sessions)

/-- The parser gets the attestation bytes and the signature out of the response. -/
def Recovers (parts : Bytes → Except TpmError (QuoteAttestation × EcdsaSignature)) (q : QuoteOut) :
    Prop :=
  ∃ attest, parts q.response = .ok (attest, q.signature) ∧ attest.raw = q.quoted.bytes

/-! ## PCR_Read -/

open Read

/-- A count below `2^16` starts with a zero word. -/
theorem be_four {n : Nat} (h : n < 2 ^ 16) : be 4 n = be 2 0 ++ be 2 n := by
  have h3 : n / 16777216 = 0 := Nat.div_eq_of_lt (by omega)
  have h2 : n / 65536 = 0 := Nat.div_eq_of_lt (by omega)
  simp [be, h3, h2]

/-- What the first selection of a list is read from. -/
theorem hashAlg_of_read {c c' : Cursor} {rest : Bytes} {s : PcrSelection}
    (hc : c.rest = be 2 0 ++ rest) (h : PcrSelection.read c = .ok (s, c')) : s.hashAlg = 0 := by
  obtain ⟨hashAlg, c₁, hword, hrest⟩ := bind_eq_ok.mp h
  have hparsed := parses_word (n := 2) (v := 0) (by decide) rest c.pos
  rw [← hc] at hparsed
  cases hword.symm.trans hparsed
  obtain ⟨size, c₂, -, hsize⟩ := bind_eq_ok.mp hrest
  split_ifs at hsize
  · cases hsize
  · obtain ⟨select, c₃, -, hret⟩ := bind_eq_ok.mp hsize
    cases hret
    rfl

/-- The selection list of a response that is read back: the counter counts it, and a selection that
is read lies over the standard's count, so it has algorithm 0. -/
theorem selections_of_read {out : PcrReadOut} {c' : Cursor}
    (h : PcrSelectionList.read ⟨out.parameters, 0⟩ = .ok (out.held.selection, c')) :
    out.pcrUpdateCounter = 0 ∧ out.pcrSelectionOut = [] ∧
      c'.rest = be 4 0 ++ (be 4 out.pcrValues.length
        ++ out.pcrValues.flatMap fun d => tpm2b d.bytes) := by
  obtain ⟨count, c₁, hword, hlist⟩ := bind_eq_ok.mp h
  have hparsed := parses_word (n := 4) (v := out.pcrUpdateCounter.toNat)
    out.pcrUpdateCounter.toNat_lt (selectionBytes out.pcrSelectionOut ++
      (be 4 out.pcrValues.length ++ out.pcrValues.flatMap fun d => tpm2b d.bytes)) 0
  cases hword.symm.trans hparsed
  split_ifs at hlist
  · cases hlist
  · obtain ⟨selections, c₂, htimes, hret⟩ := bind_eq_ok.mp hlist
    have hcount := length_of_times htimes
    cases hret
    rw [List.length_map] at hcount
    cases hsel : out.pcrSelectionOut with
    | nil =>
      rw [hsel] at hcount htimes
      have hzero : out.pcrUpdateCounter = 0 := UInt32.toNat_inj.mp hcount.symm
      rw [hzero] at htimes
      cases htimes
      exact ⟨hzero, rfl, rfl⟩
    | cons s selections =>
      -- the first selection is read from the count of the list
      rw [← hcount, hsel] at htimes
      obtain ⟨first, c₃, hfirst, hmore⟩ := bind_eq_ok.mp htimes
      obtain ⟨others, c₄, -, hret⟩ := bind_eq_ok.mp hmore
      have hle := out.pcrSelectionOut_le
      rw [hsel] at hle
      have hhash := hashAlg_of_read (by
        rw [selectionBytes, be_four (by omega), List.append_assoc, List.append_assoc]) hfirst
      cases hret
      exact absurd hhash s.hash_ne

/-- **A PCR_Read response is read back** when its counter and both its lists are empty, and
otherwise not. -/
theorem parsePcrRead_standard_iff (out : PcrReadOut) :
    parsePcrRead.value out.parameters = .ok out.held ↔
      out.pcrUpdateCounter = 0 ∧ out.pcrSelectionOut = [] ∧ out.pcrValues = [] := by
  constructor
  · intro h
    obtain ⟨c, hrun⟩ := value_eq_ok.mp h
    obtain ⟨selection, c₁, hselection, hdigests⟩ := bind_eq_ok.mp hrun
    obtain ⟨count, c₂, hword, hlist⟩ := bind_eq_ok.mp hdigests
    split_ifs at hlist
    · cases hlist
    · obtain ⟨digests, c₃, htimes, hret⟩ := bind_eq_ok.mp hlist
      have hlen := length_of_times htimes
      cases hret
      obtain ⟨hcounter, hsel, hrest⟩ := selections_of_read hselection
      have hparsed := parses_word (n := 4) (v := 0) (by decide) (be 4 out.pcrValues.length
        ++ out.pcrValues.flatMap fun d => tpm2b d.bytes) c₁.pos
      rw [← hrest] at hparsed
      cases hword.symm.trans hparsed
      rw [List.length_map] at hlen
      exact ⟨hcounter, hsel, List.length_eq_zero_iff.mp hlen⟩
  · rintro ⟨hcounter, hsel, hvalues⟩
    have hlist : Parses PcrSelectionList.read (be 4 0) ⟨[]⟩ := by
      refine (parses_word (by decide)).map ?_
      rw [if_neg (by decide)]
      exact .ret _
    have hread : Parses parsePcrRead (be 4 0 ++ be 4 0) ⟨⟨[]⟩, []⟩ := by
      refine hlist.bind ((parses_word (by decide)).map ?_)
      rw [if_neg (by decide)]
      exact .ret _
    have hvalue := hread.value_append (be 4 0)
    unfold PcrReadOut.parameters PcrReadOut.held
    rw [hcounter, hsel, hvalues]
    exact hvalue

/-! ## Quote -/

/-- The bytes an attestation is read from start the parameters. -/
theorem raw_prefix {params : Bytes} {attest : QuoteAttestation}
    (h : parseAttestation params = .ok attest) : ∃ rest, params = attest.raw ++ rest := by
  unfold parseAttestation at h
  split at h
  · next body c _ =>
    cases h
    exact ⟨params.drop c.pos, (List.take_append_drop c.pos params).symm⟩
  · cases h

theorem quoteParts_ok {onAttest onSignature : String} {params : Bytes} {attest : QuoteAttestation}
    {sig : EcdsaSignature} (h : quoteParts onAttest onSignature params = .ok (attest, sig)) :
    parseAttestation params = .ok attest := by
  unfold quoteParts at h
  cases hparse : parseAttestation params with
  | error e =>
    rw [hparse] at h
    cases h
  | ok parsed =>
    simp only [hparse, wireStep, bind, Except.bind] at h
    cases hsig : parseEcdsaSignature.value (params.drop parsed.raw.length) with
    | error e =>
      rw [hsig] at h
      cases h
    | ok embedded =>
      rw [hsig] at h
      cases h
      rfl

theorem parses_be (n v : Nat) : Parses (Reader.word n) (be n v) (beNat (be n v)) :=
  (parses_take (be_length n v)).map (.ret _)

/-- The parameters that the parsers are given run to the end of the response, sessions included. -/
theorem classifyResponse_quote (q : QuoteOut) :
    classifyResponse q.response = .ok (q.parameters ++ q.sessions) := by
  have hheader : Parses responseHeader (be 2 TPM_ST_SESSIONS ++ (be 4 (14 + q.parameters.length
      + q.sessions.length) ++ (be 4 TPM_RC_SUCCESS ++ be 4 q.parameters.length)))
      (.ok ⟨TPM_ST_SESSIONS, TPM_RC_SUCCESS, 14⟩) :=
    (parses_word (by decide)).bind ((parses_be 4 _).bind ((parses_word (by decide)).bind
      ((parses_be 4 _).map (.ret _))))
  have hresponse : q.response = (be 2 TPM_ST_SESSIONS ++ (be 4 (14 + q.parameters.length
      + q.sessions.length) ++ (be 4 TPM_RC_SUCCESS ++ be 4 q.parameters.length)))
        ++ (q.parameters ++ q.sessions) := by
    simp only [QuoteOut.response, List.append_assoc]
  have hvalue := hheader.value_append (q.parameters ++ q.sessions)
  rw [← hresponse] at hvalue
  have hdrop : q.response.drop (min 14 q.response.length) = q.parameters ++ q.sessions := by
    rw [hresponse, Nat.min_eq_left (by simp only [List.length_append, be_length]; omega)]
    exact List.drop_left' (by simp only [List.length_append, be_length])
  simp only [classifyResponse, parseResponseHeader, hvalue, Except.map, hdrop]

/-- The attestation that the parser reads starts with the size, so it is not the one behind it:
byte 2 would be the first byte of the magic and the third. -/
theorem raw_ne {q : QuoteOut} {onAttest onSignature : String} {attest : QuoteAttestation}
    {sig : EcdsaSignature}
    (h : quoteParts onAttest onSignature (q.parameters ++ q.sessions) = .ok (attest, sig)) :
    attest.raw ≠ q.quoted.bytes := by
  intro hraw
  obtain ⟨rest, hprefix⟩ := raw_prefix (quoteParts_ok h)
  rw [hraw] at hprefix
  have hmagic : be 4 TPM_GENERATED = [0xFF, 0x54, 0x43, 0x47] := by decide
  have hbyte := congrArg (fun bs : Bytes => bs[2]?) hprefix
  simp only [QuoteOut.parameters, tpm2b, TpmsAttest.bytes, hmagic] at hbyte
  simp [be] at hbyte

theorem generatedParts_ok {q : QuoteOut} {parts : QuoteAttestation × EcdsaSignature}
    (h : generatedParts q.response = .ok parts) :
    quoteParts "quote attestation" "quote signature" (q.parameters ++ q.sessions) = .ok parts := by
  unfold generatedParts at h
  simp only [classifyResponse_quote, bind, Except.bind] at h
  exact h

theorem archivedParts_ok {q : QuoteOut} {parts : QuoteAttestation × EcdsaSignature}
    (h : archivedParts q.response = .ok parts) :
    quoteParts "replay" "replay signature" (q.parameters ++ q.sessions) = .ok parts := by
  unfold archivedParts at h
  cases hsizes : checkSizes q.response with
  | error e =>
    rw [hsizes] at h
    cases h
  | ok =>
    simp only [hsizes, classifyResponse_quote, bind, Except.bind] at h
    exact h

theorem not_recovers (q : QuoteOut) : ¬Recovers generatedParts q ∧ ¬Recovers archivedParts q := by
  constructor
  · rintro ⟨attest, hparts, hraw⟩
    exact raw_ne (generatedParts_ok hparts) hraw
  · rintro ⟨attest, hparts, hraw⟩
    exact raw_ne (archivedParts_ok hparts) hraw

/-- **The standard's responses**: a PCR_Read response is read back only where it is all zeros, a
quote response never, neither when it is taken nor when it is replayed. -/
theorem standard_responses_read_iff (out : PcrReadOut) (q : QuoteOut) :
    (parsePcrRead.value out.parameters = .ok out.held ↔
        out.pcrUpdateCounter = 0 ∧ out.pcrSelectionOut = [] ∧ out.pcrValues = []) ∧
      ¬Recovers generatedParts q ∧ ¬Recovers archivedParts q :=
  ⟨parsePcrRead_standard_iff out, not_recovers q⟩

/-- A TPM whose registers were extended once, asked for register 0. -/
def onePcrRead : PcrReadOut where
  pcrUpdateCounter := 1
  pcrSelectionOut := [⟨TPM_ALG_SHA256, [1, 0, 0], by decide, by decide, by decide⟩]
  pcrValues := [⟨List.replicate 32 0, zeroDigest_length⟩]
  pcrSelectionOut_le := by decide
  pcrValues_le := by decide

/-- Its quote, without sessions. -/
def oneQuote : QuoteOut where
  quoted := ⟨[], [1], 0, 0, 0, 1, 0, onePcrRead.pcrSelectionOut, List.replicate 32 0⟩
  signature := ⟨TPM_ALG_ECDSA, TPM_ALG_SHA256, List.replicate 32 1, List.replicate 32 1⟩
  sessions := []

/-- The counter is taken for the number of selections, and the size for the start of the magic. -/
theorem one_register_not_read :
    parsePcrRead.value onePcrRead.parameters ≠ .ok onePcrRead.held ∧
      ¬Recovers generatedParts oneQuote ∧ ¬Recovers archivedParts oneQuote :=
  ⟨fun h => absurd ((parsePcrRead_standard_iff onePcrRead).mp h).1 (by decide),
    not_recovers oneQuote⟩

end Tpm

end DiscCleaner
