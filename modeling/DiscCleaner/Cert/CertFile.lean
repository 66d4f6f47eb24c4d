import DiscCleaner.Cert.Certificate
import DiscCleaner.Cert.DualAuth

/-!
# DiscCleaner — the certificate file driver (`cert.rs`)

`verify_raw_cert_file` takes the bytes of a certificate file through a strict scan, the
parser, the schema, the signature, the key coherence and the trust anchor, and stops at the
first that fails. What it accepts is compared with the hybrid signature policy.
-/

namespace DiscCleaner

open ByteLib Checks

variable (cp : CertPrimitives)

namespace SanitizationCertificate

/-! ## The strict scan -/

/-- The rest of a string literal after its opening quote: its text, escapes taken for the
character behind the backslash, and what follows the closing quote. -/
def scanString : List Char → Bool → List Char → List Char × List Char
  | [], _, key => (key, [])
  | ch :: rest, escaped, key =>
    if escaped then scanString rest false (key ++ [ch])
    else if ch = '\\' then scanString rest true key
    else if ch = '"' then (key, rest)
    else scanString rest false (key ++ [ch])

/-- Open objects, innermost first, each with the keys seen in it. -/
structure ScanState where
  depth : Nat
  seenKeys : List (List (List Char))

def duplicateKey (key : List Char) : String :=
  "DUPLICATE_KEY: Duplicate key '" ++ String.ofList key ++ "' detected"

/-- The key check behind a string literal: only before a colon, only inside an object. -/
def scanKey (st : ScanState) (key rest : List Char) : Except String ScanState :=
  match st.seenKeys with
  | scope :: outer =>
    if rest.head? = some ':' then
      if key ∈ scope then .error (duplicateKey key)
      else .ok { st with seenKeys := (key :: scope) :: outer }
    else .ok st
  | [] => .ok st

/-- One turn of the tokenizer: what it does on a character, and the characters left. -/
def scanTurn (st : ScanState) (c : Char) (rest : List Char) :
    Except String (ScanState × List Char) :=
  if c = '{' then
    if st.depth + 1 > 32 then .error "JSON nesting depth exceeded limit of 32"
    else .ok (⟨st.depth + 1, [] :: st.seenKeys⟩, rest)
  else if c = '}' then .ok (⟨st.depth - 1, st.seenKeys.tail⟩, rest)
  else if c = '"' then
    let (key, behind) := scanString rest false []
    let behind := behind.dropWhile isWhitespace
    (scanKey st key behind).map fun st => (st, behind)
  else .ok (st, rest)

/-- The tokenizer, with a bound on its turns; the length of the text is enough
(`scanLoop_fuel`). -/
def scanLoop : Nat → ScanState → List Char → Except String Unit
  | _, _, [] => .ok ()
  | 0, _, _ :: _ => .error "scan out of turns"
  | fuel + 1, st, c :: rest =>
    match scanTurn st c rest with
    | .error e => .error e
    | .ok (st, rest) => scanLoop fuel st rest

def strictJsonScan (bytes : Bytes) : Except String Unit :=
  if bytes = [] then .error "Empty document"
  else if bytes.take 3 = [0xEF, 0xBB, 0xBF] then
    .error "BOM detected in JSON input (rejected by strict policy)"
  else
    match fromUtf8 bytes with
    | none => .error ("Invalid UTF-8: " ++ cp.utf8ErrorText bytes)
    | some s => scanLoop s.toList.length ⟨0, []⟩ s.toList

theorem scanString_rest_length (chars : List Char) (escaped : Bool) (key : List Char) :
    (scanString chars escaped key).2.length ≤ chars.length := by
  induction chars generalizing escaped key with
  | nil => exact Nat.le_refl 0
  | cons ch rest ih =>
    unfold scanString
    split
    · exact Nat.le_succ_of_le (ih _ _)
    · split
      · exact Nat.le_succ_of_le (ih _ _)
      · split
        · exact Nat.le_succ _
        · exact Nat.le_succ_of_le (ih _ _)

/-- A turn never puts characters back. -/
theorem scanTurn_rest_length {st st' : ScanState} {c : Char} {rest rest' : List Char}
    (h : scanTurn st c rest = .ok (st', rest')) : rest'.length ≤ rest.length := by
  unfold scanTurn at h
  split at h
  · split at h
    · simp at h
    · simp only [Except.ok.injEq, Prod.mk.injEq] at h
      rw [h.2]
  · split at h
    · simp only [Except.ok.injEq, Prod.mk.injEq] at h
      rw [h.2]
    · split at h
      · cases hkey : scanKey st (scanString rest false []).1
          ((scanString rest false []).2.dropWhile isWhitespace) with
        | error e => simp [hkey, Except.map] at h
        | ok st₁ =>
          simp only [hkey, Except.map, Except.ok.injEq, Prod.mk.injEq] at h
          rw [← h.2]
          exact (List.dropWhile_suffix _).length_le.trans (scanString_rest_length rest false [])
      · simp only [Except.ok.injEq, Prod.mk.injEq] at h
        rw [h.2]

/-- **The bound on the turns is never met**: any bound from the length of the text on gives
the same verdict. Induction on the bound; each turn takes at least one character. -/
theorem scanLoop_fuel {fuel : Nat} {chars : List Char} (h : chars.length ≤ fuel)
    (st : ScanState) : scanLoop fuel st chars = scanLoop chars.length st chars := by
  induction fuel using Nat.strong_induction_on generalizing chars st with
  | _ fuel ih =>
    cases chars with
    | nil => cases fuel <;> rfl
    | cons c rest =>
      cases fuel with
      | zero => simp at h
      | succ fuel =>
        rw [List.length_cons] at h ⊢
        rw [scanLoop, scanLoop]
        cases hturn : scanTurn st c rest with
        | error e => rfl
        | ok next =>
          have hrest := scanTurn_rest_length hturn
          show scanLoop fuel next.1 next.2 = scanLoop rest.length next.1 next.2
          rw [ih fuel (Nat.lt_succ_self _) (by omega), ih rest.length (by omega) hrest]

end SanitizationCertificate

/-! ## The driver -/

structure CertVerificationResult where
  isValid : Bool
  isAuthenticated : Bool
  mode : String
  fileBlake3 : String
  errorDetail : Option String
  deriving DecidableEq

namespace SanitizationCertificate

def checkSchema (cert : SanitizationCertificate) : Except String Unit :=
  if cert.schema ≠ "diskcleaner-cert/1" then
    .error ("SCHEMA_VERSION_REFUSAL: Unsupported schema " ++ cert.schema)
  else .ok ()

/-- The digital signature: `verify_signature`, whatever else the certificate carries. -/
def checkDigitalSignature (cert : SanitizationCertificate) : Except String Unit :=
  if cert.verifySignature cp = .ok true then .ok () else .error "INVALID_SIGNATURE"

/-- The embedded fingerprint must be the digest of the embedded key. -/
def checkCoherence (cert : SanitizationCertificate) : Except String Unit :=
  match (hexDecode cert.operator.publicKeyEd25519).bind (Block.ofBytes? 32) with
  | none => .error "INVALID_PUBKEY_HEX"
  | some pubkey =>
    let calculatedFp := hexEncode (cp.blake3 pubkey.bytes).bytes
    if calculatedFp ≠ cert.operator.keyFingerprintBlake3 then
      .error ("COHERENCE_MISMATCH: Stored fingerprint '" ++ cert.operator.keyFingerprintBlake3
        ++ "' != computed '" ++ calculatedFp ++ "'")
    else .ok ()

/-- The trust anchor: a fingerprint wins over a key list; without either the certificate is
unauthenticated but not refused. -/
def evaluateAnchor (cert : SanitizationCertificate) (trustedFingerprint : Option String)
    (trustedKeysList : Option (List String)) : Except String Bool :=
  match trustedFingerprint, trustedKeysList with
  | some fp, _ =>
    if fp = cert.operator.keyFingerprintBlake3 then .ok true
    else
      .error ("KEY_MISMATCH: Fingerprint '" ++ cert.operator.keyFingerprintBlake3
        ++ "' does not match trusted anchor '" ++ fp ++ "'")
  | none, some keys =>
    if keys.any fun k => trim k = cert.operator.publicKeyEd25519 then .ok true
    else .error "KEY_MISMATCH: Public key not in trusted keys list"
  | none, none => .ok false

/-- The checks of the driver in its order: whether the key is anchored, or why the file is
refused. -/
def checkRawCertFile (rawBytes : Bytes) (trustedFingerprint : Option String)
    (trustedKeysList : Option (List String)) : Except String Bool := do
  (strictJsonScan cp rawBytes).mapError ("PARSE_STRICT_ERROR: " ++ ·)
  let cert ← (cp.fromSlice rawBytes).mapError ("DESERIALIZE_ERROR: " ++ ·)
  cert.checkSchema
  cert.checkDigitalSignature cp
  cert.checkCoherence cp
  cert.evaluateAnchor trustedFingerprint trustedKeysList

def verifyRawCertFile (rawBytes : Bytes) (trustedFingerprint : Option String)
    (trustedKeysList : Option (List String)) : CertVerificationResult :=
  let fileBlake3 := hexEncode (cp.blake3 rawBytes).bytes
  match checkRawCertFile cp rawBytes trustedFingerprint trustedKeysList with
  | .error detail =>
    { isValid := false
      isAuthenticated := false
      mode := "invalid"
      fileBlake3 := fileBlake3
      errorDetail := some detail }
  | .ok isAuthenticated =>
    { isValid := true
      isAuthenticated := isAuthenticated
      mode := if isAuthenticated then "authenticated" else "integrity-only"
      fileBlake3 := fileBlake3
      errorDetail := none }

/-! ## What the driver asks of a file -/

/-- The anchor admits a key: it is the trusted one, among the trusted ones, or no anchor is
given. -/
def AnchorAdmits (cert : SanitizationCertificate) (trustedFingerprint : Option String)
    (trustedKeysList : Option (List String)) : Prop :=
  match trustedFingerprint, trustedKeysList with
  | some fp, _ => fp = cert.operator.keyFingerprintBlake3
  | none, some keys => ∃ k ∈ keys, trim k = cert.operator.publicKeyEd25519
  | none, none => True

/-- **Everything the driver looks at**, for the certificate a file parses to. -/
structure PassesFileChecks (rawBytes : Bytes) (trustedFingerprint : Option String)
    (trustedKeysList : Option (List String)) (cert : SanitizationCertificate) : Prop where
  scanned : strictJsonScan cp rawBytes = .ok ()
  parsed : cp.fromSlice rawBytes = .ok cert
  schema : cert.schema = "diskcleaner-cert/1"
  signed : cert.ClassicalLeg cp
  coherent : ∃ key : PublicKey, hexDecode cert.operator.publicKeyEd25519 = some key.bytes
    ∧ hexEncode (cp.blake3 key.bytes).bytes = cert.operator.keyFingerprintBlake3
  anchored : cert.AnchorAdmits trustedFingerprint trustedKeysList

theorem mapError_eq_ok {α : Type} {x : Except String α} {f : String → String} {a : α} :
    x.mapError f = .ok a ↔ x = .ok a := by
  cases x <;> simp [Except.mapError]

theorem checkSchema_eq_ok (cert : SanitizationCertificate) (u : Unit) :
    cert.checkSchema = .ok u ↔ cert.schema = "diskcleaner-cert/1" := by
  unfold checkSchema
  rw [ite_error_eq_ok]
  simp

theorem checkDigitalSignature_eq_ok (cert : SanitizationCertificate) (u : Unit) :
    cert.checkDigitalSignature cp = .ok u ↔ cert.ClassicalLeg cp := by
  unfold checkDigitalSignature
  rw [ite_ok_eq_ok, verifySignature_eq_true_iff]
  simp

theorem checkCoherence_eq_ok (cert : SanitizationCertificate) (u : Unit) :
    cert.checkCoherence cp = .ok u
      ↔ ∃ key : PublicKey, hexDecode cert.operator.publicKeyEd25519 = some key.bytes
        ∧ hexEncode (cp.blake3 key.bytes).bytes = cert.operator.keyFingerprintBlake3 := by
  unfold checkCoherence
  cases hkey : (hexDecode cert.operator.publicKeyEd25519).bind (Block.ofBytes? 32) with
  | none =>
    constructor
    · intro h
      simp at h
    · rintro ⟨key, hdecode, -⟩
      simp [hdecode] at hkey
  | some pubkey =>
    obtain ⟨bytes, hdecode, hblock⟩ := Option.bind_eq_some_iff.mp hkey
    have hbytes : bytes = pubkey.bytes := (Block.ofBytes?_eq_some.mp hblock).symm
    simp only
    rw [ite_error_eq_ok]
    constructor
    · rintro ⟨hfp, -⟩
      exact ⟨pubkey, by rw [hdecode, hbytes], not_not.mp hfp⟩
    · rintro ⟨key, hdecode', hfp⟩
      have hkeys : key = pubkey := by
        apply Block.ext
        rw [← hbytes]
        exact Option.some.inj (hdecode'.symm.trans hdecode)
      exact ⟨not_not.mpr (hkeys ▸ hfp), rfl⟩

theorem evaluateAnchor_isOk (cert : SanitizationCertificate)
    (trustedFingerprint : Option String) (trustedKeysList : Option (List String)) :
    (∃ auth, cert.evaluateAnchor trustedFingerprint trustedKeysList = .ok auth)
      ↔ cert.AnchorAdmits trustedFingerprint trustedKeysList := by
  unfold evaluateAnchor AnchorAdmits
  cases trustedFingerprint with
  | some fp => simp [ite_ok_eq_ok]
  | none =>
    cases trustedKeysList with
    | some keys => simp [ite_ok_eq_ok]
    | none => simp

/-- **Spec of the driver**: a file is valid exactly when some certificate it parses to passes
the checks. -/
theorem verifyRawCertFile_isValid (rawBytes : Bytes) (trustedFingerprint : Option String)
    (trustedKeysList : Option (List String)) :
    (verifyRawCertFile cp rawBytes trustedFingerprint trustedKeysList).isValid = true
      ↔ ∃ cert, PassesFileChecks cp rawBytes trustedFingerprint trustedKeysList cert := by
  have hvalid : (verifyRawCertFile cp rawBytes trustedFingerprint trustedKeysList).isValid = true
      ↔ ∃ auth, checkRawCertFile cp rawBytes trustedFingerprint trustedKeysList = .ok auth := by
    unfold verifyRawCertFile
    cases checkRawCertFile cp rawBytes trustedFingerprint trustedKeysList <;> simp
  rw [hvalid]
  unfold checkRawCertFile
  simp only [bind_eq_ok, mapError_eq_ok, checkSchema_eq_ok, checkDigitalSignature_eq_ok,
    checkCoherence_eq_ok]
  constructor
  · rintro ⟨auth, u, hscan, cert, hparse, -, hschema, -, hsigned, -, hcoherent, hanchor⟩
    exact ⟨cert, hscan, hparse, hschema, hsigned, hcoherent,
      (evaluateAnchor_isOk cert _ _).mp ⟨auth, hanchor⟩⟩
  · rintro ⟨cert, hscan, hparse, hschema, hsigned, hcoherent, hanchor⟩
    obtain ⟨auth, hauth⟩ := (evaluateAnchor_isOk cert _ _).mpr hanchor
    exact ⟨auth, (), hscan, cert, hparse, (), hschema, (), hsigned, (), hcoherent, hauth⟩

/-! ## The hybrid policy -/

/-- What the hybrid policy asks of the driver: a valid file is a fully authentic certificate. -/
def StrictConjunction (rawBytes : Bytes) (trustedFingerprint : Option String)
    (trustedKeysList : Option (List String)) : Prop :=
  (verifyRawCertFile cp rawBytes trustedFingerprint trustedKeysList).isValid = true →
    ∃ cert status, cp.fromSlice rawBytes = .ok cert
      ∧ cert.verifySignatureHybrid cp = .ok status ∧ status.fullyAuthentic = true

/-- **Where the driver is blind**: the certificate passes every check it makes and carries a
post-quantum block whose leg does not verify. -/
def IgnoresPostQuantum (rawBytes : Bytes) (trustedFingerprint : Option String)
    (trustedKeysList : Option (List String)) : Prop :=
  ∃ cert block, PassesFileChecks cp rawBytes trustedFingerprint trustedKeysList cert
    ∧ cert.postQuantum = some block ∧ ¬ cert.PostQuantumLeg cp block

/-- A file the driver is blind to breaks the policy. -/
theorem not_strictConjunction_of_ignores {rawBytes : Bytes} {trustedFingerprint : Option String}
    {trustedKeysList : Option (List String)}
    (h : IgnoresPostQuantum cp rawBytes trustedFingerprint trustedKeysList) :
    ¬ StrictConjunction cp rawBytes trustedFingerprint trustedKeysList := by
  obtain ⟨cert, block, hpass, hblock, hleg⟩ := h
  intro hpolicy
  obtain ⟨cert', status, hparse, hhybrid, hauthentic⟩ :=
    hpolicy ((verifyRawCertFile_isValid cp _ _ _).mpr ⟨cert, hpass⟩)
  -- The parser is a function, so the policy speaks of the certificate the driver saw.
  have hcert : cert' = cert := Except.ok.inj (hparse.symm.trans hpass.parsed)
  have hlegs := (fullyAuthentic_iff cp cert).mp ⟨status, hcert ▸ hhybrid, hauthentic⟩
  exact hleg (hlegs.2 block hblock)

/-- **The driver follows the hybrid policy exactly where it is not blind**: on files without
a post-quantum block, on files whose block verifies, and on files another check refuses. -/
theorem strictConjunction_iff (rawBytes : Bytes) (trustedFingerprint : Option String)
    (trustedKeysList : Option (List String)) :
    StrictConjunction cp rawBytes trustedFingerprint trustedKeysList
      ↔ ¬ IgnoresPostQuantum cp rawBytes trustedFingerprint trustedKeysList := by
  constructor
  · intro hpolicy hignores
    exact not_strictConjunction_of_ignores cp hignores hpolicy
  · intro hseen hvalid
    obtain ⟨cert, hpass⟩ := (verifyRawCertFile_isValid cp _ _ _).mp hvalid
    have hleg : ∀ block, cert.postQuantum = some block → cert.PostQuantumLeg cp block := by
      intro block hblock
      by_contra hleg
      exact hseen ⟨cert, block, hpass, hblock, hleg⟩
    obtain ⟨status, hhybrid, hauthentic⟩ :=
      (fullyAuthentic_iff cp cert).mpr ⟨hpass.signed, hleg⟩
    exact ⟨cert, status, hpass.parsed, hhybrid, hauthentic⟩

/-! ### A block without a signature

A certificate whose Ed25519 leg holds and whose post-quantum block is empty: its members in
canonical order, then the two signature members. -/

def quoted (s : String) : List Char := '"' :: s.toList ++ ['"']

def commaText : List (List Char) → List Char
  | [] => []
  | [v] => v
  | v :: vs => v ++ ',' :: commaText vs

def objectText (members : List (String × List Char)) : List Char :=
  '{' :: commaText (members.map fun m => quoted m.1 ++ ':' :: m.2) ++ ['}']

def certStable : StableIdentity where
  model := none
  serial := some "SN-UNIT"
  wwn := none
  sizeBytes := 1073741824
  bus := .nvme
  dmName := none
  dmUuid := none

def certPayload : UnsignedCertificate where
  schema := "diskcleaner-cert/1"
  tool := ⟨"dc-core", "0.13.0", "b", "x86_64"⟩
  verificationSchemeDoc := "doc"
  plan :=
    { planSchema := "dc-plan/1"
      target := certStable
      mechanism := .logicalOverwrite [⟨.zero, "zero"⟩]
      verification := .full
      windowBytes := 2097152
      fastPath := .preferWriteZeroes
      strategyLadder := none
      legacyNote := none }
  planHash := "p"
  device :=
    { stable := certStable
      kernel := ⟨259, 0⟩
      kernelName := "nvme0n1"
      devPath := "/dev/nvme0n1"
      logicalBlockSize := 512
      physicalBlockSize := 4096 }
  execution := ⟨"t0", "t1", 1, [], [], []⟩
  verification := ⟨.full, 512, 0, [], "s", none, none⟩
  journal := ⟨"j", "h", 9, 0, "u", true⟩
  operator := ⟨hexEncode officerFingerprint.bytes, hexEncode officerKey.bytes⟩
  evidence := Evidence.empty

def certSignatureText : String :=
  "JDhMW5eFqrcv2T+E0KwSpw6V1o1/cRIMoif7XSGOb776UzAxCfr8IU17CfsNXF6d/ocgsGwu1fkwRiWvCxfACg=="

def certSignature : Signature :=
  (Block.ofNat 32 0x24384c5b9785aab72fd93f84d0ac12a70e95d68d7f71120ca227fb5d218e6fbe).append
    (Block.ofNat 32 0xfa53303109fafc214d7b09fb0d5c5e9dfe8720b06c2ed5f9304625af0b17c00a)

def hollowBlock : PostQuantumSignature := ⟨"ML-DSA-44", "", ""⟩

def hollowCert : SanitizationCertificate where
  toUnsignedCertificate := certPayload
  signature := some ⟨"Ed25519", certSignatureText⟩
  postQuantum := some hollowBlock

def stableText : List Char :=
  objectText
    [("bus", quoted "nvme"), ("dm_name", "null".toList), ("dm_uuid", "null".toList),
     ("model", "null".toList), ("serial", quoted "SN-UNIT"),
     ("size_bytes", "1073741824".toList), ("wwn", "null".toList)]

/-- The payload's members, in canonical order. -/
def certMembers : List (String × List Char) :=
  [("device", objectText
      [("dev_path", quoted "/dev/nvme0n1"),
       ("kernel", objectText [("major", "259".toList), ("minor", "0".toList)]),
       ("kernel_name", quoted "nvme0n1"), ("logical_block_size", "512".toList),
       ("physical_block_size", "4096".toList), ("stable", stableText)]),
   ("execution", objectText
      [("duration_mono_ms", "1".toList), ("failures", "[]".toList),
       ("finished_utc", quoted "t1"), ("interruptions", "[]".toList),
       ("passes", "[]".toList), ("started_utc", quoted "t0")]),
   ("journal", objectText
      [("chain_head", quoted "h"), ("discarded_tail_bytes", "0".toList), ("path", quoted "j"),
       ("record_count", "9".toList), ("sealed", "true".toList), ("uuid", quoted "u")]),
   ("operator", objectText
      [("key_fingerprint_blake3", quoted (hexEncode officerFingerprint.bytes)),
       ("public_key_ed25519", quoted (hexEncode officerKey.bytes))]),
   ("plan", objectText
      [("fast_path", quoted "prefer_write_zeroes"), ("legacy_note", "null".toList),
       ("mechanism", objectText
          [("passes", '[' :: objectText
              [("label", quoted "zero"), ("pattern", objectText [("type", quoted "zero")])]
              ++ [']']),
           ("type", quoted "logical_overwrite")]),
       ("plan_schema", quoted "dc-plan/1"), ("target", stableText),
       ("verification", quoted "full"), ("window_bytes", "2097152".toList)]),
   ("plan_hash", quoted "p"),
   ("schema", quoted "diskcleaner-cert/1"),
   ("tool", objectText
      [("build_hash", quoted "b"), ("name", quoted "dc-core"),
       ("target_triple", quoted "x86_64"), ("version", quoted "0.13.0")]),
   ("verification", objectText
      [("entropy", "null".toList), ("first_mismatch_lbas", "[]".toList),
       ("level", quoted "full"), ("mismatch_count", "0".toList),
       ("stream_hash_blake3", quoted "s"), ("stream_hash_sha256", "null".toList),
       ("windows_checked", "512".toList)]),
   ("verification_scheme_doc", quoted "doc")]

def certCanonical : Bytes := utf8 (String.ofList (objectText certMembers))

def hollowText : List Char :=
  objectText (certMembers ++
    [("post_quantum", objectText
        [("alg", quoted "ML-DSA-44"), ("public_key", quoted ""), ("value", quoted "")]),
     ("signature", objectText
        [("alg", quoted "Ed25519"), ("value", quoted certSignatureText)])])

def hollowFile : Bytes := utf8 (String.ofList hollowText)

/-- Primitives that answer for this file: its parse, its canonical bytes, the signature over
them, and the base64 texts it carries. -/
def hollowPrimitives : CertPrimitives where
  toCrypto :=
    { tableCrypto officerKey [(officerKey.bytes, officerFingerprint)] [] with
      ed25519Verify := fun pk msg sig =>
        pk = officerKey ∧ msg = certCanonical ∧ sig = certSignature }
  base64Encode bs := if bs = certSignature.bytes then certSignatureText else ""
  base64Decode s :=
    if s = certSignatureText then .ok certSignature.bytes
    else if s = "" then .ok []
    else .error "Invalid byte"
  fromSlice bs := if bs = hollowFile then .ok hollowCert else .error "expected value"
  jcs payload := if payload = certPayload then .ok certCanonical else .error "recursion limit"
  mlDsaVerify _ _ _ := false
  hexErrorText _ := ""
  publicKeyErrorText _ := ""
  utf8ErrorText _ := ""

theorem hollowText_scans : scanLoop hollowText.length ⟨0, []⟩ hollowText = .ok () := by
  decide +kernel

/-- The file opens with a brace. -/
theorem hollowFile_head : ∃ rest, hollowFile = 0x7B :: rest := by
  refine ⟨(hollowText.tail).flatMap String.utf8EncodeChar, ?_⟩
  unfold hollowFile utf8
  rw [String.toList_ofList]
  rfl

theorem hollowCert_classical : hollowCert.ClassicalLeg hollowPrimitives := by
  refine ⟨⟨"Ed25519", certSignatureText⟩, certCanonical, rfl, rfl, ?_, ?_⟩
  · simp [canonicalUnsignedBytes, unsignedPayload, hollowCert, hollowPrimitives, Except.mapError]
  · simp [verifyCanonicalSignature, hollowCert, certPayload, hollowPrimitives, tableCrypto]

theorem hollowBlock_fails (canonicalBytes : Bytes) :
    hollowBlock.verify hollowPrimitives canonicalBytes
      = .error (.certSigning "PQ public key must be exactly 1312 bytes, got 0") := by
  have hempty : ("" : String) ≠ certSignatureText := by simp [certSignatureText]
  have hdecode : hollowPrimitives.base64Decode "" = .ok [] := by
    simp [hollowPrimitives, hempty]
  have hlength : Block.ofBytes? 1312 ([] : Bytes) = none := by simp [Block.ofBytes?]
  unfold PostQuantumSignature.verify
  rw [show hollowBlock.publicKey = "" from rfl, show hollowBlock.value = "" from rfl, hdecode]
  simp only [hlength]
  rfl

theorem hollowFile_ignored : IgnoresPostQuantum hollowPrimitives hollowFile none none := by
  refine ⟨hollowCert, hollowBlock, ?_, rfl, ?_⟩
  · have hscan : strictJsonScan hollowPrimitives hollowFile = .ok () := by
      obtain ⟨rest, hrest⟩ := hollowFile_head
      have hne : hollowFile ≠ [] := by simp [hrest]
      have hbom : hollowFile.take 3 ≠ [0xEF, 0xBB, 0xBF] := by simp [hrest]
      unfold strictJsonScan
      rw [if_neg hne, if_neg hbom, hollowFile, fromUtf8_utf8]
      show scanLoop (String.ofList hollowText).toList.length _ (String.ofList hollowText).toList = _
      rw [String.toList_ofList]
      exact hollowText_scans
    exact
      { scanned := hscan
        parsed := by simp [hollowPrimitives]
        schema := rfl
        signed := hollowCert_classical
        coherent := ⟨officerKey, hexDecode_hexEncode _, by
          simp [hollowPrimitives, tableCrypto, hollowCert, certPayload]⟩
        anchored := trivial }
  · rintro ⟨canonicalBytes, -, hverify⟩
    rw [hollowBlock_fails] at hverify
    simp at hverify

/-- **A hollow post-quantum block is accepted**: the driver reports the file valid, while the
hybrid check of the same certificate refuses it. -/
theorem hollow_block_accepted :
    (verifyRawCertFile hollowPrimitives hollowFile none none).isValid = true
      ∧ ¬ StrictConjunction hollowPrimitives hollowFile none none := by
  obtain ⟨cert, _, hpass, -⟩ := hollowFile_ignored
  exact ⟨(verifyRawCertFile_isValid hollowPrimitives _ _ _).mpr ⟨cert, hpass⟩,
    not_strictConjunction_of_ignores hollowPrimitives hollowFile_ignored⟩

end SanitizationCertificate

end DiscCleaner
