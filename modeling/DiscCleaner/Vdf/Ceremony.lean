import DiscCleaner.Vdf.Cios
import DiscCleaner.Vdf.Primality
import DiscCleaner.Vdf.Weave

/-!
# DiscCleaner — the modulus ceremony (`ceremony.rs`)

A modulus is the product of two safe primes found in a keystream. Its text is checked where it is
imported, where it becomes a context and where a timeline is audited. The keystream cipher is a
parameter; the ceremony's metadata, which no check reads, is left out.

* **`validatorsAgree_iff`** — the three checks agree exactly off the texts whose byte length and
  bit length disagree about 512 bits.
* **`modulus_validated_iff`** — a modulus of the ceremony passes all of them and is the product of
  two safe primes exactly if it is wider than 512 bits and no candidate deceived the test.
-/

namespace DiscCleaner.Vdf

open ByteLib BigUint WordLib PseudoprimeLib

/-! ## The import check -/

/-- The check of an imported modulus, on the bytes of its text. -/
def validateModulusHex (nHex : String) : Except String Unit :=
  match hexDecodeChars (trimStart0x nHex.toList) with
  | none => .error "hex"
  | some v =>
    if v.length < 65 ∨ 256 < v.length then
      .error ("modulus width " ++ toString v.length ++ " bytes out of range (65..256 bytes)")
    else
      match v.getLast? with
      | some b => if b &&& 1 == 1 then .ok () else .error "modulus must be odd"
      | none => .error "modulus must be odd"

/-! ## The keystream -/

/-- The keystream of a cipher for a key and a nonce. -/
abbrev Keystream := Bytes → Bytes → Nat → UInt8

/-- The generator of a seed: its words, in order. Words never straddle the 64-byte refills. -/
def rngWords (cipher : Keystream) (seed : Bytes) (k : Nat) : Nat :=
  let key := (List.range 32).map fun i => seed.getD i 0
  let nonce : Bytes := List.replicate 11 0 ++ [1]
  (List.range 8).foldr (fun i v => (cipher key nonce (8 * k + i)).toNat + 256 * v) 0

/-! ## Safe primes -/

/-- The word at `i` of a candidate of `qBits` bits: cut to the width, its two highest bits and its
lowest set. -/
def candidateWord (qBits : Nat) (words : Nat → Nat) (i : Nat) : Nat :=
  let topLimb := qBits / 64
  let topBits := qBits % 64
  let w :=
    if topLimb < i then 0
    else if i = topLimb then
      if 2 ≤ topBits then words i % 2 ^ topBits ||| (2 ^ (topBits - 1) ||| 2 ^ (topBits - 2))
      else if topBits = 1 then words i ||| 1
      else words i
    else words i
  if i = 0 then w ||| 1 else w

def primeCandidate (L qBits : Nat) (words : Nat → Nat) : BigUint L :=
  ofWords L ((List.range L).map (candidateWord qBits words))

/-- The safe prime of a candidate that passes every test. -/
def safePrimeOf {L : Nat} [NeZero L] (q : BigUint L) : Option (BigUint L) :=
  if !passesSmallPrimes q then none
  else
    match (q.checkedAdd q).bind fun d => d.checkedAdd one with
    | none => none
    | some p =>
      if !passesSmallPrimes p then none
      else if !isProbablePrime q [] then none
      else if !isProbablePrime p [] then none
      else some p

/-- The search from candidate `i` of the keystream on: the prime, and the candidate after it. -/
def generateSafePrime (L bits : Nat) [NeZero L] (words : Nat → Nat) : Nat → Nat →
    Option (BigUint L × Nat)
  | 0, _ => none
  | budget + 1, i =>
    match safePrimeOf (primeCandidate L (bits - 1) fun j => words (i * L + j)) with
    | some p => some (p, i + 1)
    | none => generateSafePrime L bits words budget (i + 1)

def bothSafePrimes (H halfBits : Nat) [NeZero H] (words : Nat → Nat) :
    Except String (BigUint H × BigUint H) :=
  match generateSafePrime H halfBits words 200000 0 with
  | none => .error "safe-prime search budget exhausted (p)"
  | some (p, i) =>
    match generateSafePrime H halfBits words 200000 i with
    | none => .error "safe-prime search budget exhausted (q)"
    | some (q, _) => .ok (p, q)

def finishCeremony {H : Nat} (W : Nat) (p q : BigUint H) (bits : Nat) : Except String String :=
  let n : BigUint W := wrap W (p.val * q.val)
  if n.bits % 2 ^ 16 ≠ bits then
    .error ("internal: modulus width " ++ toString n.bits ++ " != " ++ toString bits)
  else .ok n.toHex

/-- The ceremony of one width. -/
def ceremony (H bits : Nat) [NeZero H] (words : Nat → Nat) : Except String String :=
  match bothSafePrimes H (bits / 2) words with
  | .error e => .error e
  | .ok (p, q) => finishCeremony (2 * H) p q bits

def seedOf (osEntropy : Except String Bytes) : Option Bytes → Except String Bytes
  | some s => .ok s
  | none => osEntropy

/-! The words of half a modulus, for each width. -/

local instance neZeroFour : NeZero 4 := ⟨by decide⟩

local instance neZeroEight : NeZero 8 := ⟨by decide⟩

local instance neZeroSixteen : NeZero 16 := ⟨by decide⟩

/-- A fresh modulus from a seed, or from the system's entropy where none is given. -/
def generateModulus (cipher : Keystream) (osEntropy : Except String Bytes) (bits : Nat)
    (seed : Option Bytes) : Except String String :=
  match seedOf osEntropy seed with
  | .error e => .error ("entropy: " ++ e)
  | .ok s =>
    let words := rngWords cipher s
    match bits with
    | 512 => ceremony 4 512 words
    | 1024 => ceremony 8 1024 words
    | 2048 => ceremony 16 2048 words
    | _ => .error ("unsupported modulus width " ++ toString bits ++ " (use 512, 1024 or 2048)")

/-! ## The three checks -/

/-- The context accepts the text as its modulus. -/
def ContextAccepts (nHex : String) : Prop :=
  ∀ params : VdfParams, params.modulusN = nHex → ∃ ctx, params.context = .ok ctx

/-- The audit of no evidence stops at the text. -/
def AuditAccepts (nHex : String) : Prop :=
  ∀ ev : TimelineEvidence, ev.modulusN = nHex →
    ev.group ≠ .error "modulus N missing/malformed/out of range" ∧
      ∀ e, ev.group ≠ .error ("montgomery init: " ++ e)

/-- The three checks accept the text together or not at all. -/
def ValidatorsAgree (nHex : String) : Prop :=
  (validateModulusHex nHex = .ok () ↔ ContextAccepts nHex) ∧
    (validateModulusHex nHex = .ok () ↔ AuditAccepts nHex)

/-- An odd text of at most 256 bytes that is 512 bits wide in 64 bytes, or in more bytes narrower
than 512 bits. -/
def Separated (nHex : String) : Prop :=
  ∃ v, hexDecodeChars (trimStart0x nHex.toList) = some v ∧ v.length ≤ 256 ∧ ofBytes v % 2 = 1 ∧
    (v.length = 64 ∧ 2 ^ 511 ≤ ofBytes v ∨ 65 ≤ v.length ∧ ofBytes v < 2 ^ 511)

/-- What the context asks of the bytes. -/
def InRange (nHex : String) : Prop :=
  ∃ v, hexDecodeChars (trimStart0x nHex.toList) = some v ∧ v.length ≤ 256 ∧ ofBytes v % 2 = 1 ∧
    2 ^ 511 ≤ ofBytes v

theorem ofBytes_lt_two_pow {v : Bytes} {k : Nat} (h : 8 * v.length ≤ k) : ofBytes v < 2 ^ k := by
  have hbase : 256 ^ v.length = 2 ^ (8 * v.length) := (Nat.pow_mul 2 8 v.length).symm
  exact (ofBytes_lt v).trans_le (hbase.le.trans (Nat.pow_le_pow_right (by decide) h))

theorem getLast?_odd_iff (v : Bytes) :
    (∃ b, v.getLast? = some b ∧ (b &&& 1 == 1) = true) ↔ ofBytes v % 2 = 1 := by
  cases v using List.reverseRecOn with
  | nil => simp [ofBytes]
  | append_singleton init b =>
    have hbit : (b &&& 1 == 1) = true ↔ b.toNat % 2 = 1 := by
      rw [beq_iff_eq, ← UInt8.toNat_inj]
      simp [Nat.and_one_is_mod]
    have hlast : ofBytes [b] = b.toNat := by simp [ofBytes]
    rw [ofBytes_append, hlast, List.getLast?_append_of_ne_nil _ (List.cons_ne_nil _ _)]
    simp only [List.getLast?_singleton, Option.some.injEq, exists_eq_left', hbit,
      List.length_singleton, pow_one]
    omega

theorem validateModulusHex_iff (nHex : String) : validateModulusHex nHex = .ok () ↔
    ∃ v, hexDecodeChars (trimStart0x nHex.toList) = some v ∧ 65 ≤ v.length ∧ v.length ≤ 256 ∧
      ofBytes v % 2 = 1 := by
  unfold validateModulusHex
  cases hdec : hexDecodeChars (trimStart0x nHex.toList) with
  | none => simp
  | some v =>
    simp only [Option.some.injEq, exists_eq_left', ← getLast?_odd_iff]
    split
    · next h => exact iff_of_false (by simp) (by omega)
    · next h =>
      cases hlast : v.getLast? with
      | none => simp
      | some b =>
        simp only [Option.some.injEq, exists_eq_left']
        split
        · next hb => exact iff_of_true rfl ⟨by omega, by omega, hb⟩
        · next hb => exact iff_of_false (by simp) fun hall => hb hall.2.2

/-- A text is read at 32 limbs exactly when it decodes to at most 256 bytes. -/
theorem fromHex_eq_ok {nHex : String} {n : Bn} : fromHex nHex = .ok n ↔
    ∃ v, hexDecodeChars (trimStart0x nHex.toList) = some v ∧ v.length ≤ 256 ∧ n.val = ofBytes v := by
  unfold fromHex
  cases hdec : hexDecodeChars (trimStart0x nHex.toList) with
  | none => simp
  | some v =>
    simp only [Option.some.injEq, exists_eq_left']
    split
    · next h => exact iff_of_false (by simp) (by omega)
    · next h =>
      have hval : (fromBytesBe v : Bn).val = ofBytes v := wrap_of_lt (ofBytes_lt_two_pow (by omega))
      rw [Except.ok.injEq, BigUint.ext_iff, hval]
      exact ⟨fun h => ⟨by omega, h.symm⟩, fun h => h.2.symm⟩

theorem inRange_iff {nHex : String} : InRange nHex ↔
    ∃ n : Bn, fromHex nHex = .ok n ∧ n.isOdd = true ∧ 512 ≤ n.bits ∧ n.bits ≤ 2048 := by
  have hwidth : ∀ n : Bn, (512 ≤ n.bits ∧ n.bits ≤ 2048) ↔ 2 ^ 511 ≤ n.val := by
    intro n
    have hle := n.bits_le
    refine ⟨fun h => le_of_bits (by omega), fun h => ⟨?_, hle⟩⟩
    by_contra hlt
    exact absurd (lt_of_bits (a := n) 511 (by omega)) (Nat.not_lt.mpr h)
  constructor
  · intro ⟨v, hdec, hlen, hodd, hge⟩
    have hlt : ofBytes v < 2 ^ (64 * 32) := ofBytes_lt_two_pow (by omega)
    refine ⟨⟨ofBytes v, hlt⟩, fromHex_eq_ok.mpr ⟨v, hdec, hlen, rfl⟩, ?_, (hwidth _).mpr hge⟩
    exact (isOdd_iff _).mpr hodd
  · intro ⟨n, hread, hodd, hbits⟩
    obtain ⟨v, hdec, hlen, hval⟩ := fromHex_eq_ok.mp hread
    refine ⟨v, hdec, hlen, ?_, ?_⟩
    · rw [← hval]
      exact (isOdd_iff n).mp hodd
    · rw [← hval]
      exact (hwidth n).mp hbits

theorem contextAccepts_iff (nHex : String) : ContextAccepts nHex ↔ InRange nHex := by
  rw [inRange_iff]
  constructor
  · intro h
    obtain ⟨ctx, hctx⟩ := h ⟨nHex, 0, none⟩ rfl
    unfold VdfParams.context at hctx
    split at hctx
    · exact absurd hctx (by simp)
    · next n hread =>
      split at hctx
      · exact absurd hctx (by simp)
      · next hbits =>
        split at hctx
        · exact absurd hctx (by simp)
        · next hodd => exact ⟨n, hread, by simpa using hodd, not_not.mp hbits⟩
  · intro h params hparams
    obtain ⟨n, hread, hodd, hbits⟩ := h
    obtain ⟨ctx, hnew, -⟩ := Montgomery.new_ok ((isOdd_iff n).mp hodd)
    refine ⟨ctx, ?_⟩
    unfold VdfParams.context
    rw [hparams, hread]
    simp only
    rw [if_neg (not_not.mpr hbits), hodd, hnew]
    rfl

theorem auditAccepts_iff (nHex : String) : AuditAccepts nHex ↔ InRange nHex := by
  rw [inRange_iff]
  constructor
  · intro h
    obtain ⟨hrange, -⟩ := h ⟨nHex, "", 0, none, [], 0⟩ rfl
    unfold TimelineEvidence.group at hrange
    split at hrange
    · exact absurd rfl hrange
    · next n hread =>
      split at hrange
      · next hok => exact ⟨n, hread, hok⟩
      · exact absurd rfl hrange
  · intro h ev hev
    obtain ⟨n, hread, hodd, hbits⟩ := h
    obtain ⟨ctx, hnew, -⟩ := Montgomery.new_ok ((isOdd_iff n).mp hodd)
    unfold TimelineEvidence.group
    rw [hev, hread]
    simp only
    rw [if_pos ⟨hodd, hbits⟩, hnew]
    simp only
    split
    · exact ⟨fun h => absurd (Except.error.inj h) (by decide), fun e h => absurd (Except.error.inj h) (by
        intro heq
        have hhead := congrArg (fun t : String => t.toList.head?) heq
        simp at hhead)⟩
    · split
      · simp
      · exact ⟨fun h => absurd (Except.error.inj h) (by decide), fun e h => absurd (Except.error.inj h) (by
          intro heq
          have hhead := congrArg (fun t : String => t.toList.head?) heq
          simp at hhead)⟩

theorem agree_of_short {len value bound : Nat} {odd : Prop} (hshort : len ≤ 63 → value < bound) :
    ((65 ≤ len ∧ len ≤ 256 ∧ odd) ↔ (len ≤ 256 ∧ odd ∧ bound ≤ value)) ↔
      ¬(len ≤ 256 ∧ odd ∧ (len = 64 ∧ bound ≤ value ∨ 65 ≤ len ∧ value < bound)) := by
  by_cases hodd : odd
  · simp only [hodd, true_and, and_true]
    omega
  · simp [hodd]

/-- **The checks agree exactly off the separated texts.** -/
theorem validatorsAgree_iff (nHex : String) : ValidatorsAgree nHex ↔ ¬ Separated nHex := by
  rw [ValidatorsAgree, contextAccepts_iff, auditAccepts_iff, and_self, validateModulusHex_iff]
  unfold InRange Separated
  cases hdec : hexDecodeChars (trimStart0x nHex.toList) with
  | none => simp
  | some v =>
    simp only [Option.some.injEq, exists_eq_left']
    have hshort : v.length ≤ 63 → ofBytes v < 2 ^ 511 := fun hlen => ofBytes_lt_two_pow (by omega)
    exact agree_of_short hshort

/-! ## The ceremony -/

/-- A prime `2 q + 1` with `q` a prime. -/
def SafePrime (p : Nat) : Prop := p.Prime ∧ p % 2 = 1 ∧ (p / 2).Prime

/-- What the ceremony promises of a modulus of `bits` bits. -/
structure ModulusSound (bits : Nat) (nHex : String) : Prop where
  imported : validateModulusHex nHex = .ok ()
  context : ContextAccepts nHex
  audited : AuditAccepts nHex
  product : ∃ (n : Bn) (p q : Nat), fromHex nHex = .ok n ∧ n.val = p * q ∧ SafePrime p ∧
    SafePrime q ∧ (2 ^ (bits / 2 - 1) ≤ p ∧ p < 2 ^ (bits / 2)) ∧
    (2 ^ (bits / 2 - 1) ≤ q ∧ q < 2 ^ (bits / 2))

/-- Does candidate `i` of the keystream pass the tests? -/
def passesAt (H halfBits : Nat) [NeZero H] (words : Nat → Nat) (i : Nat) : Bool :=
  (safePrimeOf (primeCandidate H (halfBits - 1) fun j => words (i * H + j))).isSome

/-- No candidate that passes with at most one before it, and no double of one, deceives the test. -/
def Undeceived (H halfBits : Nat) [NeZero H] (words : Nat → Nat) : Prop :=
  ∀ i, passesAt H halfBits words i = true →
    (∀ a b, a < b → b < i → passesAt H halfBits words a = true → passesAt H halfBits words b = false) →
    let q := (primeCandidate H (halfBits - 1) fun j => words (i * H + j)).val
    ¬ StrongPseudoprime q millerRabinBases ∧ ¬ StrongPseudoprime (2 * q + 1) millerRabinBases

/-- `Undeceived` at the width of a ceremony. -/
def NoDeception (bits : Nat) (words : Nat → Nat) : Prop :=
  match bits with
  | 512 => Undeceived 4 256 words
  | 1024 => Undeceived 8 512 words
  | 2048 => Undeceived 16 1024 words
  | _ => True

/-! ### Candidates -/

section

variable {K : Nat} (words : Nat → Nat)

/-- A candidate of one bit less than its words, by its value. -/
theorem primeCandidate_val (hK : 0 < K) (hw : ∀ i, words i < 2 ^ 64) :
    let q := (primeCandidate (K + 1) (64 * (K + 1) - 1) words).val
    q % 2 = 1 ∧ 3 * 2 ^ (64 * (K + 1) - 3) ≤ q ∧ q < 2 ^ (64 * (K + 1) - 1) := by
  have htop : (64 * (K + 1) - 1) / 64 = K := by omega
  have hbits : (64 * (K + 1) - 1) % 64 = 63 := by omega
  set g := candidateWord (64 * (K + 1) - 1) words with hg
  have hgK : g K = words K % 2 ^ 63 ||| (2 ^ 62 ||| 2 ^ 61) := by
    rw [hg]
    simp [candidateWord, htop, hbits, hK.ne']
  have hglow : ∀ i, i < K → g i = if i = 0 then words i ||| 1 else words i := by
    intro i hi
    rw [hg]
    simp [candidateWord, htop, Nat.not_lt.mpr hi.le, hi.ne]
  have hgK_lt : g K < 2 ^ 63 := by
    rw [hgK]
    exact Nat.or_lt_two_pow (Nat.mod_lt _ (by decide)) (by decide)
  have hgK_ge : 3 * 2 ^ 61 ≤ g K := by
    rw [hgK]
    exact le_trans (by decide) Nat.right_le_or
  have hword : ∀ i, i < K → g i < 2 ^ 64 := by
    intro i hi
    rw [hglow i hi]
    split
    · exact Nat.or_lt_two_pow (hw i) (by decide)
    · exact hw i
  have hlow : Redc.value (2 ^ 64) g K < 2 ^ (64 * K) := by
    rw [← value_map_range, ← base_pow]
    have hlt := value_lt (show Words ((List.range K).map g) from fun w hmem => by
      obtain ⟨i, hi, rfl⟩ := List.mem_map.mp hmem
      exact hword i (List.mem_range.mp hi))
    rwa [List.length_map, List.length_range] at hlt
  have hval : (primeCandidate (K + 1) (64 * (K + 1) - 1) words).val
      = Redc.value (2 ^ 64) g K + 2 ^ (64 * K) * g K := by
    have hsum : value ((List.range (K + 1)).map g)
        = Redc.value (2 ^ 64) g K + 2 ^ (64 * K) * g K := by
      rw [value_map_range, Redc.value, base_pow]
    have hfit : Redc.value (2 ^ 64) g K + 2 ^ (64 * K) * g K < 2 ^ (64 * (K + 1)) := by
      have hmul : 2 ^ (64 * K) * g K ≤ 2 ^ (64 * K) * (2 ^ 63 - 1) :=
        Nat.mul_le_mul_left _ (by omega)
      have hpow : 2 ^ (64 * (K + 1)) = 2 ^ (64 * K) * 2 ^ 64 := by rw [← pow_add]; rfl
      rw [hpow]
      omega
    rw [primeCandidate, ← hg, ofWords, hsum, wrap_of_lt hfit]
  simp only
  rw [hval]
  refine ⟨?_, ?_, ?_⟩
  · obtain ⟨J, rfl⟩ : ∃ J, K = J + 1 := ⟨K - 1, by omega⟩
    have heven : 2 ^ (64 * (J + 1)) = 2 * 2 ^ (64 * J + 63) := by rw [← pow_succ']; rfl
    have hodd : Redc.value (2 ^ 64) g (J + 1) % 2 = 1 := by
      rw [← value_map_range, List.range_succ_eq_map, List.map_cons, value_cons, hglow 0 (by omega),
        if_pos rfl]
      have hor : (words 0 ||| 1) % 2 = 1 := Nat.or_mod_two_eq_one.mpr (.inr rfl)
      omega
    rw [heven, Nat.mul_assoc]
    omega
  · have hpow : 2 ^ (64 * (K + 1) - 3) = 2 ^ (64 * K) * 2 ^ 61 := by rw [← pow_add]; congr 1
    rw [hpow]
    have hmul := Nat.mul_le_mul_left (2 ^ (64 * K)) hgK_ge
    omega
  · have hpow : 2 ^ (64 * (K + 1) - 1) = 2 ^ (64 * K) * 2 ^ 63 := by rw [← pow_add]; congr 1
    rw [hpow]
    have hmul : 2 ^ (64 * K) * g K ≤ 2 ^ (64 * K) * (2 ^ 63 - 1) := Nat.mul_le_mul_left _ (by omega)
    omega

end

theorem rngWords_lt (cipher : Keystream) (seed : Bytes) (k : Nat) : rngWords cipher seed k < 2 ^ 64 := by
  have hfold : ∀ (is : List Nat) (f : Nat → UInt8),
      is.foldr (fun i v => (f i).toNat + 256 * v) 0 < 256 ^ is.length := by
    intro is f
    induction is with
    | nil => exact Nat.one_pos
    | cons i is ih =>
      have hbyte := (f i).toNat_lt
      rw [List.foldr_cons, List.length_cons, pow_succ']
      omega
  exact hfold _ _

/-! ### The search -/

section

variable {H : Nat} [NeZero H]

omit [NeZero H] in
theorem checkedAdd_eq_some {a b c : BigUint H} (h : a.checkedAdd b = some c) :
    c.val = a.val + b.val := by
  unfold checkedAdd at h
  split at h
  · exact (congrArg BigUint.val (Option.some.inj h)).symm
  · exact absurd h (by simp)

theorem safePrimeOf_eq_some {q p : BigUint H} (h : safePrimeOf q = some p) :
    p.val = 2 * q.val + 1 ∧ isProbablePrime q [] = true ∧ isProbablePrime p [] = true := by
  unfold safePrimeOf at h
  split at h
  · exact absurd h (by simp)
  split at h
  · exact absurd h (by simp)
  · next p' hp' =>
    split_ifs at h with hp hqprime hpprime
    obtain rfl := Option.some.inj h
    obtain ⟨d, hd, hp'⟩ := Option.bind_eq_some_iff.mp hp'
    have hdval := checkedAdd_eq_some hd
    have hpval := checkedAdd_eq_some hp'
    rw [one_val] at hpval
    exact ⟨by omega, by simpa using hqprime, by simpa using hpprime⟩

/-- A search ends at the first candidate that passes. -/
theorem generateSafePrime_eq_some {bits : Nat} {words : Nat → Nat} {budget i next : Nat}
    {p : BigUint H} (h : generateSafePrime H bits words budget i = some (p, next)) :
    ∃ j, next = j + 1 ∧ i ≤ j ∧
      safePrimeOf (primeCandidate H (bits - 1) fun k => words (j * H + k)) = some p ∧
      ∀ k, i ≤ k → k < j → passesAt H bits words k = false := by
  induction budget generalizing i with
  | zero => exact absurd h (by simp [generateSafePrime])
  | succ budget ih =>
    unfold generateSafePrime at h
    split at h
    · next p' hp' =>
      obtain ⟨rfl, rfl⟩ := Prod.mk.inj (Option.some.inj h)
      exact ⟨i, rfl, le_refl i, hp', fun k hik hki => by omega⟩
    · next hnone =>
      obtain ⟨j, hnext, hij, hsafe, hfirst⟩ := ih h
      refine ⟨j, hnext, by omega, hsafe, fun k hik hkj => ?_⟩
      rcases Nat.eq_or_lt_of_le hik with rfl | hlt
      · rw [passesAt, hnone]
        rfl
      · exact hfirst k hlt hkj

/-- The two primes of a ceremony, and where the keystream has them. -/
theorem bothSafePrimes_eq_ok {halfBits : Nat} {words : Nat → Nat} {p q : BigUint H}
    (h : bothSafePrimes H halfBits words = .ok (p, q)) :
    ∃ i j, i < j ∧ safePrimeOf (primeCandidate H (halfBits - 1) fun k => words (i * H + k)) = some p ∧
      safePrimeOf (primeCandidate H (halfBits - 1) fun k => words (j * H + k)) = some q ∧
      ∀ k, k < j → k ≠ i → passesAt H halfBits words k = false := by
  unfold bothSafePrimes at h
  split at h
  · exact absurd h (by simp)
  · next p' next hp =>
    split at h
    · exact absurd h (by simp)
    · next q' next' hq =>
      obtain ⟨rfl, rfl⟩ := Prod.mk.inj (Except.ok.inj h)
      obtain ⟨i, rfl, -, hi, hfirst⟩ := generateSafePrime_eq_some hp
      obtain ⟨j, -, hij, hj, hsecond⟩ := generateSafePrime_eq_some hq
      refine ⟨i, j, hij, hi, hj, fun k hkj hki => ?_⟩
      rcases Nat.lt_or_gt_of_ne hki with hlt | hgt
      · exact hfirst k (Nat.zero_le k) hlt
      · exact hsecond k hgt hkj

/-- A prime that the search returns is safe exactly if its candidate did not deceive the test. -/
theorem safePrime_iff {q p : BigUint H} (h : safePrimeOf q = some p) : SafePrime p.val ↔
    ¬ StrongPseudoprime q.val millerRabinBases ∧
      ¬ StrongPseudoprime (2 * q.val + 1) millerRabinBases := by
  obtain ⟨hval, hq, hp⟩ := safePrimeOf_eq_some h
  have hhalf : p.val / 2 = q.val := by omega
  rw [SafePrime, hhalf, ← hval]
  constructor
  · intro ⟨hpp, _, hqp⟩
    exact ⟨fun hpseudo => hpseudo.not_prime hqp, fun hpseudo => hpseudo.not_prime hpp⟩
  · intro ⟨hnq, hnp⟩
    refine ⟨?_, by omega, ?_⟩
    · by_contra hnot
      exact hnp (isProbablePrime_of_composite hnot hp)
    · by_contra hnot
      exact hnq (isProbablePrime_of_composite hnot hq)

end

/-- Two factorisations into two numbers above one, one of them into primes, are the same. -/
theorem factors_unique {a b p q : Nat} (ha : a.Prime) (hb : b.Prime) (hp : 1 < p) (hq : 1 < q)
    (h : a * b = p * q) : (p = a ∧ q = b) ∨ (p = b ∧ q = a) := by
  have hcase : ∀ p q, 1 < p → 1 < q → a * b = p * q → a ∣ p → p = a ∧ q = b := by
    intro p q hp hq h hdvd
    obtain ⟨k, rfl⟩ := hdvd
    have hk : b = k * q := Nat.eq_of_mul_eq_mul_left ha.pos (h.trans (Nat.mul_assoc a k q))
    rcases (Nat.prime_mul_iff.mp (hk ▸ hb)) with ⟨-, rfl⟩ | ⟨-, rfl⟩
    · omega
    · exact ⟨Nat.mul_one a, by omega⟩
  rcases (Nat.Prime.dvd_mul ha).mp (h ▸ Nat.dvd_mul_right a b) with hdvd | hdvd
  · exact .inl (hcase p q hp hq h hdvd)
  · obtain ⟨hqa, hpb⟩ := hcase q p hq hp (h.trans (Nat.mul_comm p q)) hdvd
    exact .inr ⟨hpb, hqa⟩

/-! ### The modulus -/

section

variable {K : Nat} {words : Nat → Nat}

/-- The primes of a ceremony have exactly half of its width, with their two highest bits set. -/
theorem prime_width (hK : 0 < K) (hw : ∀ i, words i < 2 ^ 64) {i : Nat} {p : BigUint (K + 1)}
    (h : safePrimeOf (primeCandidate (K + 1) (64 * (K + 1) - 1) fun k => words (i * (K + 1) + k))
      = some p) :
    3 * 2 ^ (64 * (K + 1) - 2) < p.val ∧ p.val < 2 ^ (64 * (K + 1)) ∧ p.val % 2 = 1 := by
  obtain ⟨-, hge, hlt⟩ := primeCandidate_val (fun k => words (i * (K + 1) + k)) hK fun k => hw _
  obtain ⟨hval, -, -⟩ := safePrimeOf_eq_some h
  have htwo : 2 ^ (64 * (K + 1) - 2) = 2 * 2 ^ (64 * (K + 1) - 3) := by
    rw [← pow_succ']
    congr 1
  have hfull : 2 ^ (64 * (K + 1)) = 2 * 2 ^ (64 * (K + 1) - 1) := by
    rw [← pow_succ']
    congr 1
  rw [hval]
  omega

/-- The product of two such primes has the full width. -/
theorem modulus_width {p q : Nat} (hp : 3 * 2 ^ (64 * (K + 1) - 2) < p)
    (hp' : p < 2 ^ (64 * (K + 1))) (hq : 3 * 2 ^ (64 * (K + 1) - 2) < q)
    (hq' : q < 2 ^ (64 * (K + 1))) :
    2 ^ (128 * (K + 1) - 1) ≤ p * q ∧ p * q < 2 ^ (64 * (2 * (K + 1))) := by
  constructor
  · have hpow : 2 ^ (128 * (K + 1) - 1)
        = 8 * (2 ^ (64 * (K + 1) - 2) * 2 ^ (64 * (K + 1) - 2)) := by
      rw [← pow_add, show (8 : Nat) = 2 ^ 3 from rfl, ← pow_add]
      congr 1
      omega
    have hmul := Nat.mul_le_mul hp.le hq.le
    rw [hpow]
    refine le_trans ?_ hmul
    rw [Nat.mul_mul_mul_comm]
    exact Nat.mul_le_mul_right _ (by decide)
  · have hpow : 2 ^ (64 * (2 * (K + 1))) = 2 ^ (64 * (K + 1)) * 2 ^ (64 * (K + 1)) := by
      rw [← pow_add]
      congr 1
      omega
    rw [hpow]
    exact Nat.mul_lt_mul'' hp' hq'

end

/-- What a ceremony that ends returns. -/
structure Outcome (H : Nat) [NeZero H] (words : Nat → Nat) (nHex : String) where
  i : Nat
  j : Nat
  p : BigUint H
  q : BigUint H
  order : i < j
  first : safePrimeOf (primeCandidate H (64 * H - 1) fun k => words (i * H + k)) = some p
  second : safePrimeOf (primeCandidate H (64 * H - 1) fun k => words (j * H + k)) = some q
  others : ∀ k, k < j → k ≠ i → passesAt H (64 * H) words k = false
  text : nHex = (wrap (2 * H) (p.val * q.val)).toHex

theorem outcome_of_ceremony {H : Nat} [NeZero H] {words : Nat → Nat} {nHex : String}
    (h : ceremony H (128 * H) words = .ok nHex) : Nonempty (Outcome H words nHex) := by
  have hhalf : 128 * H / 2 = 64 * H := by omega
  unfold ceremony at h
  rw [hhalf] at h
  split at h
  · exact absurd h (by simp)
  · next p q hboth =>
    obtain ⟨i, j, horder, hi, hj, hothers⟩ := bothSafePrimes_eq_ok hboth
    unfold finishCeremony at h
    dsimp only at h
    split at h
    · exact absurd h (by simp)
    · exact ⟨⟨i, j, p, q, horder, hi, hj, hothers, (Except.ok.inj h).symm⟩⟩

namespace Outcome

variable {K : Nat} {words : Nat → Nat} {nHex : String}

/-- The bytes of the modulus. -/
def bytes (o : Outcome (K + 1) words nHex) : Bytes :=
  (wrap (2 * (K + 1)) (o.p.val * o.q.val)).toBytesBe

section

variable (o : Outcome (K + 1) words nHex) (hK : 0 < K) (hw : ∀ i, words i < 2 ^ 64)

theorem decoded : hexDecodeChars (trimStart0x nHex.toList) = some o.bytes := by
  have hdec : hexDecodeChars (trimStart0x (wrap (2 * (K + 1)) (o.p.val * o.q.val)).toHex.toList)
      = some o.bytes := by
    rw [toHex, trimStart0x_hexEncode]
    exact hexDecode_hexEncode _
  rwa [← o.text] at hdec

include o hK hw

theorem value : ofBytes o.bytes = o.p.val * o.q.val ∧ 2 ^ (128 * (K + 1) - 1) ≤ o.p.val * o.q.val ∧
    o.p.val * o.q.val % 2 = 1 := by
  obtain ⟨hp, hp', hpodd⟩ := prime_width hK hw o.first
  obtain ⟨hq, hq', hqodd⟩ := prime_width hK hw o.second
  obtain ⟨hge, hlt⟩ := modulus_width hp hp' hq hq'
  refine ⟨?_, hge, ?_⟩
  · rw [bytes, ofBytes_toBytesBe, wrap_of_lt hlt]
  · rw [Nat.mul_mod, hpodd, hqodd]

/-- The text spells exactly the bytes of the width. -/
theorem length_bytes : o.bytes.length = 16 * (K + 1) := by
  obtain ⟨hval, hge, -⟩ := o.value hK hw
  have hle : o.bytes.length ≤ 8 * (2 * (K + 1)) := length_toBytesBe _
  have hlt : 2 ^ (128 * (K + 1) - 1) < 2 ^ (8 * o.bytes.length) := by
    rw [← hval] at hge
    exact hge.trans_lt (ofBytes_lt_two_pow le_rfl)
  have hexp := (Nat.pow_lt_pow_iff_right (by decide)).mp hlt
  omega

/-- A modulus of at most 2048 bits is in the range of the context and the audit. -/
theorem inRange (hmin : 3 ≤ K) (hmax : K < 16) : InRange nHex := by
  obtain ⟨hval, hge, hodd⟩ := o.value hK hw
  refine ⟨o.bytes, o.decoded, ?_, ?_, ?_⟩
  · rw [o.length_bytes hK hw]
    omega
  · rw [hval]
    exact hodd
  · rw [hval]
    exact (Nat.pow_le_pow_right (by decide) (by omega)).trans hge

/-- The import check lets it through exactly if it is wider than 64 bytes. -/
theorem imported_iff (hmax : K < 16) : validateModulusHex nHex = .ok () ↔ 3 < K := by
  obtain ⟨hval, -, hodd⟩ := o.value hK hw
  have hlen := o.length_bytes hK hw
  rw [validateModulusHex_iff, o.decoded]
  simp only [Option.some.injEq, exists_eq_left']
  rw [hlen, hval]
  omega

/-- It is a product of two safe primes of half the width exactly if no candidate deceived. -/
theorem product_iff (hmax : K < 16) : (∃ (n : Bn) (p q : Nat), fromHex nHex = .ok n ∧ n.val = p * q ∧
      SafePrime p ∧ SafePrime q ∧ (2 ^ (64 * (K + 1) - 1) ≤ p ∧ p < 2 ^ (64 * (K + 1))) ∧
      (2 ^ (64 * (K + 1) - 1) ≤ q ∧ q < 2 ^ (64 * (K + 1))))
    ↔ Undeceived (K + 1) (64 * (K + 1)) words := by
  obtain ⟨hval, -, -⟩ := o.value hK hw
  obtain ⟨hp, hp', -⟩ := prime_width hK hw o.first
  obtain ⟨hq, hq', -⟩ := prime_width hK hw o.second
  have htop : 2 ^ (64 * (K + 1) - 1) = 2 * 2 ^ (64 * (K + 1) - 2) := by
    rw [← pow_succ']
    congr 1
  have hpos : 0 < 2 ^ (64 * (K + 1) - 2) := Nat.two_pow_pos _
  have hread : ∀ n : Bn, fromHex nHex = .ok n ↔ n.val = o.p.val * o.q.val := by
    intro n
    rw [fromHex_eq_ok, o.decoded]
    simp only [Option.some.injEq, exists_eq_left', hval]
    have hlen := o.length_bytes hK hw
    omega
  have hsafe : (SafePrime o.p.val ∧ SafePrime o.q.val)
      ↔ Undeceived (K + 1) (64 * (K + 1)) words := by
    rw [safePrime_iff o.first, safePrime_iff o.second]
    have hpassi : passesAt (K + 1) (64 * (K + 1)) words o.i = true := by
      rw [passesAt, o.first]
      rfl
    have hpassj : passesAt (K + 1) (64 * (K + 1)) words o.j = true := by
      rw [passesAt, o.second]
      rfl
    constructor
    · intro ⟨hfirst, hsecond⟩ k hpass hearlier
      by_cases hki : k = o.i
      · subst hki
        exact hfirst
      by_cases hkj : k = o.j
      · subst hkj
        exact hsecond
      rcases Nat.lt_or_gt_of_ne hkj with hlt | hgt
      · rw [o.others k hlt hki] at hpass
        exact absurd hpass Bool.false_ne_true
      · rw [hearlier o.i o.j o.order hgt hpassi] at hpassj
        exact absurd hpassj Bool.false_ne_true
    · intro hall
      refine ⟨hall o.i hpassi fun a b hab hb ha => ?_, hall o.j hpassj fun a b hab hb ha => ?_⟩
      · have horder := o.order
        exact o.others b (by omega) (by omega)
      · refine o.others b hb fun hbi => ?_
        rw [o.others a (by omega) (by omega)] at ha
        exact absurd ha Bool.false_ne_true
  rw [← hsafe]
  constructor
  · intro ⟨n, a, b, hn, hprod, ha, hb, _, _⟩
    rw [(hread n).mp hn] at hprod
    rcases factors_unique ha.1 hb.1 (by omega) (by omega) hprod.symm with ⟨hpa, hqb⟩ | ⟨hpb, hqa⟩
    · exact ⟨hpa ▸ ha, hqb ▸ hb⟩
    · exact ⟨hpb ▸ hb, hqa ▸ ha⟩
  · intro ⟨hsp, hsq⟩
    have hfit : o.p.val * o.q.val < 2 ^ (64 * 32) := by
      refine (modulus_width hp hp' hq hq').2.trans_le (Nat.pow_le_pow_right (by decide) ?_)
      omega
    exact ⟨⟨_, hfit⟩, o.p.val, o.q.val, (hread _).mpr rfl, rfl, hsp, hsq, by omega, by omega⟩

/-- What the ceremony promises holds exactly above 512 bits and without deception. -/
theorem modulusSound_iff (hmin : 3 ≤ K) (hmax : K < 16) : ModulusSound (128 * (K + 1)) nHex ↔
    3 < K ∧ Undeceived (K + 1) (64 * (K + 1)) words := by
  have hhalf : 128 * (K + 1) / 2 = 64 * (K + 1) := by omega
  have hrange := o.inRange hK hw hmin hmax
  rw [← o.imported_iff hK hw hmax, ← o.product_iff hK hw hmax]
  constructor
  · intro h
    exact ⟨h.imported, by simpa only [hhalf] using h.product⟩
  · intro ⟨himported, hproduct⟩
    exact ⟨himported, (contextAccepts_iff nHex).mpr hrange, (auditAccepts_iff nHex).mpr hrange,
      by simpa only [hhalf] using hproduct⟩

end

end Outcome

/-- **The checks and the ceremony**: the three checks agree on a text exactly if its bytes do not
separate them, and what a ceremony returns passes them and is a product of two safe primes exactly
if it is wider than 512 bits and no candidate deceived the primality test. -/
theorem validators_and_ceremony (nHex : String) (cipher : Keystream)
    (osEntropy : Except String Bytes) (bits : Nat) (seed : Option Bytes) :
    (ValidatorsAgree nHex ↔ ¬ Separated nHex) ∧
      ∀ s, seedOf osEntropy seed = .ok s → generateModulus cipher osEntropy bits seed = .ok nHex →
        (ModulusSound bits nHex ↔ bits ≠ 512 ∧ NoDeception bits (rngWords cipher s)) := by
  refine ⟨validatorsAgree_iff nHex, fun s hs h => ?_⟩
  have hw := rngWords_lt cipher s
  unfold generateModulus at h
  rw [hs] at h
  simp only at h
  split at h
  · obtain ⟨o⟩ := outcome_of_ceremony (H := 4) h
    exact (o.modulusSound_iff (by decide) hw (by decide) (by decide)).trans
      (and_congr (by decide) Iff.rfl)
  · obtain ⟨o⟩ := outcome_of_ceremony (H := 8) h
    exact (o.modulusSound_iff (by decide) hw (by decide) (by decide)).trans
      (and_congr (by decide) Iff.rfl)
  · obtain ⟨o⟩ := outcome_of_ceremony (H := 16) h
    exact (o.modulusSound_iff (by decide) hw (by decide) (by decide)).trans
      (and_congr (by decide) Iff.rfl)
  · exact absurd h (by simp)

/-! ### A modulus of 512 bits -/

theorem hexDecodeChars_replicate (n : Nat) :
    hexDecodeChars (List.replicate (2 * n) 'f') = some (List.replicate n 255) := by
  induction n with
  | zero => rfl
  | succ n ih =>
    have hdouble : 2 * (n + 1) = 2 * n + 1 + 1 := by omega
    have hdigit : unhexDigit 'f' = some 15 := by decide
    rw [hdouble, List.replicate_succ, List.replicate_succ, hexDecodeChars, hdigit, ih,
      List.replicate_succ]
    rfl

/-- Sixty-four bytes of ones make a context and are refused at import. -/
theorem full_width_separates : ¬ ValidatorsAgree (String.ofList (List.replicate (2 * 64) 'f')) := by
  rw [validatorsAgree_iff, not_not]
  refine ⟨List.replicate 64 255, ?_, by decide, ?_⟩
  · rw [String.toList_ofList, ← hexDecodeChars_replicate]
    rfl
  · decide +kernel

end DiscCleaner.Vdf
