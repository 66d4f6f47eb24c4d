import DiscCleaner.Fhe.Poly
import Mathlib.Data.Set.Function

/-!
# DiscCleaner — ring-LWE parameters and ciphertexts (`rlwe.rs`, `protocol.rs`)

The parameter checks, decryption, the digest of a ciphertext, and the Merkle root over the
digests of a volume.

* **`merkleRoot_inj`** — equal roots of equally many hexadecimal leaves are equal leaves, where
  no two of the hashed texts collide.
* **`bindsCiphertexts_iff`** — the roots bind the ciphertexts for a modulus of at most `2^16`,
  and for no other.
-/

namespace DiscCleaner.Fhe

open ByteLib CheckedLib

inductive FheError where
  | params (text : String)
  | eval (text : String)
  | proof (text : String)
  | certificate (text : String)
  deriving DecidableEq

/-- Ring-LWE parameter set: ring degree, modulus, noise parameter. -/
structure Params where
  n : Nat
  q : Int
  eta : Nat
  deriving DecidableEq

namespace Params

/-- The demo parameters. -/
def default : Params := ⟨1024, 65537, 3⟩

/-- Plaintext scale. -/
def delta (p : Params) : Int := p.q.tdiv 2

end Params

/-- Odd trial divisors from `d` on. Each turn needs `d * d ≤ x`, so `x` turns are more than the
loop takes. -/
def trialDivision (x : Nat) : Nat → Nat → Bool
  | 0, _ => true
  | turns + 1, d =>
    if x < d * d then true
    else if x % d = 0 then false
    else trialDivision x turns (d + 2)

def isPrime (x : Nat) : Bool :=
  if x < 2 then false
  else if x % 2 = 0 then x == 2
  else trialDivision x x 3

def isPowerOfTwo (n : Nat) : Bool := 2 ^ n.log2 == n

def Params.validate (p : Params) : Except FheError Unit :=
  if !isPowerOfTwo p.n || p.n < 256 then
    .error (.params s!"ring degree {p.n} must be a power of two ≥ 256")
  else if p.q ≤ 0 || !isPrime p.q.toNat then
    .error (.params s!"modulus {p.q} must be a positive prime")
  else if 2 ^ 31 ≤ p.q then
    .error (.params s!"modulus {p.q} too large for schoolbook i64 accumulation")
  else if p.eta = 0 || 16 < p.eta then
    .error (.params s!"CBD parameter {p.eta} outside 1..=16")
  else .ok ()

structure PublicKey where
  a : Poly
  b : Poly
  deriving DecidableEq

/-- The public key of a uniform `a`, a secret and an error. -/
def PublicKey.make (params : Params) (a s e : Poly) : Option PublicKey := do
  some ⟨a, ← (← (← a.mul s params.q).add e).centred params.q⟩

structure SecretKey where
  s : Poly
  deriving DecidableEq

structure Ciphertext where
  u : Poly
  v : Poly
  deriving DecidableEq

namespace Ciphertext

/-- Per-coefficient rounding of `v − u·s` back to a bit. -/
def decrypt (c : Ciphertext) (params : Params) (sk : SecretKey) : Option Poly := do
  let noise ← (← c.v.sub (← c.u.mul sk.s params.q)).centred params.q
  let half := params.delta
  let bits ← noise.coeffs.mapM fun x => do
    let centred ← absI64 (← centreReduce x params.q)
    some (if half.tdiv 2 ≤ centred then 1 else 0)
  some ⟨bits⟩

/-- The text a ciphertext's digest is taken of. -/
def digestInput (c : Ciphertext) (q : Int) : Option Bytes := do
  some ((← c.u.toBytes q) ++ (← c.v.toBytes q))

/-- Both halves are elements of the ring. -/
structure InRing (params : Params) (c : Ciphertext) : Prop where
  u : c.u.InRing params.n params.q
  v : c.v.InRing params.n params.q

end Ciphertext

section

variable (hash : Bytes → Block 32)

/-- The hexadecimal hash of a text. -/
def hexHash (bs : Bytes) : String := hexEncode (hash bs).bytes

def Ciphertext.digest (c : Ciphertext) (q : Int) : Option String := do
  some (hexHash hash (← c.digestInput q))

/-- The texts hashed at one level: neighbours in pairs, an odd last one with itself. -/
def pairTexts : List String → List Bytes
  | [] => []
  | [a] => [utf8 a ++ utf8 a]
  | a :: b :: rest => (utf8 a ++ utf8 b) :: pairTexts rest

theorem length_pairTexts (level : List String) :
    (pairTexts level).length = (level.length + 1) / 2 := by
  fun_induction pairTexts level with
  | case1 => rfl
  | case2 a => simp
  | case3 a b rest ih =>
    rw [List.length_cons, ih, List.length_cons, List.length_cons]
    omega

/-- The levels above the leaves, up to the root. -/
def foldLevels (level : List String) : String :=
  match level with
  | [] => ""
  | [root] => root
  | a :: b :: rest => foldLevels ((pairTexts (a :: b :: rest)).map (hexHash hash))
termination_by level.length
decreasing_by
  rw [List.length_map, length_pairTexts, List.length_cons, List.length_cons]
  omega

/-- Merkle root over leaf digests. -/
def merkleRoot (leaves : List String) : String :=
  if leaves = [] then hexHash hash (utf8 "dc-fhe/empty-volume") else foldLevels hash leaves

/-- The root of a list of ciphertexts. -/
def ciphertextRoot (q : Int) (cs : List Ciphertext) : Option String := do
  some (merkleRoot hash (← cs.mapM fun c => c.digest hash q))

end

/-! ## What the roots bind -/

theorem length_utf8EncodeChar_hexDigit {n : Nat} (h : n < 16) :
    (String.utf8EncodeChar (hexDigit n)).length = 1 := by
  interval_cases n <;> decide

/-- Hexadecimal text has one byte for each digit. -/
theorem length_utf8_hexEncode (bs : Bytes) : (utf8 (hexEncode bs)).length = 2 * bs.length := by
  rw [utf8, hexEncode, String.toList_ofList]
  induction bs with
  | nil => rfl
  | cons b bs ih =>
    have hlt : b.toNat < 256 := b.toNat_lt
    have hhi := length_utf8EncodeChar_hexDigit (n := b.toNat / 16) (by omega)
    have hlo := length_utf8EncodeChar_hexDigit (n := b.toNat % 16) (by omega)
    simp only [List.flatMap_cons, List.flatMap_append, List.length_append, ih, hhi, hlo,
      List.flatMap_nil, List.length_nil, List.length_cons]
    omega

section

variable (hash : Bytes → Block 32)

/-- The texts hashed above the leaves. -/
def levelTexts (level : List String) : List Bytes :=
  match level with
  | [] => []
  | [_] => []
  | a :: b :: rest =>
    pairTexts (a :: b :: rest) ++ levelTexts ((pairTexts (a :: b :: rest)).map (hexHash hash))
termination_by level.length
decreasing_by
  rw [List.length_map, length_pairTexts, List.length_cons, List.length_cons]
  omega

/-- Every leaf is the hexadecimal text of a hash. -/
def Hexadecimal (level : List String) : Prop := ∀ a ∈ level, (utf8 a).length = 64

theorem length_utf8_hexHash (bs : Bytes) : (utf8 (hexHash hash bs)).length = 64 := by
  rw [hexHash, length_utf8_hexEncode, (hash bs).size]

theorem hexadecimal_map (texts : List Bytes) : Hexadecimal (texts.map (hexHash hash)) := by
  intro a ha
  obtain ⟨bs, -, rfl⟩ := List.mem_map.mp ha
  exact length_utf8_hexHash hash bs

/-- Equally many leaves are read back from the texts of their pairs. -/
theorem pairTexts_injective {ls ms : List String} (hlen : ls.length = ms.length)
    (hl : Hexadecimal ls) (hm : Hexadecimal ms) (h : pairTexts ls = pairTexts ms) : ls = ms := by
  fun_induction pairTexts ls generalizing ms with
  | case1 => exact (List.length_eq_zero_iff.mp hlen.symm).symm
  | case2 a =>
    obtain ⟨b, rfl⟩ := List.length_eq_one_iff.mp hlen.symm
    have htext : utf8 a ++ utf8 a = utf8 b ++ utf8 b := (List.cons.inj h).1
    have hsame : (utf8 a).length = (utf8 b).length := by
      rw [hl a List.mem_cons_self, hm b List.mem_cons_self]
    rw [utf8_injective (List.append_inj htext hsame).1]
  | case3 a b rest ih =>
    obtain ⟨c, d, others, rfl⟩ : ∃ c d others, ms = c :: d :: others := by
      match ms, hlen with
      | c :: d :: others, _ => exact ⟨c, d, others, rfl⟩
    obtain ⟨htext, hrest⟩ := List.cons.inj h
    have hsame : (utf8 a).length = (utf8 c).length := by
      rw [hl a List.mem_cons_self, hm c List.mem_cons_self]
    obtain ⟨hac, hbd⟩ := List.append_inj htext hsame
    rw [utf8_injective hac, utf8_injective hbd,
      ih (by simpa using hlen) (fun x hx => hl x (by simp [hx])) (fun x hx => hm x (by simp [hx]))
        hrest]

/-- Without collisions among the hashed texts, hashing them loses nothing. -/
theorem map_hexHash_injective {xs ys : List Bytes} (hinj : Set.InjOn hash {t | t ∈ xs ∨ t ∈ ys})
    (h : xs.map (hexHash hash) = ys.map (hexHash hash)) : xs = ys := by
  induction xs generalizing ys with
  | nil => exact (List.map_eq_nil_iff.mp h.symm).symm
  | cons x xs ih =>
    cases ys with
    | nil => cases h
    | cons y ys =>
      obtain ⟨hhead, htail⟩ := List.cons.inj h
      have hxy : x = y := by
        refine hinj (Or.inl List.mem_cons_self) (Or.inr List.mem_cons_self) ?_
        exact Block.ext (hexEncode_injective hhead)
      rw [hxy, ih (hinj.mono fun t ht => ht.imp (List.mem_cons_of_mem x)
        (List.mem_cons_of_mem y)) htail]

/-- **Equal roots of equally many leaves are equal leaves**, when no two of the texts hashed for
them collide. -/
theorem foldLevels_injective {ls ms : List String} (hlen : ls.length = ms.length)
    (hl : Hexadecimal ls) (hm : Hexadecimal ms)
    (hinj : Set.InjOn hash {t | t ∈ levelTexts hash ls ∨ t ∈ levelTexts hash ms})
    (h : foldLevels hash ls = foldLevels hash ms) : ls = ms := by
  induction hn : ls.length using Nat.strong_induction_on generalizing ls ms with
  | _ n ih =>
    match ls, ms, hlen with
    | [], [], _ => rfl
    | [a], [b], _ =>
      rw [foldLevels, foldLevels] at h
      rw [h]
    | a :: b :: rest, c :: d :: others, hlen =>
      rw [foldLevels, foldLevels] at h
      simp only [levelTexts.eq_3, List.mem_append] at hinj
      -- the next level is shorter, so its leaves agree; they are hashes of this level's pairs
      have hshorter : ((pairTexts (a :: b :: rest)).map (hexHash hash)).length < n := by
        rw [List.length_map, length_pairTexts, hn]
        have : 2 ≤ n := by rw [← hn, List.length_cons, List.length_cons]; omega
        omega
      have hnext := ih _ hshorter (by simp only [List.length_map, length_pairTexts, hlen])
        (hexadecimal_map hash _) (hexadecimal_map hash _)
        (hinj.mono fun t ht => ht.imp Or.inr Or.inr) h rfl
      have hpairs := map_hexHash_injective hash
        (hinj.mono fun t ht => ht.imp Or.inl Or.inl) hnext
      exact pairTexts_injective hlen hl hm hpairs

/-- The texts hashed for the root of a list of ciphertexts. -/
def rootTexts (q : Int) (cs : List Ciphertext) : Set Bytes :=
  {t | (∃ c ∈ cs, c.digestInput q = some t) ∨
    ∃ leaves, cs.mapM (fun c => c.digest hash q) = some leaves ∧ t ∈ levelTexts hash leaves}

/-! ## Digests of ring elements -/

/-- The digest input of a ciphertext of the ring. -/
def Ciphertext.encoded (q : Int) (c : Ciphertext) : Bytes :=
  Poly.encoded q c.u.coeffs ++ Poly.encoded q c.v.coeffs

theorem Ciphertext.InRing.digestInput_eq {params : Params} (hq : params.q < 2 ^ 62)
    {c : Ciphertext} (hc : c.InRing params) :
    c.digestInput params.q = some (c.encoded params.q) := by
  simp [Ciphertext.digestInput, hc.u.toBytes_eq hq, hc.v.toBytes_eq hq, Ciphertext.encoded]

theorem mapM_digest {params : Params} (hq : params.q < 2 ^ 62) {cs : List Ciphertext}
    (hcs : ∀ c ∈ cs, c.InRing params) :
    cs.mapM (fun c => c.digest hash params.q)
      = some ((cs.map (Ciphertext.encoded params.q)).map (hexHash hash)) := by
  rw [List.map_map]
  refine mapM_eq_some_map fun c hc => ?_
  simp [Ciphertext.digest, (hcs c hc).digestInput_eq hq]

/-- Below `2^16` the digest input determines the ciphertext. -/
theorem Ciphertext.encoded_injective {params : Params} (hq : params.q ≤ 65536)
    {c d : Ciphertext} (hc : c.InRing params) (hd : d.InRing params)
    (h : c.encoded params.q = d.encoded params.q) : c = d := by
  have hlen : (Poly.encoded params.q c.u.coeffs).length = (Poly.encoded params.q d.u.coeffs).length := by
    rw [Poly.length_encoded, Poly.length_encoded, hc.u.length, hd.u.length]
  obtain ⟨hu, hv⟩ := List.append_inj h hlen
  have hcu := Poly.encoded_injective hq (hc.u.length.trans hd.u.length.symm) hc.u.centred
    hd.u.centred hu
  have hcv := Poly.encoded_injective hq (hc.v.length.trans hd.v.length.symm) hc.v.centred
    hd.v.centred hv
  obtain ⟨⟨u⟩, ⟨v⟩⟩ := c
  obtain ⟨⟨u'⟩, ⟨v'⟩⟩ := d
  cases hcu
  cases hcv
  rfl

theorem map_encoded_injective {params : Params} (hq : params.q ≤ 65536)
    {cs ds : List Ciphertext} (hcs : ∀ c ∈ cs, c.InRing params) (hds : ∀ d ∈ ds, d.InRing params)
    (h : cs.map (Ciphertext.encoded params.q) = ds.map (Ciphertext.encoded params.q)) :
    cs = ds := by
  induction cs generalizing ds with
  | nil => exact (List.map_eq_nil_iff.mp h.symm).symm
  | cons c cs ih =>
    cases ds with
    | nil => cases h
    | cons d ds =>
      obtain ⟨hhead, htail⟩ := List.cons.inj h
      rw [Ciphertext.encoded_injective hq (hcs c List.mem_cons_self) (hds d List.mem_cons_self)
        hhead, ih (fun x hx => hcs x (List.mem_cons_of_mem c hx))
          (fun x hx => hds x (List.mem_cons_of_mem d hx)) htail]

end

/-! ## Binding -/

/-- Equal roots of equally many ciphertexts of the ring are roots of the same ciphertexts, for
every hash without a collision among the texts it is given. -/
def BindsCiphertexts (params : Params) : Prop :=
  ∀ (hash : Bytes → Block 32) (cs ds : List Ciphertext), cs.length = ds.length →
    (∀ c ∈ cs, c.InRing params) → (∀ d ∈ ds, d.InRing params) →
    Set.InjOn hash (rootTexts hash params.q cs ∪ rootTexts hash params.q ds) →
    ∀ root, ciphertextRoot hash params.q cs = some root →
      ciphertextRoot hash params.q ds = some root → cs = ds

/-- What the checks promise of the degree and the modulus. -/
theorem Params.validate_ok {params : Params} (h : params.validate = .ok ()) :
    256 ≤ params.n ∧ 0 < params.q ∧ params.q < 2 ^ 31 := by
  unfold validate at h
  split_ifs at h with h1 h2 h3 h4
  simp only [Bool.or_eq_true, decide_eq_true_eq, not_or] at h1 h2
  exact ⟨not_lt.mp h1.2, not_le.mp h2.1, not_le.mp h3⟩

theorem bindsCiphertexts_of_le {params : Params} (hq : params.q ≤ 65536) :
    BindsCiphertexts params := by
  intro hash cs ds hlen hcs hds hinj root hroot hroot'
  have hlt : params.q < 2 ^ 62 := by omega
  have hleaves := mapM_digest hash hlt hcs
  have hleaves' := mapM_digest hash hlt hds
  rw [ciphertextRoot, hleaves] at hroot
  rw [ciphertextRoot, hleaves'] at hroot'
  have hroots := (Option.some.inj hroot).trans (Option.some.inj hroot').symm
  rcases eq_or_ne cs [] with rfl | hne
  · exact (List.length_eq_zero_iff.mp hlen.symm).symm
  have hne' : ds ≠ [] := fun hnil => hne (List.length_eq_zero_iff.mp (by rw [hlen, hnil]; rfl))
  rw [merkleRoot, if_neg (by simpa using hne), merkleRoot, if_neg (by simpa using hne')] at hroots
  have hlevels := foldLevels_injective hash (by simp only [List.length_map, hlen])
    (hexadecimal_map hash _) (hexadecimal_map hash _)
    (hinj.mono fun t ht => ht.imp (fun h => Or.inr ⟨_, hleaves, h⟩) fun h => Or.inr ⟨_, hleaves', h⟩)
    hroots
  refine map_encoded_injective hq hcs hds (map_hexHash_injective hash (hinj.mono ?_) hlevels)
  rintro t (ht | ht)
  · obtain ⟨c, hc, rfl⟩ := List.mem_map.mp ht
    exact Or.inl (Or.inl ⟨c, hc, (hcs c hc).digestInput_eq hlt⟩)
  · obtain ⟨d, hd, rfl⟩ := List.mem_map.mp ht
    exact Or.inr (Or.inl ⟨d, hd, (hds d hd).digestInput_eq hlt⟩)

/-- A coefficient other than zero whose residue leaves the low two bytes of zero. -/
def wrappedCoeff (q : Int) : Int := if q < 131072 then 65536 - q else 65536

/-- The ciphertext of zeros, with one coefficient of `u` chosen. -/
def oneCoeff (n : Nat) (c : Int) : Ciphertext :=
  ⟨⟨c :: List.replicate (n - 1) 0⟩, Poly.zero n⟩

theorem oneCoeff_inRing {params : Params} (hn : 0 < params.n) (hq : 0 < params.q) {c : Int}
    (hc : Centred params.q c) : (oneCoeff params.n c).InRing params where
  u := {
    length := by
      rw [oneCoeff, List.length_cons, List.length_replicate]
      omega
    centred := by
      intro x hx
      rcases List.mem_cons.mp hx with rfl | hx
      · exact hc
      · exact (Poly.zero_inRing hq (params.n - 1)).centred x hx }
  v := Poly.zero_inRing hq params.n

theorem wrappedCoeff_centred {q : Int} (hq : 65536 < q) : Centred q (wrappedCoeff q) := by
  unfold wrappedCoeff Centred
  split_ifs <;> omega

/-- The encoder keeps the low 16 bits, so the chosen coefficient reads as zero. -/
theorem encoded_wrapped {q : Int} (hq : 65536 < q) (n : Nat) :
    (oneCoeff n (wrappedCoeff q)).encoded q = (oneCoeff n 0).encoded q := by
  have hresidue : Poly.residueOf q (wrappedCoeff q) = 65536 := by
    unfold Poly.residueOf wrappedCoeff
    split_ifs <;> omega
  simp only [Ciphertext.encoded, oneCoeff, Poly.encoded_cons, hresidue]
  rfl

theorem wrappedCoeff_ne_zero {q : Int} (hq : 65536 < q) : wrappedCoeff q ≠ 0 := by
  unfold wrappedCoeff
  split_ifs <;> omega

theorem not_bindsCiphertexts {params : Params} (hn : 0 < params.n) (hq : 65536 < params.q)
    (hlt : params.q < 2 ^ 62) : ¬ BindsCiphertexts params := by
  intro hbinds
  let hash : Bytes → Block 32 := fun _ => Block.ofNat 32 0
  have hzero : (oneCoeff params.n 0).InRing params :=
    oneCoeff_inRing hn (by omega) ⟨by omega, by omega⟩
  have hwrapped := oneCoeff_inRing hn (by omega) (wrappedCoeff_centred hq)
  have hsingle : ∀ c : Ciphertext, c.InRing params → ∀ d ∈ [c], d.InRing params := by
    intro c hc d hd
    rwa [List.mem_singleton.mp hd]
  have hleaf : ∀ c : Ciphertext, c.InRing params →
      [c].mapM (fun c => c.digest hash params.q) = some [hexHash hash (c.encoded params.q)] :=
    fun c hc => mapM_digest hash hlt (hsingle c hc)
  have hroot : ∀ c : Ciphertext, c.InRing params →
      ciphertextRoot hash params.q [c] = some (hexHash hash (c.encoded params.q)) := by
    intro c hc
    rw [ciphertextRoot, hleaf c hc]
    simp [merkleRoot, foldLevels]
  -- one text is hashed on either side, and it is the same text
  have htexts : ∀ c : Ciphertext, c.InRing params → c.encoded params.q
      = (oneCoeff params.n 0).encoded params.q →
      rootTexts hash params.q [c] ⊆ {(oneCoeff params.n 0).encoded params.q} := by
    rintro c hc henc t (⟨d, hd, ht⟩ | ⟨leaves, hleaves, ht⟩)
    · rw [List.mem_singleton.mp hd, hc.digestInput_eq hlt, henc] at ht
      exact (Option.some.inj ht).symm
    · rw [hleaf c hc] at hleaves
      rw [← Option.some.inj hleaves, levelTexts] at ht
      cases ht
  have hinj : Set.InjOn hash (rootTexts hash params.q [oneCoeff params.n (wrappedCoeff params.q)]
      ∪ rootTexts hash params.q [oneCoeff params.n 0]) :=
    (Set.subsingleton_singleton.anti (Set.union_subset
      (htexts _ hwrapped (encoded_wrapped hq params.n)) (htexts _ hzero rfl))).injOn hash
  have heq := hbinds hash [oneCoeff params.n (wrappedCoeff params.q)] [oneCoeff params.n 0] rfl
    (hsingle _ hwrapped) (hsingle _ hzero) hinj _ (hroot _ hwrapped) (by rw [hroot _ hzero, encoded_wrapped hq])
  have hcoeff : wrappedCoeff params.q = 0 := by
    have := congrArg Ciphertext.u (List.cons.inj heq).1
    exact (List.cons.inj (congrArg Poly.coeffs this)).1
  exact wrappedCoeff_ne_zero hq hcoeff

/-- **What the erasure roots bind.** Under every parameter set the checks let through, the roots
determine the ciphertexts exactly when every residue fits the two bytes it is encoded in. -/
theorem bindsCiphertexts_iff {params : Params} (h : params.validate = .ok ()) :
    BindsCiphertexts params ↔ params.q ≤ 65536 := by
  obtain ⟨hn, hpos, hlt⟩ := params.validate_ok h
  constructor
  · intro hbinds
    by_contra hq
    exact not_bindsCiphertexts (by omega) (by omega) (by omega) hbinds
  · exact bindsCiphertexts_of_le

theorem bindsCiphertexts_12289 : BindsCiphertexts ⟨256, 12289, 2⟩ :=
  (bindsCiphertexts_iff (by decide)).mpr (by decide)

theorem default_validate : Params.default.validate = .ok () := by
  decide

/-- The demo modulus is one more than two bytes hold: −1 and 0 have the same digest. -/
theorem default_roots_collide :
    Params.default.validate = .ok () ∧
      (oneCoeff 1024 (-1)).encoded 65537 = (oneCoeff 1024 0).encoded 65537 ∧
      ¬ BindsCiphertexts Params.default :=
  ⟨default_validate, encoded_wrapped (by decide) 1024,
    not_bindsCiphertexts (by decide) (by decide) (by decide)⟩

end DiscCleaner.Fhe
