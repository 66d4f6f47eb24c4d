import DiscCleaner.Fhe.Verifiers

/-!
# DiscCleaner — the prover of an encrypted wipe (`zkp.rs`)

`prove` masks every sector, draws the challenge from the commitments and answers it; a response
outside the mask starts it over. What it returns satisfies every check and every equation in the
ring, so an honest proof is lost only to arithmetic that leaves its words, or to the modulus 2.

* **`prove_honest`** — what a returned proof is made of.
* **`honest_iff`** — exactly when both verifiers accept it.
-/

namespace DiscCleaner.Fhe

open ByteLib CheckedLib NegacyclicLib

/-- The secret and error triple behind one encryption. -/
structure EncryptionWitness where
  r : Poly
  e1 : Poly
  e2 : Poly
  deriving DecidableEq

/-- The masks of one sector. -/
structure Mask where
  y : Poly
  f1 : Poly
  f2 : Poly

/-- The width of the masking distribution, `2 * MASK_BOUND`. -/
def maskWidth : Nat := 2 ^ 23

/-- Domain separator of the batch seed. -/
def dsBatch : Bytes := utf8 "dc-fhe/zeroize/batch/1"

section

/-! ## The prover -/

-- the generator: a number below the width, and the generator after it
variable {σ : Type} (below : σ → Fin maskWidth × σ)

def maskCoeffs : Nat → σ → List Int × σ
  | 0, rng => ([], rng)
  | n + 1, rng =>
    let (x, rng) := below rng
    let (rest, rng) := maskCoeffs n rng
    (((x.val : Int) - maskBound) :: rest, rng)

def maskPoly (n : Nat) (rng : σ) : Poly × σ :=
  let (coeffs, rng) := maskCoeffs below n rng
  (⟨coeffs⟩, rng)

def drawMask (n : Nat) (rng : σ) : Mask × σ :=
  let (y, rng) := maskPoly below n rng
  let (f1, rng) := maskPoly below n rng
  let (f2, rng) := maskPoly below n rng
  (⟨y, f1, f2⟩, rng)

/-- The commitment to the masks of a sector. -/
def Mask.commit (params : Params) (pk : PublicKey) (mask : Mask) : Option (Poly × Poly) := do
  let t1 ← (← (← pk.a.mul mask.y params.q).add mask.f1).centred params.q
  let t2 ← (← (← pk.b.mul mask.y params.q).add mask.f2).centred params.q
  some (t1, t2)

/-- Masks and commitments, sector by sector. -/
def commitSectors (params : Params) (pk : PublicKey) :
    Nat → σ → Option ((List (Poly × Poly) × List Mask) × σ)
  | 0, rng => some (([], []), rng)
  | count + 1, rng => do
    let (mask, rng) := drawMask below params.n rng
    let t ← mask.commit params pk
    let ((commitments, masks), rng) ← commitSectors params pk count rng
    some ((t :: commitments, mask :: masks), rng)

/-- The response of one sector. -/
def respond (params : Params) (challenge : List (Nat × Int)) (w : EncryptionWitness) (mask : Mask) :
    Option Response := do
  let z ← mask.y.add (← w.r.mulSparse challenge params.q)
  let z1 ← mask.f1.add (← w.e1.mulSparse challenge params.q)
  let z2 ← mask.f2.add (← w.e2.mulSparse challenge params.q)
  some ⟨z, z1, z2⟩

/-- The responses up to the first outside the mask, which rejects them all. -/
def respondAll (params : Params) (challenge : List (Nat × Int)) :
    List (EncryptionWitness × Mask) → Option (Option (List Response))
  | [] => some (some [])
  | (w, mask) :: rest => do
    let r ← respond params challenge w mask
    if ← r.exceedsMask then some none
    else
      let responses ← respondAll params challenge rest
      some (responses.map (r :: ·))

variable (hash : Bytes → Block 32)

def batchSeedOf (params : Params) (challengeSeed : Bytes) (responses : List Response) :
    Option Bytes := do
  let parts ← responses.mapM fun r => do
    some ((← r.z.toBytes params.q) ++ (← r.z1.toBytes params.q) ++ (← r.z2.toBytes params.q))
  some ((hash (dsBatch ++ challengeSeed ++ parts.flatten)).bytes.take 16)

/-- One turn of the loop; no proof when a response is rejected. -/
def attempt (params : Params) (pk : PublicKey) (digest : Bytes) (witnesses : List EncryptionWitness)
    (count : Nat) (rng : σ) : Option (Option ZeroizeProof × σ) := do
  let ((commitments, masks), rng) ← commitSectors below params pk count rng
  let parts ← commitments.mapM fun t => do
    some ((← t.1.toBytes params.q) ++ (← t.2.toBytes params.q))
  let challengeSeed := (hash (digest ++ parts.flatten)).bytes.take 16
  let challenge ← deriveChallenge hash params challengeSeed
  match ← respondAll params challenge (witnesses.zip masks) with
  | none => some (none, rng)
  | some responses =>
    let batchSeed ← batchSeedOf hash params challengeSeed responses
    some (some ⟨commitments, responses, challengeSeed, batchSeed⟩, rng)

/-- Turns of the loop; the last of them has no restart left. -/
def attempts (params : Params) (pk : PublicKey) (digest : Bytes)
    (witnesses : List EncryptionWitness) (count : Nat) : Nat → σ → Outcome (ZeroizeProof × σ)
  | 0, rng => do
    let (tried, rng) ← Outcome.step (attempt below hash params pk digest witnesses count rng)
    match tried with
    | some proof => pure (proof, rng)
    | none => .refused (.proof
        "rejection sampling exhausted (64 restarts) — masking parameters too tight")
  | left + 1, rng => do
    let (tried, rng) ← Outcome.step (attempt below hash params pk digest witnesses count rng)
    match tried with
    | some proof => pure (proof, rng)
    | none => attempts params pk digest witnesses count left rng

/-- Prove that every ciphertext is an encryption of zero. -/
def prove (params : Params) (pk : PublicKey) (statements : List Ciphertext)
    (witnesses : List EncryptionWitness) (rng : σ) : Outcome (ZeroizeProof × σ) := do
  Outcome.refuseIf (statements.length != witnesses.length || statements.isEmpty)
    (.proof "statement and witness sets must be non-empty and aligned")
  let digest ← Outcome.step (statementDigest hash params pk statements)
  attempts below hash params pk digest witnesses statements.length 63 rng

end

/-! ## What a proof is made of -/

structure EncryptionWitness.OfDegree (n : Nat) (w : EncryptionWitness) : Prop where
  r : w.r.coeffs.length = n
  e1 : w.e1.coeffs.length = n
  e2 : w.e2.coeffs.length = n

structure Mask.OfDegree (n : Nat) (mask : Mask) : Prop where
  y : mask.y.coeffs.length = n
  f1 : mask.f1.coeffs.length = n
  f2 : mask.f2.coeffs.length = n

/-- The commitment over the integers. -/
def Mask.commitZ (params : Params) (pk : PublicKey) (mask : Mask) : Poly × Poly :=
  (Poly.answerZ pk.a mask.y mask.f1 params.q, Poly.answerZ pk.b mask.y mask.f2 params.q)

/-- The response over the integers. -/
def respondZ (params : Params) (challenge : List (Nat × Int)) (w : EncryptionWitness) (mask : Mask) :
    Response where
  z := mask.y.addZ (w.r.mulSparseZ challenge params.q)
  z1 := mask.f1.addZ (w.e1.mulSparseZ challenge params.q)
  z2 := mask.f2.addZ (w.e2.mulSparseZ challenge params.q)

section

variable {σ : Type} {below : σ → Fin maskWidth × σ} {params : Params} {pk : PublicKey}

theorem length_maskPoly (n : Nat) (rng : σ) : (maskPoly below n rng).1.coeffs.length = n := by
  show (maskCoeffs below n rng).1.length = n
  induction n generalizing rng with
  | zero => rfl
  | succ n ih => exact congrArg Nat.succ (ih (below rng).2)

theorem drawMask_ofDegree (n : Nat) (rng : σ) : (drawMask below n rng).1.OfDegree n where
  y := length_maskPoly n _
  f1 := length_maskPoly n _
  f2 := length_maskPoly n _

theorem commit_eq {mask : Mask} {t : Poly × Poly} (h : mask.commit params pk = some t) :
    t = mask.commitZ params pk := by
  have hcommit : Exact (mask.commit params pk) _ (mask.commitZ params pk) :=
    answer_bind (answer_bind (Exact.of_some (mask.commitZ params pk)))
  exact (hcommit.eq_some_iff.mp h).2.symm

theorem commitSectors_eq {count : Nat} {rng rng' : σ} {commitments : List (Poly × Poly)}
    {masks : List Mask}
    (h : commitSectors below params pk count rng = some ((commitments, masks), rng')) :
    masks.length = count ∧ (∀ mask ∈ masks, mask.OfDegree params.n) ∧
      commitments = masks.map (Mask.commitZ params pk) := by
  induction count generalizing rng commitments masks with
  | zero =>
    cases h
    exact ⟨rfl, by simp, rfl⟩
  | succ count ih =>
    rw [commitSectors] at h
    obtain ⟨t, ht, hrest⟩ := Option.bind_eq_some_iff.mp h
    obtain ⟨⟨⟨ts, ms⟩, rng₁⟩, hsectors, hout⟩ := Option.bind_eq_some_iff.mp hrest
    cases hout
    obtain ⟨hlen, hdegree, hts⟩ := ih hsectors
    refine ⟨congrArg Nat.succ hlen, List.forall_mem_cons.mpr ⟨drawMask_ofDegree _ rng, hdegree⟩, ?_⟩
    rw [List.map_cons, commit_eq ht, hts]

theorem respond_eq {challenge : List (Nat × Int)} {w : EncryptionWitness} {mask : Mask}
    {r : Response} (h : respond params challenge w mask = some r) :
    r = respondZ params challenge w mask := by
  obtain ⟨cr, hcr, h⟩ := Option.bind_eq_some_iff.mp h
  obtain ⟨z, hz, h⟩ := Option.bind_eq_some_iff.mp h
  obtain ⟨ce1, hce1, h⟩ := Option.bind_eq_some_iff.mp h
  obtain ⟨z1, hz1, h⟩ := Option.bind_eq_some_iff.mp h
  obtain ⟨ce2, hce2, h⟩ := Option.bind_eq_some_iff.mp h
  obtain ⟨z2, hz2, h⟩ := Option.bind_eq_some_iff.mp h
  have hsum : ∀ {f e c x : Poly}, e.mulSparse challenge params.q = some c → f.add c = some x →
      x = f.addZ (e.mulSparseZ challenge params.q) := by
    intro f e c x hc hx
    rw [((Poly.mulSparse_exact e challenge params.q).eq_some_iff.mp hc).2]
    exact ((Poly.add_exact f c).eq_some_iff.mp hx).2.symm
  cases h
  rw [hsum hcr hz, hsum hce1 hz1, hsum hce2 hz2]
  rfl

/-- Responses that are not rejected: all of them, inside the mask. -/
theorem respondAll_eq {challenge : List (Nat × Int)} {pairs : List (EncryptionWitness × Mask)}
    {responses : List Response}
    (h : respondAll params challenge pairs = some (some responses)) :
    responses = pairs.map (fun pair => respondZ params challenge pair.1 pair.2) ∧
      ∀ r ∈ responses, r.exceedsMask = some false := by
  induction pairs generalizing responses with
  | nil =>
    cases h
    exact ⟨rfl, by simp⟩
  | cons pair rest ih =>
    obtain ⟨w, mask⟩ := pair
    rw [respondAll] at h
    obtain ⟨r, hr, h⟩ := Option.bind_eq_some_iff.mp h
    obtain ⟨exceeds, hexceeds, h⟩ := Option.bind_eq_some_iff.mp h
    cases exceeds with
    | true => cases h
    | false =>
      obtain ⟨tail, htail, h⟩ := Option.bind_eq_some_iff.mp h
      cases tail with
      | none => cases h
      | some tail =>
        cases h
        obtain ⟨htailEq, hnorms⟩ := ih htail
        exact ⟨by rw [List.map_cons, respond_eq hr, htailEq],
          List.forall_mem_cons.mpr ⟨hexceeds, hnorms⟩⟩

end

section

variable {σ : Type} (below : σ → Fin maskWidth × σ) (hash : Bytes → Block 32)

/-- A proof of the prover: its masks, its challenge, and what it made of them. -/
structure Honest (params : Params) (pk : PublicKey) (statements : List Ciphertext)
    (witnesses : List EncryptionWitness) (proof : ZeroizeProof) (masks : List Mask)
    (challenge : List (Nat × Int)) : Prop where
  nonempty : statements ≠ []
  aligned : witnesses.length = statements.length
  masked : masks.length = statements.length
  degree : ∀ mask ∈ masks, mask.OfDegree params.n
  commitments : proof.commitments = masks.map (Mask.commitZ params pk)
  transcript : TranscriptFits params.q pk statements proof.commitments
  seed : SeedBinds hash params pk statements proof
  drawn : deriveChallenge hash params proof.challengeSeed = some challenge
  responses : proof.responses
    = (witnesses.zip masks).map fun pair => respondZ params challenge pair.1 pair.2
  norms : ∀ r ∈ proof.responses, r.exceedsMask = some false

variable {params : Params} {pk : PublicKey} {statements : List Ciphertext}
  {witnesses : List EncryptionWitness}

theorem attempt_eq {digest challengeSeed batchSeed : Bytes} {count : Nat} {rng rng' : σ}
    {commitments : List (Poly × Poly)} {masks : List Mask} {parts : List Bytes}
    {challenge : List (Nat × Int)} {responses : List Response}
    (hsectors : commitSectors below params pk count rng = some ((commitments, masks), rng'))
    (hparts : (commitments.mapM fun t => do
      some ((← t.1.toBytes params.q) ++ (← t.2.toBytes params.q))) = some parts)
    (hseed : challengeSeed = (hash (digest ++ parts.flatten)).bytes.take 16)
    (hchallenge : deriveChallenge hash params challengeSeed = some challenge)
    (hresponses : respondAll params challenge (witnesses.zip masks) = some (some responses))
    (hbatch : batchSeedOf hash params challengeSeed responses = some batchSeed) :
    attempt below hash params pk digest witnesses count rng
      = some (some ⟨commitments, responses, challengeSeed, batchSeed⟩, rng') := by
  subst hseed
  rw [attempt, hsectors]
  show Option.bind (commitments.mapM _) _ = _
  rw [hparts]
  show Option.bind (deriveChallenge hash params _) _ = _
  rw [hchallenge]
  show Option.bind (respondAll params challenge _) _ = _
  rw [hresponses]
  show Option.bind (batchSeedOf hash params _ responses) _ = _
  rw [hbatch]
  rfl

/-- A turn that ends in a proof. -/
theorem attempt_honest {digest : Bytes} {rng rng' : σ} {proof : ZeroizeProof}
    (hstatements : statements ≠ []) (hlen : witnesses.length = statements.length)
    (hdigest : statementDigest hash params pk statements = some digest)
    (h : attempt below hash params pk digest witnesses statements.length rng
      = some (some proof, rng')) :
    ∃ masks challenge, Honest hash params pk statements witnesses proof masks challenge := by
  obtain ⟨⟨⟨commitments, masks⟩, rng₁⟩, hsectors, h⟩ := Option.bind_eq_some_iff.mp h
  obtain ⟨parts, hparts, h⟩ := Option.bind_eq_some_iff.mp h
  obtain ⟨challenge, hchallenge, h⟩ := Option.bind_eq_some_iff.mp h
  obtain ⟨answer, hanswer, h⟩ := Option.bind_eq_some_iff.mp h
  cases answer with
  | none => cases h
  | some responses =>
    obtain ⟨batchSeed, -, h⟩ := Option.bind_eq_some_iff.mp h
    cases h
    obtain ⟨hmasks, hdegree, hcommitments⟩ := commitSectors_eq hsectors
    obtain ⟨hresponses, hnorms⟩ := respondAll_eq hanswer
    -- the prover hashes the transcript that the verifiers hash
    have htranscript : transcript hash params pk statements commitments
        = some (digest ++ parts.flatten) := by
      rw [transcript, hdigest]
      show (commitments.mapM _ >>= fun parts => some (digest ++ parts.flatten)) = _
      rw [hparts]
      rfl
    obtain ⟨hfits, hbytes⟩ := (transcript_exact hash params pk statements _).eq_some_iff.mp
      htranscript
    exact ⟨masks, challenge, {
      nonempty := hstatements
      aligned := hlen
      masked := hmasks
      degree := hdegree
      commitments := hcommitments
      transcript := hfits
      seed := congrArg (fun bytes => (hash bytes).bytes.take 16) hbytes.symm
      drawn := hchallenge
      responses := hresponses
      norms := hnorms }⟩

theorem attempts_honest {digest : Bytes} {left : Nat} {rng rng' : σ} {proof : ZeroizeProof}
    (hstatements : statements ≠ []) (hlen : witnesses.length = statements.length)
    (hdigest : statementDigest hash params pk statements = some digest)
    (h : attempts below hash params pk digest witnesses statements.length left rng
      = .ok (proof, rng')) :
    ∃ masks challenge, Honest hash params pk statements witnesses proof masks challenge := by
  induction left generalizing rng with
  | zero =>
    rw [attempts] at h
    cases hturn : attempt below hash params pk digest witnesses statements.length rng with
    | none =>
      rw [hturn] at h
      cases h
    | some turn =>
      obtain ⟨tried, rng₁⟩ := turn
      rw [hturn] at h
      cases tried with
      | none => cases h
      | some tried =>
        cases h
        exact attempt_honest below hash hstatements hlen hdigest hturn
  | succ left ih =>
    rw [attempts] at h
    cases hturn : attempt below hash params pk digest witnesses statements.length rng with
    | none =>
      rw [hturn] at h
      cases h
    | some turn =>
      obtain ⟨tried, rng₁⟩ := turn
      rw [hturn] at h
      cases tried with
      | none => exact ih h
      | some tried =>
        cases h
        exact attempt_honest below hash hstatements hlen hdigest hturn

theorem attempts_first {digest : Bytes} {count left : Nat} {rng rng' : σ} {proof : ZeroizeProof}
    (h : attempt below hash params pk digest witnesses count rng = some (some proof, rng')) :
    attempts below hash params pk digest witnesses count left rng = .ok (proof, rng') := by
  cases left with
  | zero =>
    rw [attempts, h]
    rfl
  | succ left =>
    rw [attempts, h]
    rfl

theorem prove_eq {digest : Bytes} (hstatements : statements ≠ [])
    (hlen : witnesses.length = statements.length)
    (hdigest : statementDigest hash params pk statements = some digest) (rng : σ) :
    prove below hash params pk statements witnesses rng
      = attempts below hash params pk digest witnesses statements.length 63 rng := by
  have hshape : (statements.length != witnesses.length || statements.isEmpty) = false :=
    Bool.or_eq_false_iff.mpr ⟨bne_eq_false_iff_eq.mpr hlen.symm,
      List.isEmpty_eq_false_iff.mpr hstatements⟩
  rw [prove, hshape, hdigest]
  rfl

/-- **A returned proof is honest**, after however many restarts. -/
theorem prove_honest {rng rng' : σ} {proof : ZeroizeProof}
    (h : prove below hash params pk statements witnesses rng = .ok (proof, rng')) :
    ∃ masks challenge, Honest hash params pk statements witnesses proof masks challenge := by
  rw [prove] at h
  cases hshape : (statements.length != witnesses.length || statements.isEmpty) with
  | true =>
    rw [hshape] at h
    cases h
  | false =>
    rw [hshape] at h
    obtain ⟨hlen, hempty⟩ := Bool.or_eq_false_iff.mp hshape
    cases hdigest : statementDigest hash params pk statements with
    | none =>
      rw [hdigest] at h
      cases h
    | some digest =>
      rw [hdigest] at h
      exact attempts_honest below hash (List.isEmpty_eq_false_iff.mp hempty)
        (bne_eq_false_iff_eq.mp hlen).symm hdigest h

/-- A statement of the form `(a·r + e1, b·r + e2)` in the ring, with its witness. -/
structure Formed (params : Params) (pk : PublicKey) (c : Ciphertext) (w : EncryptionWitness) :
    Prop where
  ciphertext : c.OfDegree params.n
  witness : w.OfDegree params.n
  u : c.u.element params.q params.n = pk.a.element params.q params.n
    * w.r.element params.q params.n + w.e1.element params.q params.n
  v : c.v.element params.q params.n = pk.b.element params.q params.n
    * w.r.element params.q params.n + w.e2.element params.q params.n

theorem length_answerZ {n : Nat} {key z e : Poly} {q : Int} (hkey : key.coeffs.length = n)
    (he : e.coeffs.length = n) : (Poly.answerZ key z e q).coeffs.length = n := by
  rw [Poly.answerZ, Poly.length_centredZ, Poly.length_addZ (Poly.length_mulZ hkey z q) he]

/-- Masks and witnesses of the degree make a response of the degree. -/
theorem respondZ_ofDegree {challenge : List (Nat × Int)} {w : EncryptionWitness} {mask : Mask}
    (hw : w.OfDegree params.n) (hmask : mask.OfDegree params.n) :
    (respondZ params challenge w mask).OfDegree params.n where
  z := Poly.length_addZ hmask.y (Poly.length_mulSparseZ hw.r challenge params.q)
  z1 := Poly.length_addZ hmask.f1 (Poly.length_mulSparseZ hw.e1 challenge params.q)
  z2 := Poly.length_addZ hmask.f2 (Poly.length_mulSparseZ hw.e2 challenge params.q)

/-- One equation of an honest sector: `a·(y + c·r) + (f + c·e) = (a·y + f) + c·(a·r + e)`. -/
theorem equationIn_honest {q : Int} {n : Nat} (hq : 0 < q) {challenge : List (Nat × Int)}
    (hc : Poly.SparseTernary n challenge) {key y f r e half : Poly}
    (hkey : key.coeffs.length = n) (hy : y.coeffs.length = n) (hf : f.coeffs.length = n)
    (hr : r.coeffs.length = n) (he : e.coeffs.length = n)
    (hhalf : half.element q n = key.element q n * r.element q n + e.element q n) :
    EquationIn q n challenge key (y.addZ (r.mulSparseZ challenge q))
      (f.addZ (e.mulSparseZ challenge q)) (Poly.answerZ key y f q) half := by
  have hmul := Poly.length_mulZ hkey y q
  rw [EquationIn, Poly.element_addZ hy (Poly.length_mulSparseZ hr challenge q),
    Poly.element_addZ hf (Poly.length_mulSparseZ he challenge q), Poly.answerZ,
    Poly.element_centredZ hq (Poly.length_addZ hmul hf), Poly.element_addZ hmul hf,
    Poly.element_mulZ hq hkey, Poly.element_mulSparseZ hq hr hc, Poly.element_mulSparseZ hq he hc]
  linear_combination -(Poly.sparseElement q n challenge) * hhalf

variable {proof : ZeroizeProof} {masks : List Mask} {challenge : List (Nat × Int)}

theorem Honest.ofDegree (h : Honest hash params pk statements witnesses proof masks challenge)
    (hpk : pk.OfDegree params.n) (hwitnesses : ∀ w ∈ witnesses, w.OfDegree params.n) :
    proof.OfDegree params.n where
  commitments t ht := by
    rw [h.commitments] at ht
    obtain ⟨mask, hmask, rfl⟩ := List.mem_map.mp ht
    exact ⟨length_answerZ hpk.1 (h.degree mask hmask).f1,
      length_answerZ hpk.2 (h.degree mask hmask).f2⟩
  responses r hr := by
    rw [h.responses] at hr
    obtain ⟨pair, hpair, rfl⟩ := List.mem_map.mp hr
    obtain ⟨hw, hmask⟩ := List.of_mem_zip (a := pair.1) (b := pair.2) hpair
    exact respondZ_ofDegree (hwitnesses _ hw) (h.degree _ hmask)

/-- **Every sector of an honest proof holds in the ring.** -/
theorem Honest.sectorIn (hq : 0 < params.q)
    (h : Honest hash params pk statements witnesses proof masks challenge)
    (hpk : pk.OfDegree params.n)
    (hformed : List.Forall₂ (Formed params pk) statements witnesses) :
    ∀ s ∈ sectorsOf statements proof, SectorIn params.q params.n pk challenge s := by
  intro s hs
  have hc := deriveChallenge_sparseTernary hash h.drawn
  obtain ⟨i, hi, rfl⟩ := List.mem_iff_getElem.mp hs
  have hlen : (sectorsOf statements proof).length = statements.length := by
    rw [sectorsOf, h.commitments, h.responses]
    simp [h.masked, h.aligned]
  have hstatement : i < statements.length := hlen ▸ hi
  have hwitness : i < witnesses.length := by rw [h.aligned]; exact hstatement
  have hmask : i < masks.length := by rw [h.masked]; exact hstatement
  have hsector : (sectorsOf statements proof)[i] = ((masks[i].commitZ params pk,
      respondZ params challenge witnesses[i] masks[i]), statements[i]) := by
    simp [sectorsOf, h.commitments, h.responses]
  have hform : Formed params pk statements[i] witnesses[i] := hformed.get hstatement hwitness
  have hdegree := h.degree masks[i] (List.getElem_mem hmask)
  rw [hsector]
  exact {
    degree := {
      t1 := length_answerZ hpk.1 hdegree.f1
      t2 := length_answerZ hpk.2 hdegree.f2
      response := respondZ_ofDegree hform.witness hdegree
      ciphertext := hform.ciphertext }
    a := equationIn_honest hq hc hpk.1 hdegree.y hdegree.f1 hform.witness.r hform.witness.e1 hform.u
    b := equationIn_honest hq hc hpk.2 hdegree.y hdegree.f2 hform.witness.r hform.witness.e2
      hform.v }

theorem Honest.checked (h : Honest hash params pk statements witnesses proof masks challenge) :
    Checked hash params pk statements proof where
  shape := {
    commitments := by rw [h.commitments, List.length_map, h.masked]
    responses := by simp [h.responses, h.masked, h.aligned]
    statements := h.nonempty }
  transcript := h.transcript
  seed := h.seed
  norms := h.norms

/-! ## When an honest proof is accepted -/

/-- Every sector is computed within its words; modulo 2, its sides also carry the same signs. -/
def SectorsRoom (params : Params) (pk : PublicKey) (statements : List Ciphertext)
    (proof : ZeroizeProof) : Prop :=
  ∀ challenge, deriveChallenge hash params proof.challengeSeed = some challenge →
    ∀ s ∈ sectorsOf statements proof, SectorFits params pk challenge s ∧ (params.q = 2 →
      EquationSigns params.q challenge pk.a s.1.2.z s.1.2.z1 s.1.1.1 s.2.u ∧
        EquationSigns params.q challenge pk.b s.1.2.z s.1.2.z2 s.1.1.2 s.2.v)

/-- **Full verification of an honest proof** fails for want of room only. -/
theorem Honest.verifyFull_iff (hparams : params.validate = .ok ())
    (h : Honest hash params pk statements witnesses proof masks challenge)
    (hpk : pk.OfDegree params.n)
    (hformed : List.Forall₂ (Formed params pk) statements witnesses) :
    verifyFull hash params pk statements proof = .ok () ↔
      SectorsRoom hash params pk statements proof := by
  have hq := params.validate_admitted hparams
  have hc := deriveChallenge_sparseTernary hash h.drawn
  have hsectors := h.sectorIn hash hq.pos hpk hformed
  rw [verifyFull_eq_ok, and_iff_right (h.checked hash), SectorsRoom]
  constructor
  · rintro ⟨challenge', hchallenge', hfits, hholds⟩ c hderived s hs
    rw [hchallenge'] at hderived
    cases hderived
    rw [h.drawn] at hchallenge'
    cases hchallenge'
    exact ⟨hfits s hs,
      ((sectorHoldsZ_iff hparams hpk hc (hsectors s hs).degree).mp (hholds s hs)).2⟩
  · intro hroom
    have hroom := hroom challenge h.drawn
    refine ⟨challenge, h.drawn, fun s hs => (hroom s hs).1, fun s hs => ?_⟩
    exact (sectorHoldsZ_iff hparams hpk hc (hsectors s hs).degree).mpr
      ⟨hsectors s hs, (hroom s hs).2⟩

theorem forall_of_forall₂ {α β : Type} {R : α → β → Prop} {P : α → Prop} {Q : β → Prop}
    (hR : ∀ a b, R a b → P a ∧ Q b) {as : List α} {bs : List β} (h : List.Forall₂ R as bs) :
    (∀ a ∈ as, P a) ∧ ∀ b ∈ bs, Q b := by
  induction h with
  | nil => simp
  | cons hab _ ih =>
    exact ⟨List.forall_mem_cons.mpr ⟨(hR _ _ hab).1, ih.1⟩,
      List.forall_mem_cons.mpr ⟨(hR _ _ hab).2, ih.2⟩⟩

/-- **When both verifiers accept an honest proof.** -/
theorem Honest.accepted_iff (hparams : params.validate = .ok ())
    (h : Honest hash params pk statements witnesses proof masks challenge)
    (hpk : pk.OfDegree params.n)
    (hformed : List.Forall₂ (Formed params pk) statements witnesses) :
    (verifyFull hash params pk statements proof = .ok () ∧
        verifyBatched hash params pk statements proof = .ok ()) ↔
      SectorsRoom hash params pk statements proof ∧
        HasBatchRoom hash params pk statements proof := by
  obtain ⟨hstatements, hwitnesses⟩ := forall_of_forall₂
    (fun c w (hform : Formed params pk c w) => ⟨hform.ciphertext, hform.witness⟩) hformed
  have hfull := h.verifyFull_iff hash hparams hpk hformed
  rw [← hfull]
  exact and_congr_right fun haccepted => verifyBatched_of_full hash hparams hpk hstatements
    (h.ofDegree hash hpk hwitnesses) haccepted

end

end DiscCleaner.Fhe
