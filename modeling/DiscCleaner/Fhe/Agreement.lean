import DiscCleaner.Fhe.Prover

/-!
# DiscCleaner — where the two verifiers agree (`zkp.rs`)

The room that the batch asks for, from bounds: with an odd modulus, centred keys, ciphertexts and
commitments, and products that fit, nothing leaves its word, and the verdicts agree.

* **`room_of_centred`** — centred vectors have room.
* **`honest_accepted`** — with such vectors, what the prover returns is accepted by both.
* **`verifiers_agree_iff`** — the exact condition, for every proof.
-/

namespace DiscCleaner.Fhe

open ByteLib CheckedLib NegacyclicLib

/-- An odd modulus, and a degree whose products of centred and of masked coefficients fit. -/
structure Roomy (params : Params) : Prop where
  odd : OddModulus params.q
  three : 3 ≤ params.q
  degree : 256 ≤ params.n
  products : params.n * (half params.q * max (half params.q) maskBound) < 2 ^ 63

namespace Roomy

variable {params : Params}

theorem modulus_eq (h : Roomy params) : params.q = 2 * half params.q + 1 := by
  have := h.odd.odd
  unfold half
  omega

theorem one_le_half (h : Roomy params) : 1 ≤ half params.q := by
  have := h.modulus_eq
  have := h.three
  omega

theorem half_le_max (_h : Roomy params) : half params.q ≤ max (half params.q) maskBound :=
  le_max_left _ _

/-- What the sums of the loops come to. -/
theorem sums_fit (h : Roomy params) :
    half params.q + max (half params.q) maskBound < 2 ^ 63 ∧
      half params.q + max (half params.q) maskBound * params.q < 2 ^ 63 := by
  have hone := h.one_le_half
  have hmax := h.half_le_max
  have hmodulus := h.modulus_eq
  have hproducts := h.products
  have hn : (256 : Int) ≤ params.n := by exact_mod_cast h.degree
  generalize max (half params.q) maskBound = B at hmax hproducts ⊢
  generalize half params.q = hf at hone hmax hmodulus hproducts ⊢
  have hB : B ≤ hf * B := by nlinarith
  have hcells : 256 * (hf * B) ≤ params.n * (hf * B) :=
    mul_le_mul_of_nonneg_right hn (mul_nonneg (by omega) (by omega))
  have hscaled : B * params.q = 2 * (hf * B) + B := by
    rw [hmodulus]
    ring
  constructor <;> omega

/-- Sixteen terms of at most a modulus each, in every cell. -/
theorem sparse_fits (h : Roomy params) : 16 * (params.n * params.q) < 2 ^ 63 := by
  have hone := h.one_le_half
  have hmodulus := h.modulus_eq
  have hproducts := h.products
  have hmask : (2 : Int) ^ 22 ≤ max (half params.q) maskBound := le_max_right _ _
  have hn : (0 : Int) ≤ params.n := Int.natCast_nonneg _
  generalize max (half params.q) maskBound = B at hmask hproducts
  generalize half params.q = hf at hone hmodulus hproducts
  have hcells : params.n * hf * 2 ^ 22 ≤ params.n * (hf * B) := by
    rw [mul_assoc]
    exact mul_le_mul_of_nonneg_left (mul_le_mul_of_nonneg_left hmask (by omega)) hn
  have hdegree : params.n ≤ params.n * hf := le_mul_of_one_le_right hn hone
  have hsum : 16 * (params.n * params.q) = 32 * (params.n * hf) + 16 * params.n := by
    rw [hmodulus]
    ring
  omega

end Roomy

/-! ## Bounds -/

namespace Poly

variable {q : Int} {n : Nat}

def Bounded (B : Int) (p : Poly) : Prop := ∀ c ∈ p.coeffs, |c| ≤ B

theorem InRing.bounded (hq : OddModulus q) {p : Poly} (hp : p.InRing n q) : p.Bounded (half q) :=
  fun c hc => centred_abs_le hq (hp.centred c hc)

theorem Bounded.mono {A B : Int} {p : Poly} (hp : p.Bounded A) (h : A ≤ B) : p.Bounded B :=
  fun c hc => (hp c hc).trans h

theorem bounded_of_infNorm {B m : Int} {p : Poly} (hp : p.infNorm = some m) (hm : m ≤ B) :
    p.Bounded B := by
  have hfold : ∀ (cs : List Int) (m : Int), m ≤ cs.foldl (fun m c => max m |c|) m ∧
      ∀ c ∈ cs, |c| ≤ cs.foldl (fun m c => max m |c|) m := by
    intro cs
    induction cs with
    | nil => exact fun m => ⟨le_refl m, by simp⟩
    | cons c cs ih =>
      intro m
      obtain ⟨hstart, hrest⟩ := ih (max m |c|)
      exact ⟨(le_max_left _ _).trans hstart,
        List.forall_mem_cons.mpr ⟨(le_max_right _ _).trans hstart, hrest⟩⟩
  intro c hc
  have hnorm : p.infNormZ = m := ((infNorm_exact p).eq_some_iff.mp hp).2
  have hle : |c| ≤ p.infNormZ := (hfold p.coeffs 0).2 c hc
  omega

/-- A sum of two bounded vectors, and its reduction. -/
theorem sumFits (hq : OddModulus q) {A B : Int} {p r : Poly} (hp : p.Bounded A) (hr : r.Bounded B)
    (hfit : A + B < 2 ^ 63) : p.AddFits r ∧ (p.addZ r).CentredFits q := by
  have hadd : p.AddFits r := fun ab hab => inI64_of_abs_le
    ((abs_add_le _ _).trans (add_le_add (hp _ (List.of_mem_zip hab).1)
      (hr _ (List.of_mem_zip hab).2))) hfit
  refine ⟨hadd, fun c hc => ?_⟩
  obtain ⟨ab, hab, rfl⟩ := List.mem_map.mp hc
  obtain ⟨hpos, -, hlt⟩ := hq
  exact centreFits_of_pos hpos ⟨by omega, by omega⟩ (hadd ab hab)

theorem inRing_mulZ (hq : OddModulus q) {p : Poly} (hp : p.coeffs.length = n) (r : Poly) :
    (p.mulZ r q).InRing n q :=
  inRing_centredZ hq (by rw [productZ_eq hp, length_addTermsZ, List.length_replicate])

theorem inRing_mulSparseZ (hq : OddModulus q) {p : Poly} (hp : p.coeffs.length = n)
    (t : List (Nat × Int)) : (p.mulSparseZ t q).InRing n q :=
  inRing_centredZ hq (by rw [sparseProductZ_eq hp, length_addTermsZ, List.length_replicate])

theorem mulFits_of_bounded (hq : OddModulus q) (hn : 0 < n) {p r : Poly} (hp : p.InRing n q)
    (hr : r.coeffs.length = n) {B : Int} (hB : 0 ≤ B) (hrB : r.Bounded B)
    (hfit : n * (half q * B) < 2 ^ 63) : p.MulFits r q := by
  obtain ⟨m, hm, -⟩ := mul_bounded hq hn hp.length hr (hp.boundedBy hq) (boundedBy_of_mem hB hrB)
    hfit
  exact ((mul_exact p r q).eq_some_iff.mp hm).1

end Poly

section

variable {params : Params} {challenge : List (Nat × Int)}

theorem answerFits_of_bounded (h : Roomy params) {key z e : Poly}
    (hkey : key.InRing params.n params.q) (hz : z.coeffs.length = params.n)
    (hzB : z.Bounded (max (half params.q) maskBound))
    (heB : e.Bounded (max (half params.q) maskBound)) : Poly.AnswerFits key z e params.q := by
  have hmul := Poly.inRing_mulZ h.odd hkey.length z
  have hfits := Poly.sumFits h.odd (hmul.bounded h.odd) heB h.sums_fit.1
  have hone := h.one_le_half
  have hmax := h.half_le_max
  have hdegree := h.degree
  exact ⟨Poly.mulFits_of_bounded h.odd (by omega) hkey hz (by omega) hzB h.products, hfits.1,
    hfits.2⟩

theorem claimFits_of_bounded (h : Roomy params) {t hf : Poly} {A : Int} (ht : t.Bounded A)
    (hsum : A + half params.q < 2 ^ 63) (hhf : hf.InRing params.n params.q)
    (hc : Poly.SparseTernary params.n challenge) (hweight : challenge.length ≤ challengeWeight) :
    Poly.ClaimFits t hf challenge params.q := by
  have hfits := Poly.sumFits h.odd ht
    ((Poly.inRing_mulSparseZ h.odd hhf.length challenge).bounded h.odd) hsum
  have hterms : ((challenge.length * params.n : Nat) : Int) * params.q < 2 ^ 63 := by
    have hlen : (challenge.length : Int) ≤ 16 := by exact_mod_cast hweight
    calc ((challenge.length * params.n : Nat) : Int) * params.q
        = challenge.length * (params.n * params.q) := by push_cast; ring
      _ ≤ 16 * (params.n * params.q) := mul_le_mul_of_nonneg_right hlen
          (mul_nonneg (Int.natCast_nonneg _) h.odd.pos.le)
      _ < 2 ^ 63 := h.sparse_fits
  obtain ⟨m, hm, -⟩ := Poly.mulSparse_ok h.odd hhf hc hterms
  exact ⟨((Poly.mulSparse_exact hf challenge params.q).eq_some_iff.mp hm).1, hfits.1, hfits.2⟩

theorem claimFits_of_centred (h : Roomy params) {t hf : Poly} (ht : t.InRing params.n params.q)
    (hhf : hf.InRing params.n params.q) (hc : Poly.SparseTernary params.n challenge)
    (hweight : challenge.length ≤ challengeWeight) : Poly.ClaimFits t hf challenge params.q := by
  have hmax := h.half_le_max
  have hsum := h.sums_fit.1
  exact claimFits_of_bounded h (ht.bounded h.odd) (by omega) hhf hc hweight

theorem addScaledFits_of_bounded (h : Roomy params) {sum p : Poly}
    (hsum : sum.InRing params.n params.q) (hp : p.Bounded (max (half params.q) maskBound)) {g : Int}
    (hg : 0 ≤ g ∧ g < params.q) : AddScaledFits params.q g sum p := by
  have hscaled : (p.scaleZ g).Bounded (max (half params.q) maskBound * params.q) := by
    intro c hc
    obtain ⟨x, hx, rfl⟩ := List.mem_map.mp hc
    have hmax := h.half_le_max
    have hone := h.one_le_half
    rw [abs_mul, abs_of_nonneg hg.1]
    exact mul_le_mul (hp x hx) hg.2.le hg.1 (by omega)
  have hfits := Poly.sumFits h.odd (hsum.bounded h.odd) hscaled h.sums_fit.2
  refine ⟨fun c hc => ?_, hfits.1, hfits.2⟩
  have hbound := h.sums_fit.2
  have hone := h.one_le_half
  exact inI64_of_abs_le (hscaled (c * g) (List.mem_map_of_mem hc)) (by omega)

/-! ## The room of centred vectors -/

/-- A sector of centred vectors, with a response inside the mask. -/
structure SectorCentred (params : Params) (s : Sector) : Prop where
  t1 : s.1.1.1.InRing params.n params.q
  t2 : s.1.1.2.InRing params.n params.q
  response : s.1.2.OfDegree params.n
  z : s.1.2.z.Bounded maskBound
  z1 : s.1.2.z1.Bounded maskBound
  z2 : s.1.2.z2.Bounded maskBound
  ciphertext : s.2.InRing params

/-- Sums that are elements of the ring. -/
structure SumsInRing (params : Params) (sums : BatchSums) : Prop where
  z : sums.z.InRing params.n params.q
  z1 : sums.z1.InRing params.n params.q
  z2 : sums.z2.InRing params.n params.q
  t1 : sums.t1.InRing params.n params.q
  t2 : sums.t2.InRing params.n params.q
  u : sums.u.InRing params.n params.q
  v : sums.v.InRing params.n params.q

theorem sumsInRing_start (hq : 0 < params.q) : SumsInRing params (BatchSums.start params.n) where
  z := Poly.zero_inRing hq _
  z1 := Poly.zero_inRing hq _
  z2 := Poly.zero_inRing hq _
  t1 := Poly.zero_inRing hq _
  t2 := Poly.zero_inRing hq _
  u := Poly.zero_inRing hq _
  v := Poly.zero_inRing hq _

theorem inRing_addScaledZ (h : Roomy params) {sum p : Poly} (hsum : sum.InRing params.n params.q)
    (hp : p.coeffs.length = params.n) (g : Int) :
    (addScaledZ params.q g sum p).InRing params.n params.q :=
  Poly.inRing_centredZ h.odd (Poly.length_addZ hsum.length (by rwa [Poly.length_scaleZ]))

theorem SumsInRing.next (h : Roomy params) {sums : BatchSums} (hsums : SumsInRing params sums)
    {s : Sector} (hs : SectorCentred params s) (g : Int) :
    SumsInRing params (sums.nextZ params.q (s, g)) where
  z := inRing_addScaledZ h hsums.z hs.response.z g
  z1 := inRing_addScaledZ h hsums.z1 hs.response.z1 g
  z2 := inRing_addScaledZ h hsums.z2 hs.response.z2 g
  t1 := inRing_addScaledZ h hsums.t1 hs.t1.length g
  t2 := inRing_addScaledZ h hsums.t2 hs.t2.length g
  u := inRing_addScaledZ h hsums.u hs.ciphertext.u.length g
  v := inRing_addScaledZ h hsums.v hs.ciphertext.v.length g

theorem SumsInRing.nextFits (h : Roomy params) {sums : BatchSums} (hsums : SumsInRing params sums)
    {s : Sector} (hs : SectorCentred params s) {g : Int} (hg : 0 ≤ g ∧ g < params.q) :
    sums.NextFits params.q (s, g) := by
  have hmask : maskBound ≤ max (half params.q) maskBound := le_max_right _ _
  have hcentred : ∀ {p : Poly}, p.InRing params.n params.q →
      p.Bounded (max (half params.q) maskBound) := fun hp => (hp.bounded h.odd).mono h.half_le_max
  exact {
    z := addScaledFits_of_bounded h hsums.z (hs.z.mono hmask) hg
    z1 := addScaledFits_of_bounded h hsums.z1 (hs.z1.mono hmask) hg
    z2 := addScaledFits_of_bounded h hsums.z2 (hs.z2.mono hmask) hg
    t1 := addScaledFits_of_bounded h hsums.t1 (hcentred hs.t1) hg
    t2 := addScaledFits_of_bounded h hsums.t2 (hcentred hs.t2) hg
    u := addScaledFits_of_bounded h hsums.u (hcentred hs.ciphertext.u) hg
    v := addScaledFits_of_bounded h hsums.v (hcentred hs.ciphertext.v) hg }

/-- The loop of the batch fits, and leaves elements of the ring. -/
theorem sums_run (h : Roomy params) {terms : List (Sector × Int)}
    (hterms : ∀ term ∈ terms, SectorCentred params term.1 ∧ 0 ≤ term.2 ∧ term.2 < params.q)
    {sums : BatchSums} (hsums : SumsInRing params sums) :
    FoldFits (BatchSums.NextFits params.q) (BatchSums.nextZ params.q) sums terms ∧
      SumsInRing params (terms.foldl (BatchSums.nextZ params.q) sums) := by
  induction terms generalizing sums with
  | nil => exact ⟨trivial, hsums⟩
  | cons term rest ih =>
    obtain ⟨⟨hs, hg⟩, hrest⟩ := List.forall_mem_cons.mp hterms
    obtain ⟨hfits, hring⟩ := ih hrest (hsums.next h hs term.2)
    exact ⟨⟨hsums.nextFits h hs hg, hfits⟩, hring⟩

variable (hash : Bytes → Block 32)

theorem coefficientsZ_range {q : Int} (hq : 0 < q) (seed : Bytes) (turns ctr count : Nat) :
    ∀ g ∈ coefficientsZ hash q seed turns ctr count, 0 ≤ g ∧ g < q := by
  induction turns generalizing ctr count with
  | zero => cases count <;> simp [coefficientsZ]
  | succ turns ih =>
    cases count with
    | zero => simp [coefficientsZ]
    | succ count =>
      intro g hg
      rcases List.mem_append.mp hg with hdrawn | hrest
      · obtain ⟨chunk, -, rfl⟩ := List.mem_map.mp hdrawn
        rw [Int.tmod_eq_emod_of_nonneg (Int.natCast_nonneg _)]
        exact ⟨Int.emod_nonneg _ hq.ne', Int.emod_lt_of_pos _ hq⟩
      · exact ih (ctr + 1) _ g hrest

theorem deriveChallenge_length {seed : Bytes} {challenge : List (Nat × Int)}
    (h : deriveChallenge hash params seed = some challenge) :
    challenge.length ≤ challengeWeight := by
  refine (drawTerms_inv hash (P := fun terms => terms.length ≤ challengeWeight)
    (fun terms chunk terms' hterms hdraw => ?_) (Nat.zero_le _) h).1
  simp only [drawTerm] at hdraw
  by_cases hfull : terms.length = challengeWeight
  · rw [if_pos hfull] at hdraw
    exact Option.some.inj hdraw ▸ hterms
  · rw [if_neg hfull] at hdraw
    split_ifs at hdraw
    all_goals
      rw [← Option.some.inj hdraw]
      try rw [List.length_append, List.length_singleton]
      omega

variable {pk : PublicKey} {statements : List Ciphertext} {proof : ZeroizeProof}

/-- A proof of centred commitments, whose responses are inside the mask. -/
structure ProofCentred (params : Params) (proof : ZeroizeProof) : Prop where
  commitments : ∀ t ∈ proof.commitments,
    t.1.InRing params.n params.q ∧ t.2.InRing params.n params.q
  responses : ∀ r ∈ proof.responses, r.OfDegree params.n ∧ r.exceedsMask = some false

theorem bounded_of_exceedsMask {r : Response} (h : r.exceedsMask = some false) :
    r.z.Bounded maskBound ∧ r.z1.Bounded maskBound ∧ r.z2.Bounded maskBound := by
  obtain ⟨m, hm, h⟩ := Option.bind_eq_some_iff.mp h
  split_ifs at h with hz
  · cases h
  obtain ⟨m1, hm1, h⟩ := Option.bind_eq_some_iff.mp h
  split_ifs at h with hz1
  · cases h
  obtain ⟨m2, hm2, h⟩ := Option.bind_eq_some_iff.mp h
  have hz2 : ¬maskBound < m2 := of_decide_eq_false (Option.some.inj h)
  exact ⟨Poly.bounded_of_infNorm hm (not_lt.mp hz), Poly.bounded_of_infNorm hm1 (not_lt.mp hz1),
    Poly.bounded_of_infNorm hm2 (not_lt.mp hz2)⟩

theorem sectorsOf_centred (hstatements : ∀ c ∈ statements, c.InRing params)
    (hproof : ProofCentred params proof) :
    ∀ s ∈ sectorsOf statements proof, SectorCentred params s := by
  intro s hs
  obtain ⟨hleft, hc⟩ := List.of_mem_zip (a := s.1) (b := s.2) hs
  obtain ⟨ht, hr⟩ := List.of_mem_zip (a := s.1.1) (b := s.1.2) hleft
  obtain ⟨hdegree, hnorm⟩ := hproof.responses _ hr
  obtain ⟨hz, hz1, hz2⟩ := bounded_of_exceedsMask hnorm
  exact ⟨(hproof.commitments _ ht).1, (hproof.commitments _ ht).2, hdegree, hz, hz1, hz2,
    hstatements _ hc⟩

/-- **Centred vectors have room**, in their sectors and in the batch. -/
theorem room_of_centred (h : Roomy params) (ha : pk.a.InRing params.n params.q)
    (hb : pk.b.InRing params.n params.q) (hstatements : ∀ c ∈ statements, c.InRing params)
    (hcount : statements.length ≤ 16 * (2 ^ 64 - 1)) (hproof : ProofCentred params proof) :
    SectorsRoom hash params pk statements proof ∧ HasBatchRoom hash params pk statements proof := by
  have hmask : maskBound ≤ max (half params.q) maskBound := le_max_right _ _
  have htwo : params.q ≠ 2 := by have := h.three; omega
  have hsectors := sectorsOf_centred hstatements hproof
  refine ⟨fun challenge hchallenge s hs => ⟨?_, fun hq => absurd hq htwo⟩,
    Or.inr ⟨h.odd.pos.ne', hcount⟩, fun challenge hchallenge => ?_⟩
  · have hc := deriveChallenge_sparseTernary hash hchallenge
    have hweight := deriveChallenge_length hash hchallenge
    obtain ⟨ht1, ht2, hdegree, hz, hz1, hz2, hcipher⟩ := hsectors s hs
    exact ⟨⟨answerFits_of_bounded h ha hdegree.z (hz.mono hmask) (hz1.mono hmask),
        claimFits_of_centred h ht1 hcipher.u hc hweight⟩,
      answerFits_of_bounded h hb hdegree.z (hz.mono hmask) (hz2.mono hmask),
        claimFits_of_centred h ht2 hcipher.v hc hweight⟩
  · have hc := deriveChallenge_sparseTernary hash hchallenge
    have hweight := deriveChallenge_length hash hchallenge
    have hterms : ∀ term ∈ (sectorsOf statements proof).zip (gammaZ hash params statements proof),
        SectorCentred params term.1 ∧ 0 ≤ term.2 ∧ term.2 < params.q := by
      intro term hterm
      obtain ⟨hs, hg⟩ := List.of_mem_zip (a := term.1) (b := term.2) hterm
      exact ⟨hsectors _ hs, coefficientsZ_range hash h.odd.pos _ _ _ _ _ hg⟩
    obtain ⟨hfits, hsums⟩ := sums_run h hterms (sumsInRing_start h.odd.pos)
    have hcentred : ∀ {p : Poly}, p.InRing params.n params.q →
        p.Bounded (max (half params.q) maskBound) := fun hp => (hp.bounded h.odd).mono h.half_le_max
    have halloc : 8 * params.n < 2 ^ 63 := by
      have hsparse := h.sparse_fits
      have hthree := h.three
      have hn : (0 : Int) ≤ params.n := Int.natCast_nonneg _
      have hmodulus : (params.n : Int) ≤ params.n * params.q :=
        le_mul_of_one_le_right hn (by omega)
      omega
    exact {
      fits := {
        alloc := halloc
        sums := hfits
        a := ⟨answerFits_of_bounded h ha hsums.z.length (hcentred hsums.z) (hcentred hsums.z1),
          claimFits_of_centred h hsums.t1 hsums.u hc hweight⟩
        b := ⟨answerFits_of_bounded h hb hsums.z.length (hcentred hsums.z) (hcentred hsums.z2),
          claimFits_of_centred h hsums.t2 hsums.v hc hweight⟩ }
      signsA := fun hq => absurd hq htwo
      signsB := fun hq => absurd hq htwo }

variable {σ : Type} (below : σ → Fin maskWidth × σ) {witnesses : List EncryptionWitness}

theorem Honest.proofCentred (hq : OddModulus params.q) {masks : List Mask}
    {challenge : List (Nat × Int)} (hpk : pk.OfDegree params.n)
    (hwitnesses : ∀ w ∈ witnesses, w.OfDegree params.n)
    (h : Honest hash params pk statements witnesses proof masks challenge) :
    ProofCentred params proof where
  commitments t ht := by
    rw [h.commitments] at ht
    obtain ⟨mask, hmask, rfl⟩ := List.mem_map.mp ht
    have hdegree := h.degree mask hmask
    exact ⟨Poly.inRing_centredZ hq (Poly.length_addZ (Poly.length_mulZ hpk.1 _ _) hdegree.f1),
      Poly.inRing_centredZ hq (Poly.length_addZ (Poly.length_mulZ hpk.2 _ _) hdegree.f2)⟩
  responses r hr := ⟨(h.ofDegree hash hpk hwitnesses).responses r hr, h.norms r hr⟩

/-- **An honest proof over centred vectors is accepted by both verifiers.** -/
theorem honest_accepted (hparams : params.validate = .ok ()) (hroomy : Roomy params)
    (ha : pk.a.InRing params.n params.q) (hb : pk.b.InRing params.n params.q)
    (hstatements : ∀ c ∈ statements, c.InRing params)
    (hcount : statements.length ≤ 16 * (2 ^ 64 - 1))
    (hformed : List.Forall₂ (Formed params pk) statements witnesses) {rng rng' : σ}
    (hprove : prove below hash params pk statements witnesses rng = .ok (proof, rng')) :
    verifyFull hash params pk statements proof = .ok () ∧
      verifyBatched hash params pk statements proof = .ok () := by
  have hpk : pk.OfDegree params.n := ⟨ha.length, hb.length⟩
  obtain ⟨masks, challenge, h⟩ := prove_honest below hash hprove
  have hwitnesses := (forall_of_forall₂ (P := fun _ => True)
    (fun c w (hform : Formed params pk c w) => ⟨trivial, hform.witness⟩) hformed).2
  exact (h.accepted_iff hash hparams hpk hformed).mpr (room_of_centred hash hroomy ha hb hstatements
    hcount (h.proofCentred hash hroomy.odd hpk hwitnesses))

/-- **The verifiers agree** exactly where no proof that passes in full is short of room in the
batch; and what the prover returns is accepted by both exactly where its sectors and its batch have
room. -/
theorem verifiers_agree_iff (params : Params) (hparams : params.validate = .ok ()) (pk : PublicKey)
    (hpk : pk.OfDegree params.n) :
    (∀ (statements : List Ciphertext) (proof : ZeroizeProof),
      (∀ c ∈ statements, c.OfDegree params.n) → proof.OfDegree params.n →
        ((verifyBatched hash params pk statements proof = .ok () ↔
            verifyFull hash params pk statements proof = .ok ()) ↔
          (verifyFull hash params pk statements proof = .ok () →
            HasBatchRoom hash params pk statements proof))) ∧
    ∀ (statements : List Ciphertext) (witnesses : List EncryptionWitness) (rng rng' : σ)
      (proof : ZeroizeProof), List.Forall₂ (Formed params pk) statements witnesses →
        prove below hash params pk statements witnesses rng = .ok (proof, rng') →
          ((verifyFull hash params pk statements proof = .ok () ∧
              verifyBatched hash params pk statements proof = .ok ()) ↔
            SectorsRoom hash params pk statements proof ∧
              HasBatchRoom hash params pk statements proof) := by
  constructor
  · intro statements proof hstatements hproof
    exact verifyBatched_agrees_iff hash hparams hpk hstatements hproof
  · intro statements witnesses rng rng' proof hformed hprove
    obtain ⟨masks, challenge, h⟩ := prove_honest below hash hprove
    exact h.accepted_iff hash hparams hpk hformed

end

/-! ### A run -/

/-- A hash whose blocks draw the positions of its counter, four each. -/
def counterHash (bs : Bytes) : Block 32 where
  bytes := (List.range 4).flatMap fun j =>
    UInt8.ofNat (4 * (bs.getD (bs.length - 8) 0).toNat + j + 2) :: List.replicate 7 0
  size := rfl

def smallParams : Params := ⟨256, 257, 1⟩

theorem smallParams_validate : smallParams.validate = .ok () := by decide

theorem smallParams_roomy : Roomy smallParams where
  odd := ⟨by decide, by decide, by decide⟩
  three := by decide
  degree := le_refl 256
  products := by decide

def zeroPoly : Poly := Poly.zero smallParams.n

def zeroKey : PublicKey := ⟨zeroPoly, zeroPoly⟩

def zeroCiphertext : Ciphertext := ⟨zeroPoly, zeroPoly⟩

def zeroWitness : EncryptionWitness := ⟨zeroPoly, zeroPoly, zeroPoly⟩

/-- A generator whose masks are all zero. -/
def centreBelow (u : Unit) : Fin maskWidth × Unit := (⟨2 ^ 22, by decide⟩, u)

theorem zeroPoly_inRing : zeroPoly.InRing smallParams.n smallParams.q :=
  Poly.zero_inRing (by decide) smallParams.n

theorem counterHash_counter (seed : Bytes) (ctr high : Nat) :
    counterHash (seed ++ le32 ctr ++ le32 high) = counterHash (le32 ctr ++ le32 high) := by
  have hbyte : (seed ++ le32 ctr ++ le32 high).getD ((seed ++ le32 ctr ++ le32 high).length - 8) 0
      = UInt8.ofNat ctr := by
    rw [List.append_assoc, List.length_append]
    simp [le32]
  refine Block.ext ?_
  rw [counterHash, counterHash, hbyte]
  rfl

/-- The positions 2 to 17, each with the sign of its parity. -/
def counterChallenge : List (Nat × Int) :=
  (List.range 16).map fun i => (i + 2, if i % 2 = 0 then 1 else -1)

theorem counter_drawTerms (seed : Bytes) {turns : Nat} (hturns : 4 ≤ turns) :
    drawTerms counterHash smallParams.n seed turns 0 [] = some counterChallenge := by
  obtain ⟨turns, rfl⟩ : ∃ k, turns = k + 4 := ⟨turns - 4, by omega⟩
  have hblock : ∀ k < 4, (asChunks 8 (counterHash (le32 k ++ le32 (k / 2 ^ 32))).bytes).foldlM
      (drawTerm smallParams.n) (counterChallenge.take (4 * k)) = some (counterChallenge.take (4 * k + 4)) := by
    decide
  have hturn : ∀ k < 4, ∀ turns, drawTerms counterHash smallParams.n seed (turns + 1) k
      (counterChallenge.take (4 * k)) = drawTerms counterHash smallParams.n seed turns (k + 1)
        (counterChallenge.take (4 * (k + 1))) := by
    intro k hk turns
    have hshort : ¬challengeWeight ≤ (counterChallenge.take (4 * k)).length := by
      rw [List.length_take]
      unfold challengeWeight
      omega
    rw [drawTerms, if_neg hshort, counterHash_counter]
    show ((asChunks 8 _).foldlM _ _ >>= fun terms => drawTerms _ _ _ _ _ terms) = _
    rw [hblock k hk]
    rfl
  calc drawTerms counterHash smallParams.n seed (turns + 4) 0 []
      = drawTerms counterHash smallParams.n seed (turns + 3) 1 (counterChallenge.take 4) :=
        hturn 0 (by decide) (turns + 3)
    _ = drawTerms counterHash smallParams.n seed (turns + 2) 2 (counterChallenge.take 8) :=
        hturn 1 (by decide) (turns + 2)
    _ = drawTerms counterHash smallParams.n seed (turns + 1) 3 (counterChallenge.take 12) :=
        hturn 2 (by decide) (turns + 1)
    _ = drawTerms counterHash smallParams.n seed turns 4 counterChallenge := hturn 3 (by decide) turns
    _ = some counterChallenge := by
        cases turns <;> rw [drawTerms, if_pos (by decide)]

theorem counter_deriveChallenge (seed : Bytes) :
    deriveChallenge counterHash smallParams seed = some counterChallenge := by
  rw [deriveChallenge]
  exact counter_drawTerms (dsChallenge ++ seed) (by decide)

theorem zero_mul : zeroPoly.mul zeroPoly smallParams.q = some zeroPoly :=
  Poly.mul_zero smallParams_roomy.odd zeroPoly_inRing.length

theorem zero_add : zeroPoly.add zeroPoly = some zeroPoly :=
  Poly.zero_add smallParams_roomy.odd zeroPoly_inRing

theorem zero_centred : zeroPoly.centred smallParams.q = some zeroPoly :=
  zeroPoly_inRing.centred_self smallParams_roomy.odd

theorem zero_mulSparse : zeroPoly.mulSparse counterChallenge smallParams.q = some zeroPoly := by
  have hq := smallParams_roomy.odd
  have hc : Poly.SparseTernary smallParams.n counterChallenge :=
    deriveChallenge_sparseTernary counterHash (counter_deriveChallenge [])
  obtain ⟨m, hm, hring⟩ := Poly.mulSparse_ok hq zeroPoly_inRing hc (by decide)
  have hmZ := ((Poly.mulSparse_exact _ _ _).eq_some_iff.mp hm).2
  have hzero : zeroPoly.element smallParams.q smallParams.n = 0 := Poly.element_zero _ _
  have helement : m.element smallParams.q smallParams.n
      = zeroPoly.element smallParams.q smallParams.n := by
    rw [← hmZ, Poly.element_mulSparseZ hq.pos zeroPoly_inRing.length hc, hzero,
      MulZeroClass.zero_mul]
  have heq := hring.eq_of_element hq (by decide) (by decide) zeroPoly_inRing helement
  exact hm.trans (congrArg some heq)

theorem zero_encodable : zeroPoly.Encodable smallParams.q := by
  intro c hc hneg
  rw [List.eq_of_mem_replicate hc] at hneg
  exact absurd hneg (lt_irrefl 0)

theorem zero_toBytes : zeroPoly.toBytes smallParams.q = some (zeroPoly.toBytesZ smallParams.q) :=
  (Poly.toBytes_exact zeroPoly smallParams.q).ok zero_encodable

theorem zero_formed : Formed smallParams zeroKey zeroCiphertext zeroWitness where
  ciphertext := ⟨zeroPoly_inRing.length, zeroPoly_inRing.length⟩
  witness := ⟨zeroPoly_inRing.length, zeroPoly_inRing.length, zeroPoly_inRing.length⟩
  u := by
    show zeroPoly.element _ _ = zeroPoly.element _ _ * zeroPoly.element _ _ + zeroPoly.element _ _
    rw [zeroPoly, Poly.element_zero, MulZeroClass.zero_mul, AddMonoid.add_zero]
  v := by
    show zeroPoly.element _ _ = zeroPoly.element _ _ * zeroPoly.element _ _ + zeroPoly.element _ _
    rw [zeroPoly, Poly.element_zero, MulZeroClass.zero_mul, AddMonoid.add_zero]

theorem centreBelow_maskPoly : maskPoly centreBelow smallParams.n () = (zeroPoly, ()) := by
  have hcoeffs : ∀ n, maskCoeffs centreBelow n () = (List.replicate n 0, ()) := by
    intro n
    induction n with
    | zero => rfl
    | succ n ih =>
      rw [maskCoeffs]
      simp only [centreBelow, ih, List.replicate_succ]
      rfl
  rw [maskPoly, hcoeffs]
  rfl

def zeroMask : Mask := ⟨zeroPoly, zeroPoly, zeroPoly⟩

def zeroResponse : Response := ⟨zeroPoly, zeroPoly, zeroPoly⟩

theorem zero_commitSectors : commitSectors centreBelow smallParams zeroKey 1 ()
    = some (([(zeroPoly, zeroPoly)], [zeroMask]), ()) := by
  have hmask : drawMask centreBelow smallParams.n () = (zeroMask, ()) := by
    simp only [drawMask, centreBelow_maskPoly]
    rfl
  have hcommit : zeroMask.commit smallParams zeroKey = some (zeroPoly, zeroPoly) := by
    simp [Mask.commit, zeroMask, zeroKey, zero_mul, zero_add, zero_centred]
  simp [commitSectors, hmask, hcommit]

theorem zero_respondAll : respondAll smallParams counterChallenge [(zeroWitness, zeroMask)]
    = some (some [zeroResponse]) := by
  have hrespond : respond smallParams counterChallenge zeroWitness zeroMask
      = some zeroResponse := by
    simp [respond, zeroWitness, zeroMask, zeroResponse, zero_mulSparse, zero_add]
  have hnorm : zeroResponse.exceedsMask = some false :=
    exceedsMask_inRing smallParams_roomy.odd (by decide) zeroPoly_inRing zeroPoly_inRing
      zeroPoly_inRing
  simp [respondAll, hrespond, hnorm]

theorem zero_statementDigest : ∃ digest,
    statementDigest counterHash smallParams zeroKey [zeroCiphertext] = some digest := by
  simp [statementDigest, PublicKey.digest, Ciphertext.digest, Ciphertext.digestInput, zeroKey,
    zeroCiphertext, zero_toBytes]

theorem zero_attempt (digest : Bytes) : ∃ proof, attempt centreBelow counterHash smallParams zeroKey
    digest [zeroWitness] 1 () = some (some proof, ()) := by
  have hparts : ([(zeroPoly, zeroPoly)].mapM fun t : Poly × Poly => do
      some ((← t.1.toBytes smallParams.q) ++ (← t.2.toBytes smallParams.q)))
      = some [zeroPoly.toBytesZ smallParams.q ++ zeroPoly.toBytesZ smallParams.q] := by
    simp [zero_toBytes]
  have hbatch : ∀ seed, ∃ batchSeed,
      batchSeedOf counterHash smallParams seed [zeroResponse] = some batchSeed := by
    intro seed
    simp [batchSeedOf, zeroResponse, zero_toBytes]
  obtain ⟨batchSeed, hbatch⟩ := hbatch _
  exact ⟨_, attempt_eq centreBelow counterHash zero_commitSectors hparts rfl
    (counter_deriveChallenge _) zero_respondAll hbatch⟩

/-- The prover of zeros returns its proof in the first turn. -/
theorem zero_prove : ∃ proof, prove centreBelow counterHash smallParams zeroKey [zeroCiphertext]
    [zeroWitness] () = .ok (proof, ()) := by
  obtain ⟨digest, hdigest⟩ := zero_statementDigest
  obtain ⟨proof, hattempt⟩ := zero_attempt digest
  refine ⟨proof, ?_⟩
  rw [prove_eq centreBelow counterHash (List.cons_ne_nil _ _) rfl hdigest]
  exact attempts_first centreBelow counterHash hattempt

theorem zeroKey_ofDegree : zeroKey.OfDegree smallParams.n :=
  ⟨zeroPoly_inRing.length, zeroPoly_inRing.length⟩

theorem verifiers_agree_zero : ∃ proof, prove centreBelow counterHash smallParams zeroKey
    [zeroCiphertext] [zeroWitness] () = .ok (proof, ()) ∧
      verifyFull counterHash smallParams zeroKey [zeroCiphertext] proof = .ok () ∧
      verifyBatched counterHash smallParams zeroKey [zeroCiphertext] proof = .ok () := by
  obtain ⟨proof, hprove⟩ := zero_prove
  have hformed : List.Forall₂ (Formed smallParams zeroKey) [zeroCiphertext] [zeroWitness] :=
    List.Forall₂.cons zero_formed List.Forall₂.nil
  have hpair := honest_accepted counterHash centreBelow smallParams_validate smallParams_roomy
    zeroPoly_inRing zeroPoly_inRing (by
      intro c hc
      rw [List.mem_singleton.mp hc]
      exact ⟨zeroPoly_inRing, zeroPoly_inRing⟩) (by decide) hformed hprove
  have hiff := (verifiers_agree_iff counterHash centreBelow smallParams smallParams_validate zeroKey
    zeroKey_ofDegree).2 [zeroCiphertext] [zeroWitness] () () proof hformed hprove
  exact ⟨proof, hprove, hiff.mpr (hiff.mp hpair)⟩

/-! ### A commitment without room -/

/-- A multiple of the modulus, more than half of a word. -/
def largeCoeff : Int := 257 * 2 ^ 54

def largePoly : Poly := ⟨largeCoeff :: List.replicate 255 0⟩

/-- The proof of zeros, with the multiple in its commitment. -/
def largeProof : ZeroizeProof where
  commitments := [(largePoly, zeroPoly)]
  responses := [zeroResponse]
  challengeSeed := (counterHash (transcriptZ counterHash smallParams zeroKey [zeroCiphertext]
    [(largePoly, zeroPoly)])).bytes.take 16
  batchSeed := []

theorem largePoly_length : largePoly.coeffs.length = smallParams.n := by
  rw [largePoly, List.length_cons, List.length_replicate]
  rfl

theorem mem_largePoly {c : Int} (hc : c ∈ largePoly.coeffs) : c = largeCoeff ∨ c = 0 := by
  rcases List.mem_cons.mp hc with h | h
  · exact Or.inl h
  · exact Or.inr (List.eq_of_mem_replicate h)

theorem largePoly_element : largePoly.element smallParams.q smallParams.n = 0 := by
  have hcast : ∀ c : Int, c = largeCoeff ∨ c = 0 → (c : ZMod smallParams.q.toNat) = 0 := by
    intro c hc
    refine (ZMod.intCast_zmod_eq_zero_iff_dvd c _).mpr ?_
    rcases hc with rfl | rfl
    · exact ⟨2 ^ 54, rfl⟩
    · exact dvd_zero _
  rw [← Poly.element_zero, Poly.element_eq_iff (by decide) (by decide)]
  intro i hi
  rw [Poly.zero, Poly.getD_zero, List.getD_eq_getElem _ _ (largePoly_length ▸ hi), Int.cast_zero]
  exact hcast _ (mem_largePoly (List.getElem_mem _))

theorem large_sector : SectorIn smallParams.q smallParams.n zeroKey counterChallenge
    (((largePoly, zeroPoly), zeroResponse), zeroCiphertext) := by
  have hzero : zeroPoly.element smallParams.q smallParams.n = 0 := Poly.element_zero _ _
  have hlength := zeroPoly_inRing.length
  exact {
    degree := ⟨largePoly_length, hlength, ⟨hlength, hlength, hlength⟩, ⟨hlength, hlength⟩⟩
    a := by
      show zeroPoly.element _ _ * zeroPoly.element _ _ + zeroPoly.element _ _
        = largePoly.element _ _ + zeroPoly.element _ _ * _
      rw [hzero, largePoly_element]
      ring
    b := by
      show zeroPoly.element _ _ * zeroPoly.element _ _ + zeroPoly.element _ _
        = zeroPoly.element _ _ + zeroPoly.element _ _ * _
      rw [hzero]
      ring }

theorem large_fits : SectorFits smallParams zeroKey counterChallenge
    (((largePoly, zeroPoly), zeroResponse), zeroCiphertext) := by
  have hc : Poly.SparseTernary smallParams.n counterChallenge :=
    deriveChallenge_sparseTernary counterHash (counter_deriveChallenge [])
  have hbounded : zeroPoly.Bounded (max (half smallParams.q) maskBound) :=
    (zeroPoly_inRing.bounded smallParams_roomy.odd).mono smallParams_roomy.half_le_max
  have hanswer := answerFits_of_bounded smallParams_roomy zeroPoly_inRing zeroPoly_inRing.length
    hbounded hbounded
  have hlarge : largePoly.Bounded largeCoeff := by
    intro c hcoeff
    rcases mem_largePoly hcoeff with rfl | rfl <;> decide
  exact ⟨⟨hanswer, claimFits_of_bounded smallParams_roomy hlarge (by decide) zeroPoly_inRing hc
      (by decide)⟩,
    hanswer, claimFits_of_centred smallParams_roomy zeroPoly_inRing zeroPoly_inRing hc (by decide)⟩

theorem large_full :
    verifyFull counterHash smallParams zeroKey [zeroCiphertext] largeProof = .ok () := by
  have hchallenge := counter_deriveChallenge largeProof.challengeSeed
  have hc := deriveChallenge_sparseTernary counterHash hchallenge
  have hlarge : largePoly.Encodable smallParams.q := by
    intro c hcoeff hneg
    rcases mem_largePoly hcoeff with rfl | rfl
    · exact absurd hneg (by decide)
    · exact absurd hneg (lt_irrefl 0)
  have hnorm : zeroResponse.exceedsMask = some false :=
    exceedsMask_inRing smallParams_roomy.odd (by decide) zeroPoly_inRing zeroPoly_inRing
      zeroPoly_inRing
  refine (verifyFull_eq_ok counterHash _ _ _ _).mpr ⟨?_, counterChallenge, hchallenge, ?_, ?_⟩
  · exact {
      shape := ⟨rfl, rfl, List.cons_ne_nil _ _⟩
      transcript := {
        key := ⟨zero_encodable, zero_encodable⟩
        statements := by
          intro c hmem
          rw [List.mem_singleton.mp hmem]
          exact ⟨zero_encodable, zero_encodable⟩
        commitments := by
          intro t hmem
          rw [List.mem_singleton.mp hmem]
          exact ⟨hlarge, zero_encodable⟩ }
      seed := by rw [SeedBinds, largeProof]
      norms := by
        intro r hmem
        rw [List.mem_singleton.mp hmem]
        exact hnorm }
  · intro s hs
    rw [List.mem_singleton.mp hs]
    exact large_fits
  · intro s hs
    rw [List.mem_singleton.mp hs]
    exact (sectorHoldsZ_iff smallParams_validate zeroKey_ofDegree hc large_sector.degree).mpr
      ⟨large_sector, fun htwo => absurd htwo (by decide)⟩

/-- **Full verification accepts it, the batch stops the program**: its coefficient 2 takes the
commitment out of its word. -/
theorem large_commitment_disagrees :
    smallParams.validate = .ok () ∧ zeroKey.OfDegree smallParams.n ∧
      zeroCiphertext.OfDegree smallParams.n ∧ largeProof.OfDegree smallParams.n ∧
      (∀ c ∈ largePoly.coeffs, InI64 c) ∧
      verifyFull counterHash smallParams zeroKey [zeroCiphertext] largeProof = .ok () ∧
      verifyBatched counterHash smallParams zeroKey [zeroCiphertext] largeProof ≠ .ok () := by
  refine ⟨smallParams_validate, zeroKey_ofDegree, zeroKey_ofDegree, ?_, ?_, large_full, ?_⟩
  · constructor
    · intro t hmem
      rw [List.mem_singleton.mp hmem]
      exact ⟨largePoly_length, zeroPoly_inRing.length⟩
    · intro r hmem
      rw [List.mem_singleton.mp hmem]
      exact ⟨zeroPoly_inRing.length, zeroPoly_inRing.length, zeroPoly_inRing.length⟩
  · intro c hcoeff
    rcases mem_largePoly hcoeff with rfl | rfl <;> decide
  · intro hbatched
    obtain ⟨-, -, challenge, -, hfits, -⟩ := (verifyBatched_eq_ok counterHash _ _ _ _).mp hbatched
    have hgamma : gammaZ counterHash smallParams [zeroCiphertext] largeProof = [2] := by
      have hturns : 2 ^ 64 - 1 = (2 ^ 64 - 2) + 1 := by decide
      rw [gammaZ, hturns]
      show coefficientsZ counterHash smallParams.q [] ((2 ^ 64 - 2) + 1) 0 1 = [2]
      rw [coefficientsZ]
      · rw [coefficientsZ]
        decide
      · exact fun h => absurd h one_ne_zero
    have hsums := hfits.sums
    rw [hgamma] at hsums
    have hword := hsums.1.t1.1 largeCoeff List.mem_cons_self
    exact absurd hword (by decide)

end DiscCleaner.Fhe
