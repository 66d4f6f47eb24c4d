import DiscCleaner.Fhe.Classes
import DiscCleaner.Fhe.Replay

/-!
# DiscCleaner — the two verifiers (`zkp.rs`)

`verify_batched` runs the checks of `verify_full` and adds two equations over sums of all sectors.
For an odd modulus the sums of sectors that hold, hold; what the batch adds is arithmetic that can
leave its words.

* **`verifyFull_eq_ok`**, **`verifyBatched_eq_ok`** — when each of them accepts.
* **`SumsHold.next`**, **`sumsHold_fold`** — the sums of sectors that hold, hold.
* **`verifyBatched_agrees_iff`** — exactly when the verdicts agree.
-/

namespace DiscCleaner.Fhe

open ByteLib CheckedLib NegacyclicLib

section

variable (hash : Bytes → Block 32)

/-- Full verification. -/
def verifyFull (params : Params) (pk : PublicKey) (statements : List Ciphertext)
    (proof : ZeroizeProof) : Outcome Unit := do
  let checked ← verifyStructure hash params pk statements proof
  Outcome.refuseIf (!checked) (.proof "per-sector verification equation failed")

end

/-! ## Acceptance -/

namespace Outcome

variable {α β : Type}

/-- The verifier accepts, and what it accepts is good. -/
def Accepts (o : Outcome α) (good : α → Prop) : Prop :=
  match o with
  | ok a => good a
  | _ => False

theorem eq_ok_iff {o : Outcome Unit} : o = ok () ↔ o.Accepts fun _ => True := by
  cases o <;> simp [Accepts]

theorem accepts_iff {o : Outcome α} {good : α → Prop} :
    o.Accepts good ↔ ∃ a, o = ok a ∧ good a := by
  cases o <;> simp [Accepts]

theorem accepts_bind {o : Outcome α} {f : α → Outcome β} {good : β → Prop} :
    (o >>= f).Accepts good ↔ o.Accepts fun a => (f a).Accepts good := by
  cases o <;> rfl

theorem accepts_refuseIf {c : Bool} {e : FheError} {good : Unit → Prop} :
    (refuseIf c e).Accepts good ↔ c = false ∧ good () := by
  cases c with
  | false => exact (and_iff_right rfl).symm
  | true => exact ⟨fun h => h.elim, fun h => by cases h.1⟩

theorem accepts_step {x : Option α} {good : α → Prop} :
    (step x).Accepts good ↔ ∃ a, x = some a ∧ good a := by
  cases x with
  | none => exact ⟨fun h => h.elim, fun ⟨_, hx, _⟩ => (by cases hx)⟩
  | some a => exact ⟨fun h => ⟨a, rfl, h⟩, fun ⟨_, hx, h⟩ => Option.some.inj hx ▸ h⟩

/-- A step whose condition is known. -/
theorem accepts_exact {x : Option α} {P : Prop} {a : α} (h : Exact x P a) {good : α → Prop} :
    (step x).Accepts good ↔ P ∧ good a := by
  rw [accepts_step]
  constructor
  · rintro ⟨b, hx, hgood⟩
    obtain ⟨hP, rfl⟩ := h.eq_some_iff.mp hx
    exact ⟨hP, hgood⟩
  · exact fun hP => ⟨a, h.ok hP.1, hP.2⟩

theorem accepts_congr {o : Outcome α} {good good' : α → Prop} (h : ∀ a, good a ↔ good' a) :
    o.Accepts good ↔ o.Accepts good' := by
  rw [funext fun a => propext (h a)]

theorem accepts_and {o : Outcome α} {good : α → Prop} {P : Prop} :
    (o.Accepts fun a => good a ∧ P) ↔ o.Accepts good ∧ P := by
  cases o with
  | fault => exact ⟨fun h => h.elim, fun h => h.1⟩
  | refused e => exact ⟨fun h => h.elim, fun h => h.1⟩
  | ok a => exact Iff.rfl

theorem accepts_mapM {f : α → Option β} {fits : α → Prop} {g : α → β}
    (h : ∀ a, Exact (f a) (fits a) (g a)) (l : List α) {good : List β → Prop} :
    (l.mapM fun a => step (f a)).Accepts good ↔ (∀ a ∈ l, fits a) ∧ good (l.map g) := by
  induction l generalizing good with
  | nil => exact ⟨fun hg => ⟨by simp, hg⟩, fun hg => hg.2⟩
  | cons a l ih =>
    rw [List.mapM_cons, accepts_bind, accepts_exact (h a), accepts_bind, ih, List.forall_mem_cons,
      List.map_cons, and_assoc]
    rfl

end Outcome

/-- Every response is inside the mask. -/
theorem responses_accepts (e : FheError) (rs : List Response) {good : PUnit → Prop} :
    (rs.forM fun r => do Outcome.refuseIf (← Outcome.step r.exceedsMask) e).Accepts good ↔
      (∀ r ∈ rs, r.exceedsMask = some false) ∧ good () := by
  induction rs with
  | nil => exact ⟨fun h => ⟨by simp, h⟩, fun h => h.2⟩
  | cons r rest ih =>
    rw [List.forM, Outcome.accepts_bind, Outcome.accepts_bind, Outcome.accepts_step,
      List.forall_mem_cons]
    constructor
    · rintro ⟨exceeds, hr, haccepts⟩
      obtain ⟨rfl, hrest⟩ := Outcome.accepts_refuseIf.mp haccepts
      obtain ⟨hall, hgood⟩ := ih.mp hrest
      exact ⟨⟨hr, hall⟩, hgood⟩
    · rintro ⟨⟨hr, hall⟩, hgood⟩
      exact ⟨false, hr, Outcome.accepts_refuseIf.mpr ⟨rfl, ih.mpr ⟨hall, hgood⟩⟩⟩

section

variable (hash : Bytes → Block 32)

/-- What both verifiers check before the equations: the shape, the seed and the norms. -/
structure Checked (params : Params) (pk : PublicKey) (statements : List Ciphertext)
    (proof : ZeroizeProof) : Prop where
  shape : ShapeMatches statements proof
  transcript : TranscriptFits params.q pk statements proof.commitments
  seed : SeedBinds hash params pk statements proof
  norms : ∀ r ∈ proof.responses, r.exceedsMask = some false

theorem verifyStructure_accepts (params : Params) (pk : PublicKey) (statements : List Ciphertext)
    (proof : ZeroizeProof) {good : Bool → Prop} :
    (verifyStructure hash params pk statements proof).Accepts good ↔
      Checked hash params pk statements proof ∧
        ∃ challenge, deriveChallenge hash params proof.challengeSeed = some challenge ∧
          (∀ s ∈ sectorsOf statements proof, SectorFits params pk challenge s) ∧
          good (((sectorsOf statements proof).map (sectorHoldsZ params pk challenge)).all id) := by
  have hmap : ∀ challenge, ((sectorsOf statements proof).mapM fun s =>
      Outcome.step (sectorHolds params pk challenge s.1.1 s.1.2 s.2)).Accepts
        (fun held => good (held.all id)) ↔
      (∀ s ∈ sectorsOf statements proof, SectorFits params pk challenge s) ∧
        good (((sectorsOf statements proof).map (sectorHoldsZ params pk challenge)).all id) :=
    fun challenge => Outcome.accepts_mapM (sectorHolds_exact params pk challenge) _
  rw [verifyStructure, Outcome.accepts_bind, Outcome.accepts_refuseIf, shape_iff,
    Outcome.accepts_bind, Outcome.accepts_exact (transcript_exact hash params pk statements _),
    Outcome.accepts_bind, Outcome.accepts_refuseIf, bne_eq_false_iff_eq, Outcome.accepts_bind,
    responses_accepts, Outcome.accepts_bind, Outcome.accepts_step]
  constructor
  · rintro ⟨hshape, htranscript, hseed, hnorms, challenge, hchallenge, hsectors⟩
    exact ⟨⟨hshape, htranscript, hseed, hnorms⟩, challenge, hchallenge,
      (hmap challenge).mp (Outcome.accepts_bind.mp hsectors)⟩
  · rintro ⟨hchecked, challenge, hchallenge, hsectors⟩
    exact ⟨hchecked.shape, hchecked.transcript, hchecked.seed, hchecked.norms, challenge, hchallenge,
      Outcome.accepts_bind.mpr ((hmap challenge).mpr hsectors)⟩

theorem all_sectors_iff {params : Params} {pk : PublicKey} {challenge : List (Nat × Int)}
    {sectors : List Sector} :
    ((sectors.map (sectorHoldsZ params pk challenge)).all id) = true ↔
      ∀ s ∈ sectors, sectorHoldsZ params pk challenge s = true := by
  simp

/-- **Full verification accepts** when the checks pass, and every sector is computed within its
words and holds. -/
theorem verifyFull_eq_ok (params : Params) (pk : PublicKey) (statements : List Ciphertext)
    (proof : ZeroizeProof) : verifyFull hash params pk statements proof = .ok () ↔
      Checked hash params pk statements proof ∧
        ∃ challenge, deriveChallenge hash params proof.challengeSeed = some challenge ∧
          (∀ s ∈ sectorsOf statements proof, SectorFits params pk challenge s) ∧
          ∀ s ∈ sectorsOf statements proof, sectorHoldsZ params pk challenge s = true := by
  rw [Outcome.eq_ok_iff, verifyFull, Outcome.accepts_bind]
  refine (Outcome.accepts_congr fun checked => ?_).trans
    ((@verifyStructure_accepts hash params pk statements proof (· = true)).trans ?_)
  · rw [Outcome.accepts_refuseIf, and_true, Bool.not_eq_false']
  · refine and_congr_right fun _ => exists_congr fun challenge => and_congr_right fun _ =>
      and_congr_right fun _ => all_sectors_iff

/-- The arithmetic of the batched equations. -/
structure BatchFits (params : Params) (pk : PublicKey) (challenge : List (Nat × Int))
    (sectors : List Sector) (gamma : List Int) : Prop where
  alloc : 8 * params.n < 2 ^ 63
  sums : FoldFits (BatchSums.NextFits params.q) (BatchSums.nextZ params.q)
    (BatchSums.start params.n) (sectors.zip gamma)
  a : EquationFits params.q challenge pk.a (batchZ params sectors gamma).z
    (batchZ params sectors gamma).z1 (batchZ params sectors gamma).t1 (batchZ params sectors gamma).u
  b : EquationFits params.q challenge pk.b (batchZ params sectors gamma).z
    (batchZ params sectors gamma).z2 (batchZ params sectors gamma).t2 (batchZ params sectors gamma).v

/-- Both batched equations. -/
def batchHoldsZ (params : Params) (pk : PublicKey) (challenge : List (Nat × Int)) (sums : BatchSums) :
    Bool :=
  equationZ params.q challenge pk.a sums.z sums.z1 sums.t1 sums.u &&
    equationZ params.q challenge pk.b sums.z sums.z2 sums.t2 sums.v

/-- The batch coefficients of a proof. -/
def gammaZ (params : Params) (statements : List Ciphertext) (proof : ZeroizeProof) : List Int :=
  coefficientsZ hash params.q proof.batchSeed (2 ^ 64 - 1) 0 statements.length

/-- **Batched verification accepts** when full verification does, and the batch is computed within
its words and holds. -/
theorem verifyBatched_eq_ok (params : Params) (pk : PublicKey) (statements : List Ciphertext)
    (proof : ZeroizeProof) : verifyBatched hash params pk statements proof = .ok () ↔
      verifyFull hash params pk statements proof = .ok () ∧
        CoefficientsFit params.q (2 ^ 64 - 1) statements.length ∧
        ∃ challenge, deriveChallenge hash params proof.challengeSeed = some challenge ∧
          BatchFits params pk challenge (sectorsOf statements proof)
            (gammaZ hash params statements proof) ∧
          batchHoldsZ params pk challenge (batchZ params (sectorsOf statements proof)
            (gammaZ hash params statements proof)) = true := by
  have hfull : verifyFull hash params pk statements proof = .ok () ↔
      (verifyStructure hash params pk statements proof).Accepts (· = true) := by
    rw [Outcome.eq_ok_iff, verifyFull, Outcome.accepts_bind]
    exact Outcome.accepts_congr fun checked => by
      rw [Outcome.accepts_refuseIf, and_true, Bool.not_eq_false']
  rw [hfull, Outcome.eq_ok_iff, verifyBatched, Outcome.accepts_bind, ← Outcome.accepts_and]
  refine Outcome.accepts_congr fun held => ?_
  rw [Outcome.accepts_bind, Outcome.accepts_refuseIf, Bool.not_eq_false']
  refine and_congr_right fun _ => ?_
  rw [Outcome.accepts_bind, Outcome.accepts_step]
  constructor
  · rintro ⟨challenge, hchallenge, hrest⟩
    rw [Outcome.accepts_bind, deriveBatchCoefficients,
      Outcome.accepts_exact (drawCoefficients_exact hash ..), Outcome.accepts_bind,
      Outcome.accepts_exact (alloc_exact params.n), Outcome.accepts_bind] at hrest
    obtain ⟨hcount, halloc, hrest⟩ := hrest
    obtain ⟨hsums, hrest⟩ := (Outcome.accepts_exact (Exact.foldlM (BatchSums.next_exact params.q)
      ((sectorsOf statements proof).zip _) _)).mp hrest
    rw [Outcome.accepts_bind, Outcome.accepts_exact (equation_exact params.q challenge pk.a ..),
      Outcome.accepts_bind, Outcome.accepts_refuseIf, Bool.not_eq_false', Outcome.accepts_bind,
      Outcome.accepts_exact (equation_exact params.q challenge pk.b ..), Outcome.accepts_refuseIf,
      Bool.not_eq_false'] at hrest
    obtain ⟨ha, hholdsA, hb, hholdsB, -⟩ := hrest
    exact ⟨hcount, challenge, hchallenge, ⟨halloc, hsums, ha, hb⟩,
      Bool.and_eq_true_iff.mpr ⟨hholdsA, hholdsB⟩⟩
  · rintro ⟨hcount, challenge, hchallenge, hfits, hholds⟩
    obtain ⟨hholdsA, hholdsB⟩ := Bool.and_eq_true_iff.mp hholds
    refine ⟨challenge, hchallenge, ?_⟩
    rw [Outcome.accepts_bind, deriveBatchCoefficients,
      Outcome.accepts_exact (drawCoefficients_exact hash ..), Outcome.accepts_bind,
      Outcome.accepts_exact (alloc_exact params.n), Outcome.accepts_bind]
    refine ⟨hcount, hfits.alloc, (Outcome.accepts_exact (Exact.foldlM
      (BatchSums.next_exact params.q) ((sectorsOf statements proof).zip _) _)).mpr
        ⟨hfits.sums, ?_⟩⟩
    rw [Outcome.accepts_bind, Outcome.accepts_exact (equation_exact params.q challenge pk.a ..),
      Outcome.accepts_bind, Outcome.accepts_refuseIf, Bool.not_eq_false', Outcome.accepts_bind,
      Outcome.accepts_exact (equation_exact params.q challenge pk.b ..), Outcome.accepts_refuseIf,
      Bool.not_eq_false']
    exact ⟨hfits.a, hholdsA, hfits.b, hholdsB, trivial⟩

end

/-! ## Sums of sectors that hold -/

/-- Vectors of the degree, on both sides. -/
def PublicKey.OfDegree (n : Nat) (pk : PublicKey) : Prop :=
  pk.a.coeffs.length = n ∧ pk.b.coeffs.length = n

def Ciphertext.OfDegree (n : Nat) (c : Ciphertext) : Prop :=
  c.u.coeffs.length = n ∧ c.v.coeffs.length = n

structure Response.OfDegree (n : Nat) (r : Response) : Prop where
  z : r.z.coeffs.length = n
  z1 : r.z1.coeffs.length = n
  z2 : r.z2.coeffs.length = n

structure ZeroizeProof.OfDegree (n : Nat) (proof : ZeroizeProof) : Prop where
  commitments : ∀ t ∈ proof.commitments, t.1.coeffs.length = n ∧ t.2.coeffs.length = n
  responses : ∀ r ∈ proof.responses, r.OfDegree n

structure SectorOfDegree (n : Nat) (s : Sector) : Prop where
  t1 : s.1.1.1.coeffs.length = n
  t2 : s.1.1.2.coeffs.length = n
  response : s.1.2.OfDegree n
  ciphertext : s.2.OfDegree n

theorem sectorsOf_ofDegree {n : Nat} {statements : List Ciphertext} {proof : ZeroizeProof}
    (hstatements : ∀ c ∈ statements, c.OfDegree n) (hproof : proof.OfDegree n) :
    ∀ s ∈ sectorsOf statements proof, SectorOfDegree n s := by
  intro s hs
  obtain ⟨hleft, hc⟩ := List.of_mem_zip hs
  obtain ⟨ht, hr⟩ := List.of_mem_zip hleft
  exact ⟨(hproof.commitments _ ht).1, (hproof.commitments _ ht).2, hproof.responses _ hr,
    hstatements _ hc⟩

/-- One equation between elements of the ring. -/
def EquationIn (q : Int) (n : Nat) (challenge : List (Nat × Int)) (key z e t half : Poly) : Prop :=
  key.element q n * z.element q n + e.element q n
    = t.element q n + half.element q n * Poly.sparseElement q n challenge

/-- The signs of both sides before the last reduction. -/
def EquationSigns (q : Int) (challenge : List (Nat × Int)) (key z e t half : Poly) : Prop :=
  Poly.SignsAgree ((key.mulZ z q).addZ e) (t.addZ (half.mulSparseZ challenge q))

section

variable {q : Int} {n : Nat} {challenge : List (Nat × Int)}

/-- The computed equation is the equation in the ring. -/
theorem equationZ_iff (hq : Poly.Admitted q) (hn : n ≠ 0) (hc : Poly.SparseTernary n challenge)
    {key z e t half : Poly} (hkey : key.coeffs.length = n) (he : e.coeffs.length = n)
    (ht : t.coeffs.length = n) (hhalf : half.coeffs.length = n) :
    equationZ q challenge key z e t half = true ↔ EquationIn q n challenge key z e t half ∧
      (q = 2 → EquationSigns q challenge key z e t half) := by
  have hmul := Poly.length_mulZ hkey z q
  have hsparse := Poly.length_mulSparseZ hhalf challenge q
  rw [equationZ, beq_iff_eq, Poly.answerZ, Poly.claimZ,
    Poly.reduced_eq_iff hq hn (Poly.length_addZ hmul he) (Poly.length_addZ ht hsparse),
    Poly.element_addZ hmul he, Poly.element_addZ ht hsparse, Poly.element_mulZ hq.pos hkey,
    Poly.element_mulSparseZ hq.pos hhalf hc]
  rfl

theorem length_addScaledZ {sum p : Poly} (hsum : sum.coeffs.length = n) (hp : p.coeffs.length = n)
    (g : Int) : (addScaledZ q g sum p).coeffs.length = n := by
  rw [addScaledZ, Poly.length_centredZ, Poly.length_addZ hsum (by rwa [Poly.length_scaleZ])]

theorem element_addScaledZ (hq : 0 < q) {sum p : Poly} (hsum : sum.coeffs.length = n)
    (hp : p.coeffs.length = n) (g : Int) : (addScaledZ q g sum p).element q n
      = sum.element q n + const n (g : ZMod q.toNat) * p.element q n := by
  have hscale : (p.scaleZ g).coeffs.length = n := by rwa [Poly.length_scaleZ]
  rw [addScaledZ, Poly.element_centredZ hq (Poly.length_addZ hsum hscale),
    Poly.element_addZ hsum hscale, Poly.element_scaleZ hp]

/-- An equation and another one, scaled. -/
theorem EquationIn.addScaled (hq : 0 < q) {key z e t half z' e' t' half' : Poly}
    (hz : z.coeffs.length = n) (he : e.coeffs.length = n) (ht : t.coeffs.length = n)
    (hhalf : half.coeffs.length = n) (hz' : z'.coeffs.length = n) (he' : e'.coeffs.length = n)
    (ht' : t'.coeffs.length = n) (hhalf' : half'.coeffs.length = n)
    (h : EquationIn q n challenge key z e t half) (h' : EquationIn q n challenge key z' e' t' half')
    (g : Int) : EquationIn q n challenge key (addScaledZ q g z z') (addScaledZ q g e e')
      (addScaledZ q g t t') (addScaledZ q g half half') := by
  unfold EquationIn at h h' ⊢
  rw [element_addScaledZ hq hz hz', element_addScaledZ hq he he', element_addScaledZ hq ht ht',
    element_addScaledZ hq hhalf hhalf']
  linear_combination h + const n (g : ZMod q.toNat) * h'

theorem EquationIn.zero (key : Poly) :
    EquationIn q n challenge key (.zero n) (.zero n) (.zero n) (.zero n) := by
  unfold EquationIn
  rw [Poly.element_zero]
  ring

end

/-- Sums of the degree that satisfy both equations. -/
structure SumsHold (q : Int) (n : Nat) (pk : PublicKey) (challenge : List (Nat × Int))
    (sums : BatchSums) : Prop where
  z : sums.z.coeffs.length = n
  z1 : sums.z1.coeffs.length = n
  z2 : sums.z2.coeffs.length = n
  t1 : sums.t1.coeffs.length = n
  t2 : sums.t2.coeffs.length = n
  u : sums.u.coeffs.length = n
  v : sums.v.coeffs.length = n
  a : EquationIn q n challenge pk.a sums.z sums.z1 sums.t1 sums.u
  b : EquationIn q n challenge pk.b sums.z sums.z2 sums.t2 sums.v

/-- A sector that satisfies both equations in the ring. -/
structure SectorIn (q : Int) (n : Nat) (pk : PublicKey) (challenge : List (Nat × Int)) (s : Sector) :
    Prop where
  degree : SectorOfDegree n s
  a : EquationIn q n challenge pk.a s.1.2.z s.1.2.z1 s.1.1.1 s.2.u
  b : EquationIn q n challenge pk.b s.1.2.z s.1.2.z2 s.1.1.2 s.2.v

section

variable {q : Int} {n : Nat} {pk : PublicKey} {challenge : List (Nat × Int)}

theorem sumsHold_start : SumsHold q n pk challenge (BatchSums.start n) where
  z := Poly.length_zero n
  z1 := Poly.length_zero n
  z2 := Poly.length_zero n
  t1 := Poly.length_zero n
  t2 := Poly.length_zero n
  u := Poly.length_zero n
  v := Poly.length_zero n
  a := EquationIn.zero pk.a
  b := EquationIn.zero pk.b

theorem SumsHold.next (hq : 0 < q) {sums : BatchSums} (h : SumsHold q n pk challenge sums)
    {s : Sector} (hs : SectorIn q n pk challenge s) (g : Int) :
    SumsHold q n pk challenge (sums.nextZ q (s, g)) where
  z := length_addScaledZ h.z hs.degree.response.z g
  z1 := length_addScaledZ h.z1 hs.degree.response.z1 g
  z2 := length_addScaledZ h.z2 hs.degree.response.z2 g
  t1 := length_addScaledZ h.t1 hs.degree.t1 g
  t2 := length_addScaledZ h.t2 hs.degree.t2 g
  u := length_addScaledZ h.u hs.degree.ciphertext.1 g
  v := length_addScaledZ h.v hs.degree.ciphertext.2 g
  a := h.a.addScaled hq h.z h.z1 h.t1 h.u hs.degree.response.z hs.degree.response.z1 hs.degree.t1
    hs.degree.ciphertext.1 hs.a g
  b := h.b.addScaled hq h.z h.z2 h.t2 h.v hs.degree.response.z hs.degree.response.z2 hs.degree.t2
    hs.degree.ciphertext.2 hs.b g

/-- **The sums of sectors that hold, hold**, with any coefficients. -/
theorem sumsHold_fold (hq : 0 < q) {terms : List (Sector × Int)}
    (hterms : ∀ term ∈ terms, SectorIn q n pk challenge term.1) {sums : BatchSums}
    (h : SumsHold q n pk challenge sums) :
    SumsHold q n pk challenge (terms.foldl (BatchSums.nextZ q) sums) := by
  induction terms generalizing sums with
  | nil => exact h
  | cons term rest ih =>
    obtain ⟨hterm, hrest⟩ := List.forall_mem_cons.mp hterms
    exact ih hrest (h.next hq hterm term.2)

theorem sumsHold_batch {params : Params} (hq : 0 < params.q) {sectors : List Sector}
    (hsectors : ∀ s ∈ sectors, SectorIn params.q params.n pk challenge s) (gamma : List Int) :
    SumsHold params.q params.n pk challenge (batchZ params sectors gamma) :=
  sumsHold_fold hq (fun term hterm => hsectors _ (List.of_mem_zip (b := term.2) hterm).1)
    sumsHold_start

end

/-! ## The verdicts -/

theorem sparseTernary_drawTerm {n : Nat} {terms terms' : List (Nat × Int)} {chunk : Bytes}
    (h : Poly.SparseTernary n terms) (hdraw : drawTerm n terms chunk = some terms') :
    Poly.SparseTernary n terms' := by
  have hsign : (if (chunk.getD 0 0).toNat % 2 = 0 then (1 : Int) else -1) = 1 ∨
      (if (chunk.getD 0 0).toNat % 2 = 0 then (1 : Int) else -1) = -1 := by
    by_cases heven : (chunk.getD 0 0).toNat % 2 = 0
    · exact Or.inl (if_pos heven)
    · exact Or.inr (if_neg heven)
  simp only [drawTerm] at hdraw
  generalize (if (chunk.getD 0 0).toNat % 2 = 0 then (1 : Int) else -1) = sign at hsign hdraw
  split_ifs at hdraw with hfull hzero hused
  · exact Option.some.inj hdraw ▸ h
  · exact Option.some.inj hdraw ▸ h
  · rw [← Option.some.inj hdraw]
    intro term hterm
    rcases List.mem_append.mp hterm with hold | hlast
    · exact h term hold
    · rw [List.mem_singleton.mp hlast]
      exact ⟨Nat.mod_lt _ (Nat.pos_of_ne_zero hzero), hsign⟩

theorem Params.validate_admitted {params : Params} (h : params.validate = .ok ()) :
    Poly.Admitted params.q := by
  by_cases hq : params.q = 2
  · exact Or.inl hq
  · exact Or.inr (params.validate_odd h hq)

section

variable (hash : Bytes → Block 32)

theorem deriveChallenge_sparseTernary {params : Params} {seed : Bytes}
    {challenge : List (Nat × Int)} (h : deriveChallenge hash params seed = some challenge) :
    Poly.SparseTernary params.n challenge :=
  (drawTerms_inv hash (P := Poly.SparseTernary params.n)
    (fun _ _ _ hterms hdraw => sparseTernary_drawTerm hterms hdraw) (by simp [Poly.SparseTernary])
    h).1

/-- The batch is computed within its words; modulo 2, its sides also carry the same signs. -/
structure BatchRoom (params : Params) (pk : PublicKey) (challenge : List (Nat × Int))
    (sectors : List Sector) (gamma : List Int) : Prop where
  fits : BatchFits params pk challenge sectors gamma
  signsA : params.q = 2 → EquationSigns params.q challenge pk.a (batchZ params sectors gamma).z
    (batchZ params sectors gamma).z1 (batchZ params sectors gamma).t1 (batchZ params sectors gamma).u
  signsB : params.q = 2 → EquationSigns params.q challenge pk.b (batchZ params sectors gamma).z
    (batchZ params sectors gamma).z2 (batchZ params sectors gamma).t2 (batchZ params sectors gamma).v

/-- The coefficients of the batch can be drawn, and the batch has room. -/
def HasBatchRoom (params : Params) (pk : PublicKey) (statements : List Ciphertext)
    (proof : ZeroizeProof) : Prop :=
  CoefficientsFit params.q (2 ^ 64 - 1) statements.length ∧
    ∀ challenge, deriveChallenge hash params proof.challengeSeed = some challenge →
      BatchRoom params pk challenge (sectorsOf statements proof)
        (gammaZ hash params statements proof)

section

variable {params : Params} {pk : PublicKey} {statements : List Ciphertext} {proof : ZeroizeProof}

/-- A sector of the degree holds when it holds in the ring; modulo 2, its signs count too. -/
theorem sectorHoldsZ_iff (h : params.validate = .ok ()) (hpk : pk.OfDegree params.n)
    {challenge : List (Nat × Int)} (hc : Poly.SparseTernary params.n challenge) {s : Sector}
    (hs : SectorOfDegree params.n s) : sectorHoldsZ params pk challenge s = true ↔
      SectorIn params.q params.n pk challenge s ∧ (params.q = 2 →
        EquationSigns params.q challenge pk.a s.1.2.z s.1.2.z1 s.1.1.1 s.2.u ∧
          EquationSigns params.q challenge pk.b s.1.2.z s.1.2.z2 s.1.1.2 s.2.v) := by
  have hq := params.validate_admitted h
  have hn : params.n ≠ 0 := by have := (params.validate_ok h).1; omega
  rw [sectorHoldsZ, Bool.and_eq_true_iff,
    equationZ_iff hq hn hc hpk.1 hs.response.z1 hs.t1 hs.ciphertext.1,
    equationZ_iff hq hn hc hpk.2 hs.response.z2 hs.t2 hs.ciphertext.2]
  constructor
  · rintro ⟨⟨ha, hsignsA⟩, hb, hsignsB⟩
    exact ⟨⟨hs, ha, hb⟩, fun htwo => ⟨hsignsA htwo, hsignsB htwo⟩⟩
  · rintro ⟨hin, hsigns⟩
    exact ⟨⟨hin.a, fun htwo => (hsigns htwo).1⟩, hin.b, fun htwo => (hsigns htwo).2⟩

/-- The batch of sectors that hold in the ring has nothing to fail but its room. -/
theorem batch_iff (h : params.validate = .ok ()) (hpk : pk.OfDegree params.n)
    {challenge : List (Nat × Int)} (hc : Poly.SparseTernary params.n challenge)
    {sectors : List Sector} (hsectors : ∀ s ∈ sectors, SectorIn params.q params.n pk challenge s)
    (gamma : List Int) : (BatchFits params pk challenge sectors gamma ∧
        batchHoldsZ params pk challenge (batchZ params sectors gamma) = true) ↔
      BatchRoom params pk challenge sectors gamma := by
  have hq := params.validate_admitted h
  have hn : params.n ≠ 0 := by have := (params.validate_ok h).1; omega
  have hsums := sumsHold_batch hq.pos hsectors gamma
  rw [batchHoldsZ, Bool.and_eq_true_iff, equationZ_iff hq hn hc hpk.1 hsums.z1 hsums.t1 hsums.u,
    equationZ_iff hq hn hc hpk.2 hsums.z2 hsums.t2 hsums.v]
  constructor
  · rintro ⟨hfits, ⟨-, hsignsA⟩, -, hsignsB⟩
    exact ⟨hfits, hsignsA, hsignsB⟩
  · exact fun hroom => ⟨hroom.fits, ⟨hsums.a, hroom.signsA⟩, hsums.b, hroom.signsB⟩

/-- **The batched verdict on a proof that full verification accepts** is that of its room. -/
theorem verifyBatched_of_full (h : params.validate = .ok ()) (hpk : pk.OfDegree params.n)
    (hstatements : ∀ c ∈ statements, c.OfDegree params.n) (hproof : proof.OfDegree params.n)
    (hfull : verifyFull hash params pk statements proof = .ok ()) :
    verifyBatched hash params pk statements proof = .ok () ↔
      HasBatchRoom hash params pk statements proof := by
  obtain ⟨-, challenge, hchallenge, -, hholds⟩ := (verifyFull_eq_ok hash ..).mp hfull
  have hc := deriveChallenge_sparseTernary hash hchallenge
  have hsectors : ∀ s ∈ sectorsOf statements proof,
      SectorIn params.q params.n pk challenge s := fun s hs =>
    ((sectorHoldsZ_iff h hpk hc (sectorsOf_ofDegree hstatements hproof s hs)).mp
      (hholds s hs)).1
  have hbatch := batch_iff h hpk hc hsectors (gammaZ hash params statements proof)
  rw [verifyBatched_eq_ok, and_iff_right hfull, HasBatchRoom]
  refine and_congr_right fun _ => ⟨?_, fun hroom => ?_⟩
  · rintro ⟨challenge', hchallenge', hfits⟩ c hderived
    rw [hchallenge] at hchallenge' hderived
    cases hchallenge'
    cases hderived
    exact hbatch.mp hfits
  · exact ⟨challenge, hchallenge, hbatch.mpr (hroom challenge hchallenge)⟩

/-- **When the verdicts agree**: exactly when no proof that passes in full is short of room in the
batch. -/
theorem verifyBatched_agrees_iff (h : params.validate = .ok ()) (hpk : pk.OfDegree params.n)
    (hstatements : ∀ c ∈ statements, c.OfDegree params.n) (hproof : proof.OfDegree params.n) :
    (verifyBatched hash params pk statements proof = .ok () ↔
        verifyFull hash params pk statements proof = .ok ()) ↔
      (verifyFull hash params pk statements proof = .ok () →
        HasBatchRoom hash params pk statements proof) := by
  constructor
  · exact fun hagree hfull =>
      (verifyBatched_of_full hash h hpk hstatements hproof hfull).mp (hagree.mpr hfull)
  · refine fun hroom => ⟨fun hbatched => ((verifyBatched_eq_ok hash ..).mp hbatched).1,
      fun hfull => ?_⟩
    exact (verifyBatched_of_full hash h hpk hstatements hproof hfull).mpr (hroom hfull)

end

end

end DiscCleaner.Fhe
