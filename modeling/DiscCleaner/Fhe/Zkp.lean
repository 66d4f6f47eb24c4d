import DiscCleaner.Fhe.Rlwe
import Mathlib.Data.List.Nodup

/-!
# DiscCleaner — the proof of encryption of zero (`zkp.rs`)

The verifier of the encrypted wipe: the challenge drawn from the transcript, the norm bound, the
equations of each sector and their batched form.

The norm bound is `2^22` and the centred residues stay below `2^15`, so the bound excludes no
element of the ring.

* **`answerable`** — every challenge is answered for every sector and every commitment.
* **`not_speciallySound`** — so no two answers ever say anything about the sector.
-/

namespace DiscCleaner.Fhe

open ByteLib CheckedLib

/-- What a verifier does: it stops the program, refuses, or goes on. -/
inductive Outcome (α : Type) where
  | fault
  | refused (e : FheError)
  | ok (a : α)
  deriving DecidableEq

namespace Outcome

variable {α β : Type}

def andThen : Outcome α → (α → Outcome β) → Outcome β
  | fault, _ => fault
  | refused e, _ => refused e
  | ok a, f => f a

instance : Monad Outcome where
  pure := ok
  bind := andThen

/-- A step that can fault. -/
def step : Option α → Outcome α
  | none => fault
  | some a => ok a

/-- A check of the verifier. -/
def refuseIf (c : Bool) (e : FheError) : Outcome Unit := if c then refused e else ok ()

end Outcome

/-- Sparse challenge weight. -/
def challengeWeight : Nat := 16

/-- Uniform masking half-width. -/
def maskBound : Int := 2 ^ 22

/-- One sector's response. -/
structure Response where
  z : Poly
  z1 : Poly
  z2 : Poly
  deriving DecidableEq

structure ZeroizeProof where
  commitments : List (Poly × Poly)
  responses : List Response
  challengeSeed : Bytes
  batchSeed : Bytes
  deriving DecidableEq

/-- Domain separator of the challenge. -/
def dsChallenge : Bytes := utf8 "dc-fhe/zeroize/challenge/1"

/-- A byte string in pieces of `k`, without an incomplete last one. -/
def asChunks (k : Nat) (bs : Bytes) : List Bytes :=
  (List.range (bs.length / k)).map fun i => (bs.drop (i * k)).take k

section

variable (hash : Bytes → Block 32)

/-- The hexadecimal digest of a public key, as the statement digest hashes it. -/
def PublicKey.digest (pk : PublicKey) (q : Int) : Option String := do
  some (hexHash hash ((← pk.a.toBytes q) ++ (← pk.b.toBytes q)))

def statementDigest (params : Params) (pk : PublicKey) (statements : List Ciphertext) :
    Option Bytes := do
  let key ← pk.digest hash params.q
  let digests ← statements.mapM fun c => c.digest hash params.q
  some (hash (dsChallenge ++ utf8 key ++ (digests.map utf8).flatten)).bytes

/-- One draw of a position and a sign; a full set takes no more, a position is used once. -/
def drawTerm (n : Nat) (terms : List (Nat × Int)) (chunk : Bytes) : Option (List (Nat × Int)) :=
  if terms.length = challengeWeight then some terms
  else if n = 0 then none
  else
    let pos := ofLe chunk % n
    if terms.any fun term => term.1 = pos then some terms
    else some (terms ++ [(pos, if (chunk.getD 0 0).toNat % 2 = 0 then 1 else -1)])

/-- Blocks of the counter keystream, until the terms are all there. A counter that runs out of
its 64 bits is a fault. -/
def drawTerms (n : Nat) (seed : Bytes) : Nat → Nat → List (Nat × Int) → Option (List (Nat × Int))
  | turns, ctr, terms =>
    if challengeWeight ≤ terms.length then some terms
    else match turns with
      | 0 => none
      | turns + 1 => do
        let block := (hash (seed ++ le32 ctr ++ le32 (ctr / 2 ^ 32))).bytes
        drawTerms n seed turns (ctr + 1) (← (asChunks 8 block).foldlM (drawTerm n) terms)

/-- The sparse ternary challenge of a transcript. -/
def deriveChallenge (params : Params) (transcript : Bytes) : Option (List (Nat × Int)) :=
  drawTerms hash params.n (dsChallenge ++ transcript) (2 ^ 64 - 1) 0 []

/-- Batch coefficients, sixteen from each block. -/
def drawCoefficients (q : Int) (seed : Bytes) : Nat → Nat → Nat → Option (List Int)
  | _, _, 0 => some []
  | 0, _, _ => none
  | turns + 1, ctr, count => do
    let block := (hash (seed ++ le32 ctr ++ le32 (ctr / 2 ^ 32))).bytes
    let drawn ← ((asChunks 2 block).take count).mapM fun chunk => remI64 (ofLe chunk) q
    let rest ← drawCoefficients q seed turns (ctr + 1) (count - 16)
    some (drawn ++ rest)

def deriveBatchCoefficients (params : Params) (seed : Bytes) (count : Nat) :
    Option (List Int) :=
  drawCoefficients hash params.q seed (2 ^ 64 - 1) 0 count

/-- The transcript hashed into the challenge seed. -/
def transcript (params : Params) (pk : PublicKey) (statements : List Ciphertext)
    (commitments : List (Poly × Poly)) : Option Bytes := do
  let digest ← statementDigest hash params pk statements
  let parts ← commitments.mapM fun t => do
    some ((← t.1.toBytes params.q) ++ (← t.2.toBytes params.q))
  some (digest ++ parts.flatten)

end

/-- A response with a coordinate outside the mask. -/
def Response.exceedsMask (r : Response) : Option Bool := do
  if maskBound < (← r.z.infNorm) then some true
  else if maskBound < (← r.z1.infNorm) then some true
  else some (maskBound < (← r.z2.infNorm))

/-- Both equations of one sector. -/
def sectorHolds (params : Params) (pk : PublicKey) (challenge : List (Nat × Int))
    (t : Poly × Poly) (r : Response) (c : Ciphertext) : Option Bool := do
  let lhsA ← (← (← pk.a.mul r.z params.q).add r.z1).centred params.q
  let rhsA ← (← t.1.add (← c.u.mulSparse challenge params.q)).centred params.q
  let lhsB ← (← (← pk.b.mul r.z params.q).add r.z2).centred params.q
  let rhsB ← (← t.2.add (← c.v.mulSparse challenge params.q)).centred params.q
  some (lhsA == rhsA && lhsB == rhsB)

section

variable (hash : Bytes → Block 32)

/-- Shape, challenge binding and norms; the result says whether every sector's equations
hold. -/
def verifyStructure (params : Params) (pk : PublicKey) (statements : List Ciphertext)
    (proof : ZeroizeProof) : Outcome Bool := do
  Outcome.refuseIf (proof.commitments.length != statements.length
    || proof.responses.length != statements.length || statements.isEmpty)
    (.proof "proof shape does not match the statement set")
  let bytes ← Outcome.step (transcript hash params pk statements proof.commitments)
  Outcome.refuseIf (proof.challengeSeed != (hash bytes).bytes.take 16)
    (.proof "challenge seed does not bind the transcript — proof is malleable or forged")
  proof.responses.forM fun r => do
    Outcome.refuseIf (← Outcome.step r.exceedsMask) (.proof "response norm bound violated")
  let challenge ← Outcome.step (deriveChallenge hash params proof.challengeSeed)
  let sectors := (proof.commitments.zip proof.responses).zip statements
  let held ← sectors.mapM fun s =>
    Outcome.step (sectorHolds params pk challenge s.1.1 s.1.2 s.2)
  pure (held.all id)

/-- `sum + γ·p`, reduced. -/
def addScaled (q g : Int) (sum p : Poly) : Option Poly := do
  (← sum.add (← p.scale g)).centred q

/-- The seven running sums of the batched check. -/
structure BatchSums where
  z : Poly
  z1 : Poly
  z2 : Poly
  t1 : Poly
  t2 : Poly
  u : Poly
  v : Poly
  deriving DecidableEq

def BatchSums.start (n : Nat) : BatchSums :=
  ⟨.zero n, .zero n, .zero n, .zero n, .zero n, .zero n, .zero n⟩

/-- Vectors of `n` words; a capacity past the address range is a fault. -/
def BatchSums.alloc (n : Nat) : Option BatchSums :=
  if 8 * n < 2 ^ 63 then some (start n) else none

def BatchSums.next (q : Int) (sums : BatchSums)
    (term : (((Poly × Poly) × Response) × Ciphertext) × Int) : Option BatchSums := do
  let (((t, r), c), g) := term
  some {
    z := ← addScaled q g sums.z r.z
    z1 := ← addScaled q g sums.z1 r.z1
    z2 := ← addScaled q g sums.z2 r.z2
    t1 := ← addScaled q g sums.t1 t.1
    t2 := ← addScaled q g sums.t2 t.2
    u := ← addScaled q g sums.u c.u
    v := ← addScaled q g sums.v c.v }

/-- Batched verification. -/
def verifyBatched (params : Params) (pk : PublicKey) (statements : List Ciphertext)
    (proof : ZeroizeProof) : Outcome Unit := do
  let held ← verifyStructure hash params pk statements proof
  Outcome.refuseIf (!held) (.proof "structural pre-check failed")
  let challenge ← Outcome.step (deriveChallenge hash params proof.challengeSeed)
  let gamma ← Outcome.step
    (deriveBatchCoefficients hash params proof.batchSeed statements.length)
  let sectors := (proof.commitments.zip proof.responses).zip statements
  let start ← Outcome.step (BatchSums.alloc params.n)
  let sums ← Outcome.step ((sectors.zip gamma).foldlM (BatchSums.next params.q) start)
  let heldA ← Outcome.step (do
    let lhs ← (← (← pk.a.mul sums.z params.q).add sums.z1).centred params.q
    let rhs ← (← sums.t1.add (← sums.u.mulSparse challenge params.q)).centred params.q
    some (lhs == rhs))
  Outcome.refuseIf (!heldA) (.proof
    "batched a-side equation failed — at least one sector is not an encryption of zero")
  let heldB ← Outcome.step (do
    let lhs ← (← (← pk.b.mul sums.z params.q).add sums.z2).centred params.q
    let rhs ← (← sums.t2.add (← sums.v.mulSparse challenge params.q)).centred params.q
    some (lhs == rhs))
  Outcome.refuseIf (!heldB) (.proof
    "batched b-side equation failed — at least one sector is not an encryption of zero")

end

/-! ## What an answered challenge says -/

/-- A challenge the verifier can draw: distinct positions below the degree, each with a sign. -/
structure IsChallenge (n : Nat) (c : List (Nat × Int)) : Prop where
  weight : c.length = challengeWeight
  distinct : (c.map Prod.fst).Nodup
  ternary : Poly.SparseTernary n c

instance (n : Nat) (c : List (Nat × Int)) : Decidable (IsChallenge n c) :=
  have : Decidable (Poly.SparseTernary n c) :=
    inferInstanceAs (Decidable (∀ term ∈ c, term.1 < n ∧ (term.2 = 1 ∨ term.2 = -1)))
  decidable_of_iff (c.length = challengeWeight ∧ (c.map Prod.fst).Nodup ∧ Poly.SparseTernary n c)
    ⟨fun h => ⟨h.1, h.2.1, h.2.2⟩, fun h => ⟨h.weight, h.distinct, h.ternary⟩⟩

/-- Some response passes the norm bound and both equations. -/
def Answerable (params : Params) (pk : PublicKey) (ct : Ciphertext) (t : Poly × Poly)
    (c : List (Nat × Int)) : Prop :=
  ∃ r : Response, r.exceedsMask = some false ∧ sectorHolds params pk c t r ct = some true

/-- At most one challenge has an answer; the order of its terms does not count. -/
def SpeciallySound (params : Params) (pk : PublicKey) (ct : Ciphertext) (t : Poly × Poly) : Prop :=
  ∀ c c', IsChallenge params.n c → IsChallenge params.n c' →
    Answerable params pk ct t c → Answerable params pk ct t c' → c.Perm c'

theorem exceedsMask_inRing {params : Params} (hq : OddModulus params.q)
    (hmask : params.q ≤ maskBound) {r : Response} (hz : r.z.InRing params.n params.q)
    (hz1 : r.z1.InRing params.n params.q) (hz2 : r.z2.InRing params.n params.q) :
    r.exceedsMask = some false := by
  obtain ⟨m, hm, hle⟩ := hz.infNorm_ok hq
  obtain ⟨m1, hm1, hle1⟩ := hz1.infNorm_ok hq
  obtain ⟨m2, hm2, hle2⟩ := hz2.infNorm_ok hq
  simp [Response.exceedsMask, hm, hm1, hm2, not_lt.mpr (hle.trans hmask),
    not_lt.mpr (hle1.trans hmask), not_lt.mpr (hle2.trans hmask)]

/-- **Every challenge has an answer**: respond with nothing for the mask of the key, and let the
other two coordinates be the right sides themselves. The mask admits them, as it admits every
element of the ring. -/
theorem answerable {params : Params} (hq : OddModulus params.q) (hmask : params.q ≤ maskBound)
    {pk : PublicKey} {ct : Ciphertext} {t : Poly × Poly} {c : List (Nat × Int)}
    (ha : pk.a.coeffs.length = params.n) (hb : pk.b.coeffs.length = params.n)
    (hct : ct.InRing params) (ht1 : t.1.InRing params.n params.q)
    (ht2 : t.2.InRing params.n params.q) (hc : IsChallenge params.n c)
    (hfit : ((challengeWeight * params.n : Nat) : Int) * params.q < 2 ^ 63) :
    Answerable params pk ct t c := by
  rw [← hc.weight] at hfit
  obtain ⟨cu, hcu, hcuRing⟩ := Poly.mulSparse_ok hq hct.u hc.ternary hfit
  obtain ⟨cv, hcv, hcvRing⟩ := Poly.mulSparse_ok hq hct.v hc.ternary hfit
  obtain ⟨sumA, rhsA, hsumA, hrhsA, hringA⟩ := Poly.add_centred_ok hq ht1 hcuRing
  obtain ⟨sumB, rhsB, hsumB, hrhsB, hringB⟩ := Poly.add_centred_ok hq ht2 hcvRing
  refine ⟨⟨Poly.zero params.n, rhsA, rhsB⟩, ?_, ?_⟩
  · exact exceedsMask_inRing hq hmask (Poly.zero_inRing hq.pos _) hringA hringB
  · simp [sectorHolds, Poly.mul_zero hq ha, Poly.mul_zero hq hb, Poly.zero_add hq hringA,
      Poly.zero_add hq hringB, hringA.centred_self hq, hringB.centred_self hq, hcu, hcv, hsumA,
      hsumB, hrhsA, hrhsB]

/-- The challenge of signs `+1` at sixteen positions in a row. -/
def blockChallenge (first : Nat) : List (Nat × Int) :=
  (List.range challengeWeight).map fun i => (first + i, 1)

theorem blockChallenge_isChallenge {n first : Nat} (h : first + challengeWeight ≤ n) :
    IsChallenge n (blockChallenge first) where
  weight := by rw [blockChallenge, List.length_map, List.length_range]
  distinct := by
    rw [blockChallenge, List.map_map]
    exact List.Nodup.map (fun i j hij => Nat.add_left_cancel hij) List.nodup_range
  ternary := by
    intro term hterm
    obtain ⟨i, hi, rfl⟩ := List.mem_map.mp hterm
    have := List.mem_range.mp hi
    exact ⟨by omega, Or.inl rfl⟩

/-- Two challenges with an answer, for any modulus the mask covers. -/
theorem two_answers {params : Params} (hq : OddModulus params.q) (hmask : params.q ≤ maskBound)
    (hn : 32 ≤ params.n)
    (hfit : ((challengeWeight * params.n : Nat) : Int) * params.q < 2 ^ 63)
    {pk : PublicKey} {ct : Ciphertext} {t : Poly × Poly}
    (ha : pk.a.coeffs.length = params.n) (hb : pk.b.coeffs.length = params.n)
    (hct : ct.InRing params) (ht1 : t.1.InRing params.n params.q)
    (ht2 : t.2.InRing params.n params.q) : ¬ SpeciallySound params pk ct t := by
  intro hsound
  have h0 : IsChallenge params.n (blockChallenge 0) :=
    blockChallenge_isChallenge (by unfold challengeWeight; omega)
  have h16 : IsChallenge params.n (blockChallenge 16) :=
    blockChallenge_isChallenge (by unfold challengeWeight; omega)
  have hperm := hsound _ _ h0 h16 (answerable hq hmask ha hb hct ht1 ht2 h0 hfit)
    (answerable hq hmask ha hb hct ht1 ht2 h16 hfit)
  -- the first has a term at position 0, the second starts at 16
  have hmem : ((0, 1) : Nat × Int) ∈ blockChallenge 16 := hperm.subset (by decide)
  exact absurd hmem (by decide)

theorem default_oddModulus : OddModulus Params.default.q := ⟨by decide, by decide, by decide⟩

/-- **The bound proves nothing.** With the demo parameters, whatever the key, the ciphertext and
the commitments are, more than one challenge has an answer. -/
theorem not_speciallySound {pk : PublicKey} {ct : Ciphertext} {t : Poly × Poly}
    (ha : pk.a.InRing Params.default.n Params.default.q)
    (hb : pk.b.InRing Params.default.n Params.default.q) (hct : ct.InRing Params.default)
    (ht1 : t.1.InRing Params.default.n Params.default.q)
    (ht2 : t.2.InRing Params.default.n Params.default.q) :
    ¬ SpeciallySound Params.default pk ct t :=
  two_answers default_oddModulus (by decide) (by decide) (by decide) ha.length hb.length hct ht1
    ht2

/-! ### A sector that was not wiped -/

/-- The key of a zero secret and a zero error. -/
def sampleKey : PublicKey := ⟨Poly.zero 1024, Poly.zero 1024⟩

/-- A ciphertext of ones under it. -/
def sampleUnwiped : Ciphertext := ⟨Poly.zero 1024, ⟨List.replicate 1024 32768⟩⟩

theorem zero_inRing_default : (Poly.zero 1024).InRing Params.default.n Params.default.q :=
  Poly.zero_inRing (by decide) 1024

theorem sampleUnwiped_inRing : sampleUnwiped.InRing Params.default where
  u := zero_inRing_default
  v := {
    length := List.length_replicate
    centred := by
      intro c hc
      rw [List.eq_of_mem_replicate hc]
      decide }

theorem not_speciallySound_unwiped :
    ¬ SpeciallySound Params.default sampleKey sampleUnwiped (Poly.zero 1024, Poly.zero 1024) :=
  not_speciallySound zero_inRing_default zero_inRing_default sampleUnwiped_inRing
    zero_inRing_default zero_inRing_default

theorem sampleKey_make :
    PublicKey.make Params.default (Poly.zero 1024) (Poly.zero 1024) (Poly.zero 1024)
      = some sampleKey := by
  have hq := default_oddModulus
  have hmul := Poly.mul_zero hq (p := Poly.zero 1024) List.length_replicate
  have hadd : (Poly.zero 1024).add (Poly.zero 1024) = some (Poly.zero 1024) :=
    Poly.zero_add hq zero_inRing_default
  have hcentred := zero_inRing_default.centred_self hq
  simp [PublicKey.make, hmul, hadd, hcentred, sampleKey]

theorem sampleUnwiped_decrypt :
    sampleUnwiped.decrypt Params.default ⟨Poly.zero 1024⟩ = some ⟨List.replicate 1024 1⟩ := by
  have hq := default_oddModulus
  have hmul := Poly.mul_zero hq (p := Poly.zero 1024) List.length_replicate
  have hsub : sampleUnwiped.v.sub (Poly.zero 1024) = some sampleUnwiped.v := by
    have hzip : sampleUnwiped.v.coeffs.zip (Poly.zero 1024).coeffs
        = List.replicate 1024 (32768, 0) := List.zip_replicate'
    have hmap := mapM_eq_some_map (f := fun ab : Int × Int => subI64 ab.1 ab.2)
      (g := fun _ => (32768 : Int)) (l := List.replicate 1024 (32768, 0)) (by
        intro ab hab
        rw [List.eq_of_mem_replicate hab]
        decide)
    rw [List.map_replicate] at hmap
    rw [Poly.sub, hzip, hmap]
    rfl
  have hcentred := sampleUnwiped_inRing.v.centred_self hq
  have hbits := mapM_eq_some_map (f := fun x => do
      let centred ← absI64 (← centreReduce x Params.default.q)
      some (if Params.default.delta.tdiv 2 ≤ centred then (1 : Int) else 0))
    (g := fun _ => 1) (l := sampleUnwiped.v.coeffs) (by
      intro x hx
      rw [List.eq_of_mem_replicate hx]
      decide)
  simp only [Option.bind_eq_bind] at hbits
  simp only [Ciphertext.decrypt, show sampleUnwiped.u = Poly.zero 1024 from rfl, hmul, hsub,
    hcentred, Option.bind_eq_bind, Option.bind_some, hbits]
  rw [show sampleUnwiped.v.coeffs = List.replicate 1024 32768 from rfl, List.map_replicate]

/-- An honest key, a sector of ones under it, and two challenges with an answer. -/
theorem unwiped_answered :
    PublicKey.make Params.default (Poly.zero 1024) (Poly.zero 1024) (Poly.zero 1024)
        = some sampleKey ∧
      sampleUnwiped.decrypt Params.default ⟨Poly.zero 1024⟩ = some ⟨List.replicate 1024 1⟩ ∧
      ¬ SpeciallySound Params.default sampleKey sampleUnwiped (Poly.zero 1024, Poly.zero 1024) :=
  ⟨sampleKey_make, sampleUnwiped_decrypt,
    two_answers default_oddModulus (by decide) (by decide) (by decide) List.length_replicate
      List.length_replicate sampleUnwiped_inRing zero_inRing_default zero_inRing_default⟩

end DiscCleaner.Fhe
