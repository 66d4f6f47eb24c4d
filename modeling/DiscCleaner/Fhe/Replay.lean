import DiscCleaner.Fhe.Fits
import Mathlib.Data.List.Perm.Subperm

/-!
# DiscCleaner — when the replay of a proof goes on (`zkp.rs`)

`Outcome.Meets` is the weakest condition under which a verifier does not stop the program and ends
with what is asked for when it accepts. Each step of the verifier has its rule; the batched
verification is the chain of its rules.

* **`verifyBatched_meets`** — the condition of the whole replay, over the integers.
* **`deriveChallenge_small`** — a degree below the weight of a challenge always stops the program.
-/

namespace DiscCleaner.Fhe

open ByteLib CheckedLib

namespace Outcome

variable {α β : Type}

/-- The verifier goes on, and what it accepts is good. -/
def Meets (o : Outcome α) (good : α → Prop) : Prop :=
  match o with
  | fault => False
  | refused _ => True
  | ok a => good a

theorem meets_iff {o : Outcome α} {good : α → Prop} :
    o.Meets good ↔ o ≠ fault ∧ ∀ a, o = ok a → good a := by
  cases o with
  | fault => simp [Meets]
  | refused e => simp [Meets]
  | ok a => simp [Meets]

theorem meets_bind {o : Outcome α} {f : α → Outcome β} {good : β → Prop} :
    (o >>= f).Meets good ↔ o.Meets fun a => (f a).Meets good := by
  cases o with
  | fault => rfl
  | refused e => rfl
  | ok a => rfl

theorem meets_refuseIf {c : Bool} {e : FheError} {good : Unit → Prop} :
    (refuseIf c e).Meets good ↔ (c = false → good ()) := by
  cases c with
  | false => exact ⟨fun h _ => h, fun h => h rfl⟩
  | true => exact ⟨fun _ h => (by cases h), fun _ => trivial⟩

/-- A step whose condition is known. -/
theorem meets_step {x : Option α} {P : Prop} {a : α} (h : Exact x P a) {good : α → Prop} :
    (step x).Meets good ↔ P ∧ good a := by
  by_cases hP : P
  · rw [h.ok hP]
    exact (and_iff_right hP).symm
  · rw [h.fault hP]
    exact ⟨fun hf => hf.elim, fun hf => hP hf.1⟩

theorem meets_step_iff {x : Option α} {good : α → Prop} :
    (step x).Meets good ↔ ∃ a, x = some a ∧ good a := by
  cases x with
  | none => exact ⟨fun hf => hf.elim, fun ⟨_, hx, _⟩ => (by cases hx)⟩
  | some a => exact ⟨fun h => ⟨a, rfl, h⟩, fun ⟨_, hx, h⟩ => Option.some.inj hx ▸ h⟩

theorem meets_congr {o : Outcome α} {good good' : α → Prop} (h : ∀ a, good a ↔ good' a) :
    o.Meets good ↔ o.Meets good' := by
  rw [funext fun a => propext (h a)]

instance : LawfulMonad Outcome :=
  LawfulMonad.mk' Outcome (fun x => by cases x <;> rfl) (fun _ _ => rfl)
    (fun x _ _ => by cases x <;> rfl)

/-- A loop of steps goes on when each does. -/
theorem meets_mapM {f : α → Option β} {fits : α → Prop} {g : α → β}
    (h : ∀ a, Exact (f a) (fits a) (g a)) (l : List α) {good : List β → Prop} :
    (l.mapM fun a => step (f a)).Meets good ↔ (∀ a ∈ l, fits a) ∧ good (l.map g) := by
  induction l generalizing good with
  | nil => exact ⟨fun hg => ⟨by simp, hg⟩, fun hg => hg.2⟩
  | cons a l ih =>
    rw [List.mapM_cons, meets_bind, meets_step (h a), meets_bind, ih, List.forall_mem_cons,
      List.map_cons, and_assoc]
    rfl

end Outcome

/-! ## Digests -/

section

variable (hash : Bytes → Block 32)

/-- Both halves of a key or a ciphertext can be encoded. -/
def PublicKey.Encodable (pk : PublicKey) (q : Int) : Prop := pk.a.Encodable q ∧ pk.b.Encodable q

def PublicKey.digestZ (pk : PublicKey) (q : Int) : String :=
  hexHash hash (pk.a.toBytesZ q ++ pk.b.toBytesZ q)

theorem publicKey_digest_exact (pk : PublicKey) (q : Int) :
    Exact (pk.digest hash q) (pk.Encodable q) (pk.digestZ hash q) :=
  (Poly.toBytes_exact pk.a q).bind fun _ =>
    (Poly.toBytes_exact pk.b q).map fun b => hexHash hash (pk.a.toBytesZ q ++ b)

def Ciphertext.Encodable (c : Ciphertext) (q : Int) : Prop := c.u.Encodable q ∧ c.v.Encodable q

def Ciphertext.digestZ (c : Ciphertext) (q : Int) : String :=
  hexHash hash (c.u.toBytesZ q ++ c.v.toBytesZ q)

theorem ciphertext_digest_exact (c : Ciphertext) (q : Int) :
    Exact (c.digest hash q) (c.Encodable q) (c.digestZ hash q) :=
  ((Poly.toBytes_exact c.u q).bind fun _ =>
    (Poly.toBytes_exact c.v q).map fun v => c.u.toBytesZ q ++ v).map (hexHash hash)

def statementDigestZ (params : Params) (pk : PublicKey) (statements : List Ciphertext) : Bytes :=
  (hash (dsChallenge ++ utf8 (pk.digestZ hash params.q)
    ++ ((statements.map fun c => c.digestZ hash params.q).map utf8).flatten)).bytes

def transcriptZ (params : Params) (pk : PublicKey) (statements : List Ciphertext)
    (commitments : List (Poly × Poly)) : Bytes :=
  statementDigestZ hash params pk statements
    ++ (commitments.map fun t => t.1.toBytesZ params.q ++ t.2.toBytesZ params.q).flatten

/-- Everything the transcript hashes can be encoded. -/
structure TranscriptFits (q : Int) (pk : PublicKey) (statements : List Ciphertext)
    (commitments : List (Poly × Poly)) : Prop where
  key : pk.Encodable q
  statements : ∀ c ∈ statements, c.Encodable q
  commitments : ∀ t ∈ commitments, t.1.Encodable q ∧ t.2.Encodable q

theorem transcript_exact (params : Params) (pk : PublicKey) (statements : List Ciphertext)
    (commitments : List (Poly × Poly)) :
    Exact (transcript hash params pk statements commitments)
      (TranscriptFits params.q pk statements commitments)
      (transcriptZ hash params pk statements commitments) := by
  have hstatement : Exact (statementDigest hash params pk statements)
      (pk.Encodable params.q ∧ ∀ c ∈ statements, c.Encodable params.q)
      (statementDigestZ hash params pk statements) :=
    (publicKey_digest_exact hash pk params.q).bind fun _ =>
      (Exact.mapM (fun c => ciphertext_digest_exact hash c params.q) statements).map fun digests =>
        (hash (dsChallenge ++ utf8 (pk.digestZ hash params.q) ++ (digests.map utf8).flatten)).bytes
  have hparts : Exact (commitments.mapM fun t => do
        some ((← t.1.toBytes params.q) ++ (← t.2.toBytes params.q)))
      (∀ t ∈ commitments, t.1.Encodable params.q ∧ t.2.Encodable params.q)
      (commitments.map fun t => t.1.toBytesZ params.q ++ t.2.toBytesZ params.q) :=
    Exact.mapM (fun t => (Poly.toBytes_exact t.1 params.q).bind fun _ =>
      (Poly.toBytes_exact t.2 params.q).map fun b => t.1.toBytesZ params.q ++ b) commitments
  refine (hstatement.bind fun _ => hparts.map fun parts =>
    statementDigestZ hash params pk statements ++ parts.flatten).congr ?_ fun _ => rfl
  exact ⟨fun h => ⟨h.1.1, h.1.2, h.2⟩, fun h => ⟨⟨h.key, h.statements⟩, h.commitments⟩⟩

end

/-! ## Norms -/

namespace Response

/-- A response with a coordinate outside the mask. -/
def exceedsZ (r : Response) : Bool :=
  maskBound < r.z.infNormZ || maskBound < r.z1.infNormZ || maskBound < r.z2.infNormZ

/-- The norms up to the first that is too large. -/
def MaskFits (r : Response) : Prop :=
  r.z.NormFits ∧ (¬maskBound < r.z.infNormZ →
    r.z1.NormFits ∧ (¬maskBound < r.z1.infNormZ → r.z2.NormFits))

theorem exceedsMask_exact (r : Response) : Exact r.exceedsMask r.MaskFits r.exceedsZ := by
  have hlast : Exact (do some (decide (maskBound < (← r.z2.infNorm)))) r.z2.NormFits
      (decide (maskBound < r.z2.infNormZ)) := (Poly.infNorm_exact r.z2).map _
  have hsecond : Exact (do
        if maskBound < (← r.z1.infNorm) then some true
        else some (decide (maskBound < (← r.z2.infNorm))))
      (r.z1.NormFits ∧ if maskBound < r.z1.infNormZ then True else r.z2.NormFits)
      (if maskBound < r.z1.infNormZ then true else decide (maskBound < r.z2.infNormZ)) :=
    (Poly.infNorm_exact r.z1).bind fun _ => Exact.ite (fun _ => Exact.of_some true) fun _ => hlast
  have hall : Exact r.exceedsMask (r.z.NormFits ∧ if maskBound < r.z.infNormZ then True else
        (r.z1.NormFits ∧ if maskBound < r.z1.infNormZ then True else r.z2.NormFits))
      (if maskBound < r.z.infNormZ then true else
        if maskBound < r.z1.infNormZ then true else decide (maskBound < r.z2.infNormZ)) :=
    (Poly.infNorm_exact r.z).bind fun _ => Exact.ite (fun _ => Exact.of_some true) fun _ => hsecond
  refine hall.congr ?_ fun _ => ?_
  · rw [MaskFits]
    split_ifs with h0 h1 <;> simp [*]
  · rw [exceedsZ]
    split_ifs with h0 h1 <;> simp [*]

end Response

/-- The norms of the responses in order, up to the first that is refused. -/
def ResponsesFit : List Response → Prop
  | [] => True
  | r :: rest => r.MaskFits ∧ (r.exceedsZ = false → ResponsesFit rest)

theorem responses_meets (e : FheError) (rs : List Response) {good : PUnit → Prop} :
    (rs.forM fun r => do Outcome.refuseIf (← Outcome.step r.exceedsMask) e).Meets good ↔
      ResponsesFit rs ∧ ((∀ r ∈ rs, r.exceedsZ = false) → good ()) := by
  induction rs with
  | nil => exact ⟨fun h => ⟨trivial, fun _ => h⟩, fun h => h.2 (by simp)⟩
  | cons r rest ih =>
    rw [List.forM, Outcome.meets_bind, Outcome.meets_bind,
      Outcome.meets_step r.exceedsMask_exact, Outcome.meets_refuseIf, ih, List.forall_mem_cons,
      ResponsesFit, and_assoc, and_congr_right_iff]
    intro _
    by_cases hr : r.exceedsZ = false
    · simp only [hr, true_imp_iff, true_and]
    · simp [hr]

/-! ## Equations -/

/-- A computed answer is used. -/
theorem answer_bind {α : Type} {key z e : Poly} {q : Int} {k : Poly → Option α} {Q : Prop} {b : α}
    (h : Exact (k (Poly.answerZ key z e q)) Q b) :
    Exact (do k (← (← (← key.mul z q).add e).centred q)) (Poly.AnswerFits key z e q ∧ Q) b :=
  ((Poly.mul_exact key z q).bind fun _ => (Poly.add_exact _ e).bind fun _ =>
    (Poly.centred_exact _ q).bind fun _ => h).congr (by rw [Poly.AnswerFits, and_assoc, and_assoc])
    fun _ => rfl

theorem claim_bind {α : Type} {t half : Poly} {challenge : List (Nat × Int)} {q : Int}
    {k : Poly → Option α} {Q : Prop} {b : α} (h : Exact (k (Poly.claimZ t half challenge q)) Q b) :
    Exact (do k (← (← t.add (← half.mulSparse challenge q)).centred q))
      (Poly.ClaimFits t half challenge q ∧ Q) b :=
  ((Poly.mulSparse_exact half challenge q).bind fun _ => (Poly.add_exact t _).bind fun _ =>
    (Poly.centred_exact _ q).bind fun _ => h).congr (by rw [Poly.ClaimFits, and_assoc, and_assoc])
    fun _ => rfl

/-- One equation: the answer for a response against the claim for a half. -/
structure EquationFits (q : Int) (challenge : List (Nat × Int)) (key z e t half : Poly) : Prop where
  answer : Poly.AnswerFits key z e q
  claim : Poly.ClaimFits t half challenge q

def equationZ (q : Int) (challenge : List (Nat × Int)) (key z e t half : Poly) : Bool :=
  Poly.answerZ key z e q == Poly.claimZ t half challenge q

theorem equation_exact (q : Int) (challenge : List (Nat × Int)) (key z e t half : Poly) :
    Exact (do
        let lhs ← (← (← key.mul z q).add e).centred q
        let rhs ← (← t.add (← half.mulSparse challenge q)).centred q
        some (lhs == rhs))
      (EquationFits q challenge key z e t half) (equationZ q challenge key z e t half) := by
  have hclaim := claim_bind (k := fun rhs => some (Poly.answerZ key z e q == rhs))
    (Exact.of_some (Poly.answerZ key z e q == Poly.claimZ t half challenge q))
  refine (answer_bind hclaim).congr ?_ fun _ => rfl
  exact ⟨fun h => ⟨h.1, h.2.1⟩, fun h => ⟨h.answer, h.claim, trivial⟩⟩

/-- A commitment, its response and its ciphertext. -/
abbrev Sector := ((Poly × Poly) × Response) × Ciphertext

/-- Both equations of one sector. -/
def SectorFits (params : Params) (pk : PublicKey) (challenge : List (Nat × Int)) (s : Sector) :
    Prop :=
  EquationFits params.q challenge pk.a s.1.2.z s.1.2.z1 s.1.1.1 s.2.u ∧
    EquationFits params.q challenge pk.b s.1.2.z s.1.2.z2 s.1.1.2 s.2.v

def sectorHoldsZ (params : Params) (pk : PublicKey) (challenge : List (Nat × Int)) (s : Sector) :
    Bool :=
  equationZ params.q challenge pk.a s.1.2.z s.1.2.z1 s.1.1.1 s.2.u &&
    equationZ params.q challenge pk.b s.1.2.z s.1.2.z2 s.1.1.2 s.2.v

theorem sectorHolds_exact (params : Params) (pk : PublicKey) (challenge : List (Nat × Int))
    (s : Sector) : Exact (sectorHolds params pk challenge s.1.1 s.1.2 s.2)
      (SectorFits params pk challenge s) (sectorHoldsZ params pk challenge s) := by
  let holdsA := equationZ params.q challenge pk.a s.1.2.z s.1.2.z1 s.1.1.1 s.2.u
  have hclaimB := claim_bind (t := s.1.1.2) (q := params.q)
    (k := fun rhs => some (holdsA && Poly.answerZ pk.b s.1.2.z s.1.2.z2 params.q == rhs))
    (Exact.of_some (holdsA && equationZ params.q challenge pk.b s.1.2.z s.1.2.z2 s.1.1.2 s.2.v))
  refine (answer_bind (claim_bind (answer_bind hclaimB))).congr ?_ fun _ => rfl
  exact ⟨fun h => ⟨⟨h.1, h.2.1⟩, h.2.2.1, h.2.2.2.1⟩,
    fun h => ⟨h.1.answer, h.1.claim, h.2.answer, h.2.claim, trivial⟩⟩

/-! ## The batch -/

/-- Sixteen coefficients from each block, over the integers. -/
def coefficientsZ (hash : Bytes → Block 32) (q : Int) (seed : Bytes) : Nat → Nat → Nat → List Int
  | _, _, 0 => []
  | 0, _, _ => []
  | turns + 1, ctr, count =>
    (((asChunks 2 (hash (seed ++ le32 ctr ++ le32 (ctr / 2 ^ 32))).bytes).take count).map
      fun chunk => (ofLe chunk : Int).tmod q) ++ coefficientsZ hash q seed turns (ctr + 1) (count - 16)

/-- A modulus that is not zero, and a counter that does not run out. -/
def CoefficientsFit (q : Int) (turns count : Nat) : Prop :=
  count = 0 ∨ q ≠ 0 ∧ count ≤ 16 * turns

/-- Two bytes divided by anything stay inside a word. -/
theorem inI64_tdiv_chunk {chunk : Bytes} (hlen : chunk.length ≤ 2) (q : Int) :
    InI64 ((ofLe chunk : Int).tdiv q) := by
  have hlt : ofLe chunk < 2 ^ 16 := by
    match chunk, hlen with
    | [], _ => decide
    | [a], _ =>
      have ha : a.toNat < 2 ^ 8 := a.toNat_lt
      simp only [ofLe]
      omega
    | [a, b], _ =>
      have ha : a.toNat < 2 ^ 8 := a.toNat_lt
      have hb : b.toNat < 2 ^ 8 := b.toNat_lt
      simp only [ofLe]
      omega
  have habs : |(ofLe chunk : Int).tdiv q| ≤ ofLe chunk := by
    rw [Int.abs_eq_natAbs, Int.natAbs_tdiv, Int.natAbs_natCast]
    exact_mod_cast Nat.div_le_self _ _
  exact inI64_of_abs_le habs (by omega)

/-- The coefficients of one block: there is at least one. -/
theorem chunks_exact (q : Int) {block : Bytes} (hsize : block.length = 32) (count : Nat) :
    Exact (((asChunks 2 block).take (count + 1)).mapM fun chunk => remI64 (ofLe chunk) q) (q ≠ 0)
      (((asChunks 2 block).take (count + 1)).map fun chunk => (ofLe chunk : Int).tmod q) := by
  refine (Exact.mapM (fun chunk => exact_remI64 (ofLe chunk) q) _).congr ⟨fun h => ?_, ?_⟩
    fun _ => rfl
  · have hmem : block.take 2 ∈ (asChunks 2 block).take (count + 1) := by
      rw [asChunks, hsize]
      exact List.mem_cons_self
    exact (h _ hmem).1
  · intro hq chunk hchunk
    obtain ⟨i, -, rfl⟩ := List.mem_map.mp (List.mem_of_mem_take hchunk)
    exact ⟨hq, inI64_tdiv_chunk (List.length_take_le _ _) q⟩

theorem drawCoefficients_exact (hash : Bytes → Block 32) (q : Int) (seed : Bytes)
    (turns ctr count : Nat) :
    Exact (drawCoefficients hash q seed turns ctr count) (CoefficientsFit q turns count)
      (coefficientsZ hash q seed turns ctr count) := by
  induction turns generalizing ctr count with
  | zero =>
    cases count with
    | zero => exact (Exact.of_some []).congr (iff_of_true trivial (Or.inl rfl)) fun _ => rfl
    | succ count =>
      refine ⟨fun h => ?_, fun _ => rfl⟩
      rcases h with h | h
      · cases h
      · omega
  | succ turns ih =>
    cases count with
    | zero => exact (Exact.of_some []).congr (iff_of_true trivial (Or.inl rfl)) fun _ => rfl
    | succ count =>
      rw [drawCoefficients, coefficientsZ]
      · generalize hblock : (hash (seed ++ le32 ctr ++ le32 (ctr / 2 ^ 32))).bytes = block
        have hsize : block.length = 32 := by rw [← hblock, Block.size]
        refine ((chunks_exact q hsize count).bind fun _ => (ih (ctr + 1) (count + 1 - 16)).map
          fun rest => _ ++ rest).congr ?_ fun _ => rfl
        simp only [CoefficientsFit]
        omega
      · exact Nat.succ_ne_zero count
      · exact Nat.succ_ne_zero count

def addScaledZ (q g : Int) (sum p : Poly) : Poly := (sum.addZ (p.scaleZ g)).centredZ q

def AddScaledFits (q g : Int) (sum p : Poly) : Prop :=
  p.ScaleFits g ∧ sum.AddFits (p.scaleZ g) ∧ (sum.addZ (p.scaleZ g)).CentredFits q

theorem addScaled_exact (q g : Int) (sum p : Poly) :
    Exact (addScaled q g sum p) (AddScaledFits q g sum p) (addScaledZ q g sum p) :=
  (Poly.scale_exact p g).bind fun _ => (Poly.add_exact sum _).bind fun _ => Poly.centred_exact _ q

/-- One sector into the seven sums. -/
def BatchSums.nextZ (q : Int) (sums : BatchSums) (term : Sector × Int) : BatchSums where
  z := addScaledZ q term.2 sums.z term.1.1.2.z
  z1 := addScaledZ q term.2 sums.z1 term.1.1.2.z1
  z2 := addScaledZ q term.2 sums.z2 term.1.1.2.z2
  t1 := addScaledZ q term.2 sums.t1 term.1.1.1.1
  t2 := addScaledZ q term.2 sums.t2 term.1.1.1.2
  u := addScaledZ q term.2 sums.u term.1.2.u
  v := addScaledZ q term.2 sums.v term.1.2.v

structure BatchSums.NextFits (q : Int) (sums : BatchSums) (term : Sector × Int) : Prop where
  z : AddScaledFits q term.2 sums.z term.1.1.2.z
  z1 : AddScaledFits q term.2 sums.z1 term.1.1.2.z1
  z2 : AddScaledFits q term.2 sums.z2 term.1.1.2.z2
  t1 : AddScaledFits q term.2 sums.t1 term.1.1.1.1
  t2 : AddScaledFits q term.2 sums.t2 term.1.1.1.2
  u : AddScaledFits q term.2 sums.u term.1.2.u
  v : AddScaledFits q term.2 sums.v term.1.2.v

theorem BatchSums.next_exact (q : Int) (sums : BatchSums) (term : Sector × Int) :
    Exact (BatchSums.next q sums term) (sums.NextFits q term) (sums.nextZ q term) := by
  have hall : Exact (BatchSums.next q sums term)
      (AddScaledFits q term.2 sums.z term.1.1.2.z ∧ AddScaledFits q term.2 sums.z1 term.1.1.2.z1 ∧
        AddScaledFits q term.2 sums.z2 term.1.1.2.z2 ∧ AddScaledFits q term.2 sums.t1 term.1.1.1.1 ∧
        AddScaledFits q term.2 sums.t2 term.1.1.1.2 ∧ AddScaledFits q term.2 sums.u term.1.2.u ∧
        AddScaledFits q term.2 sums.v term.1.2.v) (sums.nextZ q term) :=
    (addScaled_exact q term.2 sums.z term.1.1.2.z).bind fun _ =>
    (addScaled_exact q term.2 sums.z1 term.1.1.2.z1).bind fun _ =>
    (addScaled_exact q term.2 sums.z2 term.1.1.2.z2).bind fun _ =>
    (addScaled_exact q term.2 sums.t1 term.1.1.1.1).bind fun _ =>
    (addScaled_exact q term.2 sums.t2 term.1.1.1.2).bind fun _ =>
    (addScaled_exact q term.2 sums.u term.1.2.u).bind fun _ =>
    (addScaled_exact q term.2 sums.v term.1.2.v).map fun v =>
      { sums.nextZ q term with v := v }
  refine hall.congr ⟨fun h => ?_, fun h => ?_⟩ fun _ => rfl
  · obtain ⟨hz, hz1, hz2, ht1, ht2, hu, hv⟩ := h
    exact ⟨hz, hz1, hz2, ht1, ht2, hu, hv⟩
  · exact ⟨h.z, h.z1, h.z2, h.t1, h.t2, h.u, h.v⟩

/-! ## The replay -/

/-- One commitment and one response for each of at least one ciphertext. -/
structure ShapeMatches (statements : List Ciphertext) (proof : ZeroizeProof) : Prop where
  commitments : proof.commitments.length = statements.length
  responses : proof.responses.length = statements.length
  statements : statements ≠ []

theorem shape_iff (statements : List Ciphertext) (proof : ZeroizeProof) :
    (proof.commitments.length != statements.length || proof.responses.length != statements.length
      || statements.isEmpty) = false ↔ ShapeMatches statements proof := by
  simp only [Bool.or_eq_false_iff, bne_eq_false_iff_eq, List.isEmpty_eq_false_iff]
  exact ⟨fun h => ⟨h.1.1, h.1.2, h.2⟩, fun h => ⟨⟨h.commitments, h.responses⟩, h.statements⟩⟩

def sectorsOf (statements : List Ciphertext) (proof : ZeroizeProof) : List Sector :=
  (proof.commitments.zip proof.responses).zip statements

/-- The seven sums over the integers. -/
def batchZ (params : Params) (sectors : List Sector) (gamma : List Int) : BatchSums :=
  (sectors.zip gamma).foldl (BatchSums.nextZ params.q) (BatchSums.start params.n)

/-- The batched part goes on, and what it accepts is good. -/
def BatchMeets (params : Params) (pk : PublicKey) (challenge : List (Nat × Int))
    (sectors : List Sector) (gamma : List Int) (good : Prop) : Prop :=
  let sums := batchZ params sectors gamma
  8 * params.n < 2 ^ 63 ∧
    FoldFits (BatchSums.NextFits params.q) (BatchSums.nextZ params.q) (BatchSums.start params.n)
      (sectors.zip gamma) ∧
    EquationFits params.q challenge pk.a sums.z sums.z1 sums.t1 sums.u ∧
    (equationZ params.q challenge pk.a sums.z sums.z1 sums.t1 sums.u = true →
      EquationFits params.q challenge pk.b sums.z sums.z2 sums.t2 sums.v ∧
      (equationZ params.q challenge pk.b sums.z sums.z2 sums.t2 sums.v = true → good))

section

variable (hash : Bytes → Block 32)

/-- The challenge seed is that of the transcript. -/
def SeedBinds (params : Params) (pk : PublicKey) (statements : List Ciphertext)
    (proof : ZeroizeProof) : Prop :=
  proof.challengeSeed
    = (hash (transcriptZ hash params pk statements proof.commitments)).bytes.take 16

/-- The checks in front of the equations go on, and the challenge they end with is good. -/
def ChecksMeet (params : Params) (pk : PublicKey) (statements : List Ciphertext)
    (proof : ZeroizeProof) (good : List (Nat × Int) → Prop) : Prop :=
  ShapeMatches statements proof →
    TranscriptFits params.q pk statements proof.commitments ∧
      (SeedBinds hash params pk statements proof →
        ResponsesFit proof.responses ∧
          ((∀ r ∈ proof.responses, r.exceedsZ = false) →
            ∃ challenge, deriveChallenge hash params proof.challengeSeed = some challenge ∧
              good challenge))

theorem checksMeet_congr {params : Params} {pk : PublicKey} {statements : List Ciphertext}
    {proof : ZeroizeProof} {good good' : List (Nat × Int) → Prop}
    (h : ∀ challenge, deriveChallenge hash params proof.challengeSeed = some challenge →
      (good challenge ↔ good' challenge)) :
    ChecksMeet hash params pk statements proof good ↔
      ChecksMeet hash params pk statements proof good' :=
  imp_congr_right fun _ => and_congr_right fun _ => imp_congr_right fun _ => and_congr_right fun _ =>
    imp_congr_right fun _ => exists_congr fun challenge => and_congr_right (h challenge)

theorem verifyStructure_meets (params : Params) (pk : PublicKey) (statements : List Ciphertext)
    (proof : ZeroizeProof) {good : Bool → Prop} :
    (verifyStructure hash params pk statements proof).Meets good ↔
      ChecksMeet hash params pk statements proof fun challenge =>
        (∀ s ∈ sectorsOf statements proof, SectorFits params pk challenge s) ∧
          good (((sectorsOf statements proof).map (sectorHoldsZ params pk challenge)).all id) := by
  rw [verifyStructure, Outcome.meets_bind, Outcome.meets_refuseIf, shape_iff, ChecksMeet]
  refine imp_congr_right fun _ => ?_
  rw [Outcome.meets_bind, Outcome.meets_step (transcript_exact hash params pk statements _),
    and_congr_right_iff]
  intro _
  rw [Outcome.meets_bind, Outcome.meets_refuseIf, bne_eq_false_iff_eq, ← SeedBinds]
  refine imp_congr_right fun _ => ?_
  rw [Outcome.meets_bind, responses_meets, and_congr_right_iff]
  intro _
  refine imp_congr_right fun _ => ?_
  rw [Outcome.meets_bind, Outcome.meets_step_iff]
  refine exists_congr fun challenge => and_congr_right fun _ => ?_
  rw [Outcome.meets_bind, Outcome.meets_mapM (sectorHolds_exact params pk challenge)]
  exact Iff.rfl

/-- **When the replay goes on**, and what it accepts is good. -/
def ReplayMeets (params : Params) (pk : PublicKey) (statements : List Ciphertext)
    (proof : ZeroizeProof) (good : Prop) : Prop :=
  ChecksMeet hash params pk statements proof fun challenge =>
    (∀ s ∈ sectorsOf statements proof, SectorFits params pk challenge s) ∧
      ((∀ s ∈ sectorsOf statements proof, sectorHoldsZ params pk challenge s = true) →
        CoefficientsFit params.q (2 ^ 64 - 1) statements.length ∧
          BatchMeets params pk challenge (sectorsOf statements proof)
            (coefficientsZ hash params.q proof.batchSeed (2 ^ 64 - 1) 0 statements.length) good)

theorem alloc_exact (n : Nat) :
    Exact (BatchSums.alloc n) (8 * n < 2 ^ 63) (BatchSums.start n) :=
  Exact.guard _

theorem verifyBatched_meets (params : Params) (pk : PublicKey) (statements : List Ciphertext)
    (proof : ZeroizeProof) {good : Prop} :
    ((verifyBatched hash params pk statements proof).Meets fun _ => good) ↔
      ReplayMeets hash params pk statements proof good := by
  rw [verifyBatched, Outcome.meets_bind, verifyStructure_meets, ReplayMeets]
  refine checksMeet_congr hash fun challenge hchallenge => and_congr_right fun _ => ?_
  have hheld : (!((sectorsOf statements proof).map (sectorHoldsZ params pk challenge)).all id)
      = false ↔ ∀ s ∈ sectorsOf statements proof, sectorHoldsZ params pk challenge s = true := by
    simp
  rw [Outcome.meets_bind, Outcome.meets_refuseIf, hheld]
  refine imp_congr_right fun _ => ?_
  rw [Outcome.meets_bind, hchallenge, Outcome.meets_step (Exact.of_some challenge), true_and,
    Outcome.meets_bind, deriveBatchCoefficients, Outcome.meets_step (drawCoefficients_exact hash ..),
    and_congr_right_iff]
  intro _
  rw [Outcome.meets_bind, Outcome.meets_step (alloc_exact params.n), BatchMeets, and_congr_right_iff]
  intro _
  rw [Outcome.meets_bind]
  refine (Outcome.meets_step (Exact.foldlM (BatchSums.next_exact params.q)
    ((sectorsOf statements proof).zip _) _)).trans (and_congr_right fun _ => ?_)
  rw [Outcome.meets_bind, ← batchZ, Outcome.meets_step (equation_exact params.q challenge pk.a ..),
    and_congr_right_iff]
  intro _
  rw [Outcome.meets_bind, Outcome.meets_refuseIf, Bool.not_eq_false']
  refine imp_congr_right fun _ => ?_
  rw [Outcome.meets_bind, Outcome.meets_step (equation_exact params.q challenge pk.b ..),
    and_congr_right_iff]
  intro _
  rw [Outcome.meets_refuseIf, Bool.not_eq_false']

/-- The positions drawn so far: distinct and below the degree. -/
structure Drawn (n : Nat) (terms : List (Nat × Int)) : Prop where
  distinct : (terms.map Prod.fst).Nodup
  below : ∀ term ∈ terms, term.1 < n

theorem Drawn.length_le {n : Nat} {terms : List (Nat × Int)} (h : Drawn n terms) :
    terms.length ≤ n := by
  have hsub : terms.map Prod.fst ⊆ List.range n := by
    intro pos hpos
    obtain ⟨term, hterm, rfl⟩ := List.mem_map.mp hpos
    exact List.mem_range.mpr (h.below term hterm)
  have hlen := (h.distinct.subperm hsub).length_le
  rwa [List.length_map, List.length_range] at hlen

theorem Drawn.drawTerm {n : Nat} {terms terms' : List (Nat × Int)} (h : Drawn n terms)
    {chunk : Bytes} (hdraw : drawTerm n terms chunk = some terms') : Drawn n terms' := by
  simp only [Fhe.drawTerm] at hdraw
  by_cases hfull : terms.length = challengeWeight
  · rw [if_pos hfull] at hdraw
    exact Option.some.inj hdraw ▸ h
  by_cases hzero : n = 0
  · rw [if_neg hfull, if_pos hzero] at hdraw
    cases hdraw
  rw [if_neg hfull, if_neg hzero] at hdraw
  by_cases hused : (terms.any fun term => term.1 = ofLe chunk % n) = true
  · rw [if_pos hused] at hdraw
    exact Option.some.inj hdraw ▸ h
  · rw [if_neg hused] at hdraw
    rw [← Option.some.inj hdraw]
    have hnew : ofLe chunk % n ∉ terms.map Prod.fst := by
      intro hmem
      obtain ⟨term, hterm, heq⟩ := List.mem_map.mp hmem
      exact hused (List.any_eq_true.mpr ⟨term, hterm, decide_eq_true heq⟩)
    constructor
    · rw [List.map_append, List.nodup_append]
      refine ⟨h.distinct, List.nodup_singleton _, fun a ha b hb hab => ?_⟩
      rw [hab, List.mem_singleton.mp hb] at ha
      exact hnew ha
    · intro term hterm
      rcases List.mem_append.mp hterm with hold | hlast
      · exact h.below term hold
      · rw [List.mem_singleton.mp hlast]
        exact Nat.mod_lt _ (Nat.pos_of_ne_zero hzero)

/-- What every draw keeps, a finished challenge has; and it has enough terms. -/
theorem drawTerms_inv {n : Nat} {P : List (Nat × Int) → Prop}
    (hP : ∀ terms chunk terms', P terms → Fhe.drawTerm n terms chunk = some terms' → P terms')
    {seed : Bytes} {turns ctr : Nat} {terms out : List (Nat × Int)} (hterms : P terms)
    (h : drawTerms hash n seed turns ctr terms = some out) :
    P out ∧ challengeWeight ≤ out.length := by
  have hfold : ∀ (chunks : List Bytes) (terms terms' : List (Nat × Int)), P terms →
      chunks.foldlM (Fhe.drawTerm n) terms = some terms' → P terms' := by
    intro chunks
    induction chunks with
    | nil => exact fun terms terms' hterms hrun => Option.some.inj hrun ▸ hterms
    | cons chunk rest ih =>
      intro terms terms' hterms hrun
      rw [List.foldlM_cons] at hrun
      obtain ⟨next, hnext, hrest⟩ := Option.bind_eq_some_iff.mp hrun
      exact ih next terms' (hP terms chunk next hterms hnext) hrest
  induction turns generalizing ctr terms with
  | zero =>
    rw [drawTerms] at h
    split_ifs at h with hfull
    exact Option.some.inj h ▸ ⟨hterms, hfull⟩
  | succ turns ih =>
    rw [drawTerms] at h
    split_ifs at h with hfull
    · exact Option.some.inj h ▸ ⟨hterms, hfull⟩
    · obtain ⟨next, hnext, hrest⟩ := Option.bind_eq_some_iff.mp h
      exact ih (hfold _ terms next hterms hnext) hrest

/-- **A degree below the weight of a challenge stops the program**: so few positions are used up
before there are enough terms, and a degree of zero divides by zero. -/
theorem deriveChallenge_small {params : Params} (h : params.n < challengeWeight) (seed : Bytes) :
    deriveChallenge hash params seed = none := by
  cases hrun : deriveChallenge hash params seed with
  | none => rfl
  | some out =>
    have hnil : Drawn params.n [] := ⟨List.nodup_nil, by simp⟩
    obtain ⟨hdrawn, hlen⟩ := drawTerms_inv hash (P := Drawn params.n)
      (fun _ _ _ hterms hdraw => hterms.drawTerm hdraw) hnil hrun
    have := hdrawn.length_le
    omega

end

end DiscCleaner.Fhe
