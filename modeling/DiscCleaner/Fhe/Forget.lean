import DiscCleaner.Fhe.Certificate
import DiscCleaner.Fhe.Agreement

/-!
# DiscCleaner — the blind zeroize circuit (`fhe.rs`, `rlwe.rs`)

`blind_zeroize` subtracts a ciphertext from itself and adds a fresh encryption of zero. The result
is that encryption, whatever was stored; what is left of it under the secret key is
`e·r + e2 − e1·s`, which the attested figure is a statistical bound of.

* **`noise_eq`** — the noise of an encryption of zero is `e·r + e2 − e1·s`, centred.
* **`forgets_iff`** — the output decrypts to zero within the attested noise exactly when every
  coefficient of that noise is within the figure.
-/

namespace DiscCleaner.Fhe

open ByteLib CheckedLib NegacyclicLib

/-! ## The circuit -/

/-- Encrypt with an explicit witness. -/
def encryptWith (params : Params) (pk : PublicKey) (m r e1 e2 : Poly) : Option Ciphertext := do
  let u ← (← (← pk.a.mul r params.q).add e1).centred params.q
  let v ← (← (← (← pk.b.mul r params.q).add e2).add (← m.scale params.delta)).centred params.q
  some ⟨u, v⟩

/-- Homomorphic addition. -/
def homAdd (params : Params) (c1 c2 : Ciphertext) : Option Ciphertext := do
  let u ← (← c1.u.add c2.u).centred params.q
  let v ← (← c1.v.add c2.v).centred params.q
  some ⟨u, v⟩

/-- Homomorphic subtraction. -/
def homSub (params : Params) (c1 c2 : Ciphertext) : Option Ciphertext := do
  let u ← (← c1.u.sub c2.u).centred params.q
  let v ← (← c1.v.sub c2.v).centred params.q
  some ⟨u, v⟩

/-- The distance of every coefficient of `v − u·s` to the nearest plaintext point. -/
def Ciphertext.noiseInfNorm (c : Ciphertext) (params : Params) (sk : SecretKey) : Option Int := do
  let noise ← (← c.v.sub (← c.u.mul sk.s params.q)).centred params.q
  noise.coeffs.foldlM (fun m x => do
    let centred ← absI64 (← centreReduce x params.q)
    some (max m (min centred (← absI64 (← subI64 params.delta centred))))) 0

/-- The correctness ceiling. -/
def Params.noiseCeiling (params : Params) : Int := params.delta.tdiv 2

/-- The cast of a float to a word truncates and saturates. -/
def asI64 (x : Float) : Int := x.toModel.toInt64.toInt

/-- The statistical bound of a fresh encryption's noise. -/
def freshNoiseBound (params : Params) : Int :=
  let half := Float.ofNat params.eta / 2.0
  let sigma := (Float.ofNat params.n * (half * half)).sqrt
  asI64 (12.0 * sigma * (Float.ofNat (max params.eta 1)).sqrt + Float.ofNat params.eta) + params.eta

/-- Noise accounting. -/
structure NoiseBudget where
  consumed : Int
  ceiling : Int

def NoiseBudget.new (params : Params) : NoiseBudget := ⟨0, params.noiseCeiling⟩

/-- Consume; an error when the budget is blown. -/
def NoiseBudget.consume (budget : NoiseBudget) (amount : Int) : Outcome NoiseBudget := do
  let consumed ← Outcome.step (addI64 budget.consumed amount)
  Outcome.refuseIf (decide (budget.ceiling ≤ consumed)) (.eval
    s!"noise budget exhausted: {amount} consumed reaches ceiling {budget.ceiling}")
  pure { budget with consumed := consumed }

/-- The provider's attestation of one run. -/
structure ZeroizeAttestation where
  noiseConsumed : Int
  noiseCeiling : Int
  evalKeyDigest : String
  selfDiffUDigest : String
  selfDiffVDigest : String

section

-- the generator: a fair coin, and the generator after it
variable {σ : Type} (coin : σ → Bool × σ)

/-- The difference of two counts of `eta` coins each. -/
def sampleCoeff : Nat → Int → σ → Int × σ
  | 0, acc, rng => (acc, rng)
  | eta + 1, acc, rng =>
    let (x, rng) := coin rng
    let (y, rng) := coin rng
    sampleCoeff eta (acc + ((x.toNat : Int) - y.toNat)) rng

def cbdCoeffs (eta : Nat) : Nat → σ → List Int × σ
  | 0, rng => ([], rng)
  | n + 1, rng =>
    let (acc, rng) := sampleCoeff coin eta 0 rng
    let (rest, rng) := cbdCoeffs eta n rng
    (acc :: rest, rng)

/-- A polynomial of the centred binomial distribution. -/
def sampleCbd (params : Params) (rng : σ) : Poly × σ :=
  let (coeffs, rng) := cbdCoeffs coin params.eta params.n rng
  (⟨coeffs⟩, rng)

/-- The randomness of one encryption. -/
def sampleWitness (params : Params) (rng : σ) : EncryptionWitness × σ :=
  let (r, rng) := sampleCbd coin params rng
  let (e1, rng) := sampleCbd coin params rng
  let (e2, rng) := sampleCbd coin params rng
  (⟨r, e1, e2⟩, rng)

variable (hash : Bytes → Block 32)

/-- The blind-zeroize circuit. -/
def blindZeroize (params : Params) (ek : EvalKey) (c : Ciphertext) (rng : σ) :
    Outcome ((Ciphertext × EncryptionWitness × ZeroizeAttestation) × σ) := do
  let selfDiff ← Outcome.step (homSub params c c)
  let (w, rng) := sampleWitness coin params rng
  let e0 ← Outcome.step (encryptWith params ek.pk (.zero params.n) w.r w.e1 w.e2)
  let out ← Outcome.step (homAdd params selfDiff e0)
  let budget ← (NoiseBudget.new params).consume (freshNoiseBound params)
  let evalKeyDigest ← Outcome.step (ek.digest hash params.q)
  let u ← Outcome.step (selfDiff.u.toBytes params.q)
  let v ← Outcome.step (selfDiff.v.toBytes params.q)
  pure ((out, w, {
    noiseConsumed := budget.consumed
    noiseCeiling := budget.ceiling
    evalKeyDigest := evalKeyDigest
    selfDiffUDigest := hexHash hash u
    selfDiffVDigest := hexHash hash v }), rng)

end

/-! ## The output is the fresh encryption -/

/-- The encryption of zero over the integers. -/
def freshZ (params : Params) (pk : PublicKey) (w : EncryptionWitness) : Ciphertext where
  u := Poly.answerZ pk.a w.r w.e1 params.q
  v := (((pk.b.mulZ w.r params.q).addZ w.e2).addZ
    ((Poly.zero params.n).scaleZ params.delta)).centredZ params.q

section

variable {params : Params} {pk : PublicKey} {w : EncryptionWitness}

/-- Everything that the encryption computes stays inside its words. -/
def EncryptFits (params : Params) (pk : PublicKey) (w : EncryptionWitness) : Prop :=
  Poly.AnswerFits pk.a w.r w.e1 params.q ∧ pk.b.MulFits w.r params.q ∧
    (pk.b.mulZ w.r params.q).AddFits w.e2 ∧ (Poly.zero params.n).ScaleFits params.delta ∧
    ((pk.b.mulZ w.r params.q).addZ w.e2).AddFits ((Poly.zero params.n).scaleZ params.delta) ∧
    (((pk.b.mulZ w.r params.q).addZ w.e2).addZ
      ((Poly.zero params.n).scaleZ params.delta)).CentredFits params.q

theorem encryptWith_exact (params : Params) (pk : PublicKey) (w : EncryptionWitness) :
    Exact (encryptWith params pk (.zero params.n) w.r w.e1 w.e2) (EncryptFits params pk w)
      (freshZ params pk w) :=
  answer_bind ((Poly.mul_exact pk.b w.r params.q).bind fun _ => (Poly.add_exact _ w.e2).bind fun _ =>
    (Poly.scale_exact (.zero params.n) params.delta).bind fun _ => (Poly.add_exact _ _).bind fun _ =>
      (Poly.centred_exact _ params.q).map fun v =>
        Ciphertext.mk (Poly.answerZ pk.a w.r w.e1 params.q) v)

theorem encryptWith_eq {c : Ciphertext}
    (h : encryptWith params pk (.zero params.n) w.r w.e1 w.e2 = some c) : c = freshZ params pk w :=
  ((encryptWith_exact params pk w).eq_some_iff.mp h).2.symm

theorem freshZ_inRing (hq : OddModulus params.q) (hpk : pk.OfDegree params.n)
    (hw : w.OfDegree params.n) : (freshZ params pk w).InRing params where
  u := Poly.inRing_centredZ hq (Poly.length_addZ (Poly.length_mulZ hpk.1 _ _) hw.e1)
  v := Poly.inRing_centredZ hq (Poly.length_addZ (Poly.length_addZ (Poly.length_mulZ hpk.2 _ _)
    hw.e2) (by rw [Poly.length_scaleZ, Poly.length_zero]))

/-- A vector less itself. -/
theorem sub_self_centred (hq : OddModulus params.q) {p : Poly} (hp : p.coeffs.length = params.n) :
    (do (← p.sub p).centred params.q) = some (Poly.zero params.n) := by
  have hdiff : ∀ ab ∈ p.coeffs.zip p.coeffs, ab.1 - ab.2 = 0 := by
    intro ab hab
    obtain ⟨i, hi, rfl⟩ := List.mem_iff_getElem.mp hab
    rw [List.getElem_zip, Int.sub_self]
  have hsub : p.sub p = some (Poly.zero params.n) := by
    have hZ : p.subZ p = Poly.zero params.n := by
      refine congrArg Poly.mk (List.eq_replicate_iff.mpr ⟨?_, fun c hc => ?_⟩)
      · rw [List.length_map, List.length_zip, Nat.min_self, hp]
      · obtain ⟨ab, hab, rfl⟩ := List.mem_map.mp hc
        exact hdiff ab hab
    rw [← hZ]
    refine (Poly.sub_exact p p).ok fun ab hab => ?_
    rw [hdiff ab hab]
    decide
  rw [hsub]
  exact (Poly.zero_inRing hq.pos params.n).centred_self hq

/-- **The self-difference is zero**, whatever the ciphertext. -/
theorem homSub_self (hq : OddModulus params.q) {c : Ciphertext} (hc : c.InRing params) :
    homSub params c c = some ⟨.zero params.n, .zero params.n⟩ := by
  have hu := sub_self_centred hq hc.u.length
  have hv := sub_self_centred hq hc.v.length
  simp only [homSub, Option.bind_eq_bind] at hu hv ⊢
  rw [← Option.bind_assoc, hu, Option.bind_some, ← Option.bind_assoc, hv, Option.bind_some]

theorem homAdd_zero (hq : OddModulus params.q) {c : Ciphertext} (hc : c.InRing params) :
    homAdd params ⟨.zero params.n, .zero params.n⟩ c = some c := by
  simp only [homAdd, Poly.zero_add hq hc.u, Poly.zero_add hq hc.v, hc.u.centred_self hq,
    hc.v.centred_self hq, Option.bind_eq_bind, Option.bind_some]

variable {σ : Type} (coin : σ → Bool × σ)

theorem length_cbdCoeffs (eta n : Nat) (rng : σ) : (cbdCoeffs coin eta n rng).1.length = n := by
  induction n generalizing rng with
  | zero => rfl
  | succ n ih => exact congrArg Nat.succ (ih (sampleCoeff coin eta 0 rng).2)

theorem sampleWitness_ofDegree (rng : σ) :
    (sampleWitness coin params rng).1.OfDegree params.n where
  r := length_cbdCoeffs coin _ _ _
  e1 := length_cbdCoeffs coin _ _ _
  e2 := length_cbdCoeffs coin _ _ _

variable (hash : Bytes → Block 32)

theorem consume_accepts {budget : NoiseBudget} {amount : Int} {good : NoiseBudget → Prop} :
    (budget.consume amount).Accepts good ↔ InI64 (budget.consumed + amount) ∧
      budget.consumed + amount < budget.ceiling ∧
        good ⟨budget.consumed + amount, budget.ceiling⟩ := by
  have hadd : Exact (addI64 budget.consumed amount) (InI64 (budget.consumed + amount))
      (budget.consumed + amount) := exact_i64 _
  rw [NoiseBudget.consume, Outcome.accepts_bind, Outcome.accepts_exact hadd,
    Outcome.accepts_bind, Outcome.accepts_refuseIf, decide_eq_false_iff_not, not_le]
  rfl

/-- What a run of the circuit has computed when it ends well. -/
theorem blindZeroize_inv {ek : EvalKey} {c out : Ciphertext} {w : EncryptionWitness}
    {att : ZeroizeAttestation} {rng rng' : σ}
    (h : blindZeroize coin hash params ek c rng = .ok ((out, w, att), rng')) :
    ∃ selfDiff e0, homSub params c c = some selfDiff ∧
      w = (sampleWitness coin params rng).1 ∧
      encryptWith params ek.pk (.zero params.n) w.r w.e1 w.e2 = some e0 ∧
      homAdd params selfDiff e0 = some out ∧ freshNoiseBound params < params.noiseCeiling ∧
      att.noiseConsumed = freshNoiseBound params := by
  have haccepts : (blindZeroize coin hash params ek c rng).Accepts (· = ((out, w, att), rng')) := by
    rw [h]
    rfl
  rw [blindZeroize] at haccepts
  simp only [Outcome.accepts_bind, Outcome.accepts_step, consume_accepts] at haccepts
  obtain ⟨selfDiff, hself, e0, he0, out', hout, -, hroom, key, -, u, -, v, -, hpure⟩ := haccepts
  cases hpure
  refine ⟨selfDiff, e0, hself, rfl, he0, hout, ?_, ?_⟩
  · rwa [NoiseBudget.new, Int.zero_add] at hroom
  · exact Int.zero_add _

end

/-! ## What the secret key sees -/

/-- The noise of a ciphertext over the integers. -/
def Ciphertext.noiseZ (c : Ciphertext) (params : Params) (s : Poly) : Poly :=
  (c.v.subZ (c.u.mulZ s params.q)).centredZ params.q

/-- The noise of an encryption of zero: `e·r + e2 − e1·s`. -/
def noisePoly (s e : Poly) (w : EncryptionWitness) : Poly :=
  ((e.productZ w.r).addZ w.e2).subZ (w.e1.productZ s)

section

variable {params : Params}

theorem half_eq_delta (hq : OddModulus params.q) : half params.q = params.delta := by
  obtain ⟨hpos, hodd, -⟩ := hq
  rw [half, Params.delta, Int.tdiv_eq_ediv_of_nonneg hpos.le]
  omega

theorem noiseZ_inRing (hq : OddModulus params.q) {c : Ciphertext} (hc : c.InRing params) (s : Poly) :
    (c.noiseZ params s).InRing params.n params.q :=
  Poly.inRing_centredZ hq (Poly.length_subZ hc.v.length (Poly.length_mulZ hc.u.length s params.q))

/-- What is computed of the noise goes on exactly when the product with the key does. -/
theorem noise_bind {α : Type} {k : Poly → Option α} {b : α} (hq : OddModulus params.q)
    {c : Ciphertext} (hc : c.InRing params) {s : Poly}
    (hk : Exact (k (c.noiseZ params s)) True b) :
    Exact (do
        let noise ← (← c.v.sub (← c.u.mul s params.q)).centred params.q
        k noise) (c.u.MulFits s params.q) b := by
  have hsmall : ∀ ab ∈ c.v.coeffs.zip (c.u.mulZ s params.q).coeffs, InI64 (ab.1 - ab.2) := by
    intro ab hab
    have hv := hc.v.bounded hq _ (List.of_mem_zip hab).1
    have hu := (Poly.inRing_mulZ hq hc.u.length s).bounded hq _ (List.of_mem_zip hab).2
    have hlt := hq.lt
    have hbound := abs_sub ab.1 ab.2
    refine inI64_of_abs_le (B := 2 * half params.q) (by omega) ?_
    unfold half
    omega
  have hcentred : (c.v.subZ (c.u.mulZ s params.q)).CentredFits params.q := by
    intro x hx
    obtain ⟨ab, hab, rfl⟩ := List.mem_map.mp hx
    obtain ⟨hpos, -, hlt⟩ := hq
    exact centreFits_of_pos hpos ⟨by omega, by omega⟩ (hsmall ab hab)
  refine ((Poly.mul_exact c.u s params.q).bind fun _ => (Poly.sub_exact c.v _).bind fun _ =>
    (Poly.centred_exact _ params.q).bind fun _ => hk).congr ?_ fun _ => rfl
  exact ⟨fun h => h.1, fun h => ⟨h, hsmall, hcentred, trivial⟩⟩

/-- The bit that a coefficient of the noise rounds to. -/
def bitZ (params : Params) (x : Int) : Int := if params.delta.tdiv 2 ≤ |x| then 1 else 0

/-- The distance of a coefficient to the nearest plaintext point. -/
def distanceZ (params : Params) (x : Int) : Int := min |x| |params.delta - (|x|)|

theorem decrypt_exact (hq : OddModulus params.q) {c : Ciphertext} (hc : c.InRing params)
    (s : Poly) : Exact (c.decrypt params ⟨s⟩) (c.u.MulFits s params.q)
      ⟨(c.noiseZ params s).coeffs.map (bitZ params)⟩ := by
  have hring := noiseZ_inRing hq hc s
  refine noise_bind hq hc (Exact.mk (fun _ => ?_) fun h => absurd trivial h)
  have hbits : (c.noiseZ params s).coeffs.mapM (fun x => do
      let centred ← absI64 (← centreReduce x params.q)
      some (if params.delta.tdiv 2 ≤ centred then (1 : Int) else 0))
      = some ((c.noiseZ params s).coeffs.map (bitZ params)) := by
    refine mapM_eq_some_map fun x hx => ?_
    have hbound := hring.bounded hq x hx
    have hlt := hq.lt
    have hhalf : half params.q < 2 ^ 63 := by unfold half; omega
    have habs : absI64 x = some |x| := i64_of_inI64 (inI64_of_abs_le ((abs_abs x).le.trans hbound)
      hhalf)
    rw [centreReduce_of_centred hq (hring.centred x hx)]
    show (do let centred ← absI64 x; some (if params.delta.tdiv 2 ≤ centred then (1 : Int) else 0)) = _
    rw [habs]
    rfl
  show (_ >>= fun bits => some (Poly.mk bits)) = _
  rw [hbits]
  rfl

theorem noiseInfNorm_exact (hq : OddModulus params.q) {c : Ciphertext} (hc : c.InRing params)
    (s : Poly) : Exact (c.noiseInfNorm params ⟨s⟩) (c.u.MulFits s params.q)
      ((c.noiseZ params s).coeffs.foldl (fun m x => max m (distanceZ params x)) 0) := by
  have hring := noiseZ_inRing hq hc s
  have hdelta := half_eq_delta hq
  have hlt := hq.lt
  have hturn : ∀ cs : List Int, (∀ x ∈ cs, Centred params.q x) → ∀ m : Int,
      cs.foldlM (fun m x => do
        let centred ← absI64 (← centreReduce x params.q)
        some (max m (min centred (← absI64 (← subI64 params.delta centred))))) m
      = some (cs.foldl (fun m x => max m (distanceZ params x)) m) := by
    intro cs
    induction cs with
    | nil => exact fun _ m => rfl
    | cons x cs ih =>
      intro hcs m
      obtain ⟨hx, hrest⟩ := List.forall_mem_cons.mp hcs
      have hbound := centred_abs_le hq hx
      have hpos := abs_nonneg x
      have hhalf : half params.q < 2 ^ 62 := by unfold half; omega
      have habs : absI64 x = some |x| :=
        i64_of_inI64 (inI64_of_abs_le ((abs_abs x).le.trans hbound) (by omega))
      have hsub : subI64 params.delta |x| = some (params.delta - |x|) :=
        i64_of_inI64 ⟨by omega, by omega⟩
      have hother : absI64 (params.delta - |x|) = some |params.delta - (|x|)| := by
        refine i64_of_inI64 (inI64_of_abs_le (B := half params.q) ?_ (by omega))
        rw [abs_abs, abs_of_nonneg (by omega)]
        omega
      rw [List.foldlM_cons, centreReduce_of_centred hq hx]
      show (do
        let m' ← (do
          let centred ← absI64 x
          some (max m (min centred (← absI64 (← subI64 params.delta centred)))))
        cs.foldlM _ m') = _
      rw [habs]
      simp only [Option.bind_eq_bind, Option.bind_some, hsub, hother]
      exact ih hrest _
  exact noise_bind hq hc ⟨fun _ => hturn _ hring.centred 0, fun h => absurd trivial h⟩

theorem foldl_max_le {f : Int → Int} {B : Int} (cs : List Int) (m : Int) :
    cs.foldl (fun m x => max m (f x)) m ≤ B ↔ m ≤ B ∧ ∀ x ∈ cs, f x ≤ B := by
  induction cs generalizing m with
  | nil => simp
  | cons x cs ih => rw [List.foldl_cons, ih, max_le_iff, and_assoc, List.forall_mem_cons]

/-- Rounded to zero, a coefficient is nearest to zero: the figure bounds its size. -/
theorem within_iff {B x : Int} (hB : B < params.delta.tdiv 2) (hdelta : 0 ≤ params.delta) :
    (bitZ params x = 0 ∧ distanceZ params x ≤ B) ↔ |x| ≤ B := by
  have hhalf : params.delta.tdiv 2 = params.delta / 2 := Int.tdiv_eq_ediv_of_nonneg hdelta
  rw [hhalf] at hB
  rw [bitZ, distanceZ, hhalf]
  constructor
  · rintro ⟨hbit, hdistance⟩
    have hsmall : ¬params.delta / 2 ≤ |x| := fun h => by
      rw [if_pos h] at hbit
      omega
    rcases min_le_iff.mp hdistance with h | h
    · exact h
    · rw [abs_of_nonneg (by omega)] at h
      omega
  · intro hx
    rw [if_neg (by omega)]
    exact ⟨rfl, (min_le_left _ _).trans hx⟩

/-- **Decryption to zero within a figure** below the ceiling: no coefficient of the noise exceeds
it. -/
theorem reads_zero_iff (hn : params.n ≠ 0) (hq : OddModulus params.q) {c : Ciphertext}
    (hc : c.InRing params) {s : Poly} {B : Int} (hB : B < params.noiseCeiling) :
    (c.decrypt params ⟨s⟩ = some (.zero params.n) ∧
        ∃ k, c.noiseInfNorm params ⟨s⟩ = some k ∧ k ≤ B) ↔
      c.u.MulFits s params.q ∧ ∀ x ∈ (c.noiseZ params s).coeffs, |x| ≤ B := by
  have hdelta : 0 ≤ params.delta := half_eq_delta hq ▸ half_nonneg hq
  have hlen := (noiseZ_inRing hq hc s).length
  have hwithin : ((c.noiseZ params s).coeffs.map (bitZ params) = List.replicate params.n 0 ∧
      (c.noiseZ params s).coeffs.foldl (fun m x => max m (distanceZ params x)) 0 ≤ B) ↔
      ∀ x ∈ (c.noiseZ params s).coeffs, |x| ≤ B := by
    rw [foldl_max_le, List.eq_replicate_iff, List.length_map, hlen, and_iff_right rfl,
      List.forall_mem_map]
    constructor
    · rintro ⟨hbits, -, hdistances⟩ x hx
      exact (within_iff hB hdelta).mp ⟨hbits x hx, hdistances x hx⟩
    · intro h
      -- the vector is not empty, so the figure is not negative
      obtain ⟨x, hx⟩ := List.exists_mem_of_length_pos (hlen ▸ Nat.pos_of_ne_zero hn)
      exact ⟨fun x hx => ((within_iff hB hdelta).mpr (h x hx)).1, (abs_nonneg x).trans (h x hx),
        fun x hx => ((within_iff hB hdelta).mpr (h x hx)).2⟩
  simp only [(decrypt_exact hq hc s).eq_some_iff, (noiseInfNorm_exact hq hc s).eq_some_iff]
  constructor
  · rintro ⟨⟨hfits, hzero⟩, k, ⟨-, rfl⟩, hk⟩
    exact ⟨hfits, hwithin.mp ⟨congrArg Poly.coeffs hzero, hk⟩⟩
  · rintro ⟨hfits, hall⟩
    obtain ⟨hzero, hk⟩ := hwithin.mpr hall
    exact ⟨⟨hfits, congrArg Poly.mk hzero⟩, _, ⟨hfits, rfl⟩, hk⟩

end

/-! ## The noise of the output -/

section

variable {params : Params} {a s e : Poly} {pk : PublicKey} {w : EncryptionWitness}

theorem make_eq (h : PublicKey.make params a s e = some pk) :
    pk = ⟨a, Poly.answerZ a s e params.q⟩ := by
  have hexact : Exact (PublicKey.make params a s e) _ ⟨a, Poly.answerZ a s e params.q⟩ :=
    answer_bind (k := fun b => some (PublicKey.mk a b)) (Exact.of_some _)
  exact (hexact.eq_some_iff.mp h).2.symm

/-- **The noise of an encryption of zero**: in `v − u·s` the products with `a` cancel. -/
theorem noise_eq (hq : OddModulus params.q) (hq1 : 1 < params.q) (hn : params.n ≠ 0)
    (ha : a.coeffs.length = params.n) (he : e.coeffs.length = params.n)
    (hw : w.OfDegree params.n) :
    (freshZ params ⟨a, Poly.answerZ a s e params.q⟩ w).noiseZ params s
      = (noisePoly s e w).centredZ params.q := by
  have hpk : PublicKey.OfDegree params.n ⟨a, Poly.answerZ a s e params.q⟩ :=
    ⟨ha, length_answerZ ha he⟩
  have hfresh : (freshZ params ⟨a, Poly.answerZ a s e params.q⟩ w).InRing params :=
    freshZ_inRing hq hpk hw
  have hzero : ((Poly.zero params.n).scaleZ params.delta).coeffs.length = params.n := by
    rw [Poly.length_scaleZ, Poly.length_zero]
  have hprod := Poly.length_productZ he w.r
  have hprod1 := Poly.length_productZ hw.e1 s
  have hb := Poly.length_mulZ hpk.2 w.r params.q
  have hu := Poly.length_mulZ ha w.r params.q
  have hkey := Poly.length_mulZ ha s params.q
  have hpoly : (noisePoly s e w).coeffs.length = params.n :=
    Poly.length_subZ (Poly.length_addZ hprod hw.e2) hprod1
  refine (noiseZ_inRing hq hfresh s).eq_of_element hq hq1 hn (Poly.inRing_centredZ hq hpoly) ?_
  have hkeyElement : (Poly.answerZ a s e params.q).element params.q params.n
      = a.element params.q params.n * s.element params.q params.n + e.element params.q params.n := by
    rw [Poly.answerZ, Poly.element_centredZ hq.pos (Poly.length_addZ hkey he),
      Poly.element_addZ hkey he, Poly.element_mulZ hq.pos ha]
  have huElement : (Poly.answerZ a w.r w.e1 params.q).element params.q params.n
      = a.element params.q params.n * w.r.element params.q params.n
        + w.e1.element params.q params.n := by
    rw [Poly.answerZ, Poly.element_centredZ hq.pos (Poly.length_addZ hu hw.e1),
      Poly.element_addZ hu hw.e1, Poly.element_mulZ hq.pos ha]
  have hvElement : (freshZ params ⟨a, Poly.answerZ a s e params.q⟩ w).v.element params.q params.n
      = (a.element params.q params.n * s.element params.q params.n + e.element params.q params.n)
        * w.r.element params.q params.n + w.e2.element params.q params.n := by
    rw [freshZ, Poly.element_centredZ hq.pos (Poly.length_addZ (Poly.length_addZ hb hw.e2) hzero),
      Poly.element_addZ (Poly.length_addZ hb hw.e2) hzero, Poly.element_addZ hb hw.e2,
      Poly.element_mulZ hq.pos hpk.2, Poly.element_scaleZ (Poly.length_zero _), Poly.element_zero,
      hkeyElement, MulZeroClass.mul_zero, AddMonoid.add_zero]
  calc ((freshZ params ⟨a, Poly.answerZ a s e params.q⟩ w).noiseZ params s).element params.q params.n
      = (freshZ params ⟨a, Poly.answerZ a s e params.q⟩ w).v.element params.q params.n
          - (Poly.answerZ a w.r w.e1 params.q).element params.q params.n
            * s.element params.q params.n := by
        have hus := Poly.length_mulZ hfresh.u.length s params.q
        rw [Ciphertext.noiseZ, Poly.element_centredZ hq.pos (Poly.length_subZ hfresh.v.length hus),
          Poly.element_subZ hfresh.v.length hus, Poly.element_mulZ hq.pos hfresh.u.length]
        rfl
    _ = e.element params.q params.n * w.r.element params.q params.n
          + w.e2.element params.q params.n
          - w.e1.element params.q params.n * s.element params.q params.n := by
        rw [hvElement, huElement]
        ring
    _ = ((noisePoly s e w).centredZ params.q).element params.q params.n := by
        rw [Poly.element_centredZ hq.pos hpoly, noisePoly,
          Poly.element_subZ (Poly.length_addZ hprod hw.e2) hprod1, Poly.element_addZ hprod hw.e2,
          Poly.element_productZ he, Poly.element_productZ hw.e1]

variable {σ : Type} (coin : σ → Bool × σ) (hash : Bytes → Block 32)

/-- The run forgets the ciphertext: its output is the encryption of zero under its own randomness,
the same for every ciphertext, and reads as zero within the attested noise. -/
structure Forgets (params : Params) (ek : EvalKey) (s : Poly) (rng rng' : σ) (out : Ciphertext)
    (w : EncryptionWitness) (att : ZeroizeAttestation) : Prop where
  fresh : encryptWith params ek.pk (.zero params.n) w.r w.e1 w.e2 = some out
  independent : ∀ c : Ciphertext, c.InRing params →
    blindZeroize coin hash params ek c rng = .ok ((out, w, att), rng')
  reads : out.decrypt params ⟨s⟩ = some (.zero params.n) ∧
    ∃ k, out.noiseInfNorm params ⟨s⟩ = some k ∧ k ≤ att.noiseConsumed

/-- The product of the first half with the key stays inside its words, and no coefficient of
`e·r + e2 − e1·s`, centred, exceeds the statistical bound. -/
structure NoiseRoom (params : Params) (a s e : Poly) (w : EncryptionWitness) : Prop where
  product : (Poly.answerZ a w.r w.e1 params.q).MulFits s params.q
  within : ∀ x ∈ (noisePoly s e w).coeffs, |centreZ x params.q| ≤ freshNoiseBound params

/-- A ceiling above a figure rules out the modulus 2, unless the figure is negative. -/
theorem odd_of_ceiling (hparams : params.validate = .ok ())
    (hroom : freshNoiseBound params < params.noiseCeiling) (hbound : 0 ≤ freshNoiseBound params) :
    OddModulus params.q ∧ 3 ≤ params.q := by
  refine params.validate_odd hparams fun htwo => ?_
  have hceiling : params.noiseCeiling = 0 := by
    rw [Params.noiseCeiling, Params.delta, htwo]
    rfl
  omega

theorem noiseInfNorm_nonneg {c : Ciphertext} {sk : SecretKey} {k : Int}
    (h : c.noiseInfNorm params sk = some k) : 0 ≤ k := by
  have hfold : ∀ (cs : List Int) (m k : Int), 0 ≤ m → cs.foldlM (fun m x => do
      let centred ← absI64 (← centreReduce x params.q)
      some (max m (min centred (← absI64 (← subI64 params.delta centred))))) m = some k → 0 ≤ k := by
    intro cs
    induction cs with
    | nil => exact fun m k hm hk => Option.some.inj hk ▸ hm
    | cons x cs ih =>
      intro m k hm hk
      obtain ⟨m', hm', hrest⟩ := Option.bind_eq_some_iff.mp hk
      obtain ⟨_, -, hm'⟩ := Option.bind_eq_some_iff.mp hm'
      obtain ⟨_, -, hm'⟩ := Option.bind_eq_some_iff.mp hm'
      obtain ⟨_, -, hm'⟩ := Option.bind_eq_some_iff.mp hm'
      obtain ⟨_, -, hm'⟩ := Option.bind_eq_some_iff.mp hm'
      exact ih m' k (Option.some.inj hm' ▸ hm.trans (le_max_left _ _)) hrest
  obtain ⟨_, -, h⟩ := Option.bind_eq_some_iff.mp h
  obtain ⟨_, -, h⟩ := Option.bind_eq_some_iff.mp h
  obtain ⟨_, -, h⟩ := Option.bind_eq_some_iff.mp h
  exact hfold _ 0 k (le_refl 0) h

/-! ### Runs -/

theorem sampleCoeff_range (eta : Nat) (acc : Int) (rng : σ) :
    |(sampleCoeff coin eta acc rng).1 - acc| ≤ eta := by
  induction eta generalizing acc rng with
  | zero => simp [sampleCoeff]
  | succ eta ih =>
    have hx := (coin rng).1.toNat_le
    have hy := (coin (coin rng).2).1.toNat_le
    have hrest := ih (acc + (((coin rng).1.toNat : Int) - (coin (coin rng).2).1.toNat))
      (coin (coin rng).2).2
    rw [abs_le] at hrest ⊢
    rw [sampleCoeff]
    push_cast
    omega

/-- **The randomness stays in the range of its distribution.** -/
theorem sampleCbd_bounded (rng : σ) : (sampleCbd coin params rng).1.Bounded params.eta := by
  show ∀ c ∈ (cbdCoeffs coin params.eta params.n rng).1, |c| ≤ params.eta
  generalize params.n = n
  induction n generalizing rng with
  | zero => simp [cbdCoeffs]
  | succ n ih =>
    have hfirst := sampleCoeff_range coin params.eta 0 rng
    rw [Int.sub_zero] at hfirst
    exact List.forall_mem_cons.mpr ⟨hfirst, ih _⟩

theorem encodable_of_inRing (hq : OddModulus params.q) {p : Poly}
    (hp : p.InRing params.n params.q) : p.Encodable params.q := by
  intro c hc hneg
  have := hp.bounded hq c hc
  have hlt := hq.lt
  have hpos := hq.pos
  exact ⟨by have := neg_abs_le c; unfold half at *; omega, by omega⟩

/-- Small randomness under a centred key is encrypted within the words. -/
theorem encryptWith_ok (hq : OddModulus params.q) (hn : 0 < params.n)
    (hfit : params.n * (half params.q * params.eta) < 2 ^ 63)
    (ha : pk.a.InRing params.n params.q) (hb : pk.b.InRing params.n params.q)
    (hw : w.OfDegree params.n) (hr : w.r.Bounded params.eta) (he1 : w.e1.Bounded params.eta)
    (he2 : w.e2.Bounded params.eta) (heta : params.eta ≤ 16) :
    encryptWith params pk (.zero params.n) w.r w.e1 w.e2 = some (freshZ params pk w) := by
  have heta : (params.eta : Int) ≤ 16 := by exact_mod_cast heta
  have hlt := hq.lt
  have hhalf : half params.q < 2 ^ 61 := by unfold half; omega
  have hmulA := Poly.mulFits_of_bounded hq hn ha hw.r (Int.natCast_nonneg _) hr hfit
  have hmulB := Poly.mulFits_of_bounded hq hn hb hw.r (Int.natCast_nonneg _) hr hfit
  have hu := Poly.sumFits hq ((Poly.inRing_mulZ hq ha.length w.r).bounded hq) he1 (by omega)
  have hv := Poly.sumFits hq ((Poly.inRing_mulZ hq hb.length w.r).bounded hq) he2 (by omega)
  -- the scaled plaintext is zero
  have hscaled : ∀ c ∈ ((Poly.zero params.n).scaleZ params.delta).coeffs, c = 0 := by
    intro c hc
    obtain ⟨x, hx, rfl⟩ := List.mem_map.mp hc
    rw [List.eq_of_mem_replicate hx, Int.zero_mul]
  have hscale : (Poly.zero params.n).ScaleFits params.delta := by
    intro x hx
    rw [List.eq_of_mem_replicate hx, Int.zero_mul]
    decide
  have hsum : ((pk.b.mulZ w.r params.q).addZ w.e2).Bounded (half params.q + 16) := by
    intro c hc
    obtain ⟨ab, hab, rfl⟩ := List.mem_map.mp hc
    have hleft := (Poly.inRing_mulZ hq hb.length w.r).bounded hq _ (List.of_mem_zip hab).1
    have hright := he2 _ (List.of_mem_zip hab).2
    exact (abs_add_le _ _).trans (by omega)
  have hlast := Poly.sumFits hq hsum (r := (Poly.zero params.n).scaleZ params.delta) (B := 0)
    (fun c hc => by rw [hscaled c hc, abs_zero]) (by omega)
  exact (encryptWith_exact params pk w).ok
    ⟨⟨hmulA, hu.1, hu.2⟩, hmulB, hv.1, hscale, hlast.1, hlast.2⟩

/-- **A run with room ends well**, with the fresh encryption of its own randomness. -/
theorem blindZeroize_ok (hq : OddModulus params.q) (hn : 0 < params.n) (heta : params.eta ≤ 16)
    (hfit : params.n * (half params.q * params.eta) < 2 ^ 63) (hfresh : 0 ≤ freshNoiseBound params)
    (hroom : freshNoiseBound params < params.noiseCeiling) {ek : EvalKey}
    (ha : ek.pk.a.InRing params.n params.q) (hb : ek.pk.b.InRing params.n params.q) {c : Ciphertext}
    (hc : c.InRing params) (rng : σ) :
    ∃ att, att.noiseConsumed = freshNoiseBound params ∧
      blindZeroize coin hash params ek c rng
        = .ok ((freshZ params ek.pk (sampleWitness coin params rng).1,
          (sampleWitness coin params rng).1, att), (sampleWitness coin params rng).2) := by
  have hw : (sampleWitness coin params rng).1.OfDegree params.n := sampleWitness_ofDegree coin rng
  have hpk : ek.pk.OfDegree params.n := ⟨ha.length, hb.length⟩
  have hencrypt := encryptWith_ok hq hn hfit ha hb hw (sampleCbd_bounded coin _)
    (sampleCbd_bounded coin _) (sampleCbd_bounded coin _) heta
  have hout := homAdd_zero hq (freshZ_inRing hq hpk hw)
  have hzero := (Poly.toBytes_exact _ params.q).ok
    (encodable_of_inRing hq (Poly.zero_inRing hq.pos params.n))
  have hdigest : ∃ digest, ek.digest hash params.q = some digest := by
    have hbytesA := (Poly.toBytes_exact _ params.q).ok (encodable_of_inRing hq ha)
    have hbytesB := (Poly.toBytes_exact _ params.q).ok (encodable_of_inRing hq hb)
    simp [EvalKey.digest, hbytesA, hbytesB]
  obtain ⟨digest, hdigest⟩ := hdigest
  have hceiling : params.noiseCeiling < 2 ^ 63 := by
    have hlt := hq.lt
    rw [Params.noiseCeiling, ← half_eq_delta hq, Int.tdiv_eq_ediv_of_nonneg (half_nonneg hq)]
    unfold half
    omega
  have hrun : (blindZeroize coin hash params ek c rng).Accepts fun x => ∃ att,
      att.noiseConsumed = freshNoiseBound params ∧
        x = ((freshZ params ek.pk (sampleWitness coin params rng).1,
          (sampleWitness coin params rng).1, att), (sampleWitness coin params rng).2) := by
    rw [blindZeroize]
    simp only [Outcome.accepts_bind, Outcome.accepts_step, consume_accepts]
    refine ⟨_, homSub_self hq hc, _, hencrypt, _, hout, ?_, ?_, digest, hdigest, _, hzero, _, hzero,
      _, ?_, rfl⟩
    · exact ⟨by show _ ≤ 0 + freshNoiseBound params; omega,
        by show 0 + freshNoiseBound params < _; omega⟩
    · show 0 + freshNoiseBound params < params.noiseCeiling
      omega
    · exact Int.zero_add _
  obtain ⟨_, hok, att, hconsumed, rfl⟩ := Outcome.accepts_iff.mp hrun
  exact ⟨att, hconsumed, hok⟩

/-- **A run that ends well forgets the data** exactly when the noise of its own randomness is within
the statistical bound, and the product with the key inside its words. -/
theorem forgets_iff (params : Params) (hparams : params.validate = .ok ()) (a s e : Poly)
    (ha : a.coeffs.length = params.n) (he : e.coeffs.length = params.n) (ek : EvalKey)
    (hkey : PublicKey.make params a s e = some ek.pk) (c : Ciphertext) (hc : c.InRing params)
    (rng rng' : σ) (out : Ciphertext) (w : EncryptionWitness) (att : ZeroizeAttestation)
    (hrun : blindZeroize coin hash params ek c rng = .ok ((out, w, att), rng')) :
    Forgets coin hash params ek s rng rng' out w att ↔ NoiseRoom params a s e w := by
  obtain ⟨selfDiff, e0, hself, hwitness, he0, hout, hroom, hconsumed⟩ :=
    blindZeroize_inv coin hash hrun
  have hn : params.n ≠ 0 := by have := (params.validate_ok hparams).1; omega
  have hw : w.OfDegree params.n := hwitness ▸ sampleWitness_ofDegree coin rng
  by_cases hbound : 0 ≤ freshNoiseBound params
  · obtain ⟨hq, hthree⟩ := odd_of_ceiling hparams hroom hbound
    have hpk : ek.pk.OfDegree params.n := by
      rw [make_eq hkey]
      exact ⟨ha, length_answerZ ha he⟩
    have hfresh : (freshZ params ek.pk w).InRing params := freshZ_inRing hq hpk hw
    -- the self-difference is zero, so the output is the fresh encryption itself
    obtain rfl := encryptWith_eq he0
    rw [homSub_self hq hc] at hself
    cases hself
    rw [homAdd_zero hq hfresh] at hout
    cases hout
    have hreads := reads_zero_iff hn hq hfresh (s := s) hroom
    have hnoise : (freshZ params ek.pk w).noiseZ params s = (noisePoly s e w).centredZ params.q := by
      rw [make_eq hkey]
      exact noise_eq hq (by omega) hn ha he hw
    have hu : (freshZ params ek.pk w).u = Poly.answerZ a w.r w.e1 params.q := by
      rw [make_eq hkey]
      rfl
    have hroomIff : (∀ x ∈ ((noisePoly s e w).centredZ params.q).coeffs,
        |x| ≤ freshNoiseBound params) ↔
        ∀ x ∈ (noisePoly s e w).coeffs, |centreZ x params.q| ≤ freshNoiseBound params :=
      List.forall_mem_map
    rw [hnoise, hu, hroomIff] at hreads
    constructor
    · intro h
      obtain ⟨hproduct, hwithin⟩ := hreads.mp (hconsumed ▸ h.reads)
      exact ⟨hproduct, hwithin⟩
    · intro h
      refine ⟨he0, fun c' hc' => ?_, hconsumed.symm ▸ hreads.mpr ⟨h.product, h.within⟩⟩
      rw [← hrun, blindZeroize, blindZeroize, homSub_self hq hc', homSub_self hq hc]
  · -- a negative figure bounds nothing, and no norm is below it
    constructor
    · intro h
      obtain ⟨-, k, hk, hle⟩ := h.reads
      have := noiseInfNorm_nonneg hk
      omega
    · intro h
      have hlen : (noisePoly s e w).coeffs.length = params.n := Poly.length_subZ
        (Poly.length_addZ (Poly.length_productZ he w.r) hw.e2) (Poly.length_productZ hw.e1 s)
      obtain ⟨x, hx⟩ := List.exists_mem_of_length_pos (hlen ▸ Nat.pos_of_ne_zero hn)
      have := (abs_nonneg _).trans (h.within x hx)
      omega

end

/-! ### Constant vectors -/

def constPoly (n : Nat) (x : Int) : Poly := ⟨List.replicate n x⟩

def constWitness (n : Nat) (x : Int) : EncryptionWitness :=
  ⟨constPoly n x, constPoly n x, constPoly n x⟩

section

variable {n : Nat} {x y : Int}

@[simp] theorem length_constPoly (n : Nat) (x : Int) : (constPoly n x).coeffs.length = n :=
  List.length_replicate

theorem getD_constPoly {k : Nat} (hk : k < n) : (constPoly n x).coeffs.getD k 0 = x := by
  rw [List.getD_eq_getElem _ _ (by rwa [length_constPoly])]
  exact List.getElem_replicate _

theorem constPoly_inRing {q : Int} (hx : Centred q x) : (constPoly n x).InRing n q where
  length := length_constPoly n x
  centred _ hc := List.eq_of_mem_replicate hc ▸ hx

theorem constWitness_ofDegree (n : Nat) (x : Int) : (constWitness n x).OfDegree n :=
  ⟨length_constPoly n x, length_constPoly n x, length_constPoly n x⟩

/-- In the last cell every product of the schoolbook loops adds up. -/
theorem getD_constProduct (hn : 0 < n) :
    ((constPoly n x).productZ (constPoly n y)).coeffs.getD (n - 1) 0 = n * (x * y) := by
  have hk : n - 1 < n := by omega
  have hterm : ∀ i ∈ Finset.range n, (if i ≤ n - 1 then
      (constPoly n x).coeffs.getD i 0 * (constPoly n y).coeffs.getD (Poly.partner n (n - 1) i) 0
      else -((constPoly n x).coeffs.getD i 0 *
        (constPoly n y).coeffs.getD (Poly.partner n (n - 1) i) 0)) = x * y := by
    intro i hi
    have hi := Finset.mem_range.mp hi
    rw [if_pos (by omega), getD_constPoly hi, getD_constPoly (Poly.partner_lt hk hi)]
  rw [Poly.productZ_eq (length_constPoly n x), getD_mulTerms hk, Finset.sum_congr rfl hterm,
    Finset.sum_const, Finset.card_range, nsmul_eq_mul]

theorem zero_product : ∀ c ∈ ((constPoly n 0).productZ (constPoly n y)).coeffs, c = 0 := by
  intro c hc
  obtain ⟨k, hk, rfl⟩ := List.mem_iff_getElem.mp hc
  rw [← List.getD_eq_getElem _ 0]
  rw [Poly.length_productZ (length_constPoly n 0)] at hk
  rw [Poly.productZ_eq (length_constPoly n 0), getD_mulTerms hk]
  refine Finset.sum_eq_zero fun i hi => ?_
  rw [getD_constPoly (Finset.mem_range.mp hi), Int.zero_mul, neg_zero, ite_self]

/-- The noise of constant vectors, in the last cell. -/
theorem noisePoly_const (hn : 0 < n) : (noisePoly (constPoly n 0) (constPoly n y)
    (constWitness n x)).coeffs.getD (n - 1) 0 = n * (y * x) + x := by
  have hk : n - 1 < n := by omega
  have hadd : (((constPoly n y).productZ (constPoly n x)).addZ (constPoly n x)).coeffs.length = n :=
    Poly.length_addZ (Poly.length_productZ (length_constPoly n y) _) (length_constPoly n x)
  have hright := Poly.length_productZ (length_constPoly n x) (constPoly n 0)
  have hsub := Poly.length_subZ hadd hright
  show ((((constPoly n y).productZ (constPoly n x)).addZ (constPoly n x)).subZ
    ((constPoly n x).productZ (constPoly n 0))).coeffs.getD (n - 1) 0 = _
  rw [List.getD_eq_getElem _ _ (by rwa [hsub])]
  simp only [Poly.subZ, List.getElem_map, List.getElem_zip, Poly.addZ]
  rw [← List.getD_eq_getElem _ 0, ← List.getD_eq_getElem _ 0, ← List.getD_eq_getElem _ 0,
    getD_constProduct hn, getD_constProduct hn, getD_constPoly hk]
  ring

theorem zero_noise : ∀ c ∈ (noisePoly (constPoly n 0) (constPoly n 0) (constWitness n 0)).coeffs,
    c = 0 := by
  intro c hc
  obtain ⟨ab, hab, rfl⟩ := List.mem_map.mp hc
  obtain ⟨hleft, hright⟩ := List.of_mem_zip (a := ab.1) (b := ab.2) hab
  obtain ⟨cd, hcd, hsum⟩ := List.mem_map.mp hleft
  obtain ⟨hc, hd⟩ := List.of_mem_zip (a := cd.1) (b := cd.2) hcd
  rw [← hsum, zero_product _ hc, List.eq_of_mem_replicate hd, zero_product _ hright]
  rfl

variable {params : Params}

/-- The key of a zero secret with an error `x` in every coefficient. -/
theorem make_const (hq : OddModulus params.q) (hx : Centred params.q x) :
    PublicKey.make params (constPoly params.n 0) (constPoly params.n 0) (constPoly params.n x)
      = some ⟨constPoly params.n 0, constPoly params.n x⟩ := by
  have hring : (constPoly params.n x).InRing params.n params.q := constPoly_inRing hx
  have hmul : (constPoly params.n 0).mul (constPoly params.n 0) params.q
      = some (constPoly params.n 0) := Poly.mul_zero hq (length_constPoly params.n 0)
  have hadd : (constPoly params.n 0).add (constPoly params.n x) = some (constPoly params.n x) :=
    Poly.zero_add hq hring
  simp only [PublicKey.make, hmul, hadd, hring.centred_self hq, Option.bind_eq_bind,
    Option.bind_some]

variable {σ : Type} {coin : σ → Bool × σ} {rng : σ}

/-- A generator that comes back after every coefficient. -/
theorem sampleWitness_const (h : sampleCoeff coin params.eta 0 rng = (x, rng)) :
    sampleWitness coin params rng = (constWitness params.n x, rng) := by
  have hcoeffs : ∀ n, cbdCoeffs coin params.eta n rng = (List.replicate n x, rng) := by
    intro n
    induction n with
    | zero => rfl
    | succ n ih =>
      rw [cbdCoeffs, h]
      show ((x :: (cbdCoeffs coin params.eta n rng).1), _) = _
      rw [ih]
      rfl
  have hcbd : sampleCbd coin params rng = (constPoly params.n x, rng) := by
    rw [sampleCbd, hcoeffs]
    rfl
  simp only [sampleWitness, hcbd]
  rfl

/-- Data under the key of that error. -/
def storedCiphertext (params : Params) : Ciphertext :=
  ⟨constPoly params.n 0, constPoly params.n params.delta⟩

def constKey (params : Params) (x : Int) : EvalKey :=
  ⟨⟨constPoly params.n 0, constPoly params.n x⟩, "vol", 1⟩

theorem storedCiphertext_inRing (hq : OddModulus params.q) :
    (storedCiphertext params).InRing params where
  u := constPoly_inRing ⟨by have := hq.pos; omega, by have := hq.pos; omega⟩
  v := by
    have hdelta := half_eq_delta hq
    have hodd := hq.odd
    have hpos := hq.pos
    unfold half at hdelta
    exact constPoly_inRing ⟨by omega, by omega⟩

theorem run_const (hash : Bytes → Block 32) (hq : OddModulus params.q) (hn : 0 < params.n)
    (heta : params.eta ≤ 16) (hfit : params.n * (half params.q * params.eta) < 2 ^ 63)
    (hfresh : 0 ≤ freshNoiseBound params)
    (hroom : freshNoiseBound params < params.noiseCeiling) (hy : Centred params.q y)
    (h : sampleCoeff coin params.eta 0 rng = (x, rng)) :
    ∃ att, blindZeroize coin hash params (constKey params y) (storedCiphertext params) rng
      = .ok ((freshZ params (constKey params y).pk (constWitness params.n x),
        constWitness params.n x, att), rng) := by
  have hpos := hq.pos
  have hzero : Centred params.q 0 := ⟨by omega, by omega⟩
  have ha : (constKey params y).pk.a.InRing params.n params.q := constPoly_inRing hzero
  have hb : (constKey params y).pk.b.InRing params.n params.q := constPoly_inRing hy
  obtain ⟨att, -, hrun⟩ := blindZeroize_ok coin hash hq hn heta hfit hfresh hroom ha hb
    (storedCiphertext_inRing hq) rng
  rw [sampleWitness_const h] at hrun
  exact ⟨att, hrun⟩

/-- A noise past the rounding threshold is read as data. -/
theorem decrypt_const_ne (hq : OddModulus params.q) (hq1 : 1 < params.q) (hn : 0 < params.n)
    (hy : Centred params.q y)
    (hlarge : bitZ params (centreZ (params.n * (y * x) + x) params.q) ≠ 0) :
    (freshZ params (constKey params y).pk (constWitness params.n x)).decrypt params
      ⟨constPoly params.n 0⟩ ≠ some (.zero params.n) := by
  intro hzero
  have hlen := length_constPoly params.n
  have hw := constWitness_ofDegree params.n x
  have hfresh : (freshZ params (constKey params y).pk (constWitness params.n x)).InRing params :=
    freshZ_inRing hq ⟨hlen 0, hlen y⟩ hw
  have hbits := ((decrypt_exact hq hfresh (constPoly params.n 0)).eq_some_iff.mp hzero).2
  have hkey : (constKey params y).pk = ⟨constPoly params.n 0,
      Poly.answerZ (constPoly params.n 0) (constPoly params.n 0) (constPoly params.n y) params.q⟩ :=
    make_eq (make_const hq hy)
  rw [hkey, noise_eq hq hq1 hn.ne' (hlen 0) (hlen y) hw] at hbits
  have hnoise : (noisePoly (constPoly params.n 0) (constPoly params.n y)
      (constWitness params.n x)).coeffs.length = params.n :=
    Poly.length_subZ (Poly.length_addZ (Poly.length_productZ (hlen y) _) hw.e2)
      (Poly.length_productZ hw.e1 _)
  have hk : params.n - 1 < params.n := by omega
  -- compare the last cells
  have hcell := congrArg (fun p : Poly => p.coeffs.getD (params.n - 1) 0) hbits
  simp only at hcell
  rw [Poly.zero, Poly.getD_zero, List.getD_eq_getElem _ _ (by
      rw [List.length_map, Poly.length_centredZ, hnoise]; exact hk), List.getElem_map] at hcell
  simp only [Poly.centredZ, List.getElem_map] at hcell
  rw [← List.getD_eq_getElem _ 0, noisePoly_const hn] at hcell
  exact hlarge hcell

end

/-! ### Two runs -/

def forgetParams : Params := ⟨256, 65537, 8⟩

theorem forgetParams_validate : forgetParams.validate = .ok () := by decide

theorem forgetParams_odd : OddModulus forgetParams.q := ⟨by decide, by decide, by decide⟩

theorem forgetParams_bound : freshNoiseBound forgetParams = 2188 := by decide +kernel

theorem forgetParams_run (hash : Bytes → Block 32) {σ : Type} {coin : σ → Bool × σ} {rng : σ}
    {x y : Int} (hy : Centred forgetParams.q y)
    (h : sampleCoeff coin forgetParams.eta 0 rng = (x, rng)) :
    ∃ att, blindZeroize coin hash forgetParams (constKey forgetParams y)
      (storedCiphertext forgetParams) rng
        = .ok ((freshZ forgetParams (constKey forgetParams y).pk (constWitness forgetParams.n x),
          constWitness forgetParams.n x, att), rng) := by
  have hbound := forgetParams_bound
  exact run_const hash forgetParams_odd (by decide) (by decide) (by decide) (by omega)
    (by rw [hbound]; decide) hy h

/-- Every coin is a head, so all differences are zero. -/
def evenCoin (u : Unit) : Bool × Unit := (true, u)

theorem forgets_stored : ∃ out w att, blindZeroize evenCoin counterHash forgetParams
    (constKey forgetParams 0) (storedCiphertext forgetParams) () = .ok ((out, w, att), ()) ∧
      Forgets evenCoin counterHash forgetParams (constKey forgetParams 0)
        (constPoly forgetParams.n 0) () () out w att := by
  have hq := forgetParams_odd
  have hzero : Centred forgetParams.q 0 := by decide
  have hlen := length_constPoly forgetParams.n 0
  have hsample : sampleCoeff evenCoin forgetParams.eta 0 () = (0, ()) := by decide
  obtain ⟨att, hrun⟩ := forgetParams_run counterHash hzero hsample
  refine ⟨_, _, att, hrun, (forgets_iff evenCoin counterHash forgetParams forgetParams_validate
    (constPoly forgetParams.n 0) (constPoly forgetParams.n 0) (constPoly forgetParams.n 0) hlen hlen
    (constKey forgetParams 0) (make_const hq hzero) (storedCiphertext forgetParams)
    (storedCiphertext_inRing hq) () () _ _ att hrun).mpr ?_⟩
  exact {
    product := Poly.mulFits_of_bounded hq (by decide)
      (Poly.inRing_centredZ hq (Poly.length_addZ (Poly.length_mulZ hlen _ _) hlen)) hlen (le_refl 0)
      (fun c hc => by rw [List.eq_of_mem_replicate hc]; decide) (by decide)
    within := by
      intro c hc
      rw [zero_noise c hc, forgetParams_bound]
      decide }

/-- Heads and tails in turn, so every difference is as large as it can be. -/
def oddCoin (b : Bool) : Bool × Bool := (b, !b)

/-- **Randomness that the run accepts, and the key reads data**: the noise crosses the rounding
threshold, and the output does not decrypt to zero. -/
theorem large_noise_reads : ∃ out w att, forgetParams.validate = .ok () ∧
    PublicKey.make forgetParams (constPoly forgetParams.n 0) (constPoly forgetParams.n 0)
      (constPoly forgetParams.n 8) = some (constKey forgetParams 8).pk ∧
    (storedCiphertext forgetParams).InRing forgetParams ∧
    blindZeroize oddCoin counterHash forgetParams (constKey forgetParams 8)
      (storedCiphertext forgetParams) true = .ok ((out, w, att), true) ∧
    out.decrypt forgetParams ⟨constPoly forgetParams.n 0⟩ ≠ some (.zero forgetParams.n) := by
  have hy : Centred forgetParams.q 8 := by decide
  have hsample : sampleCoeff oddCoin forgetParams.eta 0 true = (8, true) := by decide
  obtain ⟨att, hrun⟩ := forgetParams_run counterHash hy hsample
  exact ⟨_, _, att, forgetParams_validate, make_const forgetParams_odd hy,
    storedCiphertext_inRing forgetParams_odd, hrun,
    decrypt_const_ne forgetParams_odd (by decide) (by decide) hy (by decide)⟩

end DiscCleaner.Fhe
