import DiscCleaner.Zk.Completeness

/-!
# DiscCleaner — what an accepted proof says (`groth16.rs`)

The algebraic model: a proof is three linear combinations of the elements of the proving key, with
coefficients chosen before the toxic waste is known, and it is accepted when the equation balances
for every toxic waste. The key publishes bare powers of `tau` over delta, so nothing forces
`A B − C` to be a multiple of the vanishing polynomial.

* **`accepted_of_arity`** — every statement has an accepted algebraic proof.
* **`sound_iff`** — the system is sound exactly for circuits that constrain nothing.
-/

namespace DiscCleaner.Zk

open CoeffPolyLib Polynomial

section

variable {G1 G2 GT : Type}

/-! ## Algebraic proofs -/

/-- A linear combination of group elements. -/
def combine {G : Type} (o : Ops G) (elements : List G) (coeffs : List Fr) : G :=
  (elements.zip coeffs).foldl (fun acc p => o.add acc (o.mulScalar p.1 p.2)) o.identity

def g1Elements (pk : ProvingKey G1 G2) : List G1 :=
  [pk.alphaG1, pk.betaG1, pk.deltaG1] ++ pk.aQuery ++ pk.bQueryG1 ++ pk.kQuery ++ pk.hQuery
    ++ pk.vk.ic

def g2Elements (pk : ProvingKey G1 G2) : List G2 :=
  [pk.betaG2, pk.deltaG2, pk.vk.gammaG2] ++ pk.bQueryG2

/-- The coefficients of the three combinations. -/
structure AlgebraicProof where
  a : List Fr
  b : List Fr
  c : List Fr

variable (curve : Curve G1 G2 GT)

def AlgebraicProof.proof (pi : AlgebraicProof) (pk : ProvingKey G1 G2) : Proof G1 G2 where
  a := combine curve.g1 (g1Elements pk) pi.a
  b := combine curve.g2 (g2Elements pk) pi.b
  c := combine curve.g1 (g1Elements pk) pi.c

variable [DecidableEq GT]

/-- The proof is accepted whatever the toxic waste is. -/
def Accepted (cs : R1cs) (publicInputs : List Fr) (pi : AlgebraicProof) : Prop :=
  ∀ toxic : Toxic, toxic.gamma ≠ 0 → toxic.delta ≠ 0 →
    ∃ pk vk, setup curve cs "" toxic = some (pk, vk) ∧
      verify curve vk publicInputs (pi.proof curve pk) = some (.ok ())

/-- Accepted statements have a satisfying assignment, and the prover's formulas are rejected for
an assignment that violates a constraint. -/
structure Sound (cs : R1cs) : Prop where
  extends_statement : ∀ publicInputs pi, Accepted curve cs publicInputs pi →
    ∃ witness, publicPart cs witness = publicInputs ∧ cs.isSatisfiedBy witness = some true
  rejects_violation : ∀ witness : List Fr, witness.length = cs.numVars →
    witness.head? = some 1 → cs.isSatisfiedBy witness ≠ some true →
    ∀ (toxic : Toxic) (r s : Fr) (pk : ProvingKey G1 G2) (vk : VerifyingKey G1 G2)
      (proof : Proof G1 G2), toxic.gamma ≠ 0 → toxic.delta ≠ 0 →
      setup curve cs "" toxic = some (pk, vk) →
      proveCore curve cs pk witness r s = some (.ok proof) →
      verify curve vk (publicPart cs witness) proof ≠ some (.ok ())

end

/-! ## The prover's proof is algebraic -/

/-- Two lists multiplied entry by entry and added up. -/
def inner (xs cs : List Fr) : Fr := ((xs.zip cs).map fun p => p.1 * p.2).sum

theorem inner_append {xs cs : List Fr} (h : xs.length = cs.length) (ys ds : List Fr) :
    inner (xs ++ ys) (cs ++ ds) = inner xs cs + inner ys ds := by
  rw [inner, List.zip_append h, List.map_append, List.sum_append, ← inner, ← inner]

/-- The shorter list decides how far the products go. -/
theorem inner_eq_weigh {xs cs : List Fr} (h : cs.length ≤ xs.length) :
    inner xs cs = weigh 0 cs fun i => xs.getD i 0 := by
  have hloop : ∀ (cs xs : List Fr) (s : Nat) (f : Nat → Fr), cs.length ≤ xs.length →
      (∀ i < cs.length, f (s + i) = xs.getD i 0) → inner xs cs = weigh s cs f := by
    intro cs
    induction cs with
    | nil =>
      intro xs s f _ _
      rw [inner, List.zip_nil_right, List.map_nil, List.sum_nil, weigh_nil]
    | cons c cs ih =>
      intro xs s f hlen hf
      cases xs with
      | nil => exact absurd hlen (Nat.not_succ_le_zero _)
      | cons x xs =>
        have h0 := hf 0 (Nat.succ_pos _)
        rw [Nat.add_zero, List.getD_cons_zero] at h0
        have hrest : ∀ i < cs.length, f (s + 1 + i) = xs.getD i 0 := by
          intro i hi
          rw [Nat.add_assoc, Nat.add_comm 1, hf (i + 1) (Nat.succ_lt_succ hi),
            List.getD_cons_succ]
        rw [weigh_cons, h0, ← ih xs (s + 1) f (Nat.le_of_succ_le_succ hlen) hrest, inner,
          List.zip_cons_cons, List.map_cons, List.sum_cons, ← inner, mul_comm]
  exact hloop cs xs 0 _ h fun i _ => by rw [Nat.zero_add]

theorem inner_witness {xs witness : List Fr} (h : xs.length = witness.length) :
    inner xs witness = weigh 0 xs (assignment witness) := by
  rw [inner_eq_weigh h.ge]
  exact weigh_comm h.symm (fun i _ => by rw [Nat.zero_add]) fun i _ => by rw [Nat.zero_add, assignment]

theorem inner_map_mul (xs cs : List Fr) (k : Fr) :
    inner xs (cs.map fun c => c * k) = inner xs cs * k := by
  rw [inner, inner, List.zip_map_right, List.map_map, ← List.sum_map_mul_right]
  exact congrArg List.sum (List.map_congr_left fun p _ => (mul_assoc p.1 p.2 k).symm)

theorem combine_point {G : Type} {o : Ops G} (ho : o.Lawful) (xs cs : List Fr) :
    combine o (xs.map o.point) cs = o.point (inner xs cs) := by
  have hloop : ∀ (ps : List (Fr × Fr)) (x : Fr),
      (ps.map fun p => (o.point p.1, p.2)).foldl (fun acc p => o.add acc (o.mulScalar p.1 p.2))
          (o.point x)
        = o.point (x + (ps.map fun p => p.1 * p.2).sum) := by
    intro ps
    induction ps with
    | nil =>
      intro x
      rw [List.map_nil, List.map_nil, List.sum_nil, add_zero]
      rfl
    | cons p rest ih =>
      intro x
      rw [List.map_cons, List.foldl_cons, ho.mulScalar, ho.add, ih, List.map_cons, List.sum_cons,
        add_assoc]
  have hzip : (xs.map o.point).zip cs = (xs.zip cs).map fun p => (o.point p.1, p.2) := by
    rw [List.zip_map_left]
    rfl
  rw [combine, hzip, ho.identity, hloop, zero_add, inner]

/-- Coefficients that stop before the second list. -/
theorem inner_append_left {xs cs : List Fr} (h : xs.length = cs.length) (ys : List Fr) :
    inner (xs ++ ys) cs = inner xs cs := by
  have happ := inner_append h ys []
  rw [List.append_nil] at happ
  have hnil : inner ys [] = 0 := by
    rw [inner, List.zip_nil_right]
    rfl
  rw [happ, hnil, add_zero]

theorem inner_triple (x y z a b c : Fr) (ys ds : List Fr) :
    inner ([x, y, z] ++ ys) ([a, b, c] ++ ds) = x * a + (y * b + z * c) + inner ys ds := by
  simp only [inner, List.cons_append, List.nil_append, List.zip_cons_cons, List.map_cons,
    List.sum_cons]
  ring

/-- The private query against the private part of the witness. -/
theorem inner_drop {xs witness : List Fr} {s : Nat} (h : s + xs.length = witness.length) :
    inner xs (witness.drop s) = weigh s xs (assignment witness) := by
  have hlen : (witness.drop s).length = xs.length := by
    rw [List.length_drop]
    omega
  rw [inner_eq_weigh hlen.le]
  refine weigh_comm hlen (fun i _ => by rw [Nat.zero_add]) fun i _ => ?_
  rw [assignment, List.getD_eq_getElem?_getD, List.getD_eq_getElem?_getD, List.getElem?_drop]

/-- The published powers against a polynomial that is not longer than them. -/
theorem inner_hPowers (tau deltaInv : Fr) {p : Poly} {n : Nat} (h : p.length ≤ n) (ys : List Fr) :
    inner (hPowers tau deltaInv n 1 ++ ys) p = (toPoly p).eval tau * deltaInv := by
  have hlen : p.length ≤ (hPowers tau deltaInv n 1).length := by rwa [length_hPowers]
  rw [inner_eq_weigh (hlen.trans (by rw [List.length_append]; omega)), ← weigh_hPowers tau deltaInv h]
  refine weigh_congr fun i hi => ?_
  rw [Nat.zero_add, List.getD_append _ _ _ _ (hi.trans_le hlen)]

/-- The prover's coefficients. -/
def proverProof (cs : R1cs) (witness : List Fr) (r s : Fr) : AlgebraicProof where
  a := [1, 0, r] ++ witness
  b := [1, s, 0] ++ witness
  c := [s, r, r * s] ++ witness.map (fun x => x * s) ++ witness.map (fun x => x * r)
    ++ witness.drop (cs.numPublic + 1)
    ++ Poly.sub (Poly.mul (rowPoly cs Constraint.a witness) (rowPoly cs Constraint.b witness))
        (rowPoly cs Constraint.c witness)

/-- A statement extended by zeros. -/
def zeroExtension (cs : R1cs) (publicInputs : List Fr) : List Fr :=
  1 :: publicInputs ++ List.replicate (cs.numVars - (cs.numPublic + 1)) 0

theorem length_zeroExtension {cs : R1cs} (hpub : cs.numPublic < cs.numVars) {publicInputs : List Fr}
    (h : publicInputs.length = cs.numPublic) :
    (zeroExtension cs publicInputs).length = cs.numVars := by
  rw [zeroExtension, List.length_append, List.length_cons, List.length_replicate, h]
  omega

theorem publicPart_zeroExtension {cs : R1cs} {publicInputs : List Fr}
    (h : publicInputs.length = cs.numPublic) :
    publicPart cs (zeroExtension cs publicInputs) = publicInputs := by
  rw [publicPart, zeroExtension, List.cons_append, List.drop_one, List.tail_cons, ← h,
    List.take_left]

section

variable {G1 G2 GT : Type} (curve : Curve G1 G2 GT)

theorem proof_proverProof (hcurve : curve.Lawful) {cs : R1cs} (hcs : cs.WellFormed)
    (circuitId : String) {toxic : Toxic} (a : Columns Constraint.a cs toxic.tau)
    (b : Columns Constraint.b cs toxic.tau) (c : Columns Constraint.c cs toxic.tau)
    {witness : List Fr} (hlen : witness.length = cs.numVars) (r s : Fr) :
    (proverProof cs witness r s).proof curve
        (pkOf curve cs circuitId toxic a.values b.values c.values)
      = ⟨curve.g1.point (aValue toxic.alpha toxic.delta a.values witness r),
          curve.g2.point (aValue toxic.beta toxic.delta b.values witness s),
          curve.g1.point (cValue cs toxic a.values b.values c.values witness r s)⟩ := by
  have hpub := hcs.numPublic_lt
  have haLen : a.values.length = witness.length := a.length_eq.trans hlen.symm
  have hbLen : b.values.length = witness.length := b.length_eq.trans hlen.symm
  have haw := inner_witness haLen
  have hbw := inner_witness hbLen
  set k := ((List.range' (cs.numPublic + 1) (cs.numVars - (cs.numPublic + 1))).map
    (column toxic a.values b.values c.values)).map fun x => x * toxic.delta⁻¹ with hk
  set ic := ((List.range (cs.numPublic + 1)).map (column toxic a.values b.values c.values)).map
    fun x => x * toxic.gamma⁻¹ with hic
  set powers := hPowers toxic.tau toxic.delta⁻¹ (max (2 * cs.numConstraints - 1) 1) 1 with hpowers
  have hg1 : g1Elements (pkOf curve cs circuitId toxic a.values b.values c.values)
      = ([toxic.alpha, toxic.beta, toxic.delta] ++ a.values ++ b.values ++ k ++ (powers ++ ic)).map
          curve.g1.point := by
    simp only [g1Elements, pkOf, vkOf, List.map_append, List.map_cons, List.map_nil,
      List.append_assoc, ← hk, ← hic, ← hpowers]
  have hg2 : g2Elements (pkOf curve cs circuitId toxic a.values b.values c.values)
      = ([toxic.beta, toxic.delta, toxic.gamma] ++ b.values).map curve.g2.point := by
    simp only [g2Elements, pkOf, vkOf, List.map_append, List.map_cons, List.map_nil]
  have hkLen : cs.numPublic + 1 + k.length = witness.length := by
    rw [hk, List.length_map, List.length_map, List.length_range', hlen]
    omega
  have hproduct := length_product (length_rowPoly cs Constraint.a witness)
    (length_rowPoly cs Constraint.b witness) (length_rowPoly cs Constraint.c witness)
  have hA : inner ([toxic.alpha, toxic.beta, toxic.delta] ++ a.values ++ b.values ++ k
      ++ (powers ++ ic)) (proverProof cs witness r s).a
      = aValue toxic.alpha toxic.delta a.values witness r := by
    simp only [proverProof, List.append_assoc]
    rw [inner_triple, inner_append_left haLen, haw, aValue]
    ring
  have hB : inner ([toxic.beta, toxic.delta, toxic.gamma] ++ b.values) (proverProof cs witness r s).b
      = aValue toxic.beta toxic.delta b.values witness s := by
    rw [proverProof, inner_triple, hbw, aValue]
    ring
  have hC : inner ([toxic.alpha, toxic.beta, toxic.delta] ++ a.values ++ b.values ++ k
      ++ (powers ++ ic)) (proverProof cs witness r s).c
      = cValue cs toxic a.values b.values c.values witness r s := by
    simp only [proverProof, List.append_assoc]
    rw [inner_triple, inner_append (by rw [haLen, List.length_map]), inner_append (by rw [hbLen, List.length_map]),
      inner_append (by rw [List.length_drop]; omega), inner_map_mul, inner_map_mul, haw, hbw,
      inner_drop hkLen, hpowers, inner_hPowers _ _ hproduct, Poly.toPoly_sub,
      Poly.toPoly_mul, eval_sub, eval_mul, eval_rowPoly a, eval_rowPoly b, eval_rowPoly c, cValue,
      aValue, aValue, ← hk]
    ring
  rw [AlgebraicProof.proof, hg1, hg2, combine_point hcurve.g1, combine_point hcurve.g2,
    combine_point hcurve.g1, hA, hB, hC]

variable [DecidableEq GT]

/-- **Every assignment convinces the verifier**: the coefficients are fixed before the toxic waste
and no constraint is consulted. -/
theorem accepted_proverProof (hcurve : curve.Lawful) {cs : R1cs} (hcs : cs.WellFormed)
    {witness : List Fr} (hlen : witness.length = cs.numVars) (hone : witness.head? = some 1)
    (r s : Fr) : Accepted curve cs (publicPart cs witness) (proverProof cs witness r s) := by
  intro toxic hgamma hdelta
  obtain ⟨a, b, c, hsetup⟩ := setup_eq curve hcs "" toxic hgamma hdelta
  obtain ⟨pk, vk, proof, hsetup', hprove, hverify⟩ :=
    proveCore_verifies curve hcurve hcs "" toxic hgamma hdelta hlen hone r s
  obtain ⟨rfl, rfl⟩ := Prod.mk.inj (Option.some.inj (hsetup.symm.trans hsetup'))
  rw [proveCore_eq curve hcurve hcs "" a b c hlen r s] at hprove
  refine ⟨_, _, hsetup, ?_⟩
  rw [proof_proverProof curve hcurve hcs "" a b c hlen r s]
  rwa [Except.ok.inj (Option.some.inj hprove)]

/-- Every statement of the right arity has an accepted algebraic proof. -/
theorem accepted_of_arity (hcurve : curve.Lawful) {cs : R1cs} (hcs : cs.WellFormed)
    {publicInputs : List Fr} (h : publicInputs.length = cs.numPublic) :
    ∃ pi, Accepted curve cs publicInputs pi := by
  refine ⟨proverProof cs (zeroExtension cs publicInputs) 0 0, ?_⟩
  have hacc := accepted_proverProof curve hcurve hcs
    (length_zeroExtension hcs.numPublic_lt h) rfl 0 0
  rwa [publicPart_zeroExtension h] at hacc

theorem length_of_verify {vk : VerifyingKey G1 G2} {publicInputs : List Fr} {proof : Proof G1 G2}
    (h : verify curve vk publicInputs proof = some (.ok ())) :
    publicInputs.length = vk.numPublic := by
  by_contra hlen
  rw [verify, if_pos hlen] at h
  cases h

/-- **Soundness holds exactly where nothing is constrained**: the verification equation accepts a
proof for every assignment, so the system is sound only when every assignment satisfies every
constraint. -/
theorem sound_iff (hcurve : curve.Lawful) {cs : R1cs} (hcs : cs.WellFormed) :
    Sound curve cs ↔ ∀ witness : List Fr, witness.length = cs.numVars →
      witness.head? = some 1 → cs.isSatisfiedBy witness = some true := by
  refine ⟨fun h witness hlen hone => ?_, fun hall => ⟨fun publicInputs pi hacc => ?_, ?_⟩⟩
  · by_contra hviolated
    obtain ⟨pk, vk, proof, hsetup, hprove, hverify⟩ :=
      proveCore_verifies curve hcurve hcs "" ⟨0, 0, 0, 1, 1⟩ one_ne_zero one_ne_zero hlen
        hone 0 0
    exact h.rejects_violation witness hlen hone hviolated ⟨0, 0, 0, 1, 1⟩ 0 0 pk vk proof
      one_ne_zero one_ne_zero hsetup hprove hverify
  · -- an accepted statement has the arity of the key, and any extension of it will do
    obtain ⟨pk, vk, hsetup, hverify⟩ := hacc ⟨0, 0, 0, 1, 1⟩ one_ne_zero one_ne_zero
    obtain ⟨a, b, c, hkeys⟩ := setup_eq curve hcs "" ⟨0, 0, 0, 1, 1⟩ one_ne_zero
      one_ne_zero
    obtain ⟨rfl, rfl⟩ := Prod.mk.inj (Option.some.inj (hkeys.symm.trans hsetup))
    have harity : publicInputs.length = cs.numPublic := length_of_verify curve hverify
    exact ⟨zeroExtension cs publicInputs, publicPart_zeroExtension harity,
      hall _ (length_zeroExtension hcs.numPublic_lt harity) rfl⟩
  · intro witness hlen hone hviolated
    exact absurd (hall witness hlen hone) hviolated

end

/-! ## A statement without a witness -/

/-- One public variable, constrained to be zero. -/
def pinned : R1cs := (R1cs.new 2 1).constrain (LinComb.var 1 1) LinComb.one LinComb.empty

theorem pinned_wellFormed : pinned.WellFormed where
  numPublic_lt := by decide
  below := by
    intro k hk
    rw [List.mem_singleton.mp hk]
    exact ⟨below_var (by decide) 1, below_var (by decide) 1, below_empty 2⟩
  numConstraints_lt := by decide

/-- The statement 1 is accepted although no assignment extends it. -/
theorem pinned_accepts : (∃ pi, Accepted fieldCurve pinned [1] pi) ∧
    ¬∃ witness, publicPart pinned witness = [1] ∧ pinned.isSatisfiedBy witness = some true := by
  refine ⟨accepted_of_arity fieldCurve fieldCurve_lawful pinned_wellFormed rfl, ?_⟩
  rintro ⟨witness, hpublic, hsat⟩
  obtain ⟨hlen, hone, hall⟩ := isSatisfiedBy_iff.mp hsat
  -- the constraint says that the public value is zero
  obtain ⟨-, hholds⟩ := hall _ (List.mem_singleton.mpr rfl)
  simp only [Constraint.Holds, dot_var, dot_one, dot_empty, one_mul] at hholds
  have hpublicOne := assignment_publicPart pinned hone (i := 1) (by decide)
  have hconstant := assignment_publicPart pinned hone (i := 0) (by decide)
  rw [hpublic] at hpublicOne hconstant
  rw [← hpublicOne, ← hconstant] at hholds
  exact one_ne_zero ((mul_one (1 : Fr)).symm.trans hholds)

theorem not_sound_pinned : ¬Sound fieldCurve pinned := by
  intro h
  have hsat := (sound_iff fieldCurve fieldCurve_lawful pinned_wellFormed).mp h [1, 1] rfl rfl
  exact pinned_accepts.2 ⟨[1, 1], rfl, hsat⟩

end DiscCleaner.Zk
