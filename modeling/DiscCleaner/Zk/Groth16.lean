import DiscCleaner.Zk.Poly
import DiscCleaner.Zk.R1cs

/-!
# DiscCleaner — the proof system (`groth16.rs`)

Setup, prover and verifier over any pair of groups with a pairing. The two curve groups and the
pairing are parameters, with what a correct implementation does on multiples of the generators.

`proveCore` is the prover after its check of the witness.
-/

namespace DiscCleaner.Zk

open CoeffPolyLib

/-! ## Groups and pairing -/

/-- The operations of a curve group. -/
structure Ops (G : Type) where
  gen : G
  identity : G
  add : G → G → G
  mulScalar : G → Fr → G
  neg : G → G
  inCorrectSubgroup : G → Bool

namespace Ops

variable {G : Type} (o : Ops G)

/-- A multiple of the generator. -/
def point (k : Fr) : G := o.mulScalar o.gen k

/-- On multiples of the generator the operations are those of the field. -/
structure Lawful : Prop where
  identity : o.identity = o.point 0
  add : ∀ a b, o.add (o.point a) (o.point b) = o.point (a + b)
  mulScalar : ∀ a k, o.mulScalar (o.point a) k = o.point (a * k)
  neg : ∀ a, o.neg (o.point a) = o.point (-a)
  inCorrectSubgroup : ∀ a, o.inCorrectSubgroup (o.point a) = true

end Ops

/-- The two groups and the product of pairings. -/
structure Curve (G1 G2 GT : Type) where
  g1 : Ops G1
  g2 : Ops G2
  multiPairing : List (G1 × G2) → GT

/-- Both groups are correct and the pairing is bilinear and non-degenerate. -/
structure Curve.Lawful {G1 G2 GT : Type} (curve : Curve G1 G2 GT) : Prop where
  g1 : curve.g1.Lawful
  g2 : curve.g2.Lawful
  multiPairing : ∀ ps qs : List (Fr × Fr),
    curve.multiPairing (ps.map fun p => (curve.g1.point p.1, curve.g2.point p.2))
        = curve.multiPairing (qs.map fun q => (curve.g1.point q.1, curve.g2.point q.2)) ↔
      (ps.map fun p => p.1 * p.2).sum = (qs.map fun q => q.1 * q.2).sum

/-! ## Keys and proofs -/

inductive ZkError where
  | unsatisfied (reason : String)
  | verificationFailed (reason : String)
  | malformedKeys (reason : String)
  deriving DecidableEq

structure VerifyingKey (G1 G2 : Type) where
  alphaG1 : G1
  betaG2 : G2
  gammaG2 : G2
  deltaG2 : G2
  ic : List G1
  numPublic : Nat
  numConstraints : Nat
  circuitId : String

structure ProvingKey (G1 G2 : Type) where
  vk : VerifyingKey G1 G2
  alphaG1 : G1
  betaG1 : G1
  betaG2 : G2
  deltaG1 : G1
  deltaG2 : G2
  aQuery : List G1
  bQueryG1 : List G1
  bQueryG2 : List G2
  hQuery : List G1
  kQuery : List G1
  numVars : Nat

structure Proof (G1 G2 : Type) where
  a : G1
  b : G2
  c : G1
  deriving DecidableEq

/-- The values drawn by the setup and dropped after it. -/
structure Toxic where
  tau : Fr
  alpha : Fr
  beta : Fr
  gamma : Fr
  delta : Fr

section

variable {G1 G2 GT : Type} (curve : Curve G1 G2 GT)

/-! ## Setup -/

/-- One row added into the columns, weighed by its basis value. -/
def addColumn (uj : Fr) (acc : List Fr) (t : Nat × Fr) : Option (List Fr) :=
  if t.1 < acc.length then some (acc.modify t.1 (· + t.2 * uj)) else none

/-- `A_i(tau)` for every variable, of the matrix that `sel` picks. -/
def evalColumns (sel : Constraint → Row) (cs : R1cs) (u : List Fr) : Option (List Fr) :=
  (cs.constraints.zip u).foldlM (fun acc p => (sel p.1).foldlM (addColumn p.2) acc)
    (List.replicate cs.numVars 0)

/-- `beta A_i + alpha B_i + C_i`. -/
def columnValue (toxic : Toxic) (aT bT cT : List Fr) (i : Nat) : Option Fr := do
  some (toxic.beta * (← aT[i]?) + toxic.alpha * (← bT[i]?) + (← cT[i]?))

/-- `tp, tp tau, tp tau², …` over delta. -/
def hPowers (tau deltaInv : Fr) : Nat → Fr → List Fr
  | 0, _ => []
  | n + 1, tp => tp * deltaInv :: hPowers tau deltaInv n (tp * tau)

def setup (cs : R1cs) (circuitId : String) (toxic : Toxic) :
    Option (ProvingKey G1 G2 × VerifyingKey G1 G2) := do
  if toxic.gamma = 0 ∨ toxic.delta = 0 then none
  else
    let n := cs.numConstraints
    let u ← (List.range n).mapM fun j => Poly.lagrangeEvalAt (j + 1) n toxic.tau
    let aT ← evalColumns Constraint.a cs u
    let bT ← evalColumns Constraint.b cs u
    let cT ← evalColumns Constraint.c cs u
    let ic ← (List.range (cs.numPublic + 1)).mapM (columnValue toxic aT bT cT)
    let k ← (List.range' (cs.numPublic + 1) (cs.numVars - (cs.numPublic + 1))).mapM
      (columnValue toxic aT bT cT)
    let vk : VerifyingKey G1 G2 := {
      alphaG1 := curve.g1.point toxic.alpha
      betaG2 := curve.g2.point toxic.beta
      gammaG2 := curve.g2.point toxic.gamma
      deltaG2 := curve.g2.point toxic.delta
      ic := ic.map fun v => curve.g1.point (v * toxic.gamma⁻¹)
      numPublic := cs.numPublic
      numConstraints := n
      circuitId := circuitId }
    some ({
      vk := vk
      alphaG1 := curve.g1.point toxic.alpha
      betaG1 := curve.g1.point toxic.beta
      betaG2 := curve.g2.point toxic.beta
      deltaG1 := curve.g1.point toxic.delta
      deltaG2 := curve.g2.point toxic.delta
      aQuery := aT.map curve.g1.point
      bQueryG1 := bT.map curve.g1.point
      bQueryG2 := bT.map curve.g2.point
      hQuery := (hPowers toxic.tau toxic.delta⁻¹ (max (2 * n - 1) 1) 1).map curve.g1.point
      kQuery := k.map fun v => curve.g1.point (v * toxic.delta⁻¹)
      numVars := cs.numVars }, vk)

/-! ## Prover -/

/-- The polynomials `A`, `B`, `C` of a witness. -/
def witnessPolys (cs : R1cs) (witness : List Fr) : Option (Poly × Poly × Poly) := do
  let ya ← cs.constraints.mapM fun k => evalSparse k.a witness
  let yb ← cs.constraints.mapM fun k => evalSparse k.b witness
  let yc ← cs.constraints.mapM fun k => evalSparse k.c witness
  let polys ← Poly.interpolateShared (Poly.domain cs.numConstraints) [ya, yb, yc]
  some (polys.getD 0 [], polys.getD 1 [], polys.getD 2 [])

/-- One element of a query times its witness value. -/
def addQuery {G : Type} (o : Ops G) (witness : List Fr) (acc : G) (q : G × Nat) : Option G := do
  some (o.add acc (o.mulScalar q.1 (← witness[q.2]?)))

/-- A query, added up. -/
def accumulate {G : Type} (o : Ops G) (witness : List Fr) (start : G) (query : List G) : Option G :=
  query.zipIdx.foldlM (addQuery o witness) start

/-- One term of a sum that starts empty; zero scalars are skipped. -/
def addOpt {G : Type} (o : Ops G) (acc : Option G) (p : G) (k : Fr) : Option G :=
  if k = 0 then acc
  else match acc with
    | none => some (o.mulScalar p k)
    | some a => some (o.add a (o.mulScalar p k))

def kStep (o : Ops G1) (witness : List Fr) (acc : Option G1) (q : G1 × Nat) :
    Option (Option G1) := do
  some (addOpt o acc q.1 (← witness[q.2]?))

/-- The private part of `C`. -/
def kSum (o : Ops G1) (numPublic : Nat) (witness : List Fr) (kQuery : List G1) :
    Option (Option G1) :=
  (kQuery.zipIdx (numPublic + 1)).foldlM (kStep o witness) none

/-- One coefficient of the product polynomial; zero coefficients are skipped. -/
def hStep (o : Ops G1) (hQuery : List G1) (acc : Option G1) (q : Fr × Nat) :
    Except ZkError (Option G1) :=
  if q.1 = 0 then .ok acc
  else match hQuery[q.2]? with
    | none => .error (.malformedKeys s!"H query too short: need degree {q.2}")
    | some h => .ok (addOpt o acc h q.1)

/-- The product polynomial at `tau`. -/
def hSum (o : Ops G1) (hQuery : List G1) (coeffs : Poly) (acc : Option G1) :
    Except ZkError (Option G1) :=
  coeffs.zipIdx.foldlM (hStep o hQuery) acc

/-- The prover after its checks. `none` where it stops the program. -/
def proveCore (cs : R1cs) (pk : ProvingKey G1 G2) (witness : List Fr) (r s : Fr) :
    Option (Except ZkError (Proof G1 G2)) := do
  let piA ← accumulate curve.g1 witness pk.alphaG1 pk.aQuery
  let piA := curve.g1.add piA (curve.g1.mulScalar pk.deltaG1 r)
  let bG1 ← accumulate curve.g1 witness pk.betaG1 pk.bQueryG1
  let bG1 := curve.g1.add bG1 (curve.g1.mulScalar pk.deltaG1 s)
  let piB ← accumulate curve.g2 witness pk.betaG2 pk.bQueryG2
  let piB := curve.g2.add piB (curve.g2.mulScalar pk.deltaG2 s)
  let (pa, pb, pc) ← witnessPolys cs witness
  let prod := Poly.sub (Poly.mul pa pb) pc
  let piC ← kSum curve.g1 cs.numPublic witness pk.kQuery
  some (match hSum curve.g1 pk.hQuery prod piC with
    | .error e => .error e
    | .ok piC =>
      let piC := piC.getD curve.g1.identity
      let piC := curve.g1.add piC (curve.g1.mulScalar piA s)
      let piC := curve.g1.add piC (curve.g1.mulScalar bG1 r)
      let piC := curve.g1.add piC (curve.g1.neg (curve.g1.mulScalar pk.deltaG1 (r * s)))
      .ok ⟨piA, piB, piC⟩)

def prove (cs : R1cs) (pk : ProvingKey G1 G2) (witness : List Fr) (r s : Fr) :
    Option (Except ZkError (Proof G1 G2)) := do
  if (← cs.isSatisfiedBy witness) = false then
    some (.error (.unsatisfied "witness fails at least one constraint"))
  else if witness.length ≠ cs.numVars then
    some (.error (.unsatisfied s!"witness length {witness.length} != num vars {cs.numVars}"))
  else proveCore curve cs pk witness r s

/-! ## Verifier -/

variable [DecidableEq GT]

/-- One public input times its element. -/
def addPublic (o : Ops G1) (ic : List G1) (acc : G1) (x : Fr × Nat) : Option G1 := do
  some (o.add acc (o.mulScalar (← ic[x.2 + 1]?) x.1))

def verify (vk : VerifyingKey G1 G2) (publicInputs : List Fr) (proof : Proof G1 G2) :
    Option (Except ZkError Unit) := do
  if publicInputs.length ≠ vk.numPublic then
    some (.error (.verificationFailed
      s!"public input arity mismatch: {publicInputs.length} != {vk.numPublic}"))
  else if curve.g1.inCorrectSubgroup proof.a = false then
    some (.error (.verificationFailed "A not in G1 subgroup"))
  else if curve.g2.inCorrectSubgroup proof.b = false then
    some (.error (.verificationFailed "B not in G2 subgroup"))
  else if curve.g1.inCorrectSubgroup proof.c = false then
    some (.error (.verificationFailed "C not in G1 subgroup"))
  else
    let ic0 ← vk.ic[0]?
    let icSum ← publicInputs.zipIdx.foldlM (addPublic curve.g1 vk.ic) ic0
    if curve.multiPairing [(proof.a, proof.b)]
        ≠ curve.multiPairing [(vk.alphaG1, vk.betaG2), (icSum, vk.gammaG2), (proof.c, vk.deltaG2)]
    then some (.error (.verificationFailed "pairing equation does not balance"))
    else some (.ok ())

end

end DiscCleaner.Zk
