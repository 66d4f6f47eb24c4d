import DiscCleaner.Lib.Checked
import DiscCleaner.Zk.Groth16
import Mathlib.Tactic.LinearCombination

/-!
# DiscCleaner — what setup, prover and verifier compute (`groth16.rs`)

Everything published is a multiple of a generator, so each step is followed by the multiple alone.

* **`setup_eq`** — the keys, by their multiples.
* **`proveCore_eq`** — the prover's three values, for any assignment of the variables.
* **`verify_eq`** — the verifier's equation.
* **`prove_complete`** — every satisfying witness has a proof that the verifier accepts.
-/

namespace DiscCleaner.Zk

open CoeffPolyLib Polynomial

/-! ## Weighed sums -/

/-- A list weighed by an assignment, from column `s` on. -/
def weigh (s : Nat) (xs : List Fr) (v : Nat → Fr) : Fr :=
  ∑ i ∈ Finset.range xs.length, xs.getD i 0 * v (s + i)

@[simp] theorem weigh_nil (s : Nat) (v : Nat → Fr) : weigh s [] v = 0 := rfl

theorem weigh_cons (s : Nat) (x : Fr) (xs : List Fr) (v : Nat → Fr) :
    weigh s (x :: xs) v = x * v s + weigh (s + 1) xs v := by
  rw [weigh, weigh, List.length_cons, Finset.sum_range_succ', add_comm]
  simp only [List.getD_cons_zero, List.getD_cons_succ, Nat.add_zero, Nat.add_assoc,
    Nat.add_comm 1]

theorem weigh_append (s : Nat) (xs ys : List Fr) (v : Nat → Fr) :
    weigh s (xs ++ ys) v = weigh s xs v + weigh (s + xs.length) ys v := by
  induction xs generalizing s with
  | nil => rw [List.nil_append, weigh_nil, zero_add, List.length_nil, Nat.add_zero]
  | cons x xs ih =>
    have hnext : s + 1 + xs.length = s + (xs.length + 1) := by omega
    rw [List.cons_append, weigh_cons, weigh_cons, ih, List.length_cons, hnext, add_assoc]

theorem weigh_replicate_zero (s n : Nat) (v : Nat → Fr) : weigh s (List.replicate n 0) v = 0 := by
  induction n generalizing s with
  | zero => rfl
  | succ n ih => rw [List.replicate_succ, weigh_cons, ih, zero_mul, zero_add]

theorem weigh_map_mul (s : Nat) (xs : List Fr) (k : Fr) (v : Nat → Fr) :
    weigh s (xs.map fun x => x * k) v = weigh s xs v * k := by
  induction xs generalizing s with
  | nil => rw [List.map_nil, weigh_nil, zero_mul]
  | cons x xs ih =>
    rw [List.map_cons, weigh_cons, weigh_cons, ih]
    ring

theorem weigh_modify {s i : Nat} {xs : List Fr} (h : i < xs.length) (c : Fr) (v : Nat → Fr) :
    weigh s (xs.modify i (· + c)) v = weigh s xs v + c * v (s + i) := by
  induction xs generalizing s i with
  | nil => exact absurd h (Nat.not_lt_zero i)
  | cons x xs ih =>
    cases i with
    | zero =>
      rw [List.modify_zero_cons, weigh_cons, weigh_cons, Nat.add_zero s, add_mul, add_right_comm]
    | succ i =>
      rw [List.modify_succ_cons, weigh_cons, weigh_cons, ih (Nat.lt_of_succ_lt_succ h),
        Nat.add_assoc s 1, Nat.add_comm 1, add_assoc]

/-- Two lists weighed by each other. -/
theorem weigh_comm {s t : Nat} {xs ys : List Fr} {f g : Nat → Fr} (hlen : xs.length = ys.length)
    (hf : ∀ i < xs.length, f (s + i) = ys.getD i 0)
    (hg : ∀ i < xs.length, g (t + i) = xs.getD i 0) : weigh s xs f = weigh t ys g := by
  rw [weigh, weigh, ← hlen]
  refine Finset.sum_congr rfl fun i hi => ?_
  rw [Finset.mem_range] at hi
  rw [hf i hi, hg i hi, mul_comm]

theorem weigh_congr {s : Nat} {xs : List Fr} {f g : Nat → Fr}
    (h : ∀ i < xs.length, f (s + i) = g (s + i)) : weigh s xs f = weigh s xs g := by
  rw [weigh, weigh]
  exact Finset.sum_congr rfl fun i hi => by rw [h i (Finset.mem_range.mp hi)]

/-- The value of a polynomial weighs its coefficients by the powers. -/
theorem eval_toPoly_eq_weigh (l : List Fr) (x : Fr) :
    (toPoly l).eval x = weigh 0 l fun i => x ^ i := by
  rw [eval_toPoly, weigh]
  simp only [Nat.zero_add]

/-- Three linear forms of the columns at once. -/
theorem weigh_range' (s n : Nat) (a b c : List Fr) (k m : Fr) (v : Nat → Fr) :
    weigh s ((List.range' s n).map fun i => k * a.getD i 0 + m * b.getD i 0 + c.getD i 0) v
      = k * weigh s ((List.range' s n).map fun i => a.getD i 0) v
        + m * weigh s ((List.range' s n).map fun i => b.getD i 0) v
        + weigh s ((List.range' s n).map fun i => c.getD i 0) v := by
  induction n generalizing s with
  | zero => simp
  | succ n ih =>
    simp only [List.range'_succ, List.map_cons, weigh_cons, ih]
    ring

/-! ## Setup -/

theorem foldlM_addColumn (uj : Fr) (acc : List Fr) {row : Row} (h : Below acc.length row) :
    ∃ cols, row.foldlM (addColumn uj) acc = some cols ∧ cols.length = acc.length ∧
      ∀ v, weigh 0 cols v = weigh 0 acc v + uj * dot row v := by
  induction row generalizing acc with
  | nil => exact ⟨acc, rfl, rfl, fun v => by rw [dot_nil, mul_zero, add_zero]⟩
  | cons t rest ih =>
    obtain ⟨ht, hrest⟩ := List.forall_mem_cons.mp h
    have hlen : (acc.modify t.1 (· + t.2 * uj)).length = acc.length := List.length_modify ..
    obtain ⟨cols, hcols, hcolsLen, hweigh⟩ := ih (acc.modify t.1 (· + t.2 * uj))
      (hlen.symm ▸ hrest)
    refine ⟨cols, ?_, hcolsLen.trans hlen, fun v => ?_⟩
    · rw [List.foldlM_cons, addColumn, if_pos ht]
      exact hcols
    · rw [hweigh, weigh_modify ht, dot_cons, Nat.zero_add]
      ring

theorem foldlM_addColumns (sel : Constraint → Row) (ps : List (Constraint × Fr)) (acc : List Fr)
    (h : ∀ p ∈ ps, Below acc.length (sel p.1)) :
    ∃ cols, ps.foldlM (fun acc p => (sel p.1).foldlM (addColumn p.2) acc) acc = some cols ∧
      cols.length = acc.length ∧
      ∀ v, weigh 0 cols v = weigh 0 acc v + (ps.map fun p => p.2 * dot (sel p.1) v).sum := by
  induction ps generalizing acc with
  | nil => exact ⟨acc, rfl, rfl, fun v => by rw [List.map_nil, List.sum_nil, add_zero]⟩
  | cons p rest ih =>
    obtain ⟨hp, hrest⟩ := List.forall_mem_cons.mp h
    obtain ⟨row, hrow, hrowLen, hrowWeigh⟩ := foldlM_addColumn p.2 acc hp
    obtain ⟨cols, hcols, hcolsLen, hweigh⟩ := ih row (hrowLen.symm ▸ hrest)
    refine ⟨cols, ?_, hcolsLen.trans hrowLen, fun v => ?_⟩
    · rw [List.foldlM_cons, hrow]
      exact hcols
    · rw [hweigh, hrowWeigh, List.map_cons, List.sum_cons, add_assoc]

/-- The basis of the domain at a point. -/
def basis (n : Nat) (tau : Fr) : List Fr :=
  (List.range n).map fun j => Poly.skipProduct (Poly.domain n) j tau
    * (Poly.skipProduct (Poly.domain n) j ((Poly.domain n).getD j 0))⁻¹

@[simp] theorem length_basis (n : Nat) (tau : Fr) : (basis n tau).length = n := by
  rw [basis, List.length_map, List.length_range]

theorem mapM_lagrangeEvalAt {n : Nat} (hn : n < 2 ^ 63) (tau : Fr) :
    ((List.range n).mapM fun j => Poly.lagrangeEvalAt (j + 1) n tau) = some (basis n tau) :=
  CheckedLib.mapM_eq_some_map fun _ hj =>
    Poly.lagrangeEvalAt_eq hn (List.mem_range.mp hj) tau

/-- `beta A_i + alpha B_i + C_i`, of columns read past their end as zero. -/
def column (toxic : Toxic) (aT bT cT : List Fr) (i : Nat) : Fr :=
  toxic.beta * aT.getD i 0 + toxic.alpha * bT.getD i 0 + cT.getD i 0

theorem mapM_columnValue (toxic : Toxic) {aT bT cT : List Fr} {m : Nat} (ha : aT.length = m)
    (hb : bT.length = m) (hc : cT.length = m) (is : List Nat) (h : ∀ i ∈ is, i < m) :
    is.mapM (columnValue toxic aT bT cT) = some (is.map (column toxic aT bT cT)) := by
  refine CheckedLib.mapM_eq_some_map fun i hi => ?_
  have him := h i hi
  rw [columnValue, List.getElem?_eq_getElem (by omega : i < aT.length),
    List.getElem?_eq_getElem (by omega : i < bT.length),
    List.getElem?_eq_getElem (by omega : i < cT.length), column,
    List.getD_eq_getElem _ _ (by omega : i < aT.length),
    List.getD_eq_getElem _ _ (by omega : i < bT.length),
    List.getD_eq_getElem _ _ (by omega : i < cT.length)]
  rfl

theorem length_hPowers (tau deltaInv : Fr) (n : Nat) (tp : Fr) :
    (hPowers tau deltaInv n tp).length = n := by
  induction n generalizing tp with
  | zero => rfl
  | succ n ih => rw [hPowers, List.length_cons, ih]

theorem getD_hPowers (tau deltaInv : Fr) {n i : Nat} (hi : i < n) (tp : Fr) :
    (hPowers tau deltaInv n tp).getD i 0 = tp * tau ^ i * deltaInv := by
  induction n generalizing i tp with
  | zero => exact absurd hi (Nat.not_lt_zero i)
  | succ n ih =>
    rw [hPowers]
    cases i with
    | zero => rw [List.getD_cons_zero, pow_zero, mul_one]
    | succ i =>
      rw [List.getD_cons_succ, ih (Nat.lt_of_succ_lt_succ hi), pow_succ]
      ring

/-- The columns of one matrix: as many as variables, weighed like the rows at `tau`. -/
structure Columns (sel : Constraint → Row) (cs : R1cs) (tau : Fr) where
  values : List Fr
  length_eq : values.length = cs.numVars
  weigh_eq : ∀ v, weigh 0 values v
    = ((cs.constraints.zip (basis cs.numConstraints tau)).map fun p => p.2 * dot (sel p.1) v).sum

theorem evalColumns_eq (sel : Constraint → Row) {cs : R1cs} (tau : Fr)
    (h : ∀ k ∈ cs.constraints, Below cs.numVars (sel k)) :
    ∃ cols : Columns sel cs tau,
      evalColumns sel cs (basis cs.numConstraints tau) = some cols.values := by
  obtain ⟨cols, hcols, hlen, hweigh⟩ := foldlM_addColumns sel
    (cs.constraints.zip (basis cs.numConstraints tau)) (List.replicate cs.numVars 0)
    (fun p hp => by
      rw [List.length_replicate]
      exact h p.1 (List.of_mem_zip hp).1)
  refine ⟨⟨cols, hlen.trans List.length_replicate, fun v => ?_⟩, hcols⟩
  rw [hweigh, weigh_replicate_zero, zero_add]

section

variable {G1 G2 GT : Type} (curve : Curve G1 G2 GT)

/-- The verifying key, by the multiples in it. -/
def vkOf (cs : R1cs) (circuitId : String) (toxic : Toxic) (columns : Nat → Fr) :
    VerifyingKey G1 G2 where
  alphaG1 := curve.g1.point toxic.alpha
  betaG2 := curve.g2.point toxic.beta
  gammaG2 := curve.g2.point toxic.gamma
  deltaG2 := curve.g2.point toxic.delta
  ic := (((List.range (cs.numPublic + 1)).map columns).map fun x => x * toxic.gamma⁻¹).map
    curve.g1.point
  numPublic := cs.numPublic
  numConstraints := cs.numConstraints
  circuitId := circuitId

/-- The proving key, by the multiples in it. -/
def pkOf (cs : R1cs) (circuitId : String) (toxic : Toxic) (aT bT cT : List Fr) :
    ProvingKey G1 G2 where
  vk := vkOf curve cs circuitId toxic (column toxic aT bT cT)
  alphaG1 := curve.g1.point toxic.alpha
  betaG1 := curve.g1.point toxic.beta
  betaG2 := curve.g2.point toxic.beta
  deltaG1 := curve.g1.point toxic.delta
  deltaG2 := curve.g2.point toxic.delta
  aQuery := aT.map curve.g1.point
  bQueryG1 := bT.map curve.g1.point
  bQueryG2 := bT.map curve.g2.point
  hQuery := (hPowers toxic.tau toxic.delta⁻¹ (max (2 * cs.numConstraints - 1) 1) 1).map
    curve.g1.point
  kQuery := (((List.range' (cs.numPublic + 1) (cs.numVars - (cs.numPublic + 1))).map
    (column toxic aT bT cT)).map fun x => x * toxic.delta⁻¹).map curve.g1.point
  numVars := cs.numVars

/-- What the setup needs of a system: a private variable beside the public ones, columns inside
the variables, and a number of constraints that fits a word. -/
structure R1cs.WellFormed (cs : R1cs) : Prop where
  numPublic_lt : cs.numPublic < cs.numVars
  below : ∀ k ∈ cs.constraints, k.Below cs.numVars
  numConstraints_lt : cs.numConstraints < 2 ^ 63

theorem setup_eq {cs : R1cs} (hcs : cs.WellFormed) (circuitId : String) (toxic : Toxic)
    (hgamma : toxic.gamma ≠ 0) (hdelta : toxic.delta ≠ 0) :
    ∃ (a : Columns Constraint.a cs toxic.tau) (b : Columns Constraint.b cs toxic.tau)
      (c : Columns Constraint.c cs toxic.tau), setup curve cs circuitId toxic
        = some (pkOf curve cs circuitId toxic a.values b.values c.values,
            vkOf curve cs circuitId toxic (column toxic a.values b.values c.values)) := by
  obtain ⟨a, ha⟩ := evalColumns_eq Constraint.a toxic.tau fun k hk => (hcs.below k hk).1
  obtain ⟨b, hb⟩ := evalColumns_eq Constraint.b toxic.tau fun k hk => (hcs.below k hk).2.1
  obtain ⟨c, hc⟩ := evalColumns_eq Constraint.c toxic.tau fun k hk => (hcs.below k hk).2.2
  have hpub := hcs.numPublic_lt
  have hic := mapM_columnValue toxic a.length_eq b.length_eq c.length_eq
    (List.range (cs.numPublic + 1)) fun i hi => by
      rw [List.mem_range] at hi
      omega
  have hk := mapM_columnValue toxic a.length_eq b.length_eq c.length_eq
    (List.range' (cs.numPublic + 1) (cs.numVars - (cs.numPublic + 1))) fun i hi => by
      rw [List.mem_range'_1] at hi
      omega
  refine ⟨a, b, c, ?_⟩
  rw [setup, if_neg (not_or.mpr ⟨hgamma, hdelta⟩)]
  simp only [mapM_lagrangeEvalAt hcs.numConstraints_lt, Option.bind_eq_bind, Option.bind_some, ha,
    hb, hc, hic, hk, pkOf, vkOf, List.map_map, Function.comp_def]

/-! ## Prover -/

section

variable {G : Type} {o : Ops G}

theorem accumulate_point (ho : o.Lawful) (witness qs : List Fr) (start : Fr)
    (h : qs.length ≤ witness.length) :
    accumulate o witness (o.point start) (qs.map o.point)
      = some (o.point (start + weigh 0 qs (assignment witness))) := by
  have hloop : ∀ (qs : List Fr) (s : Nat) (x : Fr), s + qs.length ≤ witness.length →
      ((qs.map o.point).zipIdx s).foldlM (addQuery o witness) (o.point x)
        = some (o.point (x + weigh s qs (assignment witness))) := by
    intro qs
    induction qs with
    | nil =>
      intro s x _
      rw [weigh_nil, add_zero]
      rfl
    | cons q rest ih =>
      intro s x hs
      rw [List.length_cons] at hs
      have hget : witness[s]? = some (assignment witness s) := by
        rw [assignment, List.getD_eq_getElem _ _ (by omega), List.getElem?_eq_getElem (by omega)]
      rw [List.map_cons, List.zipIdx_cons, List.foldlM_cons, addQuery]
      simp only [hget, Option.bind_eq_bind, Option.bind_some, ho.mulScalar, ho.add]
      rw [ih (s + 1) _ (by omega), weigh_cons, add_assoc]
  exact hloop qs 0 start (by omega)

/-- A sum that starts empty has reached a multiple of the generator. -/
def Sums (o : Ops G) (acc : Option G) (x : Fr) : Prop := acc = none ∧ x = 0 ∨ acc = some (o.point x)

theorem Sums.addOpt (ho : o.Lawful) {acc : Option G} {x : Fr} (h : Sums o acc x) (q k : Fr) :
    Sums o (addOpt o acc (o.point q) k) (x + q * k) := by
  by_cases hk : k = 0
  · rw [hk, mul_zero, add_zero, Zk.addOpt.eq_def, if_pos rfl]
    exact h
  · refine Or.inr ?_
    rcases h with ⟨rfl, rfl⟩ | rfl
    · simp only [Zk.addOpt, if_neg hk, ho.mulScalar, zero_add]
    · simp only [Zk.addOpt, if_neg hk, ho.mulScalar, ho.add]

theorem Sums.getD (ho : o.Lawful) {acc : Option G} {x : Fr} (h : Sums o acc x) :
    acc.getD o.identity = o.point x := by
  rcases h with ⟨rfl, rfl⟩ | rfl
  · exact ho.identity
  · rfl

theorem kSum_point (ho : o.Lawful) (numPublic : Nat) (witness qs : List Fr)
    (h : numPublic + 1 + qs.length ≤ witness.length) :
    ∃ acc, kSum o numPublic witness (qs.map o.point) = some acc ∧
      Sums o acc (weigh (numPublic + 1) qs (assignment witness)) := by
  have hloop : ∀ (qs : List Fr) (s : Nat) (start : Option G) (x : Fr), Sums o start x →
      s + qs.length ≤ witness.length →
      ∃ acc, ((qs.map o.point).zipIdx s).foldlM (kStep o witness) start = some acc ∧
        Sums o acc (x + weigh s qs (assignment witness)) := by
    intro qs
    induction qs with
    | nil =>
      intro s start x hx _
      exact ⟨start, rfl, by rwa [weigh_nil, add_zero]⟩
    | cons q rest ih =>
      intro s start x hx hs
      rw [List.length_cons] at hs
      have hget : witness[s]? = some (assignment witness s) := by
        rw [assignment, List.getD_eq_getElem _ _ (by omega), List.getElem?_eq_getElem (by omega)]
      obtain ⟨acc, hacc, hsum⟩ := ih (s + 1) _ _ (hx.addOpt ho q (assignment witness s)) (by omega)
      refine ⟨acc, ?_, by rwa [weigh_cons, ← add_assoc]⟩
      rw [List.map_cons, List.zipIdx_cons, List.foldlM_cons, kStep]
      simp only [hget, Option.bind_eq_bind, Option.bind_some]
      exact hacc
  obtain ⟨acc, hacc, hsum⟩ := hloop qs (numPublic + 1) none 0 (Or.inl ⟨rfl, rfl⟩) h
  exact ⟨acc, hacc, by rwa [zero_add] at hsum⟩

theorem hSum_point (ho : o.Lawful) (hs : List Fr) (coeffs : Poly) {start : Option G} {x : Fr}
    (hstart : Sums o start x) (h : coeffs.length ≤ hs.length) :
    ∃ acc, hSum o (hs.map o.point) coeffs start = .ok acc ∧
      Sums o acc (x + weigh 0 coeffs fun i => hs.getD i 0) := by
  have hloop : ∀ (coeffs : List Fr) (s : Nat) (start : Option G) (x : Fr), Sums o start x →
      s + coeffs.length ≤ hs.length →
      ∃ acc, (coeffs.zipIdx s).foldlM (hStep o (hs.map o.point)) start = .ok acc ∧
        Sums o acc (x + weigh s coeffs fun i => hs.getD i 0) := by
    intro coeffs
    induction coeffs with
    | nil =>
      intro s start x hx _
      exact ⟨start, rfl, by rwa [weigh_nil, add_zero]⟩
    | cons c rest ih =>
      intro s start x hx hlen
      rw [List.length_cons] at hlen
      have hstep : ∃ mid, hStep o (hs.map o.point) start (c, s) = .ok mid ∧
          Sums o mid (x + c * hs.getD s 0) := by
        rw [hStep]
        split_ifs with hc
        · refine ⟨start, rfl, ?_⟩
          rw [show c = 0 from hc, zero_mul, add_zero]
          exact hx
        · have hget : (hs.map o.point)[s]? = some (o.point (hs.getD s 0)) := by
            rw [List.getElem?_map, List.getElem?_eq_getElem (by omega),
              List.getD_eq_getElem _ _ (by omega)]
            rfl
          simp only [hget]
          exact ⟨_, rfl, mul_comm c _ ▸ hx.addOpt ho (hs.getD s 0) c⟩
      obtain ⟨mid, hmid, hmidSum⟩ := hstep
      obtain ⟨acc, hacc, hsum⟩ := ih (s + 1) mid _ hmidSum (by omega)
      refine ⟨acc, ?_, by rwa [weigh_cons, ← add_assoc]⟩
      rw [List.zipIdx_cons, List.foldlM_cons, hmid]
      exact hacc
  exact hloop coeffs 0 start x hstart (by omega)

end

/-- Rows at `tau`, as samples weighed by the basis. -/
theorem sum_zip_eq_weigh {ks : List Constraint} {us : List Fr} {d : Constraint → Fr} {s : Nat}
    {f : Nat → Fr} (hlen : us.length = ks.length) (hf : ∀ i < ks.length, f (s + i) = us.getD i 0) :
    ((ks.zip us).map fun p => p.2 * d p.1).sum = weigh s (ks.map d) f := by
  induction ks generalizing us s with
  | nil => rfl
  | cons k rest ih =>
    cases us with
    | nil => cases hlen
    | cons u us =>
      have h0 := hf 0 (Nat.succ_pos _)
      rw [Nat.add_zero, List.getD_cons_zero] at h0
      have hrest : ∀ i < rest.length, f (s + 1 + i) = us.getD i 0 := by
        intro i hi
        rw [Nat.add_assoc, Nat.add_comm 1, hf (i + 1) (Nat.succ_lt_succ hi), List.getD_cons_succ]
      rw [List.zip_cons_cons, List.map_cons, List.sum_cons, ih (Nat.succ_injective hlen) hrest,
        List.map_cons, weigh_cons, h0, mul_comm]

/-- The prover's polynomial at `tau` is the setup's column sum. -/
theorem eval_interpolate_rows (cs : R1cs) (d : Constraint → Fr) (tau : Fr) :
    (toPoly (Poly.interpolate (Poly.domain cs.numConstraints) (cs.constraints.map d))).eval tau
      = ((cs.constraints.zip (basis cs.numConstraints tau)).map fun p => p.2 * d p.1).sum := by
  have hlen : (cs.constraints.map d).length = (Poly.domain cs.numConstraints).length := by
    rw [List.length_map, Poly.length_domain, R1cs.numConstraints]
  have hbasis : ∀ i < cs.constraints.length, (basis cs.numConstraints tau).getD (0 + i) 0
      = Poly.skipProduct (Poly.domain cs.numConstraints) i tau
        * (Poly.skipProduct (Poly.domain cs.numConstraints) i
            ((Poly.domain cs.numConstraints).getD i 0))⁻¹ := by
    intro i hi
    rw [Nat.zero_add, List.getD_eq_getElem _ _ (by rwa [length_basis])]
    simp only [basis, List.getElem_map, List.getElem_range]
  have hbasisLen : (basis cs.numConstraints tau).length = cs.constraints.length := length_basis _ _
  rw [Poly.eval_interpolate hlen, sum_zip_eq_weigh hbasisLen (s := 0)
    (f := fun i => (basis cs.numConstraints tau).getD i 0) fun i _ => by rw [Nat.zero_add], weigh,
    List.length_map, Poly.length_domain, R1cs.numConstraints]
  refine Finset.sum_congr rfl fun i hi => ?_
  rw [← R1cs.numConstraints, hbasis i (Finset.mem_range.mp hi)]

/-- The published powers evaluate a polynomial that is not longer than them. -/
theorem weigh_hPowers (tau deltaInv : Fr) {p : Poly} {n : Nat} (h : p.length ≤ n) :
    weigh 0 p (fun i => (hPowers tau deltaInv n 1).getD i 0) = (toPoly p).eval tau * deltaInv := by
  have hpowers : weigh 0 p (fun i => (hPowers tau deltaInv n 1).getD i 0)
      = weigh 0 p (fun i => tau ^ i * deltaInv) := by
    refine weigh_congr fun i hi => ?_
    rw [Nat.zero_add, getD_hPowers _ _ (hi.trans_le h), one_mul]
  rw [hpowers, eval_toPoly_eq_weigh]
  simp only [weigh, Finset.sum_mul, mul_assoc]

/-- The product polynomial fits the published powers. -/
theorem length_product {n : Nat} {pa pb pc : Poly} (ha : pa.length ≤ n) (hb : pb.length ≤ n)
    (hc : pc.length ≤ n) : (Poly.sub (Poly.mul pa pb) pc).length ≤ max (2 * n - 1) 1 := by
  have hmul := Poly.length_mul pa pb
  have hsub := Poly.length_sub (Poly.mul pa pb) pc
  omega

/-- The prover's polynomial through the rows of one matrix. -/
def rowPoly (cs : R1cs) (sel : Constraint → Row) (witness : List Fr) : Poly :=
  Poly.interpolate (Poly.domain cs.numConstraints)
    (cs.constraints.map fun k => dot (sel k) (assignment witness))

theorem length_rowPoly (cs : R1cs) (sel : Constraint → Row) (witness : List Fr) :
    (rowPoly cs sel witness).length ≤ cs.numConstraints := by
  refine (Poly.length_interpolate ?_).trans_eq (Poly.length_domain _)
  rw [List.length_map, Poly.length_domain, R1cs.numConstraints]

theorem eval_rowPoly {cs : R1cs} {sel : Constraint → Row} {tau : Fr} (cols : Columns sel cs tau)
    (witness : List Fr) : (toPoly (rowPoly cs sel witness)).eval tau
      = weigh 0 cols.values (assignment witness) := by
  rw [rowPoly, eval_interpolate_rows, cols.weigh_eq]

theorem witnessPolys_eq {cs : R1cs} (hcs : cs.WellFormed) {witness : List Fr}
    (hlen : witness.length = cs.numVars) :
    witnessPolys cs witness = some (rowPoly cs Constraint.a witness,
      rowPoly cs Constraint.b witness, rowPoly cs Constraint.c witness) := by
  have hrows : ∀ sel : Constraint → Row, (∀ k ∈ cs.constraints, Below cs.numVars (sel k)) →
      (cs.constraints.mapM fun k => evalSparse (sel k) witness)
        = some (cs.constraints.map fun k => dot (sel k) (assignment witness)) := fun sel h =>
    CheckedLib.mapM_eq_some_map fun k hk => evalSparse_of_below (hlen.symm ▸ h k hk)
  simp only [witnessPolys, hrows Constraint.a fun k hk => (hcs.below k hk).1,
    hrows Constraint.b fun k hk => (hcs.below k hk).2.1,
    hrows Constraint.c fun k hk => (hcs.below k hk).2.2, Option.bind_eq_bind, Option.bind_some,
    Poly.interpolateShared_eq (Poly.nodup_domain hcs.numConstraints_lt), List.map_cons,
    List.map_nil, List.getD_cons_zero, List.getD_cons_succ, rowPoly]

/-- The multiple of `A`: the constant and the columns, blinded. -/
def aValue (constant delta : Fr) (columns witness : List Fr) (blind : Fr) : Fr :=
  constant + weigh 0 columns (assignment witness) + delta * blind

/-- The multiple of `C`. -/
def cValue (cs : R1cs) (toxic : Toxic) (aT bT cT witness : List Fr) (r s : Fr) : Fr :=
  weigh (cs.numPublic + 1) (((List.range' (cs.numPublic + 1) (cs.numVars - (cs.numPublic + 1))).map
      (column toxic aT bT cT)).map fun x => x * toxic.delta⁻¹) (assignment witness)
    + (weigh 0 aT (assignment witness) * weigh 0 bT (assignment witness)
        - weigh 0 cT (assignment witness)) * toxic.delta⁻¹
    + aValue toxic.alpha toxic.delta aT witness r * s
    + aValue toxic.beta toxic.delta bT witness s * r
    + -(toxic.delta * (r * s))

/-- **The prover's formulas**, for any assignment of the variables, satisfying or not. -/
theorem proveCore_eq (hcurve : curve.Lawful) {cs : R1cs} (hcs : cs.WellFormed)
    (circuitId : String) {toxic : Toxic} (a : Columns Constraint.a cs toxic.tau)
    (b : Columns Constraint.b cs toxic.tau) (c : Columns Constraint.c cs toxic.tau)
    {witness : List Fr} (hlen : witness.length = cs.numVars) (r s : Fr) :
    proveCore curve cs (pkOf curve cs circuitId toxic a.values b.values c.values) witness r s
      = some (.ok ⟨curve.g1.point (aValue toxic.alpha toxic.delta a.values witness r),
          curve.g2.point (aValue toxic.beta toxic.delta b.values witness s),
          curve.g1.point (cValue cs toxic a.values b.values c.values witness r s)⟩) := by
  have hpub := hcs.numPublic_lt
  have hprodLen := length_product (length_rowPoly cs Constraint.a witness)
    (length_rowPoly cs Constraint.b witness) (length_rowPoly cs Constraint.c witness)
  -- the queries give the column sums
  have haQuery := accumulate_point hcurve.g1 witness a.values toxic.alpha
    (by rw [a.length_eq, hlen])
  have hbQuery1 := accumulate_point hcurve.g1 witness b.values toxic.beta
    (by rw [b.length_eq, hlen])
  have hbQuery2 := accumulate_point hcurve.g2 witness b.values toxic.beta
    (by rw [b.length_eq, hlen])
  obtain ⟨kAcc, hk, hkSum⟩ := kSum_point hcurve.g1 cs.numPublic witness
    (((List.range' (cs.numPublic + 1) (cs.numVars - (cs.numPublic + 1))).map
      (column toxic a.values b.values c.values)).map fun x => x * toxic.delta⁻¹) (by
        simp only [List.length_map, List.length_range', hlen]
        omega)
  -- and the powers of `tau` the product polynomial
  obtain ⟨hAcc, hh, hhSum⟩ := hSum_point hcurve.g1
    (hPowers toxic.tau toxic.delta⁻¹ (max (2 * cs.numConstraints - 1) 1) 1)
    (Poly.sub (Poly.mul (rowPoly cs Constraint.a witness)
      (rowPoly cs Constraint.b witness)) (rowPoly cs Constraint.c witness))
    hkSum (by rwa [length_hPowers])
  rw [weigh_hPowers _ _ hprodLen, Poly.toPoly_sub, Poly.toPoly_mul, eval_sub, eval_mul,
    eval_rowPoly a, eval_rowPoly b, eval_rowPoly c] at hhSum
  simp only [proveCore, pkOf, haQuery, hbQuery1, hbQuery2, witnessPolys_eq hcs hlen, hk, hh,
    Option.bind_eq_bind, Option.bind_some, hcurve.g1.mulScalar, hcurve.g2.mulScalar, hcurve.g1.add,
    hcurve.g2.add, hcurve.g1.neg, hhSum.getD hcurve.g1]
  rfl

/-! ## Verifier -/

theorem foldlM_addPublic {o : Ops G1} (ho : o.Lawful) (ic xs : List Fr) (start : Fr)
    (h : xs.length + 1 ≤ ic.length) :
    xs.zipIdx.foldlM (addPublic o (ic.map o.point)) (o.point start)
      = some (o.point (start + weigh 0 xs fun i => ic.getD (i + 1) 0)) := by
  have hloop : ∀ (xs : List Fr) (s : Nat) (x : Fr), s + xs.length + 1 ≤ ic.length →
      (xs.zipIdx s).foldlM (addPublic o (ic.map o.point)) (o.point x)
        = some (o.point (x + weigh s xs fun i => ic.getD (i + 1) 0)) := by
    intro xs
    induction xs with
    | nil =>
      intro s x _
      rw [weigh_nil, add_zero]
      rfl
    | cons y rest ih =>
      intro s x hs
      rw [List.length_cons] at hs
      have hget : (ic.map o.point)[s + 1]? = some (o.point (ic.getD (s + 1) 0)) := by
        rw [List.getElem?_map, List.getElem?_eq_getElem (by omega),
          List.getD_eq_getElem _ _ (by omega)]
        rfl
      rw [List.zipIdx_cons, List.foldlM_cons, addPublic]
      simp only [hget, Option.bind_eq_bind, Option.bind_some, ho.mulScalar, ho.add]
      rw [ih (s + 1) _ (by omega), weigh_cons, mul_comm, add_assoc]
  exact hloop xs 0 start (by omega)

variable [DecidableEq GT]

/-- **The verifier's equation**, on multiples of the generators. -/
theorem verify_eq (hcurve : curve.Lawful) (cs : R1cs) (circuitId : String) (toxic : Toxic)
    (columns : Nat → Fr) {publicInputs : List Fr} (hlen : publicInputs.length = cs.numPublic)
    (x y z : Fr) :
    verify curve (vkOf curve cs circuitId toxic columns) publicInputs
        ⟨curve.g1.point x, curve.g2.point y, curve.g1.point z⟩
      = if x * y = toxic.alpha * toxic.beta
            + weigh 0 (((List.range (cs.numPublic + 1)).map columns).map fun x => x * toxic.gamma⁻¹)
                (assignment (1 :: publicInputs)) * toxic.gamma + z * toxic.delta
        then some (.ok ())
        else some (.error (.verificationFailed "pairing equation does not balance")) := by
  have hic : ((List.range (cs.numPublic + 1)).map columns).map (fun x => x * toxic.gamma⁻¹)
      = columns 0 * toxic.gamma⁻¹
        :: ((List.range' 1 cs.numPublic).map columns).map fun x => x * toxic.gamma⁻¹ := by
    rw [List.range_eq_range', List.range'_succ, List.map_cons, List.map_cons]
  set ic := ((List.range (cs.numPublic + 1)).map columns).map fun x => x * toxic.gamma⁻¹ with hicDef
  have hicLen : ic.length = cs.numPublic + 1 := by
    rw [hicDef, List.length_map, List.length_map, List.length_range]
  have hhead : (ic.map curve.g1.point)[0]? = some (curve.g1.point (columns 0 * toxic.gamma⁻¹)) := by
    rw [hic]
    rfl
  have hloop := foldlM_addPublic hcurve.g1 ic publicInputs
    (columns 0 * toxic.gamma⁻¹) (by omega)
  -- the constant 1 weighs the first element, the inputs the others
  have hsum : columns 0 * toxic.gamma⁻¹ + weigh 0 publicInputs (fun i => ic.getD (i + 1) 0)
      = weigh 0 ic (assignment (1 :: publicInputs)) := by
    rw [hic, weigh_cons]
    refine congrArg₂ (· + ·) (mul_one _).symm (weigh_comm ?_ (fun i _ => ?_) fun i _ => ?_)
    · rw [List.length_map, List.length_map, List.length_range', hlen]
    · rw [Nat.zero_add, List.getD_cons_succ]
    · rw [assignment, Nat.zero_add, Nat.add_comm 1, List.getD_cons_succ]
  rw [hsum] at hloop
  have hpair := hcurve.multiPairing [(x, y)] [(toxic.alpha, toxic.beta),
    (weigh 0 ic (assignment (1 :: publicInputs)), toxic.gamma), (z, toxic.delta)]
  simp only [List.map_cons, List.map_nil, List.sum_cons, List.sum_nil, add_zero, ← add_assoc]
    at hpair
  simp only [verify, vkOf, hlen, ne_eq, not_true_eq_false, if_false, ← hicDef, hhead, hloop,
    hcurve.g1.inCorrectSubgroup, hcurve.g2.inCorrectSubgroup, Bool.true_eq_false, hpair, ite_not,
    Option.bind_eq_bind, Option.bind_some]

/-! ## The equation holds -/

theorem map_getD_range' {xs : List Fr} {m : Nat} (h : xs.length = m) :
    ((List.range' 0 m).map fun i => xs.getD i 0) = xs := by
  rw [← List.range_eq_range', ← h, ← Poly.map_eq_range xs fun x => x, List.map_id']

/-- The public and the private columns together are all of them. -/
theorem weigh_columns {cs : R1cs} (h : cs.numPublic < cs.numVars) (toxic : Toxic)
    {aT bT cT : List Fr} (ha : aT.length = cs.numVars) (hb : bT.length = cs.numVars)
    (hc : cT.length = cs.numVars) (v : Nat → Fr) :
    weigh 0 ((List.range (cs.numPublic + 1)).map (column toxic aT bT cT)) v
        + weigh (cs.numPublic + 1) ((List.range' (cs.numPublic + 1)
            (cs.numVars - (cs.numPublic + 1))).map (column toxic aT bT cT)) v
      = toxic.beta * weigh 0 aT v + toxic.alpha * weigh 0 bT v + weigh 0 cT v := by
  have hsplit : List.range (cs.numPublic + 1)
      ++ List.range' (cs.numPublic + 1) (cs.numVars - (cs.numPublic + 1))
      = List.range' 0 cs.numVars := by
    have happend := List.range'_append_1 (s := 0) (m := cs.numPublic + 1)
      (n := cs.numVars - (cs.numPublic + 1))
    rw [Nat.zero_add, Nat.add_sub_cancel' h] at happend
    rw [List.range_eq_range', happend]
  have hlen : ((List.range (cs.numPublic + 1)).map (column toxic aT bT cT)).length
      = cs.numPublic + 1 := by
    rw [List.length_map, List.length_range]
  have happ := weigh_append 0 ((List.range (cs.numPublic + 1)).map (column toxic aT bT cT))
    ((List.range' (cs.numPublic + 1) (cs.numVars - (cs.numPublic + 1))).map
      (column toxic aT bT cT)) v
  rw [hlen, Nat.zero_add, ← List.map_append, hsplit] at happ
  have hforms := weigh_range' 0 cs.numVars aT bT cT toxic.beta toxic.alpha v
  rw [map_getD_range' ha, map_getD_range' hb, map_getD_range' hc] at hforms
  exact happ.symm.trans hforms

/-- The public part of a witness. -/
def publicPart (cs : R1cs) (witness : List Fr) : List Fr := (witness.drop 1).take cs.numPublic

theorem length_publicPart {cs : R1cs} (h : cs.numPublic < cs.numVars) {witness : List Fr}
    (hlen : witness.length = cs.numVars) : (publicPart cs witness).length = cs.numPublic := by
  rw [publicPart, List.length_take, List.length_drop]
  omega

/-- The constant and the public part are the head of the witness. -/
theorem assignment_publicPart (cs : R1cs) {witness : List Fr} (hone : witness.head? = some 1)
    {i : Nat} (hi : i < cs.numPublic + 1) :
    assignment (1 :: publicPart cs witness) i = assignment witness i := by
  cases witness with
  | nil => cases hone
  | cons x rest =>
    rw [List.head?_cons] at hone
    rw [Option.some.inj hone, assignment, assignment, publicPart, List.drop_one, List.tail_cons]
    cases i with
    | zero => rfl
    | succ i =>
      rw [List.getD_cons_succ, List.getD_cons_succ, List.getD_eq_getElem?_getD,
        List.getD_eq_getElem?_getD, List.getElem?_take_of_lt (Nat.lt_of_succ_lt_succ hi)]

/-- **The prover's formulas balance the equation for every assignment** whose first value is the
constant, whether or not it satisfies a constraint: the powers of `tau` over delta carry any
product polynomial. -/
theorem proveCore_verifies (hcurve : curve.Lawful) {cs : R1cs} (hcs : cs.WellFormed)
    (circuitId : String) (toxic : Toxic) (hgamma : toxic.gamma ≠ 0) (hdelta : toxic.delta ≠ 0)
    {witness : List Fr} (hlen : witness.length = cs.numVars) (hone : witness.head? = some 1)
    (r s : Fr) :
    ∃ pk vk proof, setup curve cs circuitId toxic = some (pk, vk) ∧
      proveCore curve cs pk witness r s = some (.ok proof) ∧
      verify curve vk (publicPart cs witness) proof = some (.ok ()) := by
  obtain ⟨a, b, c, hsetup⟩ := setup_eq curve hcs circuitId toxic hgamma hdelta
  refine ⟨_, _, _, hsetup, proveCore_eq curve hcurve hcs circuitId a b c hlen r s, ?_⟩
  have hpublic : weigh 0 (((List.range (cs.numPublic + 1)).map
        (column toxic a.values b.values c.values)).map fun x => x * toxic.gamma⁻¹)
        (assignment (1 :: publicPart cs witness))
      = weigh 0 (((List.range (cs.numPublic + 1)).map
        (column toxic a.values b.values c.values)).map fun x => x * toxic.gamma⁻¹)
        (assignment witness) := weigh_congr fun i hi => by
      rw [List.length_map, List.length_map, List.length_range] at hi
      rw [Nat.zero_add]
      exact assignment_publicPart cs hone hi
  have hcolumns := weigh_columns hcs.numPublic_lt toxic a.length_eq b.length_eq c.length_eq
    (assignment witness)
  have hg : toxic.gamma⁻¹ * toxic.gamma = 1 := inv_mul_cancel₀ hgamma
  have hd : toxic.delta⁻¹ * toxic.delta = 1 := inv_mul_cancel₀ hdelta
  rw [verify_eq curve hcurve cs circuitId toxic _ (length_publicPart hcs.numPublic_lt hlen), if_pos]
  rw [hpublic, weigh_map_mul, cValue, weigh_map_mul, aValue, aValue]
  linear_combination
    (-(weigh 0 ((List.range (cs.numPublic + 1)).map (column toxic a.values b.values c.values))
        (assignment witness))) * hg
      - (weigh (cs.numPublic + 1) ((List.range' (cs.numPublic + 1)
            (cs.numVars - (cs.numPublic + 1))).map (column toxic a.values b.values c.values))
            (assignment witness)
          + weigh 0 a.values (assignment witness) * weigh 0 b.values (assignment witness)
          - weigh 0 c.values (assignment witness)) * hd - hcolumns

/-- **Completeness.** For every system, satisfying witness, toxic waste with gamma and delta
non-zero and blinding scalars, the prover returns a proof under the key from setup and the
verifier accepts it for the public part of the witness. -/
theorem prove_complete (hcurve : curve.Lawful) {cs : R1cs} (hpub : cs.numPublic < cs.numVars)
    (hn : cs.numConstraints < 2 ^ 63) {witness : List Fr}
    (hsat : cs.isSatisfiedBy witness = some true) (circuitId : String) {toxic : Toxic}
    (hgamma : toxic.gamma ≠ 0) (hdelta : toxic.delta ≠ 0) (r s : Fr) :
    ∃ pk vk proof, setup curve cs circuitId toxic = some (pk, vk) ∧
      prove curve cs pk witness r s = some (.ok proof) ∧
      verify curve vk (publicPart cs witness) proof = some (.ok ()) := by
  obtain ⟨hlen, hone, hall⟩ := isSatisfiedBy_iff.mp hsat
  have hcs : cs.WellFormed := ⟨hpub, fun k hk => (hall k hk).1, hn⟩
  obtain ⟨pk, vk, proof, hsetup, hprove, hverify⟩ :=
    proveCore_verifies curve hcurve hcs circuitId toxic hgamma hdelta hlen hone r s
  refine ⟨pk, vk, proof, hsetup, ?_, hverify⟩
  simp only [prove, hsat, Option.bind_eq_bind, Option.bind_some, Bool.true_eq_false, if_false, hlen,
    ne_eq, not_true_eq_false]
  exact hprove

end

/-! ## A run of the system -/

/-- The group operations of the field itself. -/
def fieldOps : Ops Fr where
  gen := 1
  identity := 0
  add := fun a b => a + b
  mulScalar := fun a k => a * k
  neg := fun a => -a
  inCorrectSubgroup := fun _ => true

/-- The field as both groups, with multiplication as the pairing. -/
def fieldCurve : Curve Fr Fr Fr where
  g1 := fieldOps
  g2 := fieldOps
  multiPairing := fun ps => (ps.map fun p => p.1 * p.2).sum

theorem fieldOps_point (k : Fr) : fieldOps.point k = k := one_mul k

theorem fieldOps_lawful : fieldOps.Lawful where
  identity := (fieldOps_point 0).symm
  add := fun a b => by
    rw [fieldOps_point, fieldOps_point, fieldOps_point]
    rfl
  mulScalar := fun a k => by
    rw [fieldOps_point, fieldOps_point]
    rfl
  neg := fun a => by
    rw [fieldOps_point, fieldOps_point]
    rfl
  inCorrectSubgroup := fun _ => rfl

theorem fieldCurve_lawful : fieldCurve.Lawful where
  g1 := fieldOps_lawful
  g2 := fieldOps_lawful
  multiPairing := fun ps qs => by
    simp only [fieldCurve, List.map_map, Function.comp_def, fieldOps_point]

/-- A private number and its public square. -/
def square : R1cs :=
  (R1cs.new 3 1).constrain (LinComb.var 2 1) (LinComb.var 2 1) (LinComb.var 1 1)

theorem square_satisfied : square.isSatisfiedBy [1, 9, 3] = some true := by
  refine isSatisfiedBy_iff.mpr ⟨rfl, rfl, fun k hk => ?_⟩
  rw [List.mem_singleton.mp hk]
  refine ⟨⟨below_var (by decide) 1, below_var (by decide) 1, below_var (by decide) 1⟩, ?_⟩
  simp only [Constraint.Holds, dot_var, assignment, List.getD_cons_succ, List.getD_cons_zero]
  norm_num

theorem prove_complete_square : ∃ pk vk proof,
    setup fieldCurve square "square" ⟨5, 2, 3, 1, 1⟩ = some (pk, vk) ∧
      prove fieldCurve square pk [1, 9, 3] 4 6 = some (.ok proof) ∧
      verify fieldCurve vk (publicPart square [1, 9, 3]) proof = some (.ok ()) :=
  prove_complete fieldCurve fieldCurve_lawful (by decide) (by decide) square_satisfied "square"
    one_ne_zero one_ne_zero 4 6

end DiscCleaner.Zk
