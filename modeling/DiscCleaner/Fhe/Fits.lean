import DiscCleaner.Lib.Checked
import DiscCleaner.Fhe.Zkp

/-!
# DiscCleaner — when the ring arithmetic goes on (`poly.rs`, `zkp.rs`)

For each operation of the ring: its value over the integers, and the condition under which no value
on the way leaves a 64-bit word, no index leaves its vector and no modulus is zero. The conditions
look at the integers only.

* **`mul_exact`**, **`mulSparse_exact`**, **`centred_exact`** — the operations of the replay.
* **`centreFits_of_pos`** — a positive modulus reduces every word.
-/

namespace DiscCleaner.Fhe

open ByteLib CheckedLib

/-! ## Centred reduction -/

def centreZ (x q : Int) : Int :=
  if (q - 1).tdiv 2 < x.tmod q then x.tmod q - q
  else if x.tmod q < -(q - 1).tdiv 2 then x.tmod q + q
  else x.tmod q

/-- The reduction of `x` modulo `q` stays inside a word. -/
def CentreFits (x q : Int) : Prop :=
  (q ≠ 0 ∧ InI64 (x.tdiv q)) ∧ InI64 (q - 1) ∧ InI64 ((q - 1).tdiv 2) ∧
    if (q - 1).tdiv 2 < x.tmod q then InI64 (x.tmod q - q)
    else InI64 (-(q - 1).tdiv 2) ∧ if x.tmod q < -(q - 1).tdiv 2 then InI64 (x.tmod q + q) else True

theorem centreReduce_exact (x q : Int) :
    Exact (centreReduce x q) (CentreFits x q) (centreZ x q) := by
  have hhalf : Exact (divI64 (q - 1) 2) (InI64 ((q - 1).tdiv 2)) ((q - 1).tdiv 2) :=
    (exact_divI64 (q - 1) 2).congr (and_iff_right (by decide)) fun _ => rfl
  exact (exact_remI64 x q).bind fun _ => (exact_i64 (q - 1)).bind fun _ => hhalf.bind fun _ =>
    Exact.ite (fun _ => exact_i64 _) fun _ =>
      (exact_i64 _).bind fun _ => Exact.ite (fun _ => exact_i64 _) fun _ => Exact.of_some _

/-- **A positive modulus reduces every word.** -/
theorem centreFits_of_pos {x q : Int} (hq : 0 < q) (hqWord : InI64 q) (hx : InI64 x) :
    CentreFits x q := by
  have hlo : -q < x.tmod q := Int.lt_tmod_of_pos x hq
  have hhi : x.tmod q < q := Int.tmod_lt_of_pos x hq
  have hhalf : (q - 1).tdiv 2 = (q - 1) / 2 := Int.tdiv_eq_ediv_of_nonneg (by omega)
  have hdiv : InI64 (x.tdiv q) := by
    have hrem := remI64_of_pos hq hx
    exact ((exact_remI64 x q).eq_some_iff.mp hrem).1.2
  obtain ⟨-, hword⟩ := hqWord
  refine ⟨⟨hq.ne', hdiv⟩, ⟨by omega, by omega⟩, ?_, ?_⟩
  · rw [hhalf]
    exact ⟨by omega, by omega⟩
  · rw [hhalf]
    split_ifs with hlarge hsmall
    · exact ⟨by omega, by omega⟩
    · exact ⟨⟨by omega, by omega⟩, ⟨by omega, by omega⟩⟩
    · exact ⟨⟨by omega, by omega⟩, trivial⟩

namespace Poly

/-! ## Elementwise operations -/

def centredZ (p : Poly) (q : Int) : Poly := ⟨p.coeffs.map fun c => centreZ c q⟩

def CentredFits (p : Poly) (q : Int) : Prop := ∀ c ∈ p.coeffs, CentreFits c q

theorem centred_exact (p : Poly) (q : Int) :
    Exact (p.centred q) (p.CentredFits q) (p.centredZ q) :=
  (Exact.mapM (fun c => centreReduce_exact c q) p.coeffs).map Poly.mk

def addZ (p r : Poly) : Poly := ⟨(p.coeffs.zip r.coeffs).map fun ab => ab.1 + ab.2⟩

/-- Every sum of neighbours stays inside a word. -/
def AddFits (p r : Poly) : Prop := ∀ ab ∈ p.coeffs.zip r.coeffs, InI64 (ab.1 + ab.2)

theorem add_exact (p r : Poly) : Exact (p.add r) (p.AddFits r) (p.addZ r) :=
  (Exact.mapM (fun _ => exact_i64 _) (p.coeffs.zip r.coeffs)).map Poly.mk

def subZ (p r : Poly) : Poly := ⟨(p.coeffs.zip r.coeffs).map fun ab => ab.1 - ab.2⟩

/-- Every difference of neighbours stays inside a word. -/
def SubFits (p r : Poly) : Prop := ∀ ab ∈ p.coeffs.zip r.coeffs, InI64 (ab.1 - ab.2)

theorem sub_exact (p r : Poly) : Exact (p.sub r) (p.SubFits r) (p.subZ r) :=
  (Exact.mapM (fun _ => exact_i64 _) (p.coeffs.zip r.coeffs)).map Poly.mk

def scaleZ (p : Poly) (k : Int) : Poly := ⟨p.coeffs.map fun c => c * k⟩

def ScaleFits (p : Poly) (k : Int) : Prop := ∀ c ∈ p.coeffs, InI64 (c * k)

theorem scale_exact (p : Poly) (k : Int) : Exact (p.scale k) (p.ScaleFits k) (p.scaleZ k) :=
  (Exact.mapM (fun _ => exact_i64 _) p.coeffs).map Poly.mk

def infNormZ (p : Poly) : Int := p.coeffs.foldl (fun m c => max m |c|) 0

/-- No coefficient is the least word, which has no absolute value. -/
def NormFits (p : Poly) : Prop := ∀ c ∈ p.coeffs, InI64 |c|

theorem infNorm_exact (p : Poly) : Exact p.infNorm p.NormFits p.infNormZ :=
  (Exact.foldlM (fun m c => (exact_i64 |c|).map fun a => max m a) p.coeffs 0).congr
    (foldFits_const p.coeffs 0) fun _ => rfl

/-! ## Encoding -/

def residueZ (q c : Int) : Int := if c < 0 then c + q else c

def toBytesZ (p : Poly) (q : Int) : Bytes := (p.coeffs.map fun c => leU16 (residueZ q c)).flatten

/-- The modulus can be added to every negative coefficient. -/
def Encodable (p : Poly) (q : Int) : Prop := ∀ c ∈ p.coeffs, c < 0 → InI64 (c + q)

theorem residue_exact (q c : Int) : Exact (residue q c) (c < 0 → InI64 (c + q)) (residueZ q c) := by
  refine (Exact.ite (fun _ => exact_i64 (c + q)) fun _ => Exact.of_some c).congr ?_ fun _ => rfl
  split_ifs with h
  · exact ⟨fun hfit _ => hfit, fun hfit => hfit h⟩
  · exact ⟨fun _ hneg => absurd hneg h, fun _ => trivial⟩

theorem toBytes_exact (p : Poly) (q : Int) :
    Exact (p.toBytes q) (p.Encodable q) (p.toBytesZ q) :=
  (Exact.mapM (fun c => (residue_exact q c).map leU16) p.coeffs).map List.flatten

/-! ## Products -/

def accumulateZ (n : Nat) (acc : List Int) (k : Nat) (prod : Int) : List Int :=
  if k < n then acc.set k (acc.getD k 0 + prod) else acc.set (k - n) (acc.getD (k - n) 0 - prod)

/-- The cell exists and its new value stays inside a word. -/
def AccumulateFits (n : Nat) (acc : List Int) (k : Nat) (prod : Int) : Prop :=
  if k < n then k < acc.length ∧ InI64 (acc.getD k 0 + prod)
  else k - n < acc.length ∧ InI64 (acc.getD (k - n) 0 - prod)

theorem accumulate_exact (n : Nat) (acc : List Int) (k : Nat) (prod : Int) :
    Exact (accumulate n acc k prod) (AccumulateFits n acc k prod) (accumulateZ n acc k prod) :=
  Exact.ite (fun _ => (exact_getElem? acc k 0).bind fun _ => (exact_i64 _).map (acc.set k))
    fun _ => (exact_getElem? acc (k - n) 0).bind fun _ => (exact_i64 _).map (acc.set (k - n))

/-- One product of a row, into its cell. -/
def RowTermFits (n : Nat) (aᵢ : Int) (other : List Int) (i : Nat) (acc : List Int) (j : Nat) :
    Prop :=
  j < other.length ∧ InI64 (aᵢ * other.getD j 0) ∧
    AccumulateFits n acc (i + j) (aᵢ * other.getD j 0)

def rowTermZ (n : Nat) (aᵢ : Int) (other : List Int) (i : Nat) (acc : List Int) (j : Nat) :
    List Int :=
  accumulateZ n acc (i + j) (aᵢ * other.getD j 0)

theorem mulRow_exact (n : Nat) (aᵢ : Int) (other : List Int) (i : Nat) (acc : List Int) :
    Exact (mulRow n aᵢ other i acc)
      (FoldFits (RowTermFits n aᵢ other i) (rowTermZ n aᵢ other i) acc (List.range n))
      ((List.range n).foldl (rowTermZ n aᵢ other i) acc) :=
  Exact.foldlM (fun acc j => (exact_getElem? other j 0).bind fun _ => (exact_i64 _).bind fun _ =>
    accumulate_exact n acc (i + j) _) (List.range n) acc

/-- A row of the product; a zero coefficient skips it. -/
def RowFits (p other : Poly) (acc : List Int) (i : Nat) : Prop :=
  i < p.coeffs.length ∧ (p.coeffs.getD i 0 ≠ 0 →
    FoldFits (RowTermFits p.coeffs.length (p.coeffs.getD i 0) other.coeffs i)
      (rowTermZ p.coeffs.length (p.coeffs.getD i 0) other.coeffs i) acc
      (List.range p.coeffs.length))

def rowZ (p other : Poly) (acc : List Int) (i : Nat) : List Int :=
  if p.coeffs.getD i 0 = 0 then acc
  else (List.range p.coeffs.length).foldl
    (rowTermZ p.coeffs.length (p.coeffs.getD i 0) other.coeffs i) acc

def productZ (p other : Poly) : Poly :=
  ⟨(List.range p.coeffs.length).foldl (rowZ p other) (List.replicate p.coeffs.length 0)⟩

/-- The product of two vectors, over the integers and then centred. -/
def mulZ (p other : Poly) (q : Int) : Poly := (p.productZ other).centredZ q

/-- Every product and every partial sum stays inside a word, and every coefficient asked for
exists. -/
def MulFits (p other : Poly) (q : Int) : Prop :=
  FoldFits (RowFits p other) (rowZ p other) (List.replicate p.coeffs.length 0)
    (List.range p.coeffs.length) ∧ (p.productZ other).CentredFits q

theorem row_exact (p other : Poly) (acc : List Int) (i : Nat) :
    Exact (do
        let aᵢ ← p.coeffs[i]?
        if aᵢ = 0 then some acc else mulRow p.coeffs.length aᵢ other.coeffs i acc)
      (RowFits p other acc i) (rowZ p other acc i) := by
  refine (exact_getElem? p.coeffs i 0).bind fun _ => ?_
  refine (Exact.ite (fun _ => Exact.of_some acc) fun _ => mulRow_exact _ _ _ _ _).congr ?_
    fun _ => rfl
  split_ifs with h
  · exact ⟨fun _ hne => absurd h hne, fun _ => trivial⟩
  · exact ⟨fun hfit _ => hfit, fun hfit => hfit h⟩

theorem mul_exact (p other : Poly) (q : Int) :
    Exact (p.mul other q) (p.MulFits other q) (p.mulZ other q) :=
  (Exact.foldlM (row_exact p other) (List.range p.coeffs.length) _).bind fun _ =>
    centred_exact (p.productZ other) q

/-- One coefficient times a term of the challenge. -/
def SparseTermFits (p : Poly) (term : Nat × Int) (acc : List Int) (i : Nat) : Prop :=
  i < p.coeffs.length ∧ InI64 (p.coeffs.getD i 0 * term.2) ∧
    AccumulateFits p.coeffs.length acc (i + term.1) (p.coeffs.getD i 0 * term.2)

def sparseTermZ (p : Poly) (term : Nat × Int) (acc : List Int) (i : Nat) : List Int :=
  accumulateZ p.coeffs.length acc (i + term.1) (p.coeffs.getD i 0 * term.2)

def shiftZ (p : Poly) (acc : List Int) (term : Nat × Int) : List Int :=
  (List.range p.coeffs.length).foldl (sparseTermZ p term) acc

def sparseProductZ (p : Poly) (t : List (Nat × Int)) : Poly :=
  ⟨t.foldl (shiftZ p) (List.replicate p.coeffs.length 0)⟩

def mulSparseZ (p : Poly) (t : List (Nat × Int)) (q : Int) : Poly := (p.sparseProductZ t).centredZ q

/-- The same for the product with a challenge. -/
def MulSparseFits (p : Poly) (t : List (Nat × Int)) (q : Int) : Prop :=
  FoldFits (fun acc term => FoldFits (SparseTermFits p term) (sparseTermZ p term) acc
      (List.range p.coeffs.length)) (shiftZ p) (List.replicate p.coeffs.length 0) t ∧
    (p.sparseProductZ t).CentredFits q

theorem mulSparse_exact (p : Poly) (t : List (Nat × Int)) (q : Int) :
    Exact (p.mulSparse t q) (p.MulSparseFits t q) (p.mulSparseZ t q) :=
  (Exact.foldlM (fun acc term => Exact.foldlM (fun acc i =>
      (exact_getElem? p.coeffs i 0).bind fun _ => (exact_i64 _).bind fun _ =>
        accumulate_exact _ acc (i + term.1) _) (List.range p.coeffs.length) acc) t _).bind fun _ =>
    centred_exact (p.sparseProductZ t) q

/-! ## The two sides of an equation -/

/-- `key · z + e`, centred. -/
def answerZ (key z e : Poly) (q : Int) : Poly := ((key.mulZ z q).addZ e).centredZ q

def AnswerFits (key z e : Poly) (q : Int) : Prop :=
  key.MulFits z q ∧ (key.mulZ z q).AddFits e ∧ ((key.mulZ z q).addZ e).CentredFits q

/-- `t + challenge · half`, centred. -/
def claimZ (t half : Poly) (challenge : List (Nat × Int)) (q : Int) : Poly :=
  (t.addZ (half.mulSparseZ challenge q)).centredZ q

def ClaimFits (t half : Poly) (challenge : List (Nat × Int)) (q : Int) : Prop :=
  half.MulSparseFits challenge q ∧ t.AddFits (half.mulSparseZ challenge q) ∧
    (t.addZ (half.mulSparseZ challenge q)).CentredFits q

end Poly

end DiscCleaner.Fhe
