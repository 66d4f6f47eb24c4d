import Mathlib.Algebra.CharP.Two
import Mathlib.Algebra.BigOperators.Intervals
import Mathlib.Algebra.BigOperators.Ring.Finset
import Mathlib.Algebra.BigOperators.Ring.List
import Mathlib.Data.List.GetD
import Mathlib.Tactic.Ring

/-!
# Systematic Reed–Solomon encoding in characteristic two

A word is a list of coefficients, the highest first; a generator is a list of coefficients, the
constant first. The parity is what is left of the word with zeros behind it when every coefficient
in turn is eliminated against the generator, in place.

* **`evalHigh_encode`** — the word and its parity vanish wherever the generator does.
* **`evalLow_generator`** — a generator vanishes at its roots.
-/

namespace ReedSolomon

variable {R : Type*} [CommRing R]

/-! ## Values -/

/-- The value of a polynomial, the highest coefficient first. -/
def evalHigh (x : R) (word : List R) : R := word.foldl (fun acc c => acc * x + c) 0

/-- The value of a polynomial, the constant first. -/
def evalLow (x : R) (poly : List R) : R := poly.foldr (fun c acc => c + x * acc) 0

theorem foldl_horner (x : R) (word : List R) (a : R) :
    word.foldl (fun acc c => acc * x + c) a = a * x ^ word.length + evalHigh x word := by
  induction word generalizing a with
  | nil => simp [evalHigh]
  | cons c word ih =>
    rw [evalHigh, List.foldl_cons, List.foldl_cons, ih, ih, List.length_cons]
    ring

@[simp] theorem evalHigh_nil (x : R) : evalHigh x [] = 0 := rfl

theorem evalHigh_cons (x c : R) (word : List R) :
    evalHigh x (c :: word) = c * x ^ word.length + evalHigh x word := by
  rw [evalHigh, List.foldl_cons, foldl_horner, zero_mul, zero_add]

theorem evalHigh_append (x : R) (a b : List R) :
    evalHigh x (a ++ b) = evalHigh x a * x ^ b.length + evalHigh x b := by
  rw [evalHigh, List.foldl_append, foldl_horner]
  rfl

/-- **The value is the sum over the coefficients**, the last one being the constant. -/
theorem evalHigh_eq_sum (x : R) (word : List R) :
    evalHigh x word
      = ∑ i ∈ Finset.range word.length, word.getD i 0 * x ^ (word.length - 1 - i) := by
  induction word with
  | nil => rfl
  | cons c word ih =>
    rw [evalHigh_cons, ih, List.length_cons, Finset.sum_range_succ', add_comm]
    refine congrArg₂ (· + ·) (Finset.sum_congr rfl fun i _ => ?_) ?_
    · rw [List.getD_cons_succ, show word.length + 1 - 1 - (i + 1) = word.length - 1 - i by omega]
    · rw [List.getD_cons_zero, Nat.add_sub_cancel, Nat.sub_zero]

theorem evalLow_eq_sum (x : R) (poly : List R) :
    evalLow x poly = ∑ i ∈ Finset.range poly.length, poly.getD i 0 * x ^ i := by
  induction poly with
  | nil => rfl
  | cons c poly ih =>
    rw [List.length_cons, Finset.sum_range_succ', List.getD_cons_zero, pow_zero, mul_one, add_comm]
    show c + x * evalLow x poly = _
    rw [ih, Finset.mul_sum]
    refine congrArg (c + ·) (Finset.sum_congr rfl fun i _ => ?_)
    rw [List.getD_cons_succ]
    ring

theorem evalHigh_replicate_zero (x : R) (n : Nat) : evalHigh x (List.replicate n 0) = 0 := by
  induction n with
  | zero => rfl
  | succ n ih => rw [List.replicate_succ, evalHigh_cons, ih, zero_mul, zero_add]

/-- Adding to one coefficient. -/
theorem evalHigh_modify (x c : R) {word : List R} {j : Nat} (hj : j < word.length) :
    evalHigh x (word.modify j (· + c))
      = evalHigh x word + c * x ^ (word.length - 1 - j) := by
  induction word generalizing j with
  | nil => exact absurd hj (Nat.not_lt_zero j)
  | cons a word ih =>
    cases j with
    | zero =>
      rw [List.modify_zero_cons, evalHigh_cons, evalHigh_cons]
      show (a + c) * _ + _ = _ + c * x ^ word.length
      ring
    | succ j =>
      rw [List.modify_succ_cons, evalHigh_cons, evalHigh_cons, List.length_modify,
        ih (Nat.lt_of_succ_lt_succ hj), List.length_cons,
        show word.length + 1 - 1 - (j + 1) = word.length - 1 - j by omega, add_assoc]

/-! ## The generator -/

/-- A polynomial times `x + a`. -/
def times (poly : List R) (a : R) : List R :=
  List.zipWith (· + ·) (poly.map (· * a) ++ [0]) (0 :: poly)

theorem evalLow_zipWith_add (x : R) {p q : List R} (h : p.length = q.length) :
    evalLow x (List.zipWith (· + ·) p q) = evalLow x p + evalLow x q := by
  induction p generalizing q with
  | nil =>
    cases q with
    | nil => exact (add_zero 0).symm
    | cons d q => cases h
  | cons c p ih =>
    cases q with
    | nil => cases h
    | cons d q =>
      show c + d + x * evalLow x _ = (c + x * evalLow x p) + (d + x * evalLow x q)
      rw [ih (Nat.succ.inj h)]
      ring

theorem evalLow_map_mul (x a : R) (p : List R) : evalLow x (p.map (· * a)) = evalLow x p * a := by
  induction p with
  | nil => exact (zero_mul a).symm
  | cons c p ih =>
    show c * a + x * evalLow x (p.map _) = (c + x * evalLow x p) * a
    rw [ih]
    ring

theorem evalLow_append_zero (x : R) (p : List R) : evalLow x (p ++ [0]) = evalLow x p := by
  induction p with
  | nil => simp [evalLow]
  | cons c p ih =>
    show c + x * evalLow x (p ++ [0]) = c + x * evalLow x p
    rw [ih]

theorem evalLow_times (x a : R) (poly : List R) :
    evalLow x (times poly a) = evalLow x poly * (x + a) := by
  rw [times, evalLow_zipWith_add x (by simp), evalLow_append_zero, evalLow_map_mul]
  show _ + (0 + x * evalLow x poly) = _
  ring

/-- The product of the factors `x + a`. -/
def generator (roots : List R) : List R := roots.foldl times [1]

theorem evalLow_foldl_times (x : R) (roots poly : List R) :
    evalLow x (roots.foldl times poly) = evalLow x poly * (roots.map (x + ·)).prod := by
  induction roots generalizing poly with
  | nil => exact (mul_one _).symm
  | cons a roots ih =>
    rw [List.foldl_cons, ih, evalLow_times, List.map_cons, List.prod_cons, mul_assoc]

/-- A product with `x + a` keeps the highest coefficient. -/
theorem times_monic (body : List R) (a : R) :
    ∃ body', times (body ++ [1]) a = body' ++ [1] ∧ body'.length = body.length + 1 := by
  refine ⟨List.zipWith (· + ·) ((body ++ [1]).map (· * a)) (0 :: body), ?_, by simp⟩
  rw [times, ← List.cons_append, List.zipWith_append (by simp)]
  simp

theorem foldl_times_monic (roots body : List R) :
    ∃ body', roots.foldl times (body ++ [1]) = body' ++ [1] ∧
      body'.length = body.length + roots.length := by
  induction roots generalizing body with
  | nil => exact ⟨body, rfl, rfl⟩
  | cons a roots ih =>
    obtain ⟨body₁, htimes, hlen₁⟩ := times_monic body a
    obtain ⟨body₂, hfold, hlen₂⟩ := ih body₁
    refine ⟨body₂, by rw [List.foldl_cons, htimes, hfold], ?_⟩
    rw [hlen₂, hlen₁, List.length_cons]
    omega

/-- The generator is monic, of the degree of the number of its roots. -/
theorem generator_monic (roots : List R) :
    ∃ body, generator roots = body ++ [1] ∧ body.length = roots.length := by
  obtain ⟨body, hbody, hlen⟩ := foldl_times_monic roots []
  exact ⟨body, hbody, hlen.trans (Nat.zero_add _)⟩

/-- **A generator vanishes at its roots.** -/
theorem evalLow_generator [CharP R 2] {roots : List R} {x : R} (h : x ∈ roots) :
    evalLow x (generator roots) = 0 := by
  have hzero : (0 : R) ∈ roots.map (x + ·) := List.mem_map.mpr ⟨x, h, CharTwo.add_self_eq_zero x⟩
  obtain ⟨before, after, hsplit⟩ := List.append_of_mem hzero
  rw [generator, evalLow_foldl_times, hsplit, List.prod_append, List.prod_cons, zero_mul, mul_zero,
    mul_zero]

/-! ## The encoder -/

/-- Numbers are added to the coefficients from `base` on. -/
def addAll (c : Nat → R) (m base : Nat) (word : List R) : List R :=
  (List.range m).foldl (fun word j => word.modify (base + j) (· + c j)) word

/-- The coefficient at `i` is eliminated: the generator without its highest coefficient is added
behind it, the highest first. -/
def eliminate (gen : List R) (m : Nat) (out : List R) (i : Nat) : List R :=
  addAll (fun j => out.getD i 0 * gen.getD (m - 1 - j) 0) m (i + 1) out

def encode (gen : List R) (m : Nat) (data : List R) : List R :=
  ((List.range data.length).foldl (eliminate gen m) (data ++ List.replicate m 0)).drop data.length

theorem addAll_succ (c : Nat → R) (m base : Nat) (word : List R) :
    addAll c (m + 1) base word = (addAll c m base word).modify (base + m) (· + c m) := by
  rw [addAll, List.range_succ, List.foldl_append]
  rfl

@[simp] theorem length_addAll (c : Nat → R) (m base : Nat) (word : List R) :
    (addAll c m base word).length = word.length := by
  induction m with
  | zero => rfl
  | succ m ih => rw [addAll_succ, List.length_modify, ih]

theorem drop_addAll (c : Nat → R) (m base : Nat) (word : List R) :
    (addAll c m base word).drop base = addAll c m 0 (word.drop base) := by
  induction m with
  | zero => rfl
  | succ m ih =>
    rw [addAll_succ, addAll_succ, List.drop_modify_of_ge _ _ _ _ (Nat.le_add_right _ _), ih,
      Nat.add_sub_cancel_left, Nat.zero_add]

theorem evalHigh_addAll (x : R) (c : Nat → R) {word : List R} {m : Nat} (hm : m ≤ word.length) :
    evalHigh x (addAll c m 0 word)
      = evalHigh x word + ∑ j ∈ Finset.range m, c j * x ^ (word.length - 1 - j) := by
  induction m with
  | zero => exact (add_zero _).symm
  | succ m ih =>
    rw [addAll_succ, Nat.zero_add, evalHigh_modify x (c m) (by rwa [length_addAll]), length_addAll,
      ih (Nat.le_of_succ_le hm), Finset.sum_range_succ, add_assoc]

/-- What is added for a factor, at a place where the generator vanishes. -/
theorem sum_taps [CharP R 2] (x factor : R) {body : List R} {L : Nat} (hL : body.length ≤ L)
    (hroot : evalLow x (body ++ [1]) = 0) :
    ∑ j ∈ Finset.range body.length,
        factor * (body ++ [1]).getD (body.length - 1 - j) 0 * x ^ (L - 1 - j)
      = factor * x ^ L := by
  have hbody :
      ∑ t ∈ Finset.range body.length, (body ++ [1]).getD t 0 * x ^ t = x ^ body.length := by
    rw [evalLow_eq_sum, List.length_append, List.length_singleton, Finset.sum_range_succ,
      List.getD_append_right _ _ _ _ (Nat.le_refl _), Nat.sub_self, List.getD_cons_zero, one_mul]
      at hroot
    rw [← CharTwo.neg_eq (x ^ body.length)]
    exact eq_neg_of_add_eq_zero_left hroot
  -- the taps come from the highest down
  rw [← Finset.sum_range_reflect] at hbody
  have hterm : ∀ j ∈ Finset.range body.length,
      factor * (body ++ [1]).getD (body.length - 1 - j) 0 * x ^ (L - 1 - j)
        = factor * x ^ (L - body.length)
          * ((body ++ [1]).getD (body.length - 1 - j) 0 * x ^ (body.length - 1 - j)) := by
    intro j hj
    rw [Finset.mem_range] at hj
    rw [show L - 1 - j = (L - body.length) + (body.length - 1 - j) by omega, pow_add]
    ring
  rw [Finset.sum_congr rfl hterm, ← Finset.mul_sum, hbody, mul_assoc, ← pow_add,
    Nat.sub_add_cancel hL]

/-- **Step lemma**: where the generator vanishes, what is left of the word keeps its value. -/
theorem evalHigh_drop_eliminate [CharP R 2] (x : R) {body out : List R} {i : Nat}
    (hi : i + 1 + body.length ≤ out.length) (hroot : evalLow x (body ++ [1]) = 0) :
    evalHigh x ((eliminate (body ++ [1]) body.length out i).drop (i + 1))
      = evalHigh x (out.drop i) := by
  have hlt : i < out.length := by omega
  have hlen : body.length ≤ (out.drop (i + 1)).length := by
    rw [List.length_drop]
    omega
  rw [eliminate, drop_addAll, evalHigh_addAll x _ hlen, sum_taps x _ hlen hroot,
    List.drop_eq_getElem_cons hlt, evalHigh_cons, List.getD_eq_getElem _ _ hlt, add_comm]

theorem length_foldl_eliminate (gen : List R) (m : Nat) (is : List Nat) (out : List R) :
    (is.foldl (eliminate gen m) out).length = out.length := by
  induction is generalizing out with
  | nil => rfl
  | cons i is ih => rw [List.foldl_cons, ih, eliminate, length_addAll]

/-- **Run lemma**. -/
theorem evalHigh_drop_foldl [CharP R 2] (x : R) {body out : List R} {k : Nat}
    (hk : k + body.length ≤ out.length) (hroot : evalLow x (body ++ [1]) = 0) :
    evalHigh x (((List.range k).foldl (eliminate (body ++ [1]) body.length) out).drop k)
      = evalHigh x out := by
  induction k with
  | zero => rfl
  | succ k ih =>
    rw [List.range_succ, List.foldl_append, List.foldl_cons, List.foldl_nil,
      evalHigh_drop_eliminate x (by rw [length_foldl_eliminate]; omega) hroot, ih (by omega)]

theorem length_encode (gen : List R) (m : Nat) (data : List R) :
    (encode gen m data).length = m := by
  rw [encode, List.length_drop, length_foldl_eliminate, List.length_append, List.length_replicate,
    Nat.add_sub_cancel_left]

/-- **A word and its parity vanish at the roots of the generator.** -/
theorem evalHigh_encode [CharP R 2] {roots : List R} {x : R} (hx : x ∈ roots) (data : List R) :
    evalHigh x (data ++ encode (generator roots) roots.length data) = 0 := by
  obtain ⟨body, hbody, hlen⟩ := generator_monic roots
  have hroot := evalLow_generator hx
  rw [hbody] at hroot
  have hrest : evalHigh x (encode (generator roots) roots.length data)
      = evalHigh x data * x ^ roots.length := by
    rw [encode, hbody, ← hlen, evalHigh_drop_foldl x (by simp) hroot, evalHigh_append,
      evalHigh_replicate_zero, add_zero, List.length_replicate]
  rw [evalHigh_append, length_encode, hrest]
  exact CharTwo.add_self_eq_zero _

end ReedSolomon
