import DiscCleaner.Photon.Qr
import DiscCleaner.Lib.BinaryField
import DiscCleaner.Lib.ReedSolomon
import Mathlib.Data.Nat.Prime.Basic
import Mathlib.Tactic.NormNum.Prime

/-!
# DiscCleaner — the parity of the QR blocks (`qr.rs`)

The bytes are the elements of the field with 256 elements, and the tables list the powers of its
root. The root has order 255, so every byte but zero has a logarithm; the product by logarithms is
the product of the field, and the in-place division is that of the polynomials over it.

* **`orderOf_root`** — the root generates the field.
* **`gf_gfMul`** — the product by logarithms is the product of the field.
* **`rsEncode_vanishes`** — a block and its parity vanish at the roots of the generator.
-/

namespace DiscCleaner.Qr

open ByteLib BinaryField ReedSolomon

/-- Bytes as polynomials modulo `x^8 + x^4 + x^3 + x^2 + 1`. -/
abbrev Gf256 : Type := Quotient 0x11D

/-- The element of a byte. -/
noncomputable def gf (b : UInt8) : Gf256 := element 0x11D b.toNat

/-- The generator `α = 2`. -/
noncomputable abbrev alpha : Gf256 := root 0x11D

/-! ## The field -/

theorem element_injective {a b : Nat} (ha : a < 256) (hb : b < 256)
    (h : element 0x11D a = element 0x11D b) : a = b :=
  element_injOn (k := 8) (by decide) (by decide) ha hb h

theorem gf_injective : Function.Injective gf := fun a b h =>
  UInt8.toNat_inj.mp (element_injective a.toNat_lt b.toNat_lt h)

theorem gf_surjective : Function.Surjective gf := by
  intro x
  obtain ⟨n, hn, rfl⟩ := exists_element_eq (k := 8) (by decide) (by decide) x
  refine ⟨UInt8.ofNat n, ?_⟩
  rw [gf, UInt8.toNat_ofNat_of_lt' hn]

theorem gf_zero : gf 0 = 0 := element_zero _

theorem gf_one : gf 1 = 1 := element_one _

theorem gf_xor (a b : UInt8) : gf (a ^^^ b) = gf a + gf b := by
  rw [gf, UInt8.toNat_xor, element_xor, gf, gf]

instance : Nontrivial Gf256 :=
  ⟨0, 1, fun h => by
    rw [← gf_zero, ← gf_one] at h
    exact absurd (gf_injective h) (by decide)⟩

instance : CharP Gf256 2 := by
  refine CharTwo.of_one_ne_zero_of_two_eq_zero one_ne_zero ?_
  rw [← one_add_one_eq_two]
  exact add_self _ 1

/-! ## The powers of the generator -/

theorem gfStep_lt : ∀ x < 256, gfStep x < 256 := by decide +kernel

theorem iterate_lt (i : Nat) : gfStep^[i] 1 < 256 := by
  induction i with
  | zero => decide
  | succ i ih =>
    rw [Function.iterate_succ_apply']
    exact gfStep_lt _ ih

theorem element_gfStep (x : Nat) : element 0x11D (gfStep x) = alpha * element 0x11D x := by
  unfold gfStep
  dsimp only
  split
  · exact element_step _ x
  · exact element_shiftLeft_one _ x

theorem element_iterate (i : Nat) : element 0x11D (gfStep^[i] 1) = alpha ^ i := by
  induction i with
  | zero => exact element_one _
  | succ i ih => rw [Function.iterate_succ_apply', element_gfStep, ih, pow_succ']

theorem alpha_pow_eq_one_iff (i : Nat) : alpha ^ i = 1 ↔ gfStep^[i] 1 = 1 := by
  rw [← element_iterate, ← element_one]
  exact ⟨fun h => element_injective (iterate_lt i) (by decide) h, fun h => by rw [h]⟩

/-- **The generator has order 255**: its powers by the prime divisors are not one. -/
theorem orderOf_alpha : orderOf alpha = 255 := by
  refine orderOf_eq_of_pow_and_pow_div_prime (by decide) ?_ fun p hp hdvd => ?_
  · rw [alpha_pow_eq_one_iff]
    decide +kernel
  · have hcases : p = 3 ∨ p = 5 ∨ p = 17 := by
      rw [show 255 = 3 * (5 * 17) from rfl, hp.dvd_mul, hp.dvd_mul] at hdvd
      refine hdvd.imp ?_ (Or.imp ?_ ?_)
      · exact fun h => (Nat.prime_dvd_prime_iff_eq hp (by norm_num)).mp h
      · exact fun h => (Nat.prime_dvd_prime_iff_eq hp (by norm_num)).mp h
      · exact fun h => (Nat.prime_dvd_prime_iff_eq hp (by norm_num)).mp h
    rw [Ne, alpha_pow_eq_one_iff]
    rcases hcases with rfl | rfl | rfl <;> decide +kernel

theorem alpha_pow_255 : alpha ^ 255 = 1 := by
  rw [← orderOf_alpha]
  exact pow_orderOf_eq_one alpha

theorem iterate_injOn {i j : Nat} (hi : i < 255) (hj : j < 255)
    (h : gfStep^[i] 1 = gfStep^[j] 1) : i = j := by
  refine pow_injOn_Iio_orderOf (x := alpha) ?_ ?_ ?_
  · rwa [orderOf_alpha]
  · rwa [orderOf_alpha]
  · show alpha ^ i = alpha ^ j
    rw [← element_iterate, h, element_iterate]

theorem iterate_ne_zero (i : Nat) : gfStep^[i] 1 ≠ 0 := by
  intro h
  have hzero : alpha ^ i = 0 := by rw [← element_iterate, h, element_zero]
  have hone : alpha ^ (i * 255) = 1 := by rw [Nat.mul_comm, pow_mul, alpha_pow_255, one_pow]
  rw [pow_mul, hzero, zero_pow (by decide)] at hone
  exact zero_ne_one hone

/-- **Every byte but zero is a power of the generator**: there are as many powers as bytes. -/
theorem exists_iterate_eq {n : Nat} (hn : n < 256) (hne : n ≠ 0) : ∃ i < 255, gfStep^[i] 1 = n := by
  have hsub : (Finset.range 255).image (fun i => gfStep^[i] 1) ⊆ Finset.Ico 1 256 := by
    intro x hx
    obtain ⟨i, -, rfl⟩ := Finset.mem_image.mp hx
    exact Finset.mem_Ico.mpr ⟨Nat.one_le_iff_ne_zero.mpr (iterate_ne_zero i), iterate_lt i⟩
  have hcard : ((Finset.range 255).image fun i => gfStep^[i] 1).card = 255 := by
    rw [Finset.card_image_of_injOn, Finset.card_range]
    exact fun i hi j hj h => iterate_injOn (Finset.mem_range.mp hi) (Finset.mem_range.mp hj) h
  have himage := Finset.eq_of_subset_of_card_le hsub (by rw [hcard, Nat.card_Ico])
  have hmem : n ∈ Finset.Ico 1 256 := Finset.mem_Ico.mpr ⟨Nat.one_le_iff_ne_zero.mpr hne, hn⟩
  rw [← himage] at hmem
  obtain ⟨i, hi, rfl⟩ := Finset.mem_image.mp hmem
  exact ⟨i, Finset.mem_range.mp hi, rfl⟩

theorem gf256_isField : IsField Gf256 := by
  refine isField_of_powers (N := 255) (by decide) alpha_pow_255 fun x hx => ?_
  obtain ⟨b, rfl⟩ := gf_surjective x
  have hne : b.toNat ≠ 0 := fun h => hx (by rw [gf, h, element_zero])
  obtain ⟨i, -, hi⟩ := exists_iterate_eq b.toNat_lt hne
  exact ⟨i, by rw [← element_iterate, hi, gf]⟩

/-! ## The tables -/

/-- The byte of a power. -/
def powerByte (i : Nat) : UInt8 := UInt8.ofNat (gfStep^[i] 1)

theorem gf_powerByte (i : Nat) : gf (powerByte i) = alpha ^ i := by
  rw [gf, powerByte, UInt8.toNat_ofNat_of_lt' (iterate_lt i), element_iterate]

theorem foldl_copies (k : Nat) :
    (List.range' 255 k).foldl (fun exp i => exp ++ [exp.getD (i - 255) 0])
        ((List.range 255).map powerByte)
      = (List.range (255 + k)).map fun i => powerByte (i % 255) := by
  induction k with
  | zero =>
    refine List.map_congr_left fun i hi => ?_
    rw [Nat.mod_eq_of_lt (List.mem_range.mp hi)]
  | succ k ih =>
    have hk : k < ((List.range (255 + k)).map fun i => powerByte (i % 255)).length := by
      rw [List.length_map, List.length_range]
      omega
    rw [List.range'_1_concat, List.foldl_append, ih, List.foldl_cons, List.foldl_nil,
      Nat.add_sub_cancel_left, List.getD_eq_getElem _ _ hk, List.getElem_map, List.getElem_range,
      ← Nat.add_assoc, List.range_succ, List.map_append, List.map_singleton, Nat.add_mod_left]

/-- **The table of the powers**, with the copies. -/
theorem gf_gfExp {i : Nat} (hi : i < 512) : gf (gfExp.getD i 0) = alpha ^ i := by
  have hexp : gfExp = (List.range (255 + 257)).map fun i => powerByte (i % 255) := foldl_copies 257
  have hlen : i < ((List.range (255 + 257)).map fun i => powerByte (i % 255)).length := by
    rwa [List.length_map, List.length_range]
  rw [hexp, List.getD_eq_getElem _ _ hlen, List.getElem_map, List.getElem_range, gf_powerByte]
  nth_rewrite 2 [← Nat.mod_add_div i 255]
  rw [pow_add, pow_mul, alpha_pow_255, one_pow, mul_one]

theorem length_foldl_set (n : Nat) (log : Bytes) :
    ((List.range n).foldl (fun log i => log.set (gfStep^[i] 1) (UInt8.ofNat i)) log).length
      = log.length := by
  induction n with
  | zero => rfl
  | succ n ih =>
    rw [List.range_succ, List.foldl_append, List.foldl_cons, List.foldl_nil, List.length_set, ih]

/-- The entries that the first turns write. -/
theorem getD_foldl_set {n i : Nat} (hn : n ≤ 255) (hi : i < n) :
    ((List.range n).foldl (fun log i => log.set (gfStep^[i] 1) (UInt8.ofNat i))
      (List.replicate 256 (0 : UInt8))).getD (gfStep^[i] 1) 0 = UInt8.ofNat i := by
  induction n with
  | zero => exact absurd hi (Nat.not_lt_zero i)
  | succ n ih =>
    rw [List.range_succ, List.foldl_append, List.foldl_cons, List.foldl_nil,
      List.getD_eq_getElem?_getD]
    rcases Nat.lt_succ_iff_lt_or_eq.mp hi with hlt | rfl
    · -- a later turn writes to another entry
      have hne : gfStep^[n] 1 ≠ gfStep^[i] 1 := fun h => by
        have := iterate_injOn (by omega) (by omega) h
        omega
      rw [List.getElem?_set_ne hne, ← List.getD_eq_getElem?_getD]
      exact ih (by omega) hlt
    · rw [List.getElem?_set_self (by
        rw [length_foldl_set, List.length_replicate]
        exact iterate_lt i), Option.getD_some]

/-- **The table of the logarithms.** -/
theorem exists_log {a : UInt8} (ha : a ≠ 0) :
    ∃ i < 255, (gfLog.getD a.toNat 0).toNat = i ∧ gf a = alpha ^ i := by
  have hne : a.toNat ≠ 0 := fun h => ha (UInt8.toNat_inj.mp h)
  obtain ⟨i, hi, hpower⟩ := exists_iterate_eq a.toNat_lt hne
  refine ⟨i, hi, ?_, ?_⟩
  · rw [← hpower, gfLog, getD_foldl_set (Nat.le_refl 255) hi, UInt8.toNat_ofNat_of_lt' (by
      show i < 256
      omega)]
  · rw [gf, ← hpower, element_iterate]

/-- **The product by logarithms is the product of the field.** -/
theorem gf_gfMul (a b : UInt8) : gf (gfMul a b) = gf a * gf b := by
  unfold gfMul
  split
  · next hzero =>
    rcases hzero with rfl | rfl
    · rw [gf_zero, zero_mul]
    · rw [gf_zero, mul_zero]
  · next hne =>
    rw [not_or] at hne
    obtain ⟨i, hi, hlogA, hA⟩ := exists_log hne.1
    obtain ⟨j, hj, hlogB, hB⟩ := exists_log hne.2
    rw [hlogA, hlogB, gf_gfExp (by omega), hA, hB, pow_add]

/-! ## The parity -/

theorem map_rsTimes (poly : Bytes) {i : Nat} (hi : i < 512) :
    (rsTimes poly i).map gf = times (poly.map gf) (alpha ^ i) := by
  have hscale : (poly.map (gfMul · (gfExp.getD i 0))).map gf
      = (poly.map gf).map (· * alpha ^ i) := by
    rw [List.map_map, List.map_map]
    refine List.map_congr_left fun c _ => ?_
    rw [Function.comp_apply, Function.comp_apply, gf_gfMul, gf_gfExp hi]
  have hsum : ∀ l l' : Bytes, (List.zipWith (· ^^^ ·) l l').map gf
      = List.zipWith (· + ·) (l.map gf) (l'.map gf) := fun l l' => by
    rw [List.map_zipWith, List.zipWith_map]
    simp only [gf_xor]
  rw [rsTimes, times, hsum, List.map_append, hscale, List.map_singleton, List.map_cons, gf_zero]

/-- The generator has the first powers of the root as its roots. -/
theorem map_rsGenerator {n : Nat} (hn : n ≤ 512) :
    (rsGenerator n).map gf = generator ((List.range n).map (alpha ^ ·)) := by
  induction n with
  | zero =>
    show [gf 1] = [1]
    rw [gf_one]
  | succ n ih =>
    rw [rsGenerator, List.range_succ, List.foldl_append, List.map_append, generator,
      List.foldl_append]
    show (rsTimes (rsGenerator n) n).map gf = times (generator _) (alpha ^ n)
    rw [map_rsTimes _ (by omega), ih (by omega)]

theorem map_modify {α β : Type} {φ : α → β} {f : α → α} {g : β → β} (h : ∀ a, φ (f a) = g (φ a))
    (l : List α) (i : Nat) : (l.modify i f).map φ = (l.map φ).modify i g := by
  induction l generalizing i with
  | nil => cases i <;> rfl
  | cons a l ih =>
    cases i with
    | zero =>
      show φ (f a) :: l.map φ = g (φ a) :: l.map φ
      rw [h]
    | succ i =>
      rw [List.modify_succ_cons, List.map_cons, ih, List.map_cons, List.modify_succ_cons]

/-- The branches that skip a zero add a zero. -/
theorem rsEliminate_eq (gen : Bytes) (ecLen : Nat) (out : Bytes) (i : Nat) :
    rsEliminate gen ecLen out i
      = (List.range ecLen).foldl
        (fun word jp =>
          word.modify (i + jp + 1) (· ^^^ gfMul (out.getD i 0) (gen.getD (ecLen - 1 - jp) 0)))
        out := by
  have hskip : ∀ (word : Bytes) (j : Nat), word.modify j (· ^^^ 0) = word := fun word j => by
    simp only [UInt8.xor_zero]
    exact List.modify_id j word
  unfold rsEliminate
  dsimp only
  split
  · -- A leading zero: nothing would be added.
    next hzero =>
    rw [hzero]
    have hnothing : ∀ g, gfMul 0 g = 0 := fun g => if_pos (.inl rfl)
    simp only [hnothing, hskip]
    exact (List.foldl_fixed' (fun _ => rfl) _).symm
  · refine congrArg (fun f => List.foldl f out (List.range ecLen)) ?_
    funext word jp
    split
    · rfl
    · next hzero =>
      have hnothing : gfMul (out.getD i 0) 0 = 0 := if_pos (.inr rfl)
      rw [not_not.mp hzero, hnothing, hskip]

theorem map_rsEliminate (gen : Bytes) (ecLen : Nat) (out : Bytes) (i : Nat) :
    (rsEliminate gen ecLen out i).map gf = eliminate (gen.map gf) ecLen (out.map gf) i := by
  have hget : ∀ (l : Bytes) (j : Nat), (l.map gf).getD j 0 = gf (l.getD j 0) := fun l j => by
    rw [← gf_zero, List.getD_map]
  rw [rsEliminate_eq, eliminate, addAll]
  refine (List.foldl_hom (List.map gf) fun word jp => ?_).symm
  rw [hget, hget, Nat.add_right_comm]
  refine (map_modify (fun a => ?_) word _).symm
  rw [gf_xor, gf_gfMul]

theorem map_rsEncode (data : Bytes) {ecLen : Nat} (hec : ecLen ≤ 512) :
    (rsEncode data ecLen).map gf
      = ReedSolomon.encode (generator ((List.range ecLen).map (alpha ^ ·))) ecLen
        (data.map gf) := by
  have hzeros : data.map gf ++ List.replicate ecLen 0
      = (data ++ List.replicate ecLen 0).map gf := by
    rw [List.map_append, List.map_replicate, gf_zero]
  rw [rsEncode, ReedSolomon.encode, List.map_drop, ← map_rsGenerator hec, List.length_map, hzeros]
  refine congrArg (List.drop data.length) (List.foldl_hom (List.map gf) fun word i => ?_).symm
  exact (map_rsEliminate _ ecLen word i).symm

theorem length_rsEncode (data : Bytes) {ecLen : Nat} (hec : ecLen ≤ 512) :
    (rsEncode data ecLen).length = ecLen := by
  rw [← List.length_map gf, map_rsEncode data hec, length_encode]

/-- The value of a block and its parity at a power of the generator. -/
theorem evalHigh_rsEncode (data : Bytes) {ecLen j : Nat} (hec : ecLen ≤ 512) (hj : j < ecLen) :
    evalHigh (alpha ^ j) ((data ++ rsEncode data ecLen).map gf) = 0 := by
  have hroot : alpha ^ j ∈ (List.range ecLen).map (alpha ^ ·) :=
    List.mem_map_of_mem (List.mem_range.mpr hj)
  have hzero := evalHigh_encode hroot (data.map gf)
  rw [List.length_map, List.length_range] at hzero
  rw [List.map_append, map_rsEncode data hec, hzero]

/-- A syndrome as the tables compute it. -/
def syndrome (word : Bytes) (j : Nat) : UInt8 :=
  word.foldl (fun acc c => gfMul acc (gfExp.getD j 0) ^^^ c) 0

theorem gf_syndrome (word : Bytes) {j : Nat} (hj : j < 512) :
    gf (syndrome word j) = evalHigh (alpha ^ j) (word.map gf) := by
  rw [syndrome, evalHigh, List.foldl_map, ← gf_zero]
  refine (List.foldl_hom gf fun acc c => ?_).symm
  rw [gf_xor, gf_gfMul, gf_gfExp hj]

/-- **A block and its parity vanish at the roots of the generator**: the value at each of the first
`ecLen` powers is zero, in the field whose product the tables compute. -/
theorem rsEncode_vanishes :
    (IsField Gf256 ∧ Function.Bijective gf ∧ (∀ a b, gf (a ^^^ b) = gf a + gf b) ∧
      (∀ a b, gf (gfMul a b) = gf a * gf b) ∧ gf 2 = alpha) ∧
    ∀ (data : Bytes) (ecLen : Nat), 1 ≤ ecLen → data.length + ecLen ≤ 255 →
      (rsEncode data ecLen).length = ecLen ∧
      ∀ j < ecLen, syndrome (data ++ rsEncode data ecLen) j = 0 ∧
        ∑ i ∈ Finset.range (data.length + ecLen),
          gf ((data ++ rsEncode data ecLen).getD i 0)
            * (alpha ^ j) ^ (data.length + ecLen - 1 - i) = 0 := by
  refine ⟨⟨gf256_isField, ⟨gf_injective, gf_surjective⟩, gf_xor, gf_gfMul, ?_⟩,
    fun data ecLen _ hlen => ?_⟩
  · -- The shift of one is the product with the root.
    have htwo := element_shiftLeft_one 0x11D 1
    rwa [element_one, mul_one] at htwo
  · have hec : ecLen ≤ 512 := by omega
    refine ⟨length_rsEncode data hec, fun j hj => ?_⟩
    have hzero := evalHigh_rsEncode data hec hj
    -- Horner's fold as the tables take it, and as a sum over the field.
    constructor
    · refine gf_injective ?_
      rw [gf_syndrome _ (by omega), hzero, gf_zero]
    · rw [evalHigh_eq_sum, List.length_map, List.length_append, length_rsEncode data hec] at hzero
      rw [← hzero]
      refine Finset.sum_congr rfl fun i _ => ?_
      rw [← gf_zero, List.getD_map]

theorem rsEncode_vanishes_block :
    syndrome ([0x40, 0xD2, 0x75, 0x47] ++ rsEncode [0x40, 0xD2, 0x75, 0x47] 10) 9 = 0 :=
  ((rsEncode_vanishes.2 [0x40, 0xD2, 0x75, 0x47] 10 (by decide) (by decide)).2 9 (by decide)).1

end DiscCleaner.Qr
