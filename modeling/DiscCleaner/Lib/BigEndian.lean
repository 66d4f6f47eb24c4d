import DiscCleaner.Lib.Bytes
import Mathlib.Tactic.Ring

/-!
# Big-endian words and fields of a byte string

The numbers a wire format spells with the most significant byte first, and the fields of a header:
a slice of a byte string, and the byte string with another field put in.
-/

namespace ByteLib

/-! ## Words -/

/-- The number in `n` bytes, most significant byte first (it wraps at `256 ^ n`). -/
def be : Nat → Nat → Bytes
  | 0, _ => []
  | n + 1, v => UInt8.ofNat (v / 256 ^ n) :: be n v

/-- The number a byte string spells, most significant byte first. -/
def beNat (bs : Bytes) : Nat := bs.foldl (fun acc b => acc * 256 + b.toNat) 0

@[simp] theorem be_length (n v : Nat) : (be n v).length = n := by
  induction n with
  | zero => rfl
  | succ n ih => rw [be, List.length_cons, ih]

theorem beNat_foldl (bs : Bytes) (acc : Nat) :
    bs.foldl (fun acc b => acc * 256 + b.toNat) acc = acc * 256 ^ bs.length + beNat bs := by
  induction bs generalizing acc with
  | nil => simp [beNat]
  | cons b bs ih =>
    rw [beNat, List.foldl_cons, List.foldl_cons, ih, ih (0 * 256 + b.toNat), List.length_cons]
    ring

@[simp] theorem beNat_nil : beNat [] = 0 := rfl

theorem beNat_cons (b : UInt8) (bs : Bytes) :
    beNat (b :: bs) = b.toNat * 256 ^ bs.length + beNat bs := by
  rw [beNat, List.foldl_cons, beNat_foldl]
  simp only [Nat.zero_mul, Nat.zero_add]

theorem beNat_lt (bs : Bytes) : beNat bs < 256 ^ bs.length := by
  induction bs with
  | nil => decide
  | cons b bs ih =>
    have hb : b.toNat < 256 := b.toNat_lt
    rw [beNat_cons, List.length_cons, Nat.pow_succ]
    have hle : (b.toNat + 1) * 256 ^ bs.length ≤ 256 * 256 ^ bs.length :=
      Nat.mul_le_mul_right _ hb
    calc b.toNat * 256 ^ bs.length + beNat bs
        < b.toNat * 256 ^ bs.length + 256 ^ bs.length := Nat.add_lt_add_left ih _
      _ = (b.toNat + 1) * 256 ^ bs.length := by ring
      _ ≤ 256 ^ bs.length * 256 := by rw [Nat.mul_comm _ 256]; exact hle

theorem beNat_be_mod (n v : Nat) : beNat (be n v) = v % 256 ^ n := by
  induction n with
  | zero => rw [be, beNat_nil, Nat.pow_zero, Nat.mod_one]
  | succ n ih =>
    have hsplit : v % 256 ^ (n + 1) = v % 256 ^ n + 256 ^ n * (v / 256 ^ n % 256) := by
      rw [Nat.pow_succ, Nat.mod_mul]
    rw [be, beNat_cons, be_length, ih, UInt8.toNat_ofNat', hsplit]
    ring

/-- **Reading inverts writing.** -/
theorem beNat_be {n v : Nat} (h : v < 256 ^ n) : beNat (be n v) = v := by
  rw [beNat_be_mod, Nat.mod_eq_of_lt h]

/-! ## Fields -/

/-- The `n` bytes from offset `i`, or what there is of them. -/
def slice (bs : Bytes) (i n : Nat) : Bytes := (bs.drop i).take n

/-- The byte string with `field` from offset `i`. -/
def patch (bs : Bytes) (i : Nat) (field : Bytes) : Bytes :=
  bs.take i ++ field ++ bs.drop (i + field.length)

theorem patch_length {bs field : Bytes} {i : Nat} (h : i + field.length ≤ bs.length) :
    (patch bs i field).length = bs.length := by
  simp only [patch, List.length_append, List.length_take, List.length_drop]
  omega

/-- The field that was put in. -/
theorem slice_patch_self {bs field : Bytes} {i : Nat} (h : i ≤ bs.length) :
    slice (patch bs i field) i field.length = field := by
  have htake : (bs.take i).length = i := by simpa using h
  rw [slice, patch, List.append_assoc, List.drop_left' htake, List.take_left]

/-- A field in front of it is as it was. -/
theorem slice_patch_before {bs field : Bytes} {i j n : Nat} (hj : j + n ≤ i) (hi : i ≤ bs.length) :
    slice (patch bs i field) j n = slice bs j n := by
  apply List.ext_getElem?
  intro k
  simp only [slice, patch, List.getElem?_take, List.getElem?_drop]
  split
  · rw [List.append_assoc, List.getElem?_append_left (by simp; omega),
      List.getElem?_take_of_lt (by omega)]
  · rfl

/-- A field behind it is as it was. -/
theorem slice_patch_after {bs field : Bytes} {i j n : Nat} (hj : i + field.length ≤ j)
    (hi : i ≤ bs.length) : slice (patch bs i field) j n = slice bs j n := by
  have hfront : (bs.take i ++ field).length = i + field.length := by simp [hi]
  rw [slice, slice, patch]
  congr 1
  obtain ⟨k, rfl⟩ := Nat.exists_eq_add_of_le hj
  rw [← List.drop_drop, ← hfront, List.drop_left, hfront, List.drop_drop]

@[simp] theorem patch_nil (bs : Bytes) (i : Nat) : patch bs i [] = bs := by
  simp [patch]

/-- One byte. -/
theorem patch_singleton {bs : Bytes} {i : Nat} (h : i < bs.length) (b : UInt8) :
    patch bs i [b] = bs.set i b := by
  rw [patch, List.set_eq_take_append_cons_drop, if_pos h, List.append_assoc]
  rfl

/-- Two fields side by side are one. -/
theorem patch_patch {bs a b : Bytes} {i : Nat} (h : i ≤ bs.length) :
    patch (patch bs i a) (i + a.length) b = patch bs i (a ++ b) := by
  have hfront : (bs.take i ++ a).length = i + a.length := by
    rw [List.length_append, List.length_take, Nat.min_eq_left h]
  have htake : (patch bs i a).take (i + a.length) = bs.take i ++ a := by
    rw [patch, ← hfront, List.take_left]
  have hdrop : (patch bs i a).drop (i + a.length + b.length) =
      bs.drop (i + (a ++ b).length) := by
    rw [patch, ← List.drop_drop, ← hfront, List.drop_left, hfront, List.drop_drop,
      List.length_append, Nat.add_assoc]
  rw [patch, htake, hdrop, List.append_assoc, List.append_assoc, patch, List.append_assoc,
    List.append_assoc]

/-- The byte string with several fields put in, one after the other. -/
def patches (bs : Bytes) (fields : List (Nat × Bytes)) : Bytes :=
  fields.foldl (fun bs f => patch bs f.1 f.2) bs

theorem patches_length {bs : Bytes} {fields : List (Nat × Bytes)}
    (h : ∀ f ∈ fields, f.1 + f.2.length ≤ bs.length) : (patches bs fields).length = bs.length := by
  induction fields generalizing bs with
  | nil => rfl
  | cons f fields ih =>
    have hlen := patch_length (h f List.mem_cons_self)
    rw [patches, List.foldl_cons]
    exact (ih fun g hg => hlen ▸ h g (List.mem_cons_of_mem f hg)).trans hlen

/-- A field that none of them touches is as it was. -/
theorem slice_patches {bs : Bytes} {fields : List (Nat × Bytes)} {i n : Nat}
    (h : ∀ f ∈ fields, f.1 + f.2.length ≤ bs.length)
    (hapart : ∀ f ∈ fields, f.1 + f.2.length ≤ i ∨ i + n ≤ f.1) :
    slice (patches bs fields) i n = slice bs i n := by
  induction fields generalizing bs with
  | nil => rfl
  | cons f fields ih =>
    have hf := h f List.mem_cons_self
    have hlen := patch_length hf
    rw [patches, List.foldl_cons]
    refine (ih (fun g hg => hlen ▸ h g (List.mem_cons_of_mem f hg))
      fun g hg => hapart g (List.mem_cons_of_mem f hg)).trans ?_
    rcases hapart f List.mem_cons_self with hbefore | hafter
    · exact slice_patch_after hbefore (by omega)
    · exact slice_patch_before hafter (by omega)

/-- The last of several fields that are put in at one place. -/
theorem slice_patches_mid {bs field : Bytes} {before after : List (Nat × Bytes)} {i n : Nat}
    (hn : field.length = n) (hbefore : ∀ f ∈ before, f.1 + f.2.length ≤ bs.length)
    (hfield : i + n ≤ bs.length) (hafter : ∀ f ∈ after, f.1 + f.2.length ≤ bs.length)
    (hapart : ∀ f ∈ after, f.1 + f.2.length ≤ i ∨ i + n ≤ f.1) :
    slice (patches bs (before ++ (i, field) :: after)) i n = field := by
  have hlen := patches_length hbefore
  have hlen' : (patch (patches bs before) i field).length = bs.length := by
    rw [patch_length (by omega), hlen]
  have hsplit : patches bs (before ++ (i, field) :: after)
      = patches (patch (patches bs before) i field) after := by
    rw [patches, patches, patches, List.foldl_append, List.foldl_cons]
  rw [hsplit, slice_patches (fun f hf => hlen' ▸ hafter f hf) hapart, ← hn]
  exact slice_patch_self (by omega)

end ByteLib
