import DiscCleaner.Mesh.Gossip
import DiscCleaner.Lib.LineText

/-!
# DiscCleaner — the base64 of spot proofs (`gossip.rs`)

A proof carries the bytes of a window as base64 text, four digits for three bytes, the last group
padded. Every text the encoder writes decodes to the bytes it was written from. The other way
round the decoder is more liberal: it looks at padding group by group and drops the bits that no
byte takes.

* **`b64Chunk_iff`** — what the decoder accepts as one group, and the bytes it makes of it.
* **`reencodes_iff`** — an accepted text is what its bytes encode to exactly if it is padded in
  its last group only and the dropped bits are zero.
-/

namespace DiscCleaner.Mesh

open ByteLib

/-! ## Digits -/

/-- The digit of six bits, as a byte. -/
def digitByte (v : Nat) : UInt8 := UInt8.ofNat (b64Digit v).toNat

theorem utf8EncodeChar_b64Digit (v : Nat) :
    String.utf8EncodeChar (b64Digit v) = [digitByte v] := by
  have hall : ∀ n < 64, String.utf8EncodeChar (b64Digit n) = [digitByte n] := by decide +kernel
  have hmod : b64Digit v = b64Digit (v % 64) := by
    rw [b64Digit, b64Digit, Nat.mod_mod]
  rw [digitByte, hmod]
  exact hall (v % 64) (Nat.mod_lt _ (by decide))

theorem b64Val_digitByte {v : Nat} (h : v < 64) : b64Val (digitByte v) = some v := by
  have hall : ∀ n < 64, b64Val (digitByte n) = some n := by decide +kernel
  exact hall v h

theorem digitByte_mod (v : Nat) : digitByte (v % 64) = digitByte v := by
  rw [digitByte, digitByte, b64Digit, b64Digit, Nat.mod_mod]

/-- Every byte that has a value is the digit of it. -/
theorem b64Val_eq_some {c : UInt8} {v : Nat} : b64Val c = some v ↔ v < 64 ∧ c = digitByte v := by
  constructor
  · intro h
    have hall : ∀ n < 256, ∀ v ∈ b64Val (UInt8.ofNat n), v < 64 ∧ UInt8.ofNat n = digitByte v := by
      decide +kernel
    have hc := hall c.toNat c.toNat_lt v
    rw [UInt8.ofNat_toNat] at hc
    exact hc h
  · rintro ⟨hv, rfl⟩
    exact b64Val_digitByte hv

theorem b64Val_padByte : b64Val padByte = none := by decide

theorem digitByte_ne_padByte {v : Nat} (h : v < 64) : digitByte v ≠ padByte := by
  intro heq
  have hval := b64Val_digitByte h
  rw [heq, b64Val_padByte] at hval
  exact absurd hval (by simp)

/-! ## Groups -/

/-- The number of four digits. -/
def groupValue (v₀ v₁ v₂ v₃ : Nat) : Nat := ((v₀ * 64 + v₁) * 64 + v₂) * 64 + v₃

/-- What the decoder takes for a group of four characters, with the bytes it makes of it. -/
inductive B64Group : UInt8 → UInt8 → UInt8 → UInt8 → Bytes → Prop
  | full {v₀ v₁ v₂ v₃ : Nat} (h₀ : v₀ < 64) (h₁ : v₁ < 64) (h₂ : v₂ < 64) (h₃ : v₃ < 64) :
      B64Group (digitByte v₀) (digitByte v₁) (digitByte v₂) (digitByte v₃)
        [UInt8.ofNat (groupValue v₀ v₁ v₂ v₃ / 65536), UInt8.ofNat (groupValue v₀ v₁ v₂ v₃ / 256),
          UInt8.ofNat (groupValue v₀ v₁ v₂ v₃)]
  | two {v₀ v₁ v₂ : Nat} (h₀ : v₀ < 64) (h₁ : v₁ < 64) (h₂ : v₂ < 64) :
      B64Group (digitByte v₀) (digitByte v₁) (digitByte v₂) padByte
        [UInt8.ofNat (groupValue v₀ v₁ v₂ 0 / 65536), UInt8.ofNat (groupValue v₀ v₁ v₂ 0 / 256)]
  | one {v₀ v₁ : Nat} (h₀ : v₀ < 64) (h₁ : v₁ < 64) :
      B64Group (digitByte v₀) (digitByte v₁) padByte padByte
        [UInt8.ofNat (groupValue v₀ v₁ 0 0 / 65536)]

/-- **What is accepted as a group**: padding stands at its end, whatever bits it drops. -/
theorem b64Chunk_iff {c₀ c₁ c₂ c₃ : UInt8} {bs : Bytes} :
    b64Chunk c₀ c₁ c₂ c₃ = some bs ↔ B64Group c₀ c₁ c₂ c₃ bs := by
  constructor
  · intro h
    -- a pad before a digit, or a third pad, is refused: three of the sixteen cases are left
    by_cases p₀ : c₀ = padByte <;> by_cases p₁ : c₁ = padByte <;> by_cases p₂ : c₂ = padByte
      <;> by_cases p₃ : c₃ = padByte
      <;> simp [b64Chunk, p₀, p₁, p₂, p₃, Option.bind_eq_some_iff, b64Val_eq_some] at h
    · obtain ⟨-, v₀, ⟨h₀, rfl⟩, v₁, ⟨h₁, rfl⟩, rfl⟩ := h
      subst p₂ p₃
      simpa [groupValue] using B64Group.one h₀ h₁
    · obtain ⟨-, v₀, v₁, v₂, ⟨⟨h₀, rfl⟩, ⟨h₁, rfl⟩, h₂, rfl⟩, rfl⟩ := h
      subst p₃
      simpa [groupValue] using B64Group.two h₀ h₁ h₂
    · obtain ⟨-, v₀, v₁, v₂, v₃, ⟨⟨h₀, rfl⟩, ⟨h₁, rfl⟩, ⟨h₂, rfl⟩, h₃, rfl⟩, rfl⟩ := h
      simpa [groupValue] using B64Group.full h₀ h₁ h₂ h₃
  · rintro (⟨h₀, h₁, h₂, h₃⟩ | ⟨h₀, h₁, h₂⟩ | ⟨h₀, h₁⟩)
    · simp [b64Chunk, digitByte_ne_padByte h₀, digitByte_ne_padByte h₁, digitByte_ne_padByte h₂,
        digitByte_ne_padByte h₃, b64Val_digitByte h₀, b64Val_digitByte h₁, b64Val_digitByte h₂,
        b64Val_digitByte h₃, groupValue, (digitByte_ne_padByte h₀).symm,
        (digitByte_ne_padByte h₁).symm, (digitByte_ne_padByte h₂).symm,
        (digitByte_ne_padByte h₃).symm]
    · simp [b64Chunk, digitByte_ne_padByte h₀, digitByte_ne_padByte h₁, digitByte_ne_padByte h₂,
        b64Val_digitByte h₀, b64Val_digitByte h₁, b64Val_digitByte h₂, groupValue,
        (digitByte_ne_padByte h₀).symm, (digitByte_ne_padByte h₁).symm,
        (digitByte_ne_padByte h₂).symm]
    · simp [b64Chunk, digitByte_ne_padByte h₀, digitByte_ne_padByte h₁,
        b64Val_digitByte h₀, b64Val_digitByte h₁, groupValue,
        (digitByte_ne_padByte h₀).symm, (digitByte_ne_padByte h₁).symm]

/-! ## The bytes of an encoding -/

/-- The encoded text, as the decoder reads it. -/
def b64EncodeBytes (data : Bytes) : Bytes := utf8 (b64Encode data)

theorem digitByte_congr {m v : Nat} (h : m % 64 = v) : digitByte m = digitByte v := by
  rw [← h, digitByte_mod]

theorem digitByte_inj {v w : Nat} (hv : v < 64) (hw : w < 64) :
    digitByte v = digitByte w ↔ v = w := by
  constructor
  · intro h
    have hval := b64Val_digitByte hv
    rw [h, b64Val_digitByte hw] at hval
    exact (Option.some.inj hval).symm
  · rintro rfl
    rfl

theorem b64EncodeBytes_nil : b64EncodeBytes [] = [] := rfl

theorem b64EncodeBytes_one (a : UInt8) : b64EncodeBytes [a] =
    [digitByte (a.toNat * 65536 / 262144), digitByte (a.toNat * 65536 / 4096), padByte, padByte] := by
  have hpad : String.utf8EncodeChar '=' = [padByte] := by decide
  simp [b64EncodeBytes, b64Encode, b64EncodeChars, utf8, utf8EncodeChar_b64Digit, hpad]

theorem b64EncodeBytes_two (a b : UInt8) : b64EncodeBytes [a, b] =
    [digitByte ((a.toNat * 65536 + b.toNat * 256) / 262144),
      digitByte ((a.toNat * 65536 + b.toNat * 256) / 4096),
      digitByte ((a.toNat * 65536 + b.toNat * 256) / 64), padByte] := by
  have hpad : String.utf8EncodeChar '=' = [padByte] := by decide
  simp [b64EncodeBytes, b64Encode, b64EncodeChars, utf8, utf8EncodeChar_b64Digit, hpad]

theorem b64EncodeBytes_cons (a b c : UInt8) (rest : Bytes) : b64EncodeBytes (a :: b :: c :: rest) =
    digitByte ((a.toNat * 65536 + b.toNat * 256 + c.toNat) / 262144)
      :: digitByte ((a.toNat * 65536 + b.toNat * 256 + c.toNat) / 4096)
      :: digitByte ((a.toNat * 65536 + b.toNat * 256 + c.toNat) / 64)
      :: digitByte (a.toNat * 65536 + b.toNat * 256 + c.toNat) :: b64EncodeBytes rest := by
  simp [b64EncodeBytes, b64Encode, b64EncodeChars, utf8, utf8EncodeChar_b64Digit]

theorem digitByte_mod_ne_padByte (m : Nat) : digitByte m ≠ padByte := by
  rw [← digitByte_mod]
  exact digitByte_ne_padByte (Nat.mod_lt _ (by decide))

/-! ## Decoding an encoding -/

theorem b64Chunk_one (a : UInt8) :
    b64Chunk (digitByte (a.toNat * 65536 / 262144)) (digitByte (a.toNat * 65536 / 4096)) padByte
      padByte = some [a] := by
  have ha := a.toNat_lt
  have hgroup := B64Group.one (show a.toNat * 65536 / 262144 < 64 by omega)
    (show a.toNat * 65536 / 4096 % 64 < 64 by omega)
  rw [digitByte_mod, ← b64Chunk_iff] at hgroup
  have hbyte : UInt8.ofNat (groupValue (a.toNat * 65536 / 262144) (a.toNat * 65536 / 4096 % 64) 0 0
      / 65536) = a := ofNat_eq_iff.mpr (by unfold groupValue; omega)
  rw [hgroup, hbyte]

theorem b64Chunk_two (a b : UInt8) :
    b64Chunk (digitByte ((a.toNat * 65536 + b.toNat * 256) / 262144))
      (digitByte ((a.toNat * 65536 + b.toNat * 256) / 4096))
      (digitByte ((a.toNat * 65536 + b.toNat * 256) / 64)) padByte = some [a, b] := by
  have ha := a.toNat_lt
  have hb := b.toNat_lt
  set n := a.toNat * 65536 + b.toNat * 256 with hn
  have hgroup := B64Group.two (show n / 262144 < 64 by omega) (show n / 4096 % 64 < 64 by omega)
    (show n / 64 % 64 < 64 by omega)
  have hvalue : groupValue (n / 262144) (n / 4096 % 64) (n / 64 % 64) 0 = n := by
    unfold groupValue
    omega
  rw [digitByte_mod, digitByte_mod, hvalue, ← b64Chunk_iff] at hgroup
  rw [hgroup, ofNat_eq_iff.mpr (show n / 65536 % 256 = a.toNat by omega),
    ofNat_eq_iff.mpr (show n / 256 % 256 = b.toNat by omega)]

theorem b64Chunk_three (a b c : UInt8) :
    b64Chunk (digitByte ((a.toNat * 65536 + b.toNat * 256 + c.toNat) / 262144))
      (digitByte ((a.toNat * 65536 + b.toNat * 256 + c.toNat) / 4096))
      (digitByte ((a.toNat * 65536 + b.toNat * 256 + c.toNat) / 64))
      (digitByte (a.toNat * 65536 + b.toNat * 256 + c.toNat)) = some [a, b, c] := by
  have ha := a.toNat_lt
  have hb := b.toNat_lt
  have hc := c.toNat_lt
  set n := a.toNat * 65536 + b.toNat * 256 + c.toNat with hn
  have hgroup := B64Group.full (show n / 262144 < 64 by omega) (show n / 4096 % 64 < 64 by omega)
    (show n / 64 % 64 < 64 by omega) (show n % 64 < 64 by omega)
  have hvalue : groupValue (n / 262144) (n / 4096 % 64) (n / 64 % 64) (n % 64) = n := by
    unfold groupValue
    omega
  rw [digitByte_mod, digitByte_mod, digitByte_mod, hvalue, ← b64Chunk_iff] at hgroup
  rw [hgroup, ofNat_eq_iff.mpr (show n / 65536 % 256 = a.toNat by omega),
    ofNat_eq_iff.mpr (show n / 256 % 256 = b.toNat by omega),
    ofNat_eq_iff.mpr (show n % 256 = c.toNat by omega)]

theorem b64Decode_b64Encode (data : Bytes) : b64Decode (b64Encode data) = some data := by
  show b64DecodeBytes (b64EncodeBytes data) = some data
  induction data using b64EncodeChars.induct with
  | case1 => rfl
  | case2 a =>
    rw [b64EncodeBytes_one, b64DecodeBytes, b64Chunk_one]
    rfl
  | case3 a b =>
    rw [b64EncodeBytes_two, b64DecodeBytes, b64Chunk_two]
    rfl
  | case4 a b c rest ih =>
    rw [b64EncodeBytes_cons, b64DecodeBytes, b64Chunk_three, ih]
    rfl

/-! ## Encoding what was decoded -/

/-- The bits of the last digit before the padding that no byte takes. -/
def droppedBits (c₁ c₂ c₃ : UInt8) : Nat :=
  if c₂ = padByte then (b64Val c₁).getD 0 % 16
  else if c₃ = padByte then (b64Val c₂).getD 0 % 4
  else 0

/-- Padding stands in the last group only, and no dropped bit is set. -/
def wellPadded : Bytes → Bool
  | _ :: c₁ :: c₂ :: c₃ :: rest =>
    droppedBits c₁ c₂ c₃ = 0 ∧ (c₃ = padByte → rest = []) ∧ wellPadded rest
  | _ => true

/-- A group makes at least one byte. -/
theorem B64Group.ne_nil {c₀ c₁ c₂ c₃ : UInt8} {bs : Bytes} (h : B64Group c₀ c₁ c₂ c₃ bs) :
    bs ≠ [] := by
  cases h <;> exact List.cons_ne_nil _ _

/-- An accepted text that is not empty decodes to some byte. -/
theorem ne_nil_of_decode {s data : Bytes} (h : b64DecodeBytes s = some data) (hs : s ≠ []) :
    data ≠ [] := by
  unfold b64DecodeBytes at h
  split at h
  · exact absurd rfl hs
  · obtain ⟨head, hhead, h⟩ := Option.bind_eq_some_iff.mp h
    obtain ⟨tail, -, h⟩ := Option.bind_eq_some_iff.mp h
    obtain rfl := Option.some.inj h
    exact List.append_ne_nil_of_left_ne_nil (b64Chunk_iff.mp hhead).ne_nil tail
  · exact absurd h (by simp)

/-- The bytes of a group spell its number. -/
theorem groupValue_bytes {n : Nat} (h : n < 2 ^ 24) :
    (UInt8.ofNat (n / 65536)).toNat * 65536 + (UInt8.ofNat (n / 256)).toNat * 256
      + (UInt8.ofNat n).toNat = n := by
  rw [UInt8.toNat_ofNat', UInt8.toNat_ofNat', UInt8.toNat_ofNat']
  omega

/-- The text of at least three bytes does not start with a padded group. -/
theorem b64EncodeBytes_ne_two {a b : UInt8} {tail : Bytes} (h : tail ≠ []) (c₀ c₁ c₂ : UInt8)
    (rest : Bytes) : b64EncodeBytes ([a, b] ++ tail) ≠ c₀ :: c₁ :: c₂ :: padByte :: rest := by
  obtain ⟨t, ts, rfl⟩ := List.exists_cons_of_ne_nil h
  intro heq
  rw [List.cons_append, List.cons_append, List.nil_append, b64EncodeBytes_cons] at heq
  simp [digitByte_mod_ne_padByte] at heq

theorem b64EncodeBytes_ne_one {a : UInt8} {tail : Bytes} (h : tail ≠ []) (c₀ c₁ c₃ : UInt8)
    (rest : Bytes) : b64EncodeBytes ([a] ++ tail) ≠ c₀ :: c₁ :: padByte :: c₃ :: rest := by
  obtain ⟨t, ts, rfl⟩ := List.exists_cons_of_ne_nil h
  intro heq
  rw [List.singleton_append] at heq
  cases ts with
  | nil =>
    rw [b64EncodeBytes_two] at heq
    simp [digitByte_mod_ne_padByte] at heq
  | cons u us =>
    rw [b64EncodeBytes_cons] at heq
    simp [digitByte_mod_ne_padByte] at heq

/-- **One group**: the text of its bytes and of what follows is the text that was read exactly if
no dropped bit is set and nothing follows padding. -/
theorem B64Group.reencodes {c₀ c₁ c₂ c₃ : UInt8} {head tail rest : Bytes}
    (h : B64Group c₀ c₁ c₂ c₃ head) (htail : b64DecodeBytes rest = some tail) :
    b64EncodeBytes (head ++ tail) = c₀ :: c₁ :: c₂ :: c₃ :: rest ↔
      droppedBits c₁ c₂ c₃ = 0 ∧ (c₃ = padByte → rest = []) ∧ b64EncodeBytes tail = rest := by
  cases h with
  | @full v₀ v₁ v₂ v₃ h₀ h₁ h₂ h₃ =>
    have hvalue := groupValue_bytes (n := groupValue v₀ v₁ v₂ v₃) (by unfold groupValue; omega)
    rw [List.cons_append, List.cons_append, List.cons_append, List.nil_append, b64EncodeBytes_cons,
      hvalue, digitByte_congr (show groupValue v₀ v₁ v₂ v₃ / 262144 % 64 = v₀ by
        unfold groupValue; omega),
      digitByte_congr (show groupValue v₀ v₁ v₂ v₃ / 4096 % 64 = v₁ by unfold groupValue; omega),
      digitByte_congr (show groupValue v₀ v₁ v₂ v₃ / 64 % 64 = v₂ by unfold groupValue; omega),
      digitByte_congr (show groupValue v₀ v₁ v₂ v₃ % 64 = v₃ by unfold groupValue; omega)]
    simp [droppedBits, digitByte_ne_padByte h₂, digitByte_ne_padByte h₃]
  | @two v₀ v₁ v₂ h₀ h₁ h₂ =>
    by_cases hrest : rest = []
    · subst hrest
      obtain rfl : [] = tail := Option.some.inj htail
      set n := groupValue v₀ v₁ v₂ 0 with hn
      have hvalue : (UInt8.ofNat (n / 65536)).toNat * 65536 + (UInt8.ofNat (n / 256)).toNat * 256
          = n / 256 * 256 := by
        rw [UInt8.toNat_ofNat', UInt8.toNat_ofNat', hn]
        unfold groupValue
        omega
      have hdropped : droppedBits (digitByte v₁) (digitByte v₂) padByte = v₂ % 4 := by
        simp [droppedBits, digitByte_ne_padByte h₂, b64Val_digitByte h₂]
      rw [List.append_nil, b64EncodeBytes_two, hvalue, hdropped,
        digitByte_congr (show n / 256 * 256 / 262144 % 64 = v₀ by rw [hn]; unfold groupValue; omega),
        digitByte_congr (show n / 256 * 256 / 4096 % 64 = v₁ by rw [hn]; unfold groupValue; omega),
        digitByte_congr (show n / 256 * 256 / 64 % 64 = v₂ / 4 * 4 by
          rw [hn]; unfold groupValue; omega)]
      have hdigit := digitByte_inj (show v₂ / 4 * 4 < 64 by omega) h₂
      simp only [List.cons.injEq, hdigit, true_and, and_true, implies_true, b64EncodeBytes_nil]
      omega
    · have hne := ne_nil_of_decode htail hrest
      exact iff_of_false (b64EncodeBytes_ne_two hne _ _ _ _) fun h => hrest (h.2.1 rfl)
  | @one v₀ v₁ h₀ h₁ =>
    by_cases hrest : rest = []
    · subst hrest
      obtain rfl : [] = tail := Option.some.inj htail
      set n := groupValue v₀ v₁ 0 0 with hn
      have hvalue : (UInt8.ofNat (n / 65536)).toNat * 65536 = n / 65536 * 65536 := by
        rw [UInt8.toNat_ofNat', hn]
        unfold groupValue
        omega
      have hdropped : droppedBits (digitByte v₁) padByte padByte = v₁ % 16 := by
        simp [droppedBits, b64Val_digitByte h₁]
      rw [List.append_nil, b64EncodeBytes_one, hvalue, hdropped,
        digitByte_congr (show n / 65536 * 65536 / 262144 % 64 = v₀ by
          rw [hn]; unfold groupValue; omega),
        digitByte_congr (show n / 65536 * 65536 / 4096 % 64 = v₁ / 16 * 16 by
          rw [hn]; unfold groupValue; omega)]
      have hdigit := digitByte_inj (show v₁ / 16 * 16 < 64 by omega) h₁
      simp only [List.cons.injEq, hdigit, true_and, and_true, implies_true, b64EncodeBytes_nil]
      omega
    · have hne := ne_nil_of_decode htail hrest
      exact iff_of_false (b64EncodeBytes_ne_one hne _ _ _ _) fun h => hrest (h.2.1 rfl)

theorem b64EncodeBytes_eq_iff {s data : Bytes} (h : b64DecodeBytes s = some data) :
    b64EncodeBytes data = s ↔ wellPadded s := by
  induction s using b64DecodeBytes.induct generalizing data with
  | case1 =>
    obtain rfl := Option.some.inj h
    exact iff_of_true rfl rfl
  | case2 c₀ c₁ c₂ c₃ rest ih =>
    rw [b64DecodeBytes] at h
    obtain ⟨head, hhead, h⟩ := Option.bind_eq_some_iff.mp h
    obtain ⟨tail, htail, h⟩ := Option.bind_eq_some_iff.mp h
    obtain rfl := Option.some.inj h
    rw [(b64Chunk_iff.mp hhead).reencodes htail, ih htail, wellPadded, decide_eq_true_iff]
  | case3 s hnil hcons =>
    exact absurd h (by rw [b64DecodeBytes]; simp; exact hnil; exact hcons)

/-- **The codec**: decoding inverts encoding, and an accepted text is what its bytes encode to
exactly if it is padded at its end only and drops no bit that is set. -/
theorem codec_canonical_iff (data : Bytes) (s : String) :
    b64Decode (b64Encode data) = some data ∧
      (b64Decode s = some data → (b64Encode data = s ↔ wellPadded (utf8 s))) := by
  refine ⟨b64Decode_b64Encode data, fun h => ?_⟩
  rw [← b64EncodeBytes_eq_iff h, b64EncodeBytes]
  exact utf8_injective.eq_iff.symm

/-- "QQ==" is the text of one byte. -/
theorem codec_canonical_one_byte : b64Encode [65] = "QQ==" :=
  ((codec_canonical_iff [65] "QQ==").2 (by decide +kernel)).mpr (by decide +kernel)

/-- "QR==" is accepted and decodes to the same byte; "QQ==QQ==" is accepted. -/
theorem liberal_texts_accepted : b64Decode "QR==" = some [65] ∧ b64Encode [65] ≠ "QR==" ∧
    b64Decode "QQ==QQ==" = some [65, 65] ∧ b64Encode [65, 65] ≠ "QQ==QQ==" := by
  decide +kernel

end DiscCleaner.Mesh
