import DiscCleaner.Lib.BitPack
import DiscCleaner.Pq.Ring

/-!
# DiscCleaner — the wire encoding of ML-DSA-44 (`ml_dsa.rs`)

The packed polynomials of keys and signatures, and the hint region: 80 bytes of positions and
four cumulative counts.

* **`unpackRows_packRows`** — packed polynomials are read back.
* **`packHint_eq`** — what the encoder writes for a hint of at most 80 positions.
* **`unpackHint_packHint`** — and that the decoder reads it back.
* **`unpackHint_isSome_iff`** — the regions the decoder reads at all.
-/

namespace DiscCleaner.MlDsa

open ByteLib BitPackLib

def GAMMA1 : Int := 131072
def GAMMA2 : Int := 95232
def BETA : Int := 78
def OMEGA : Nat := 80

/-- Four polynomials. -/
abbrev Rows := Fin 4 → Poly

/-! ## Packed polynomials -/

/-- Rows of 256 coefficients of `bits` bits. -/
def packRows (bits : Nat) (p : Rows) : Bytes :=
  ((List.finRange 4).map fun r => packBits bits (p r)).flatten

/-- One coefficient of the packed rows. -/
def unpackRows (bits : Nat) (buf : Bytes) : Rows := fun r j =>
  unpackBits bits ((buf.drop (r * (32 * bits))).take (32 * bits)) j

def packT1 (t1 : Rows) : Bytes := packRows 10 t1
def unpackT1 (buf : Bytes) : Rows := unpackRows 10 buf

/-- The low 13 bits. -/
def packT0 (t0 : Rows) : Bytes := packRows 13 fun r j => t0 r j % 8192

/-- 13-bit two's complement. -/
def unpackT0 (buf : Bytes) : Rows := fun r j =>
  let v := unpackRows 13 buf r j
  if 4095 < v then v - 8192 else v

def packEta (s : Rows) : Bytes := packRows 3 fun r j => s r j + 2
def unpackEta (buf : Bytes) : Rows := fun r j => unpackRows 3 buf r j - 2

def packZ (z : Rows) : Bytes := packRows 18 fun r j => z r j + GAMMA1
def unpackZ (buf : Bytes) : Rows := fun r j => unpackRows 18 buf r j - GAMMA1

def packW1 (w1 : Rows) : Bytes := packRows 6 w1

/-- A piece of a text of equal pieces. -/
theorem take_drop_flatten {α : Type*} {w : Nat} {l : List (List α)}
    (hw : ∀ p ∈ l, p.length = w) {i : Nat} (hi : i < l.length) (rest : List α) :
    (((l.flatten ++ rest).drop (i * w)).take w) = l[i] := by
  induction l generalizing i with
  | nil => exact absurd hi (Nat.not_lt_zero i)
  | cons p l ih =>
    have hp : p.length = w := hw p List.mem_cons_self
    cases i with
    | zero =>
      rw [Nat.zero_mul, List.drop_zero, List.flatten_cons, List.append_assoc, List.take_left' hp]
      rfl
    | succ i =>
      rw [List.flatten_cons, List.append_assoc, Nat.succ_mul, Nat.add_comm, ← hp, ← List.drop_drop,
        List.drop_left, hp]
      exact ih (fun q hq => hw q (List.mem_cons_of_mem p hq)) (Nat.lt_of_succ_lt_succ hi)

theorem length_packRow (bits : Nat) (p : Poly) : (packBits bits p).length = 32 * bits := by
  rw [length_packBits]
  omega

theorem length_packRows (bits : Nat) (p : Rows) : (packRows bits p).length = 128 * bits := by
  simp only [packRows, List.length_flatten, List.map_map]
  have : (List.length ∘ fun r => packBits bits (p r)) = fun _ => 32 * bits :=
    funext fun r => length_packRow bits (p r)
  rw [this, List.map_const', List.sum_replicate, List.length_finRange, smul_eq_mul]
  omega

/-- **Packed rows are read back**, whatever follows them. -/
theorem unpackRows_packRows {bits : Nat} {p : Rows}
    (hp : ∀ r j, 0 ≤ p r j ∧ p r j < 2 ^ bits) (rest : Bytes) (r : Fin 4) (j : Fin 256) :
    unpackRows bits (packRows bits p ++ rest) r j = p r j := by
  have hlen : (r : Nat) < ((List.finRange 4).map fun r => packBits bits (p r)).length := by
    rw [List.length_map, List.length_finRange]
    exact r.isLt
  have hpiece := take_drop_flatten (w := 32 * bits)
    (l := (List.finRange 4).map fun r => packBits bits (p r)) (by
      intro q hq
      obtain ⟨r, -, rfl⟩ := List.mem_map.mp hq
      exact length_packRow bits (p r)) hlen rest
  have hget : ((List.finRange 4).map fun r => packBits bits (p r))[(r : Nat)] = packBits bits (p r) := by
    simp
  rw [unpackRows, packRows, hpiece, hget]
  exact unpackBits_packBits (p r) j ⟨32 * bits, by omega⟩ (hp r j).1 (hp r j).2

theorem unpackT1_packT1 {t1 : Rows} (h : ∀ r j, 0 ≤ t1 r j ∧ t1 r j < 1024) (rest : Bytes) :
    unpackT1 (packT1 t1 ++ rest) = t1 := by
  funext r j
  exact unpackRows_packRows (fun r j => ⟨(h r j).1, (h r j).2⟩) rest r j

theorem unpackT0_packT0 {t0 : Rows} (h : ∀ r j, -4096 ≤ t0 r j ∧ t0 r j ≤ 4095) (rest : Bytes) :
    unpackT0 (packT0 t0 ++ rest) = t0 := by
  funext r j
  have hrange : ∀ r j, 0 ≤ t0 r j % 8192 ∧ t0 r j % 8192 < 2 ^ 13 := by
    intro r j
    constructor <;> omega
  have := h r j
  simp only [unpackT0, packT0, unpackRows_packRows hrange rest r j]
  split_ifs <;> omega

theorem unpackEta_packEta {s : Rows} (h : ∀ r j, -2 ≤ s r j ∧ s r j ≤ 2) (rest : Bytes) :
    unpackEta (packEta s ++ rest) = s := by
  funext r j
  have hrange : ∀ r j, 0 ≤ s r j + 2 ∧ s r j + 2 < 2 ^ 3 := by
    intro r j
    have := h r j
    constructor <;> omega
  simp only [unpackEta, packEta, unpackRows_packRows hrange rest r j]
  omega

theorem unpackZ_packZ {z : Rows} (h : ∀ r j, |z r j| < GAMMA1) (rest : Bytes) :
    unpackZ (packZ z ++ rest) = z := by
  funext r j
  have hrange : ∀ r j, 0 ≤ z r j + GAMMA1 ∧ z r j + GAMMA1 < 2 ^ 18 := by
    intro r j
    have := abs_lt.mp (h r j)
    unfold GAMMA1 at *
    constructor <;> omega
  simp only [unpackZ, packZ, unpackRows_packRows hrange rest r j]
  omega

/-! ## The hint -/

/-- The set positions of four polynomials. -/
abbrev Hint := Fin 4 → Fin 256 → Bool

/-- The encoder's output and how many positions it has written. -/
structure PackState where
  out : Bytes
  pos : Nat

/-- Write one position. -/
def PackState.write (st : PackState) (j : Fin 256) : PackState :=
  ⟨st.out.set st.pos (UInt8.ofNat j), st.pos + 1⟩

/-- The set positions of one polynomial, then the count so far. -/
def packHintRow (h : Hint) (st : PackState) (r : Fin 4) : PackState :=
  let st := (List.finRange 256).foldl (fun st j => if h r j then st.write j else st) st
  ⟨st.out.set (OMEGA + r) (UInt8.ofNat st.pos), st.pos⟩

def packHint (h : Hint) : Bytes :=
  ((List.finRange 4).foldl (packHintRow h) ⟨List.replicate (OMEGA + 4) 0, 0⟩).out

/-- The decoder's hint, its weight and the count before the polynomial at hand. -/
structure UnpackState where
  hint : Hint
  weight : Nat
  pos : Nat

/-- Set one position read from the region; past its end the program stops. -/
def UnpackState.read (buf : Bytes) (r : Fin 4) (st : UnpackState) (idx : Nat) :
    Option UnpackState := do
  let b ← buf[idx]?
  some { st with
    hint := fun r' j => if r' = r ∧ j.val = b.toNat then true else st.hint r' j
    weight := st.weight + 1 }

def unpackHintRow (buf : Bytes) (st : UnpackState) (r : Fin 4) : Option UnpackState := do
  let stop := (← buf[OMEGA + r]?).toNat
  let st ← (List.range' st.pos (stop - st.pos)).foldlM (UnpackState.read buf r) st
  some { st with pos := stop }

/-- The hint of a region and its weight. -/
def unpackHint (buf : Bytes) : Option (Hint × Nat) := do
  let st ← (List.finRange 4).foldlM (unpackHintRow buf) ⟨fun _ _ => false, 0, 0⟩
  some (st.hint, st.weight)

/-! ## What the decoder reads -/

/-- The count of polynomial `r` in a region. -/
def countAt (buf : Bytes) (r : Fin 4) : Nat := (buf.getD (OMEGA + r) 0).toNat

/-- A hint with the positions of one polynomial added. -/
def markAll (hint : Hint) (r : Fin 4) (bs : Bytes) : Hint := fun r' j =>
  hint r' j || (decide (r' = r) && bs.any fun b => decide (j.val = b.toNat))

theorem read_eq {buf : Bytes} {r : Fin 4} {st : UnpackState} {idx : Nat} {b : UInt8}
    (hget : buf[idx]? = some b) :
    UnpackState.read buf r st idx = some ⟨markAll st.hint r [b], st.weight + 1, st.pos⟩ := by
  have hhint : (fun r' (j : Fin 256) => if r' = r ∧ j.val = b.toNat then true else st.hint r' j)
      = markAll st.hint r [b] := by
    funext r' j
    simp only [markAll, List.any_cons, List.any_nil, Bool.or_false]
    by_cases hr : r' = r <;> by_cases hj : j.val = b.toNat <;> simp [hr, hj]
  rw [UnpackState.read, hget]
  simp only [Option.bind_eq_bind, Option.bind_some]
  exact congrArg (fun hint => some (UnpackState.mk hint (st.weight + 1) st.pos)) hhint

theorem markAll_cons (hint : Hint) (r : Fin 4) (b : UInt8) (bs : Bytes) :
    markAll (markAll hint r [b]) r bs = markAll hint r (b :: bs) := by
  funext r' j
  simp only [markAll, List.any_cons, List.any_nil, Bool.or_false]
  cases hint r' j <;> cases decide (r' = r) <;> simp

/-- A run of reads inside the region marks what stands there. -/
theorem foldlM_read {buf : Bytes} {r : Fin 4} {n pos : Nat} (h : pos + n ≤ buf.length)
    (st : UnpackState) :
    (List.range' pos n).foldlM (UnpackState.read buf r) st
      = some ⟨markAll st.hint r ((buf.drop pos).take n), st.weight + n, st.pos⟩ := by
  induction n generalizing pos st with
  | zero =>
    have : markAll st.hint r [] = st.hint := by
      funext r' j
      simp [markAll]
    rw [List.take_zero, this]
    rfl
  | succ n ih =>
    have hlt : pos < buf.length := by omega
    rw [List.range'_succ, List.foldlM_cons, read_eq (List.getElem?_eq_getElem hlt)]
    simp only [Option.bind_eq_bind, Option.bind_some]
    rw [ih (by omega), markAll_cons, List.drop_eq_getElem_cons hlt, List.take_succ_cons,
      Nat.add_assoc, Nat.add_comm 1 n]

/-- A run of reads that leaves the region stops the program. -/
theorem foldlM_read_none {buf : Bytes} {r : Fin 4} {n pos : Nat} (hn : 0 < n)
    (h : buf.length < pos + n) (st : UnpackState) :
    (List.range' pos n).foldlM (UnpackState.read buf r) st = none := by
  induction n generalizing pos st with
  | zero => exact absurd hn (Nat.lt_irrefl 0)
  | succ n ih =>
    rw [List.range'_succ, List.foldlM_cons]
    rcases Nat.lt_or_ge pos buf.length with hlt | hge
    · rw [read_eq (List.getElem?_eq_getElem hlt)]
      exact ih (by omega) (by omega) _
    · rw [UnpackState.read, List.getElem?_eq_none hge]
      rfl

/-- **One polynomial**: its positions run from the count before to its own count, and may not
leave the region. A count below the one before reads nothing. -/
theorem unpackHintRow_eq {buf : Bytes} (hlen : buf.length = OMEGA + 4) (st : UnpackState)
    (r : Fin 4) :
    unpackHintRow buf st r =
      if countAt buf r ≤ st.pos ∨ countAt buf r ≤ OMEGA + 4 then
        some ⟨markAll st.hint r ((buf.drop st.pos).take (countAt buf r - st.pos)),
          st.weight + (countAt buf r - st.pos), countAt buf r⟩
      else none := by
  have hlt : OMEGA + r < buf.length := by rw [hlen]; omega
  have hcount : buf[OMEGA + (r : Nat)]? = some (buf.getD (OMEGA + r) 0) := by
    rw [List.getD_eq_getElem _ _ hlt, List.getElem?_eq_getElem hlt]
  rw [unpackHintRow, hcount]
  simp only [Option.bind_eq_bind, Option.bind_some]
  rw [show (buf.getD (OMEGA + (r : Nat)) 0).toNat = countAt buf r from rfl]
  by_cases hstop : countAt buf r ≤ st.pos
  · have hzero : countAt buf r - st.pos = 0 := Nat.sub_eq_zero_of_le hstop
    have hnone : markAll st.hint r [] = st.hint := by
      funext r' j
      simp [markAll]
    rw [if_pos (Or.inl hstop), hzero, List.take_zero, hnone]
    rfl
  · by_cases hregion : countAt buf r ≤ OMEGA + 4
    · rw [if_pos (Or.inr hregion), foldlM_read (by omega)]
      rfl
    · rw [if_neg (not_or.mpr ⟨hstop, hregion⟩), foldlM_read_none (by omega) (by omega)]
      rfl

theorem foldlM_unpackHintRow_isSome {buf : Bytes} (hlen : buf.length = OMEGA + 4)
    (rows : List (Fin 4)) (st : UnpackState) (hst : st.pos ≤ OMEGA + 4) :
    (rows.foldlM (unpackHintRow buf) st).isSome ↔ ∀ r ∈ rows, countAt buf r ≤ OMEGA + 4 := by
  induction rows generalizing st with
  | nil => simp
  | cons r rows ih =>
    rw [List.foldlM_cons, unpackHintRow_eq hlen]
    by_cases hr : countAt buf r ≤ OMEGA + 4
    · rw [if_pos (Or.inr hr)]
      simp only [Option.bind_eq_bind, Option.bind_some]
      rw [ih _ hr, List.forall_mem_cons]
      exact ⟨fun h => ⟨hr, h⟩, fun h => h.2⟩
    · -- a count past the region is also past the count before it
      rw [if_neg (by omega)]
      simp only [Option.bind_eq_bind, Option.bind_none, Option.isSome_none, Bool.false_eq_true,
        false_iff]
      exact fun h => hr (h r List.mem_cons_self)

/-- **The regions the decoder reads**: every count stays within the region. -/
theorem unpackHint_isSome_iff {buf : Bytes} (hlen : buf.length = OMEGA + 4) :
    (unpackHint buf).isSome ↔ ∀ r, countAt buf r ≤ OMEGA + 4 := by
  have hrows := foldlM_unpackHintRow_isSome hlen (List.finRange 4)
    ⟨fun _ _ => false, 0, 0⟩ (Nat.zero_le _)
  rw [unpackHint]
  simp only [Option.bind_eq_bind, Option.isSome_bind, Option.isSome_some, Option.any_true]
  rw [hrows]
  exact ⟨fun h r => h r (List.mem_finRange r), fun h r _ => h r⟩

/-! ## What the encoder writes -/

/-- The set positions of one polynomial, in order. -/
def rowPositions (h : Hint) (r : Fin 4) : List (Fin 256) := (List.finRange 256).filter (h r)

/-- Positions as bytes. -/
def positionBytes (ps : List (Fin 256)) : Bytes := ps.map fun j : Fin 256 => UInt8.ofNat j.val

/-- Positions written one after the other fill the zeros behind those already there. -/
theorem foldl_write {A C : Bytes} {m : Nat} (ps : List (Fin 256)) (hm : ps.length ≤ m) :
    ps.foldl PackState.write ⟨A ++ List.replicate m 0 ++ C, A.length⟩
      = ⟨A ++ positionBytes ps ++ List.replicate (m - ps.length) 0 ++ C, A.length + ps.length⟩ := by
  induction ps generalizing A m with
  | nil => simp [positionBytes]
  | cons j ps ih =>
    obtain ⟨m, rfl⟩ : ∃ k, m = k + 1 := ⟨m - 1, by simp at hm; omega⟩
    have hset : (A ++ List.replicate (m + 1) 0 ++ C).set A.length (UInt8.ofNat j)
        = A ++ [UInt8.ofNat j] ++ List.replicate m 0 ++ C := by
      rw [List.replicate_succ, List.append_assoc, List.set_append_right _ _ (Nat.le_refl _)]
      simp
    have hlen : A.length + 1 = (A ++ [UInt8.ofNat (j : Nat)]).length := by simp
    rw [List.foldl_cons, PackState.write, hset, hlen, ih (by simpa using hm)]
    simp only [positionBytes, List.map_cons, List.append_assoc, List.cons_append, List.nil_append,
      List.length_append, List.length_cons, List.length_nil, Nat.add_assoc, Nat.add_sub_add_right,
      Nat.zero_add, Nat.add_comm 1]

@[simp] theorem length_positionBytes (ps : List (Fin 256)) :
    (positionBytes ps).length = ps.length := List.length_map _

theorem positionBytes_append (ps qs : List (Fin 256)) :
    positionBytes (ps ++ qs) = positionBytes ps ++ positionBytes qs := List.map_append

/-- The encoder's state with positions `ps` written and `C` for the counts. -/
def packed (ps : List (Fin 256)) (C : Bytes) : PackState :=
  ⟨positionBytes ps ++ List.replicate (OMEGA - ps.length) 0 ++ C, ps.length⟩

/-- **One polynomial**: its positions, then the count in its place. -/
theorem packHintRow_packed (h : Hint) (ps : List (Fin 256)) (C : Bytes) (r : Fin 4)
    (hw : (ps ++ rowPositions h r).length ≤ OMEGA) :
    packHintRow h (packed ps C) r
      = packed (ps ++ rowPositions h r)
          (C.set r (UInt8.ofNat (ps ++ rowPositions h r).length)) := by
  rw [List.length_append] at hw
  have hfold := foldl_write (A := positionBytes ps) (C := C) (m := OMEGA - ps.length)
    (rowPositions h r) (by omega)
  rw [rowPositions, List.foldl_filter, ← rowPositions, length_positionBytes,
    ← positionBytes_append] at hfold
  have hplace : (positionBytes (ps ++ rowPositions h r)
      ++ List.replicate (OMEGA - ps.length - (rowPositions h r).length) 0).length = OMEGA := by
    simp only [length_positionBytes, List.length_append, List.length_replicate]
    omega
  rw [packHintRow, packed, hfold]
  simp only
  rw [List.set_append_right _ _ (by rw [hplace]; omega), hplace, Nat.add_sub_cancel_left, packed,
    List.length_append, Nat.sub_sub]

/-- All positions, polynomial by polynomial. -/
def hintPositions (h : Hint) : List (Fin 256) :=
  rowPositions h 0 ++ rowPositions h 1 ++ rowPositions h 2 ++ rowPositions h 3

/-- The number of set positions. -/
def hintWeight (h : Hint) : Nat := (hintPositions h).length

/-- The cumulative counts. -/
def hintCounts (h : Hint) : Bytes :=
  [UInt8.ofNat (rowPositions h 0).length,
    UInt8.ofNat (rowPositions h 0 ++ rowPositions h 1).length,
    UInt8.ofNat (rowPositions h 0 ++ rowPositions h 1 ++ rowPositions h 2).length,
    UInt8.ofNat (hintWeight h)]

/-- **What the encoder writes** for a hint of at most 80 positions: the positions, zeros, the
counts. -/
theorem packHint_eq {h : Hint} (hw : hintWeight h ≤ OMEGA) :
    packHint h = positionBytes (hintPositions h) ++ List.replicate (OMEGA - hintWeight h) 0
      ++ hintCounts h := by
  have hlen : (rowPositions h 0).length + (rowPositions h 1).length + (rowPositions h 2).length
      + (rowPositions h 3).length ≤ OMEGA := by
    simpa only [hintWeight, hintPositions, List.length_append] using hw
  have e0 := packHintRow_packed h [] [0, 0, 0, 0] 0 (by
    rw [List.nil_append]
    omega)
  have e1 := packHintRow_packed h (rowPositions h 0)
    [UInt8.ofNat (rowPositions h 0).length, 0, 0, 0] 1 (by
      rw [List.length_append]
      omega)
  have e2 := packHintRow_packed h (rowPositions h 0 ++ rowPositions h 1)
    [UInt8.ofNat (rowPositions h 0).length,
      UInt8.ofNat (rowPositions h 0 ++ rowPositions h 1).length, 0, 0] 2 (by
      simp only [List.length_append]
      omega)
  have e3 := packHintRow_packed h (rowPositions h 0 ++ rowPositions h 1 ++ rowPositions h 2)
    [UInt8.ofNat (rowPositions h 0).length,
      UInt8.ofNat (rowPositions h 0 ++ rowPositions h 1).length,
      UInt8.ofNat (rowPositions h 0 ++ rowPositions h 1 ++ rowPositions h 2).length, 0] 3 hw
  have hstart : (⟨List.replicate (OMEGA + 4) 0, 0⟩ : PackState) = packed [] [0, 0, 0, 0] := rfl
  rw [packHint, show List.finRange 4 = [0, 1, 2, 3] from rfl, hstart]
  simp only [List.foldl_cons, List.foldl_nil]
  rw [e0]
  simp only [List.nil_append]
  rw [show List.set [(0 : UInt8), 0, 0, 0] ((0 : Fin 4) : Nat)
      (UInt8.ofNat (rowPositions h 0).length) = [UInt8.ofNat (rowPositions h 0).length, 0, 0, 0]
    from rfl, e1]
  exact (congrArg (fun st => (packHintRow h st 3).out) e2).trans (congrArg PackState.out e3)

/-! ## Reading back what was written -/

theorem any_positionBytes (ps : List (Fin 256)) (j : Fin 256) :
    (positionBytes ps).any (fun b => decide (j.val = b.toNat)) = decide (j ∈ ps) := by
  induction ps with
  | nil => simp [positionBytes]
  | cons i ps ih =>
    have hbyte : (UInt8.ofNat i.val).toNat = i.val := by
      rw [UInt8.toNat_ofNat', Nat.mod_eq_of_lt i.isLt]
    rw [show positionBytes (i :: ps) = UInt8.ofNat i.val :: positionBytes ps from rfl,
      List.any_cons, ih, hbyte]
    simp [Fin.ext_iff]

/-- A piece of the positions, cut out of the region. -/
theorem take_drop_positions (ps qs rs : List (Fin 256)) (rest : Bytes) :
    ((positionBytes (ps ++ qs ++ rs) ++ rest).drop ps.length).take qs.length
      = positionBytes qs := by
  rw [positionBytes_append, positionBytes_append, List.append_assoc, List.append_assoc,
    List.drop_left' (length_positionBytes ps), List.take_left' (length_positionBytes qs)]

/-- One polynomial of an encoded hint, read behind the positions `ps` of those before it. -/
theorem unpackHintRow_packed {buf : Bytes} (hlen : buf.length = OMEGA + 4) (r : Fin 4)
    (ps qs rs : List (Fin 256)) {rest : Bytes}
    (hbuf : buf = positionBytes (ps ++ qs ++ rs) ++ rest)
    (hcount : countAt buf r = (ps ++ qs).length) (hw : (ps ++ qs).length ≤ OMEGA) (hint : Hint)
    (weight : Nat) :
    unpackHintRow buf ⟨hint, weight, ps.length⟩ r
      = some ⟨markAll hint r (positionBytes qs), weight + qs.length, (ps ++ qs).length⟩ := by
  have hslice : (buf.drop ps.length).take qs.length = positionBytes qs := by
    rw [hbuf]
    exact take_drop_positions ps qs rs rest
  have hdiff : (ps ++ qs).length - ps.length = qs.length := by
    rw [List.length_append, Nat.add_sub_cancel_left]
  rw [unpackHintRow_eq hlen, hcount, if_pos (Or.inr (by omega))]
  simp only [hdiff, hslice]

theorem countAt_packed {h : Hint} (hw : hintWeight h ≤ OMEGA) (r : Fin 4) (n : Nat)
    (hr : (hintCounts h)[(r : Nat)]? = some (UInt8.ofNat n)) (hn : n ≤ OMEGA) :
    countAt (packHint h) r = n := by
  have hhead : (positionBytes (hintPositions h) ++ List.replicate (OMEGA - hintWeight h) (0 : UInt8)).length
      = OMEGA := by
    rw [List.length_append, length_positionBytes, List.length_replicate]
    exact Nat.add_sub_cancel' hw
  have hn256 : n < 256 := hn.trans_lt (by decide)
  rw [countAt, packHint_eq hw, List.getD_eq_getElem?_getD,
    List.getElem?_append_right (by rw [hhead]; omega), hhead, Nat.add_sub_cancel_left, hr,
    Option.getD_some, UInt8.toNat_ofNat', Nat.mod_eq_of_lt hn256]

theorem length_packHint {h : Hint} (hw : hintWeight h ≤ OMEGA) :
    (packHint h).length = OMEGA + 4 := by
  rw [packHint_eq hw, List.length_append, List.length_append, length_positionBytes,
    List.length_replicate]
  exact congrArg (· + 4) (Nat.add_sub_cancel' hw)

/-- **Hints round-trip**: the decoder reads back every hint of at most 80 positions. -/
theorem unpackHint_packHint {h : Hint} (hw : hintWeight h ≤ OMEGA) :
    unpackHint (packHint h) = some (h, hintWeight h) := by
  have hlen := length_packHint hw
  have hsum : (rowPositions h 0).length + (rowPositions h 1).length + (rowPositions h 2).length
      + (rowPositions h 3).length ≤ OMEGA := by
    simpa only [hintWeight, hintPositions, List.length_append] using hw
  have hbuf : packHint h = positionBytes (hintPositions h)
      ++ (List.replicate (OMEGA - hintWeight h) 0 ++ hintCounts h) := by
    rw [packHint_eq hw, List.append_assoc]
  have h0 : (rowPositions h 0).length ≤ OMEGA := by omega
  have h1 : (rowPositions h 0 ++ rowPositions h 1).length ≤ OMEGA := by
    rw [List.length_append]
    omega
  have h2 : (rowPositions h 0 ++ rowPositions h 1 ++ rowPositions h 2).length ≤ OMEGA := by
    simp only [List.length_append]
    omega
  have hsplit0 : hintPositions h = [] ++ rowPositions h 0
      ++ (rowPositions h 1 ++ rowPositions h 2 ++ rowPositions h 3) := by
    simp only [hintPositions, List.nil_append, List.append_assoc]
  have hsplit1 : hintPositions h = rowPositions h 0 ++ rowPositions h 1
      ++ (rowPositions h 2 ++ rowPositions h 3) := by
    simp only [hintPositions, List.append_assoc]
  have hsplit3 : hintPositions h = rowPositions h 0 ++ rowPositions h 1 ++ rowPositions h 2
      ++ rowPositions h 3 ++ [] := (List.append_nil _).symm
  have e0 := unpackHintRow_packed hlen 0 [] (rowPositions h 0)
    (rowPositions h 1 ++ rowPositions h 2 ++ rowPositions h 3)
    (hbuf.trans (congrArg (positionBytes · ++ _) hsplit0))
    (countAt_packed hw 0 _ rfl h0) h0 (fun _ _ => false) 0
  have e1 := unpackHintRow_packed hlen 1 (rowPositions h 0) (rowPositions h 1)
    (rowPositions h 2 ++ rowPositions h 3)
    (hbuf.trans (congrArg (positionBytes · ++ _) hsplit1))
    (countAt_packed hw 1 _ rfl h1) h1
    (markAll (fun _ _ => false) 0 (positionBytes (rowPositions h 0)))
    (0 + (rowPositions h 0).length)
  have e2 := unpackHintRow_packed hlen 2 (rowPositions h 0 ++ rowPositions h 1)
    (rowPositions h 2) (rowPositions h 3) hbuf (countAt_packed hw 2 _ rfl h2) h2
    (markAll (markAll (fun _ _ => false) 0 (positionBytes (rowPositions h 0))) 1
      (positionBytes (rowPositions h 1)))
    (0 + (rowPositions h 0).length + (rowPositions h 1).length)
  have e3 := unpackHintRow_packed hlen 3
    (rowPositions h 0 ++ rowPositions h 1 ++ rowPositions h 2) (rowPositions h 3) []
    (hbuf.trans (congrArg (positionBytes · ++ _) hsplit3)) (countAt_packed hw 3 _ rfl hw) hw
    (markAll (markAll (markAll (fun _ _ => false) 0 (positionBytes (rowPositions h 0))) 1
      (positionBytes (rowPositions h 1))) 2 (positionBytes (rowPositions h 2)))
    (0 + (rowPositions h 0).length + (rowPositions h 1).length + (rowPositions h 2).length)
  rw [List.nil_append] at e0
  rw [unpackHint, show List.finRange 4 = [0, 1, 2, 3] from rfl]
  simp only [List.foldlM_cons, List.foldlM_nil, Option.bind_eq_bind]
  rw [show (⟨fun _ _ => false, 0, 0⟩ : UnpackState)
    = ⟨fun _ _ => false, 0, ([] : List (Fin 256)).length⟩ from rfl, e0]
  simp only [Option.bind_some]
  rw [e1]
  simp only [Option.bind_some]
  rw [e2]
  simp only [Option.bind_some]
  rw [e3]
  simp only [Option.pure_def, Option.bind_some, Option.some.injEq, Prod.mk.injEq]
  refine ⟨?_, ?_⟩
  · funext r j
    have hmem : decide (j ∈ rowPositions h r) = h r j := by
      simp [rowPositions, List.mem_filter]
    rw [← hmem]
    simp only [markAll, any_positionBytes, Bool.false_or]
    fin_cases r <;> simp
  · simp only [hintWeight, hintPositions, List.length_append, Nat.zero_add]

end DiscCleaner.MlDsa
