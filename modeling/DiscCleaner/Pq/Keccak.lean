import DiscCleaner.Lib.Sponge
import Mathlib.Data.Nat.Digits.Defs

/-!
# DiscCleaner — the Keccak sponge (`keccak.rs`)

A sponge driver that takes its input part by part and gives its output piece by piece. One
counter holds the place in the block, first of what is absorbed and then of what is squeezed, and
the state is permuted as soon as a block is full.

* **`bytes_xorByte`** — a byte added to its lane is that byte of the state, and no other.
* **`absorb_spec`**, **`squeeze_spec`** — one call, from wherever the one before left the driver.
* **`sha3_256_eq`**, **`shake256_eq`** — the functions that the signatures use.
* **`sponge_streaming`** — which inputs the driver pads as the definition does.
-/

namespace DiscCleaner.Pq.Keccak

open SpongeLib

/-! ## The permutation -/

/-- Lane `(x, y)` stands at `x + 5 * y`. -/
abbrev Lanes := Vector UInt64 25

def RC : List UInt64 :=
  [0x0000000000000001, 0x0000000000008082, 0x800000000000808a, 0x8000000080008000,
    0x000000000000808b, 0x0000000080000001, 0x8000000080008081, 0x8000000000008009,
    0x000000000000008a, 0x0000000000000088, 0x0000000080008009, 0x000000008000000a,
    0x000000008000808b, 0x800000000000008b, 0x8000000000008089, 0x8000000000008003,
    0x8000000000008002, 0x8000000000000080, 0x000000000000800a, 0x800000008000000a,
    0x8000000080008081, 0x8000000000008080, 0x0000000080000001, 0x8000000080008008]

/-- Row `x`, column `y`. -/
def RHO : Vector (Vector Nat 5) 5 :=
  #v[#v[0, 36, 3, 41, 18], #v[1, 44, 10, 45, 2], #v[62, 6, 43, 15, 61], #v[28, 55, 25, 21, 56],
    #v[27, 20, 39, 8, 14]]

def rotateLeft (v : UInt64) (n : Nat) : UInt64 := ⟨v.toBitVec.rotateLeft n⟩

/-- The lane `(x, y)`. -/
def lane (a : Lanes) (x y : Fin 5) : UInt64 := a[x.val + 5 * y.val]

/-- A state from its lanes. -/
def ofLanes (g : Fin 5 → Fin 5 → UInt64) : Lanes := Vector.ofFn fun i : Fin 25 =>
  g ⟨i % 5, by omega⟩ ⟨i / 5, by omega⟩

def theta (a : Lanes) : Lanes :=
  let c : Fin 5 → UInt64 := fun x =>
    lane a x 0 ^^^ lane a x 1 ^^^ lane a x 2 ^^^ lane a x 3 ^^^ lane a x 4
  ofLanes fun x y => lane a x y ^^^ (c (x + 4) ^^^ rotateLeft (c (x + 1)) 1)

/-- `B[y, (2x + 3y) mod 5] = rot(A[x, y], RHO[x][y])`. -/
def rhoPi (a : Lanes) : Lanes :=
  (List.finRange 5).foldl (fun b x =>
    (List.finRange 5).foldl (fun b y =>
      b.set! (y.val + 5 * ((2 * x.val + 3 * y.val) % 5)) (rotateLeft (lane a x y) RHO[x][y])) b)
    (Vector.replicate 25 0)

def chi (b : Lanes) : Lanes :=
  ofLanes fun x y => lane b x y ^^^ (~~~lane b (x + 1) y &&& lane b (x + 2) y)

def iota (a : Lanes) (rc : UInt64) : Lanes := a.set 0 (a[0] ^^^ rc)

def keccakF1600 (a : Lanes) : Lanes :=
  RC.foldl (fun a rc => iota (chi (rhoPi (theta a))) rc) a

/-! ## The driver -/

def RATE : Nat := 136

/-- `pos`: bytes of the block absorbed, or squeezed out. -/
structure KeccakSponge where
  state : Lanes
  pos : Nat
  squeezing : Bool

/-- Little-endian lane packing. -/
def xorByte (state : Lanes) (offset : Nat) (byte : UInt8) : Option Lanes :=
  if h : offset / 8 < 25 then
    some (state.set (offset / 8)
      (state[offset / 8] ^^^ (byte.toUInt64 <<< UInt64.ofNat (8 * (offset % 8)))))
  else none

def byteAt (state : Lanes) (offset : Nat) : Option UInt8 :=
  if h : offset / 8 < 25 then
    some ((state[offset / 8] >>> UInt64.ofNat (8 * (offset % 8))) &&& 0xFF).toUInt8
  else none

/-- `for k in 0..take` of `absorb`. -/
def xorRun (state : Lanes) (pos : Nat) : List UInt8 → Option Lanes
  | [] => some state
  | b :: bs => do
    let state ← xorByte state pos b
    xorRun state (pos + 1) bs

/-- `for k in 0..take` of `squeeze`. -/
def readRun (state : Lanes) (pos : Nat) : Nat → Option (List UInt8)
  | 0 => some []
  | take + 1 => do
    let b ← byteAt state pos
    let bs ← readRun state (pos + 1) take
    some (b :: bs)

namespace KeccakSponge

def new : KeccakSponge := ⟨Vector.replicate 25 0, 0, false⟩

section
variable (permute : Lanes → Lanes)

/-- The place moves on; a full block is permuted at once. -/
def advance (s : KeccakSponge) (state : Lanes) (take : Nat) : KeccakSponge :=
  if s.pos + take = RATE then { s with state := permute state, pos := 0 }
  else { s with state := state, pos := s.pos + take }

/-- `while i < data.len()`; `RATE - pos` may not go below zero. -/
def absorbLoop : Nat → KeccakSponge → List UInt8 → Option KeccakSponge
  | _, s, [] => some s
  | 0, _, _ :: _ => none
  | fuel + 1, s, b :: bs =>
    if RATE < s.pos then none
    else
      let take := min (RATE - s.pos) (b :: bs).length
      do
        let state ← xorRun s.state s.pos ((b :: bs).take take)
        absorbLoop fuel (s.advance permute state take) ((b :: bs).drop take)

/-- `none` is the assertion: absorb after squeeze. -/
def absorb (s : KeccakSponge) (data : List UInt8) : Option KeccakSponge :=
  if s.squeezing then none else absorbLoop permute data.length s data

/-- `none` is the assertion: double finalize. -/
def finalizeXof (s : KeccakSponge) (domain : UInt8) : Option KeccakSponge :=
  if s.squeezing then none
  else do
    let state ← xorByte s.state s.pos domain
    let state ← xorByte state (RATE - 1) 0x80
    some ⟨permute state, 0, true⟩

/-- `while i < out.len()`, for the `len` bytes still to be written. -/
def squeezeLoop : Nat → KeccakSponge → Nat → Option (List UInt8 × KeccakSponge)
  | _, s, 0 => some ([], s)
  | 0, _, _ + 1 => none
  | fuel + 1, s, len + 1 =>
    if RATE < s.pos then none
    else
      let take := min (RATE - s.pos) (len + 1)
      do
        let out ← readRun s.state s.pos take
        let (rest, s) ← squeezeLoop fuel (s.advance permute s.state take) (len + 1 - take)
        some (out ++ rest, s)

/-- `none` is the assertion: squeeze before finalize. -/
def squeeze (s : KeccakSponge) (len : Nat) : Option (List UInt8 × KeccakSponge) :=
  if s.squeezing then squeezeLoop permute len s len else none

/-- One `squeeze` after the other, the outputs put together. -/
def squeezeAll (s : KeccakSponge) : List Nat → Option (List UInt8)
  | [] => some []
  | len :: lens => do
    let (out, s) ← squeeze permute s len
    let rest ← squeezeAll s lens
    some (out ++ rest)

/-- The parts absorbed one by one, the padding, the pieces squeezed one by one. -/
def stream (parts : List (List UInt8)) (domain : UInt8) (lens : List Nat) :
    Option (List UInt8) := do
  let s ← parts.foldlM (absorb permute) new
  let s ← finalizeXof permute s domain
  squeezeAll permute s lens

end

end KeccakSponge

open KeccakSponge

def sha3_256 (data : List UInt8) : Option (List UInt8) := do
  let s ← absorb keccakF1600 new data
  let s ← finalizeXof keccakF1600 s 0x06
  let (out, _) ← squeeze keccakF1600 s 32
  some out

def shake256 (input : List UInt8) (len : Nat) : Option (List UInt8) := do
  let s ← absorb keccakF1600 new input
  let s ← finalizeXof keccakF1600 s 0x1F
  let (out, _) ← squeeze keccakF1600 s len
  some out

/-! ## Lanes and bytes -/

/-- The bytes of the lanes, as the definition numbers them. -/
def bytesOf (state : Lanes) : Bytes 200 := fun i =>
  (state[i.val / 8] >>> UInt64.ofNat (8 * (i.val % 8))).toUInt8

/-- Eight bytes, lowest first. -/
def loadLane (b : Nat → UInt8) : UInt64 :=
  UInt64.ofNat (Nat.ofDigits 256 ((List.range 8).map fun k => (b k).toNat))

def lanesOf (bytes : Bytes 200) : Lanes :=
  Vector.ofFn fun l : Fin 25 => loadLane fun k => byte bytes (8 * l + k)

/-- A map of the lanes, on the bytes. -/
def onBytes (permute : Lanes → Lanes) (bytes : Bytes 200) : Bytes 200 :=
  bytesOf (permute (lanesOf bytes))

theorem toNat_byteOf (v : UInt64) {k : Nat} (hk : k < 8) :
    (v >>> UInt64.ofNat (8 * k)).toUInt8.toNat = v.toNat / 256 ^ k % 256 := by
  have hpow : 2 ^ (8 * k) = 256 ^ k := pow_mul 2 8 k
  rw [UInt64.toNat_toUInt8, UInt64.toNat_shiftRight, UInt64.toNat_ofNat', Nat.shiftRight_eq_div_pow,
    Nat.mod_eq_of_lt (a := 8 * k) (by omega), Nat.mod_eq_of_lt (a := 8 * k) (by omega), hpow]

theorem byteAt_eq (state : Lanes) {offset : Nat} (h : offset < 200) :
    byteAt state offset = some (byte (bytesOf state) offset) := by
  have hlane : offset / 8 < 25 := by omega
  unfold byteAt byte
  rw [dif_pos hlane, dif_pos h]
  congr 1
  rw [← UInt8.toNat_inj]
  have hmask : ∀ v : UInt64, (v &&& 0xFF).toUInt8.toNat = v.toUInt8.toNat := by
    intro v
    rw [UInt64.toNat_toUInt8, UInt64.toNat_toUInt8, UInt64.toNat_and]
    show (v.toNat &&& (2 ^ 8 - 1)) % 2 ^ 8 = _
    rw [Nat.and_two_pow_sub_one_eq_mod, Nat.mod_mod]
  exact hmask _

/-- A shifted byte seen through another shift. -/
theorem shifted_byte {b j k : Nat} (hb : b < 256) (hk : k < 8) :
    b * 256 ^ k % 2 ^ 64 / 256 ^ j % 256 = if j = k then b else 0 := by
  have hfit : b * 256 ^ k < 256 ^ (k + 1) := by
    rw [pow_succ', Nat.mul_lt_mul_right (by positivity)]
    exact hb
  have hword : 256 ^ (k + 1) ≤ 2 ^ 64 := by
    show _ ≤ 256 ^ 8
    exact Nat.pow_le_pow_right (by decide) hk
  rw [Nat.mod_eq_of_lt (lt_of_lt_of_le hfit hword)]
  obtain hlt | rfl | hgt := lt_trichotomy j k
  · have hsplit : b * 256 ^ k = b * 256 ^ (k - j - 1) * 256 * 256 ^ j := by
      rw [mul_assoc, mul_assoc, ← pow_succ', ← pow_add]
      congr 2
      omega
    rw [if_neg (by omega), hsplit, Nat.mul_div_cancel _ (by positivity), Nat.mul_mod_left]
  · rw [if_pos rfl, Nat.mul_div_cancel _ (by positivity), Nat.mod_eq_of_lt hb]
  · rw [if_neg (by omega), Nat.div_eq_of_lt, Nat.zero_mod]
    exact lt_of_lt_of_le hfit (Nat.pow_le_pow_right (by decide) hgt)

/-- A byte of a lane that a byte was added to. -/
theorem byteOf_xor (v : UInt64) (b : UInt8) {j k : Nat} (hj : j < 8) (hk : k < 8) :
    ((v ^^^ (b.toUInt64 <<< UInt64.ofNat (8 * k))) >>> UInt64.ofNat (8 * j)).toUInt8 =
      (v >>> UInt64.ofNat (8 * j)).toUInt8 ^^^ if j = k then b else 0 := by
  have hshift : (b.toUInt64 <<< UInt64.ofNat (8 * k)).toNat = b.toNat * 256 ^ k % 2 ^ 64 := by
    have hpow : 2 ^ (8 * k) = 256 ^ k := pow_mul 2 8 k
    rw [UInt64.toNat_shiftLeft, UInt64.toNat_ofNat', UInt8.toNat_toUInt64, Nat.shiftLeft_eq,
      Nat.mod_eq_of_lt (a := 8 * k) (by omega), Nat.mod_eq_of_lt (a := 8 * k) (by omega), hpow]
  have hif : (if j = k then b else 0).toNat = if j = k then b.toNat else 0 := by
    split <;> rfl
  have h256 : 256 ^ j = 2 ^ (8 * j) := (pow_mul 2 8 j).symm
  rw [← UInt8.toNat_inj, toNat_byteOf _ hj, UInt64.toNat_xor, UInt8.toNat_xor, toNat_byteOf _ hj,
    hshift, hif, ← shifted_byte b.toNat_lt hk, h256, Nat.xor_div_two_pow]
  exact Nat.xor_mod_two_pow (n := 8)

/-- A byte added to its lane is that byte of the state, and no other. -/
theorem bytes_xorByte (state : Lanes) {offset : Nat} (h : offset < 200) (b : UInt8) :
    ∃ state', xorByte state offset b = some state' ∧
      bytesOf state' = xorFrom (bytesOf state) offset [b] := by
  have hlane : offset / 8 < 25 := by omega
  refine ⟨_, dif_pos hlane, ?_⟩
  funext i
  have hrun : xorFrom (bytesOf state) offset [b] i =
      bytesOf state i ^^^ if i.val = offset then b else 0 := by
    unfold xorFrom
    by_cases hi : offset ≤ i
    · by_cases he : i.val = offset
      · simp [he]
      · rw [if_pos hi, if_neg he, List.getD_eq_default _ _ (by simp; omega)]
    · rw [if_neg hi, if_neg (by omega), UInt8.xor_zero]
  rw [hrun]
  unfold bytesOf
  rw [Vector.getElem_set]
  by_cases hl : offset / 8 = i.val / 8
  · have hiff : i.val % 8 = offset % 8 ↔ i.val = offset := by omega
    rw [if_pos hl, byteOf_xor _ _ (Nat.mod_lt _ (by decide)) (Nat.mod_lt _ (by decide)),
      if_congr hiff rfl rfl]
    simp only [hl]
  · rw [if_neg hl, if_neg (fun he => hl (by rw [he])), UInt8.xor_zero]

theorem toNat_loadLane (b : Nat → UInt8) : (loadLane b).toNat =
    (b 0).toNat + 256 * ((b 1).toNat + 256 * ((b 2).toNat + 256 * ((b 3).toNat + 256 *
      ((b 4).toNat + 256 * ((b 5).toNat + 256 * ((b 6).toNat + 256 * (b 7).toNat)))))) := by
  unfold loadLane
  rw [UInt64.toNat_ofNat', Nat.mod_eq_of_lt]
  · simp [List.range_succ, Nat.ofDigits]
  · have hlt := Nat.ofDigits_lt_base_pow_length (b := 256)
      (l := (List.range 8).map fun k => (b k).toNat) (by decide)
      (by simpa using fun k (_ : k < 8) => (b k).toNat_lt)
    simpa using hlt

theorem lanesOf_bytesOf (state : Lanes) : lanesOf (bytesOf state) = state := by
  refine Vector.ext fun l hl => ?_
  have hbyte : ∀ k < 8, (byte (bytesOf state) (8 * l + k)).toNat =
      state[l].toNat / 256 ^ k % 256 := by
    intro k hk
    have hdiv : (8 * l + k) / 8 = l := by omega
    have hmod : (8 * l + k) % 8 = k := by omega
    unfold byte bytesOf
    rw [dif_pos (by omega)]
    simp only [hdiv, hmod]
    exact toNat_byteOf _ hk
  have hv : state[l].toNat < 256 ^ 8 := state[l].toNat_lt
  -- A byte and what stands above it make what stands from it on.
  have hsplit (k : Nat) : state[l].toNat / 256 ^ k % 256 + 256 * (state[l].toNat / 256 ^ (k + 1))
      = state[l].toNat / 256 ^ k := by
    rw [pow_succ, ← Nat.div_div_eq_div_mul]
    exact Nat.mod_add_div _ 256
  have htop : state[l].toNat / 256 ^ 7 % 256 = state[l].toNat / 256 ^ (6 + 1) :=
    Nat.mod_eq_of_lt (Nat.div_lt_of_lt_mul hv)
  unfold lanesOf
  rw [Vector.getElem_ofFn, ← UInt64.toNat_inj, toNat_loadLane, hbyte 0 (by decide),
    hbyte 1 (by decide), hbyte 2 (by decide), hbyte 3 (by decide), hbyte 4 (by decide),
    hbyte 5 (by decide), hbyte 6 (by decide), hbyte 7 (by decide), htop, hsplit 6, hsplit 5,
    hsplit 4, hsplit 3, hsplit 2, hsplit 1, hsplit 0, pow_zero, Nat.div_one]

theorem onBytes_bytesOf (permute : Lanes → Lanes) (state : Lanes) :
    onBytes permute (bytesOf state) = bytesOf (permute state) := by
  unfold onBytes
  rw [lanesOf_bytesOf]

theorem bytesOf_new : bytesOf new.state = fun _ => 0 := by
  funext i
  unfold bytesOf new
  rw [Vector.getElem_replicate]
  simp

/-! ## One call -/

theorem xorRun_spec (state : Lanes) (pos : Nat) (run : List UInt8) (h : pos + run.length ≤ 200) :
    ∃ state', xorRun state pos run = some state' ∧
      bytesOf state' = xorFrom (bytesOf state) pos run := by
  induction run generalizing state pos with
  | nil => exact ⟨state, rfl, (xorFrom_nil _ pos).symm⟩
  | cons b run ih =>
    rw [List.length_cons] at h
    obtain ⟨next, hbyte, hnext⟩ := bytes_xorByte state (show pos < 200 by omega) b
    obtain ⟨state', hrun, hstate⟩ := ih next (pos + 1) (by omega)
    refine ⟨state', ?_, ?_⟩
    · simp only [xorRun, hbyte, Option.bind_eq_bind, Option.bind_some, hrun]
    · rw [hstate, hnext]
      exact (xorFrom_append (bytesOf state) pos [b] run).symm

theorem readRun_spec (state : Lanes) {pos take : Nat} (h : pos + take ≤ 200) :
    readRun state pos take =
      some ((List.range take).map fun k => byte (bytesOf state) (pos + k)) := by
  induction take generalizing pos with
  | zero => rfl
  | succ take ih =>
    rw [readRun, byteAt_eq state (by omega), ih (by omega), List.range_succ_eq_map, List.map_cons,
      List.map_map]
    simp only [Option.bind_eq_bind, Option.bind_some, Nat.add_zero, Option.some.injEq,
      List.cons.injEq, true_and]
    refine List.map_congr_left fun k _ => ?_
    show byte _ (pos + 1 + k) = byte _ (pos + (k + 1))
    rw [Nat.add_assoc, Nat.add_comm 1 k]

variable (permute : Lanes → Lanes)

/-- The driver has absorbed a message. -/
structure Took (m : List UInt8) (s : KeccakSponge) : Prop where
  absorbed : Absorbed (onBytes permute) RATE m (bytesOf s.state) s.pos
  open_ : s.squeezing = false

/-- The driver has given out `n` bytes of what a state holds. -/
structure Gave (s₀ : Bytes 200) (n : Nat) (s : KeccakSponge) : Prop where
  squeezed : Squeezed (onBytes permute) RATE s₀ n (bytesOf s.state) s.pos
  closed : s.squeezing = true

theorem took_new : Took permute [] new := by
  refine ⟨?_, rfl⟩
  rw [bytesOf_new]
  exact Absorbed.start (by decide)

variable {permute}

/-- A run that ends in the block, or at its end. -/
theorem Took.advance {m : List UInt8} {s : KeccakSponge} (h : Took permute m s) (run : List UInt8)
    (hrun : s.pos + run.length ≤ RATE) {state : Lanes}
    (hstate : bytesOf state = xorFrom (bytesOf s.state) s.pos run) :
    Took permute (m ++ run) (s.advance permute state run.length) := by
  unfold KeccakSponge.advance
  split_ifs with hfull
  · refine ⟨?_, h.open_⟩
    show Absorbed (onBytes permute) RATE (m ++ run) (bytesOf (permute state)) 0
    rw [← onBytes_bytesOf, hstate]
    exact h.absorbed.full hfull
  · refine ⟨?_, h.open_⟩
    show Absorbed (onBytes permute) RATE (m ++ run) (bytesOf state) (s.pos + run.length)
    rw [hstate]
    exact h.absorbed.within (by omega)

theorem absorbLoop_spec {fuel : Nat} {data : List UInt8} (hfuel : data.length ≤ fuel)
    {m : List UInt8} {s : KeccakSponge} (h : Took permute m s) :
    ∃ s', absorbLoop permute fuel s data = some s' ∧ Took permute (m ++ data) s' := by
  induction fuel generalizing data m s with
  | zero =>
    obtain rfl := List.length_eq_zero_iff.mp (Nat.le_zero.mp hfuel)
    exact ⟨s, by simp [absorbLoop], by rwa [List.append_nil]⟩
  | succ fuel ih =>
    cases data with
    | nil => exact ⟨s, by simp [absorbLoop], by rwa [List.append_nil]⟩
    | cons b bs =>
      have hpos : s.pos < RATE := h.absorbed.pos_lt
      have hrate : RATE = 136 := rfl
      let take := min (RATE - s.pos) (b :: bs).length
      have htake : 1 ≤ take := Nat.le_min.mpr ⟨by omega, Nat.succ_pos _⟩
      have hroom : take ≤ RATE - s.pos := Nat.min_le_left _ _
      have hlen : ((b :: bs).take take).length = take :=
        List.length_take_of_le (Nat.min_le_right _ _)
      obtain ⟨state, hrun, hstate⟩ := xorRun_spec s.state s.pos ((b :: bs).take take)
        (by omega)
      have hnext := h.advance ((b :: bs).take take) (by omega) hstate
      rw [hlen] at hnext
      have hdrop : ((b :: bs).drop take).length ≤ fuel := by
        rw [List.length_drop]
        omega
      obtain ⟨s', hloop, htook⟩ := ih hdrop hnext
      refine ⟨s', ?_, ?_⟩
      · rw [absorbLoop, if_neg (by omega)]
        show (xorRun s.state s.pos ((b :: bs).take take)).bind _ = _
        rw [hrun]
        exact hloop
      · rwa [List.append_assoc, List.take_append_drop] at htook

/-- **`absorb`** puts its part behind the message, wherever the one before ended. -/
theorem absorb_spec {m : List UInt8} {s : KeccakSponge} (h : Took permute m s)
    (data : List UInt8) :
    ∃ s', KeccakSponge.absorb permute s data = some s' ∧ Took permute (m ++ data) s' := by
  rw [KeccakSponge.absorb, h.open_, if_neg Bool.false_ne_true]
  exact absorbLoop_spec le_rfl h

theorem absorbAll_spec {m : List UInt8} {s : KeccakSponge} (h : Took permute m s)
    (parts : List (List UInt8)) :
    ∃ s', parts.foldlM (KeccakSponge.absorb permute) s = some s' ∧
      Took permute (m ++ parts.flatten) s' := by
  induction parts generalizing m s with
  | nil => exact ⟨s, rfl, by simpa using h⟩
  | cons part parts ih =>
    obtain ⟨next, habsorb, hnext⟩ := absorb_spec h part
    obtain ⟨s', hrest, htook⟩ := ih hnext
    refine ⟨s', ?_, ?_⟩
    · rw [List.foldlM_cons, habsorb]
      exact hrest
    · rwa [List.flatten_cons, ← List.append_assoc]

/-- **`finalize_xof`** leaves the state of the padded message, unless the domain byte and the end of
the padding fall together and both have the top bit. -/
theorem finalizeXof_spec {m : List UInt8} {s : KeccakSponge} (h : Took permute m s) {domain : UInt8}
    (hroom : ¬(0x80 ≤ domain ∧ m.length % RATE + 1 = RATE)) :
    ∃ s', finalizeXof permute s domain = some s' ∧
      Gave permute (digestState (onBytes permute) RATE domain m) 0 s' := by
  have hpos : s.pos < RATE := h.absorbed.pos_lt
  have hrate : RATE = 136 := rfl
  obtain ⟨state, hdomain, hstate⟩ := bytes_xorByte s.state (show s.pos < 200 by omega) domain
  obtain ⟨last, hend, hlast⟩ := bytes_xorByte state (show RATE - 1 < 200 by omega) 0x80
  refine ⟨⟨permute last, 0, true⟩, ?_, ?_, rfl⟩
  · rw [finalizeXof, h.open_, if_neg Bool.false_ne_true]
    simp only [hdomain, hend, Option.bind_eq_bind, Option.bind_some]
  · rw [h.absorbed.pos_eq] at hroom
    rw [← h.absorbed.close hroom, ← hstate, ← hlast, onBytes_bytesOf]
    exact Squeezed.start (by decide) _

/-- A piece that ends in the block, or at its end. -/
theorem Gave.advance {s₀ : Bytes 200} {n : Nat} {s : KeccakSponge} (h : Gave permute s₀ n s)
    (take : Nat) (htake : s.pos + take ≤ RATE) :
    Gave permute s₀ (n + take) (s.advance permute s.state take) := by
  unfold KeccakSponge.advance
  split_ifs with hfull
  · refine ⟨?_, h.closed⟩
    show Squeezed (onBytes permute) RATE s₀ (n + take) (bytesOf (permute s.state)) 0
    rw [← onBytes_bytesOf]
    exact h.squeezed.full hfull
  · exact ⟨h.squeezed.within (by omega), h.closed⟩

/-- What is read of the block is what comes next. -/
theorem Gave.readRun {s₀ : Bytes 200} {n : Nat} {s : KeccakSponge} (h : Gave permute s₀ n s)
    (take : Nat) (htake : s.pos + take ≤ RATE) :
    readRun s.state s.pos take =
      some ((List.range take).map fun k => outByte (onBytes permute) RATE s₀ (n + k)) := by
  have hrate : RATE = 136 := rfl
  rw [readRun_spec s.state (by omega)]
  congr 1
  refine List.map_congr_left fun k hk => ?_
  rw [List.mem_range] at hk
  exact h.squeezed.byte_eq (by omega)

theorem squeezeLoop_spec {fuel len : Nat} (hfuel : len ≤ fuel) {s₀ : Bytes 200} {n : Nat}
    {s : KeccakSponge} (h : Gave permute s₀ n s) :
    ∃ s', squeezeLoop permute fuel s len =
        some ((List.range len).map fun k => outByte (onBytes permute) RATE s₀ (n + k), s') ∧
      Gave permute s₀ (n + len) s' := by
  induction fuel generalizing len n s with
  | zero =>
    obtain rfl := Nat.le_zero.mp hfuel
    exact ⟨s, by simp [squeezeLoop], h⟩
  | succ fuel ih =>
    cases len with
    | zero => exact ⟨s, by simp [squeezeLoop], h⟩
    | succ len =>
      have hpos : s.pos < RATE := h.squeezed.pos_lt
      let take := min (RATE - s.pos) (len + 1)
      have htake : 1 ≤ take := Nat.le_min.mpr ⟨by omega, Nat.succ_pos _⟩
      have hroom : take ≤ RATE - s.pos := Nat.min_le_left _ _
      have hle : take ≤ len + 1 := Nat.min_le_right _ _
      have hread := h.readRun take (by omega)
      have hnext := h.advance take (by omega)
      have hleft : len + 1 - take ≤ fuel := by omega
      obtain ⟨s', hloop, hgave⟩ := ih hleft hnext
      refine ⟨s', ?_, ?_⟩
      · rw [squeezeLoop, if_neg (by omega)]
        show (Keccak.readRun s.state s.pos take).bind _ = _
        rw [hread]
        show (squeezeLoop permute fuel (s.advance permute s.state take) (len + 1 - take)).bind _ = _
        rw [hloop]
        have hsplit : len + 1 = take + (len + 1 - take) := by omega
        conv_rhs => rw [hsplit, List.range_add, List.map_append, List.map_map]
        simp only [Option.bind_some, Option.some.injEq, Prod.mk.injEq, and_true,
          List.append_cancel_left_eq]
        refine List.map_congr_left fun k _ => ?_
        rw [Function.comp_apply, Nat.add_assoc]
      · rwa [Nat.add_assoc, Nat.add_sub_cancel' hle] at hgave

/-- **`squeeze`** gives the bytes that come next, wherever the one before ended. -/
theorem squeeze_spec {s₀ : Bytes 200} {n : Nat} {s : KeccakSponge} (h : Gave permute s₀ n s)
    (len : Nat) :
    ∃ s', KeccakSponge.squeeze permute s len =
        some ((List.range len).map fun k => outByte (onBytes permute) RATE s₀ (n + k), s') ∧
      Gave permute s₀ (n + len) s' := by
  rw [KeccakSponge.squeeze, h.closed, if_pos rfl]
  exact squeezeLoop_spec le_rfl h

theorem squeezeAll_spec {s₀ : Bytes 200} {n : Nat} {s : KeccakSponge} (h : Gave permute s₀ n s)
    (lens : List Nat) :
    squeezeAll permute s lens =
      some ((List.range lens.sum).map fun k => outByte (onBytes permute) RATE s₀ (n + k)) := by
  induction lens generalizing n s with
  | nil => rfl
  | cons len lens ih =>
    obtain ⟨next, hout, hnext⟩ := squeeze_spec h len
    rw [squeezeAll, hout]
    show (squeezeAll permute next lens).bind _ = _
    rw [ih hnext, List.sum_cons, List.range_add, List.map_append, List.map_map]
    simp only [Option.bind_some, Option.some.injEq, List.append_cancel_left_eq]
    refine List.map_congr_left fun k _ => ?_
    rw [Function.comp_apply, Nat.add_assoc]

/-! ## The functions over the permutation of the standard -/

theorem room_of_lt {domain : UInt8} (h : domain < 0x80) (n : Nat) :
    ¬(0x80 ≤ domain ∧ n % RATE + 1 = RATE) := fun hroom =>
  absurd h (UInt8.not_lt.mpr hroom.1)

/-- One part, one piece. -/
theorem digest_eq (data : List UInt8) {domain : UInt8} (h : domain < 0x80) (len : Nat) :
    (do
      let s ← absorb keccakF1600 new data
      let s ← finalizeXof keccakF1600 s domain
      let (out, _) ← squeeze keccakF1600 s len
      some out) = some (sponge (onBytes keccakF1600) RATE domain data len) := by
  obtain ⟨s, habsorb, htook⟩ := absorb_spec (took_new keccakF1600) data
  obtain ⟨s', hfinal, hgave⟩ := finalizeXof_spec htook (room_of_lt h _)
  obtain ⟨s'', hout, _⟩ := squeeze_spec hgave len
  simp only [habsorb, hfinal, hout, Option.bind_eq_bind, Option.bind_some, List.nil_append,
    Nat.zero_add, sponge_eq (onBytes keccakF1600) RATE (by decide) (by decide)]

theorem sha3_256_eq (data : List UInt8) :
    sha3_256 data = some (sponge (onBytes keccakF1600) RATE 0x06 data 32) :=
  digest_eq data (by decide) 32

theorem shake256_eq (input : List UInt8) (len : Nat) :
    shake256 input len = some (sponge (onBytes keccakF1600) RATE 0x1F input len) :=
  digest_eq input (by decide) len

/-! ## The whole stream -/

/-- **The streaming driver computes the sponge.** However the input is cut into parts and the output
into pieces, the pieces together are the first bytes of the sponge of the parts together, unless the
domain byte has the top bit and takes the last byte of a block. The message that the sponge absorbs
is padded with the suffix of the domain and `pad10*1`. -/
theorem sponge_streaming (permute : Lanes → Lanes) (parts : List (List UInt8)) (domain : UInt8)
    (lens : List Nat) (h : domain < 0x80 ∨ parts.flatten.length % RATE ≠ RATE - 1) :
    stream permute parts domain lens =
        some (sponge (onBytes permute) RATE domain parts.flatten lens.sum) ∧
      (domain ≠ 0 → bitsOf (parts.flatten ++ padding RATE domain parts.flatten.length) =
        bitsOf parts.flatten ++ (suffix domain ++
          pad101 (8 * RATE) ((bitsOf parts.flatten).length + (suffix domain).length))) := by
  refine ⟨?_, fun hdomain => bitsOf_padding (by decide) hdomain parts.flatten⟩
  have hroom : ¬(0x80 ≤ domain ∧ parts.flatten.length % RATE + 1 = RATE) := by
    rintro ⟨htop, hlast⟩
    rcases h with hlow | hplace
    · exact absurd hlow (UInt8.not_lt.mpr htop)
    · exact hplace (Nat.eq_sub_of_add_eq hlast)
  obtain ⟨s, habsorb, htook⟩ := absorbAll_spec (took_new permute) parts
  obtain ⟨s', hfinal, hgave⟩ := finalizeXof_spec htook hroom
  rw [stream, habsorb]
  show (finalizeXof permute s domain).bind _ = _
  rw [hfinal]
  show squeezeAll permute s' lens = _
  rw [squeezeAll_spec hgave, sponge_eq _ _ (by decide) (by decide)]
  simp only [List.nil_append, Nat.zero_add]

/-- Three bytes in two parts, 32 bytes in three pieces. -/
theorem sponge_streaming_three_bytes :
    stream keccakF1600 [[0x61], [0x62, 0x63]] 0x06 [16, 0, 16] =
      some (sponge (onBytes keccakF1600) RATE 0x06 [0x61, 0x62, 0x63] 32) :=
  (sponge_streaming keccakF1600 [[0x61], [0x62, 0x63]] 0x06 [16, 0, 16] (Or.inl (by decide))).1

/-- Every bit of the state turned over. -/
def turnOver (a : Lanes) : Lanes := a.map (~~~ ·)

/-- The domain byte 0x80 in the last byte of a block: the driver cancels it. -/
theorem top_bit_cancelled :
    stream turnOver [List.replicate 135 0] 0x80 [1] = some [0xFF] ∧
      sponge (onBytes turnOver) RATE 0x80 (List.replicate 135 0) 1 = [0x00] := by
  decide +kernel

end DiscCleaner.Pq.Keccak
