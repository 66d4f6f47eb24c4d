import DiscCleaner.Lib.BigEndian
import DiscCleaner.Lib.Slices

/-!
# DiscCleaner — the extended capability walk (`dvsec.rs`)

`find_cxl_dvsecs` walks the extended capabilities of a PCIe configuration space and collects the
DVSEC structures of the CXL vendor. The length check lets 256 bytes pass, and the first word is read
behind them. The link is read from the upper half of a header without being shifted down, so in a
space of 4096 bytes the walk ends with its first entry.

* **`walkDvsecs`** — the loop with its guard, and what a turn reads.
* **`Follows`** — the offsets a walk meets.
* **`ExtChain`** — a well-formed chain, as its headers lay it out.
* **`walk_sound_iff`** — when the walk returns, and when it returns the structures of the chain.
-/

namespace DiscCleaner

namespace Cxl

open ByteLib SliceLib

inductive DvsecError where
  | tooShort (len : Nat)
  | malformedChain (offset : Nat)
  | noCxlDvsec
  | noRegisterBlock
  deriving DecidableEq

/-- One parsed DVSEC structure. -/
structure Dvsec where
  offset : Nat
  revision : Nat
  length : Nat
  id : Nat
  body : Bytes
  deriving DecidableEq

def PCIE_EXT_CAP_DVSEC : Nat := 0x23
def CXL_DVSEC_VENDOR_ID : Nat := 0x1e98

/-! ## The walk -/

/-- `u16::from_le_bytes` of two indexed bytes. -/
def word? (config : Bytes) (i : Nat) : Option Nat := do
  let a ← config[i]?
  let b ← config[i + 1]?
  some (ofLe [a, b])

/-- The DVSEC of the CXL vendor at an offset, if there is one. -/
def cxlDvsec? (config : Bytes) (base : Nat) : Option (Option Dvsec) := do
  let capId ← word? config base
  if capId = PCIE_EXT_CAP_DVSEC then
    let hdr1 ← (range? config (base + 4) (base + 8)).map ofLe
    let vendor := hdr1 &&& 0xffff
    let revision := (hdr1 >>> 16) &&& 0xf
    let length := (hdr1 >>> 20) &&& 0xfff
    let id ← word? config (base + 8)
    let bodyEnd := base + max length 12
    let body := (range? config (base + 12) bodyEnd).getD []
    if vendor = CXL_DVSEC_VENDOR_ID then some (some ⟨base, revision, length, id, body⟩)
    else some none
  else some none

/-- The loop goes on at `next`. -/
def Continues (config : Bytes) (next : Nat) : Prop :=
  next ≠ 0 ∧ 0x40 ≤ next ∧ next + 12 ≤ config.length

instance (config : Bytes) (next : Nat) : Decidable (Continues config next) :=
  inferInstanceAs (Decidable (_ ∧ _))

/-- The loop, with the turns the guard still allows. -/
def walkDvsecs (config : Bytes) : Nat → Nat → List Dvsec →
    Option (Except DvsecError (List Dvsec))
  | 0, next, out =>
    if Continues config next then some (.error (.malformedChain next)) else some (.ok out)
  | left + 1, next, out =>
    if Continues config next then do
      let capNext := (← word? config (next + 2)) &&& 0xfffc
      let found ← cxlDvsec? config next
      walkDvsecs config left capNext (out ++ found.toList)
    else some (.ok out)

/-- `find_cxl_dvsecs`; nothing when an index is out of range. -/
def findCxlDvsecs (config : Bytes) : Option (Except DvsecError (List Dvsec)) :=
  if config.length < 256 then some (.error (.tooShort config.length))
  else do
    let firstId ← word? config 0x100
    let next := if firstId = 0 then 0 else 0x100
    match ← walkDvsecs config 256 next [] with
    | .error e => some (.error e)
    | .ok [] => some (.error .noCxlDvsec)
    | .ok out => some (.ok out)

/-! ## What a turn reads -/

/-- The half word at an offset. -/
def wordAt (config : Bytes) (i : Nat) : Nat := ofLe (slice config i 2)

theorem word?_eq {config : Bytes} {i : Nat} (h : i + 2 ≤ config.length) :
    word? config i = some (wordAt config i) := by
  have hslice : slice config i 2 = [config[i], config[i + 1]] := by
    rw [slice, List.drop_eq_getElem_cons (by omega), List.drop_eq_getElem_cons (by omega)]
    rfl
  rw [word?, List.getElem?_eq_getElem (by omega), List.getElem?_eq_getElem (by omega), wordAt,
    hslice]
  rfl

theorem word?_eq_none {config : Bytes} {i : Nat} (h : config.length < i + 2) :
    word? config i = none := by
  unfold word?
  rw [List.getElem?_eq_none (i := i + 1) (by omega)]
  cases config[i]? <;> rfl

/-- The double word at an offset. -/
def dwordAt (config : Bytes) (i : Nat) : Nat := ofLe (slice config i 4)

/-- The structure a turn finds, for an offset where the loop goes on. -/
def cxlDvsecAt (config : Bytes) (base : Nat) : Option Dvsec :=
  if wordAt config base = PCIE_EXT_CAP_DVSEC
      ∧ dwordAt config (base + 4) &&& 0xffff = CXL_DVSEC_VENDOR_ID then
    some
      { offset := base
        revision := (dwordAt config (base + 4) >>> 16) &&& 0xf
        length := (dwordAt config (base + 4) >>> 20) &&& 0xfff
        id := wordAt config (base + 8)
        body := (range? config (base + 12)
          (base + max ((dwordAt config (base + 4) >>> 20) &&& 0xfff) 12)).getD [] }
  else none

/-- The link of a turn, as the loop reads it. -/
def linkAt (config : Bytes) (base : Nat) : Nat := wordAt config (base + 2) &&& 0xfffc

theorem cxlDvsec?_eq {config : Bytes} {base : Nat} (h : base + 12 ≤ config.length) :
    cxlDvsec? config base = some (cxlDvsecAt config base) := by
  unfold cxlDvsec? cxlDvsecAt
  rw [word?_eq (by omega), word?_eq (by omega), range?_eq (by omega) (by omega)]
  simp only [Option.bind_eq_bind, Option.bind_some, Option.map_some]
  have hdword : ofLe ((config.drop (base + 4)).take (base + 8 - (base + 4)))
      = dwordAt config (base + 4) := by
    rw [show base + 8 - (base + 4) = 4 by omega]
    rfl
  rw [hdword]
  by_cases hcap : wordAt config base = PCIE_EXT_CAP_DVSEC
  · by_cases hvendor : dwordAt config (base + 4) &&& 0xffff = CXL_DVSEC_VENDOR_ID
    · rw [if_pos hcap, if_pos hvendor, if_pos ⟨hcap, hvendor⟩]
    · rw [if_pos hcap, if_neg hvendor, if_neg fun h => hvendor h.2]
  · rw [if_neg hcap, if_neg fun h => hcap h.1]

theorem walkDvsecs_stop {config : Bytes} {left next : Nat} {out : List Dvsec}
    (h : ¬ Continues config next) : walkDvsecs config left next out = some (.ok out) := by
  cases left with
  | zero => exact if_neg h
  | succ left => exact if_neg h

/-- **Step lemma**: a turn adds what stands at its offset and takes the link. -/
theorem walkDvsecs_step {config : Bytes} {left next : Nat} {out : List Dvsec}
    (h : Continues config next) : walkDvsecs config (left + 1) next out
      = walkDvsecs config left (linkAt config next) (out ++ (cxlDvsecAt config next).toList) := by
  obtain ⟨-, hlow, hhigh⟩ := id h
  rw [walkDvsecs, if_pos h, word?_eq (by omega), cxlDvsec?_eq hhigh]
  rfl

/-! ## The offsets of a walk -/

/-- The offsets the loop meets from `next` on, when it ends by itself. -/
inductive Follows (config : Bytes) : Nat → List Nat → Prop where
  | stop {next : Nat} (h : ¬ Continues config next) : Follows config next []
  | step {next : Nat} {path : List Nat} (h : Continues config next)
      (hpath : Follows config (linkAt config next) path) : Follows config next (next :: path)

/-- **Run lemma**: the loop ends with what stands along its offsets, or at the guard. -/
theorem walkDvsecs_cases (config : Bytes) (left next : Nat) (out : List Dvsec) :
    (∃ path, Follows config next path ∧ path.length ≤ left ∧
      walkDvsecs config left next out = some (.ok (out ++ path.filterMap (cxlDvsecAt config)))) ∨
    (∃ offset, walkDvsecs config left next out = some (.error (.malformedChain offset)) ∧
      ∀ path, Follows config next path → left < path.length) := by
  induction left generalizing next out with
  | zero =>
    by_cases h : Continues config next
    · refine .inr ⟨next, if_pos h, fun path hpath => ?_⟩
      cases hpath with
      | stop hstop => exact absurd h hstop
      | step _ _ => exact Nat.succ_pos _
    · exact .inl ⟨[], .stop h, Nat.le_refl 0, by rw [walkDvsecs_stop h]; simp⟩
  | succ left ih =>
    by_cases h : Continues config next
    · rw [walkDvsecs_step h]
      rcases ih (linkAt config next) (out ++ (cxlDvsecAt config next).toList) with
        ⟨path, hpath, hlen, heq⟩ | ⟨offset, heq, hlong⟩
      · refine .inl ⟨next :: path, .step h hpath, Nat.succ_le_succ hlen, ?_⟩
        rw [heq, List.append_assoc]
        cases hfound : cxlDvsecAt config next <;> simp [hfound]
      · refine .inr ⟨offset, heq, fun path hpath => ?_⟩
        cases hpath with
        | stop hstop => exact absurd h hstop
        | step _ hrest => exact Nat.succ_lt_succ (hlong _ hrest)
    · exact .inl ⟨[], .stop h, Nat.zero_le _, by rw [walkDvsecs_stop h]; simp⟩

theorem Follows.unique {config : Bytes} {next : Nat} {path path' : List Nat}
    (h : Follows config next path) (h' : Follows config next path') : path = path' := by
  induction h generalizing path' with
  | stop hstop =>
    cases h' with
    | stop _ => rfl
    | step hgo _ => exact absurd hgo hstop
  | step hgo _ ih =>
    cases h' with
    | stop hstop => exact absurd hgo hstop
    | step _ hrest => rw [ih hrest]

/-- The offset the walk starts at: a first entry with id 0 means that there is none. -/
def startAt (config : Bytes) : Nat := if wordAt config 0x100 = 0 then 0 else 0x100

/-- Structures, or that there are none. -/
def answer : List Dvsec → Except DvsecError (List Dvsec)
  | [] => .error .noCxlDvsec
  | out => .ok out

theorem answer_injective : Function.Injective answer := by
  intro out out' h
  cases out with
  | nil =>
    cases out' with
    | nil => rfl
    | cons d out' => exact absurd h (by simp [answer])
  | cons d out =>
    cases out' with
    | nil => exact absurd h (by simp [answer])
    | cons d' out' => exact Except.ok.inj h

theorem answer_ne_malformedChain (out : List Dvsec) (offset : Nat) :
    answer out ≠ .error (.malformedChain offset) := by
  cases out <;> simp [answer]

theorem findCxlDvsecs_long {config : Bytes} (h : 258 ≤ config.length) :
    findCxlDvsecs config = (walkDvsecs config 256 (startAt config) []).map fun walked =>
      walked.bind answer := by
  rw [findCxlDvsecs, if_neg (by omega), word?_eq h]
  simp only [Option.bind_eq_bind, Option.bind_some, startAt]
  cases walkDvsecs config 256 (if wordAt config 0x100 = 0 then 0 else 0x100) [] with
  | none => rfl
  | some walked =>
    match walked with
    | .error e => rfl
    | .ok [] => rfl
    | .ok (d :: out) => rfl

/-- What the walk returns is what stands along its offsets, if it meets at most 256 of them. -/
theorem findCxlDvsecs_eq_iff {config : Bytes} (h : 258 ≤ config.length) (out : List Dvsec) :
    findCxlDvsecs config = some (answer out) ↔ ∃ path, Follows config (startAt config) path ∧
      path.length ≤ 256 ∧ path.filterMap (cxlDvsecAt config) = out := by
  rw [findCxlDvsecs_long h]
  rcases walkDvsecs_cases config 256 (startAt config) [] with
    ⟨path, hpath, hlen, heq⟩ | ⟨offset, heq, hlong⟩
  · rw [heq, List.nil_append, Option.map_some, Option.some.injEq]
    constructor
    · intro hanswer
      exact ⟨path, hpath, hlen, answer_injective hanswer⟩
    · intro ⟨path', hpath', _, hout⟩
      rw [hpath.unique hpath', ← hout]
      rfl
  · rw [heq, Option.map_some, Option.some.injEq]
    constructor
    · intro hanswer
      exact absurd hanswer.symm (answer_ne_malformedChain out offset)
    · intro ⟨path, hpath, hlen, _⟩
      exact absurd (hlong path hpath) (by omega)

/-- **The walk returns**, but for two lengths. -/
theorem findCxlDvsecs_isSome_iff (config : Bytes) :
    (findCxlDvsecs config).isSome ↔ config.length ≠ 256 ∧ config.length ≠ 257 := by
  by_cases hshort : config.length < 256
  · rw [findCxlDvsecs, if_pos hshort]
    exact iff_of_true rfl ⟨by omega, by omega⟩
  by_cases hlong : 258 ≤ config.length
  · rw [findCxlDvsecs_long hlong]
    refine iff_of_true ?_ ⟨by omega, by omega⟩
    rcases walkDvsecs_cases config 256 (startAt config) [] with ⟨_, _, _, heq⟩ | ⟨_, heq, _⟩
    · rw [heq]
      rfl
    · rw [heq]
      rfl
  · -- the length check lets pass what does not hold the first word
    rw [findCxlDvsecs, if_neg hshort, word?_eq_none (by omega)]
    exact iff_of_false (by simp) (by omega)

/-! ## A well-formed chain -/

/-- The id of an extended capability: the low 16 bits of its header. -/
def extId (config : Bytes) (o : Nat) : Nat := dwordAt config o % 2 ^ 16

/-- The offset of the next one: the high 12 bits, above the 4 bits of the version. -/
def extNext (config : Bytes) (o : Nat) : Nat := dwordAt config o / 2 ^ 20

/-- The length a DVSEC announces, its header included. -/
def dvsecLength (config : Bytes) (o : Nat) : Nat := dwordAt config (o + 4) / 2 ^ 20

/-- From `o` the next fields lead through the offsets of the list and end there. -/
def Linked (config : Bytes) : Nat → List Nat → Prop
  | o, [] => extNext config o = 0
  | o, next :: rest => extNext config o = next ∧ Linked config next rest

/-- A chain of extended capabilities: the entry at 0x100 and those behind it, each in the extended
space, aligned, and inside the image with all that it announces. -/
structure ExtChain (config : Bytes) (rest : List Nat) : Prop where
  linked : Linked config 0x100 rest
  entry : ∀ o ∈ 0x100 :: rest, 0x100 ≤ o ∧ 4 ∣ o ∧ o + 4 ≤ config.length
  dvsec : ∀ o ∈ 0x100 :: rest, extId config o = PCIE_EXT_CAP_DVSEC →
    12 ≤ dvsecLength config o ∧ o + dvsecLength config o ≤ config.length

/-- The CXL DVSEC of an entry. -/
def chainDvsec (config : Bytes) (o : Nat) : Option Dvsec :=
  if extId config o = PCIE_EXT_CAP_DVSEC
      ∧ dwordAt config (o + 4) % 2 ^ 16 = CXL_DVSEC_VENDOR_ID then
    some
      { offset := o
        revision := dwordAt config (o + 4) / 2 ^ 16 % 2 ^ 4
        length := dvsecLength config o
        id := wordAt config (o + 8)
        body := slice config (o + 12) (dvsecLength config o - 12) }
  else none

/-- The CXL DVSECs of a chain, in its order. -/
def chainDvsecs (config : Bytes) (rest : List Nat) : List Dvsec :=
  (0x100 :: rest).filterMap (chainDvsec config)

theorem dwordAt_lt (config : Bytes) (o : Nat) : dwordAt config o < 2 ^ 32 := by
  have hlt := ofLe_lt (slice config o 4)
  have hlen : (slice config o 4).length ≤ 4 := List.length_take_le _ _
  calc dwordAt config o < 256 ^ (slice config o 4).length := hlt
    _ ≤ 256 ^ 4 := Nat.pow_le_pow_right (by decide) hlen

theorem wordAt_lt (config : Bytes) (o : Nat) : wordAt config o < 2 ^ 16 := by
  have hlt := ofLe_lt (slice config o 2)
  have hlen : (slice config o 2).length ≤ 2 := List.length_take_le _ _
  calc wordAt config o < 256 ^ (slice config o 2).length := hlt
    _ ≤ 256 ^ 2 := Nat.pow_le_pow_right (by decide) hlen

/-- A header is two half words. -/
theorem dwordAt_eq {config : Bytes} {o : Nat} (h : o + 4 ≤ config.length) :
    dwordAt config o = wordAt config o + 2 ^ 16 * wordAt config (o + 2) := by
  have hsplit : slice config o 4 = slice config o 2 ++ slice config (o + 2) 2 := by
    rw [slice, slice, slice, ← List.drop_drop, ← List.take_add]
  have hlen : (slice config o 2).length = 2 := by
    rw [slice, List.length_take, List.length_drop]
    omega
  rw [dwordAt, hsplit, ofLe_append, hlen]
  rfl

theorem extId_eq {config : Bytes} {o : Nat} (h : o + 4 ≤ config.length) :
    extId config o = wordAt config o := by
  have hlt := wordAt_lt config o
  rw [extId, dwordAt_eq h]
  omega

/-- The loop takes the upper half of a header as it stands: the next offset times 16, with the upper
half of the version below it. -/
theorem linkAt_bounds {config : Bytes} {o : Nat} (h : o + 4 ≤ config.length) :
    16 * extNext config o ≤ linkAt config o ∧ linkAt config o < 16 * extNext config o + 16 := by
  have hlow := wordAt_lt config o
  have hhigh := wordAt_lt config (o + 2)
  have hnext : extNext config o = wordAt config (o + 2) / 16 := by
    rw [extNext, dwordAt_eq h]
    omega
  have hquarter : linkAt config o / 4 = wordAt config (o + 2) / 4 := by
    rw [linkAt, show 4 = 2 ^ 2 from rfl, Nat.and_div_two_pow,
      show 0xfffc / 2 ^ 2 = 2 ^ 14 - 1 from rfl, Nat.and_two_pow_sub_one_eq_mod]
    omega
  have hle : linkAt config o ≤ wordAt config (o + 2) := Nat.and_le_left
  omega

namespace ExtChain

variable {config : Bytes} {rest : List Nat}

/-- Shifts and masks find the structure of an entry. -/
theorem cxlDvsecAt_eq (h : ExtChain config rest) {o : Nat} (ho : o ∈ 0x100 :: rest) :
    cxlDvsecAt config o = chainDvsec config o := by
  obtain ⟨-, -, hheader⟩ := h.entry o ho
  have hdword := dwordAt_lt config (o + 4)
  have hvendor : dwordAt config (o + 4) &&& 0xffff = dwordAt config (o + 4) % 2 ^ 16 :=
    Nat.and_two_pow_sub_one_eq_mod _ 16
  have hrevision : (dwordAt config (o + 4) >>> 16) &&& 0xf =
      dwordAt config (o + 4) / 2 ^ 16 % 2 ^ 4 := by
    rw [Nat.shiftRight_eq_div_pow]
    exact Nat.and_two_pow_sub_one_eq_mod _ 4
  have hlength : (dwordAt config (o + 4) >>> 20) &&& 0xfff = dvsecLength config o := by
    rw [Nat.shiftRight_eq_div_pow, show 0xfff = 2 ^ 12 - 1 from rfl,
      Nat.and_two_pow_sub_one_eq_mod, dvsecLength]
    omega
  unfold cxlDvsecAt chainDvsec
  rw [extId_eq hheader, hvendor]
  split
  · next hcxl =>
    obtain ⟨hmin, hfits⟩ := h.dvsec o ho (by rw [extId_eq hheader]; exact hcxl.1)
    rw [hrevision, hlength, Nat.max_eq_left hmin, range?_eq (by omega) (by omega),
      show o + dvsecLength config o - (o + 12) = dvsecLength config o - 12 by omega]
    rfl
  · rfl

/-- An entry that holds a CXL DVSEC holds its headers. -/
theorem le_of_chainDvsec (h : ExtChain config rest) {o : Nat} (ho : o ∈ 0x100 :: rest)
    (hcxl : (chainDvsec config o).isSome) : o + 12 ≤ config.length := by
  unfold chainDvsec at hcxl
  split at hcxl
  · next hid =>
    obtain ⟨hmin, hfits⟩ := h.dvsec o ho hid.1
    omega
  · exact absurd hcxl (by simp)

/-- In a space of 4096 bytes the link of the first entry leads out of the image or nowhere. -/
theorem not_continues_link (h : ExtChain config rest) (hspace : config.length ≤ 4096) :
    ¬ Continues config (linkAt config 0x100) := by
  obtain ⟨-, -, hheader⟩ := h.entry 0x100 List.mem_cons_self
  obtain ⟨hlow, hhigh⟩ := linkAt_bounds hheader
  have hlinked := h.linked
  intro ⟨_, hmin, hfits⟩
  cases rest with
  | nil =>
    have hend : extNext config 0x100 = 0 := hlinked
    omega
  | cons next rest =>
    have hnext : extNext config 0x100 = next := hlinked.1
    obtain ⟨hspace', -⟩ := h.entry next (List.mem_cons_of_mem _ List.mem_cons_self)
    omega

/-- The walk of a space of 4096 bytes meets the first entry, or nothing where there is no CXL
DVSEC. -/
theorem follows_first (h : ExtChain config rest) (hspace : config.length ≤ 4096) :
    ∃ path, Follows config (startAt config) path ∧ path.length ≤ 256 ∧
      path.filterMap (cxlDvsecAt config) = [0x100].filterMap (chainDvsec config) := by
  obtain ⟨-, -, hheader⟩ := h.entry 0x100 List.mem_cons_self
  have hfirst := h.cxlDvsecAt_eq List.mem_cons_self
  have hstop : ¬ Continues config (startAt config) → chainDvsec config 0x100 = none := by
    intro hstop
    by_contra hcxl
    have hfits := h.le_of_chainDvsec List.mem_cons_self (Option.ne_none_iff_isSome.mp hcxl)
    refine hstop ?_
    have hid : wordAt config 0x100 ≠ 0 := by
      intro hzero
      refine hcxl (if_neg fun hdvsec => ?_)
      rw [extId_eq hheader, hzero] at hdvsec
      exact absurd hdvsec.1 (by decide)
    rw [startAt, if_neg hid]
    exact ⟨by decide, by decide, hfits⟩
  by_cases hgo : Continues config (startAt config)
  · have hstart : startAt config = 0x100 := by
      unfold startAt at hgo ⊢
      split
      · next hzero =>
        rw [if_pos hzero] at hgo
        exact absurd rfl hgo.1
      · rfl
    rw [hstart] at hgo ⊢
    refine ⟨[0x100], .step hgo (.stop (h.not_continues_link hspace)), by decide, ?_⟩
    rw [List.filterMap_cons, List.filterMap_cons, hfirst]
    rfl
  · refine ⟨[], .stop hgo, by decide, ?_⟩
    rw [List.filterMap_cons, hstop hgo]
    rfl

end ExtChain

/-- The offsets of the walk, at most 256, hold the CXL DVSECs of the chain. -/
def MeetsChain (config : Bytes) (rest : List Nat) : Prop :=
  ∃ path, Follows config (startAt config) path ∧ path.length ≤ 256 ∧
    path.filterMap (cxlDvsecAt config) = chainDvsecs config rest

theorem ExtChain.meetsChain_iff {config : Bytes} {rest : List Nat} (h : ExtChain config rest)
    (hspace : config.length ≤ 4096) :
    MeetsChain config rest ↔ ∀ o ∈ rest, chainDvsec config o = none := by
  obtain ⟨path, hpath, hlen, hfirst⟩ := h.follows_first hspace
  have hsplit : chainDvsecs config rest
      = [0x100].filterMap (chainDvsec config) ++ rest.filterMap (chainDvsec config) := by
    rw [chainDvsecs, ← List.filterMap_append]
    rfl
  rw [← List.filterMap_eq_nil_iff]
  constructor
  · intro ⟨path', hpath', _, heq⟩
    rw [← hpath.unique hpath', hfirst, hsplit] at heq
    exact List.self_eq_append_right.mp heq
  · intro hnil
    exact ⟨path, hpath, hlen, by rw [hfirst, hsplit, hnil, List.append_nil]⟩

/-- **The capability walk**: it returns but for images of 256 or 257 bytes; for a well-formed chain
it returns the CXL DVSECs of the chain exactly if these stand along its own offsets, and in a
configuration space, which has 4096 bytes, exactly if there is none behind the first entry. -/
theorem walk_sound_iff (config : Bytes) :
    ((findCxlDvsecs config).isSome ↔ config.length ≠ 256 ∧ config.length ≠ 257) ∧
    ∀ rest, ExtChain config rest →
      (findCxlDvsecs config = some (answer (chainDvsecs config rest)) ↔ MeetsChain config rest) ∧
      (config.length ≤ 4096 →
        (MeetsChain config rest ↔ ∀ o ∈ rest, chainDvsec config o = none)) := by
  refine ⟨findCxlDvsecs_isSome_iff config, fun rest h => ⟨?_, h.meetsChain_iff⟩⟩
  obtain ⟨-, -, hheader⟩ := h.entry 0x100 List.mem_cons_self
  exact findCxlDvsecs_eq_iff (by omega) _

/-- A CXL DVSEC of 24 bytes with a given upper half of its header. -/
def dvsecBytes (link : Nat) : Bytes :=
  [0x23, 0x00, UInt8.ofNat link, UInt8.ofNat (link / 256), 0x98, 0x1E, 0x81, 0x01, 0, 0, 0, 0,
    5, 0, 1, 0, 0, 0, 0, 0, 0, 0, 0, 0]

/-- A space with one CXL DVSEC, version 1. -/
def oneDvsec : Bytes := List.replicate 256 0 ++ dvsecBytes 0x0001

/-- A space with two of them, the second at 0x118. -/
def twoDvsecs : Bytes := List.replicate 256 0 ++ dvsecBytes 0x1181 ++ dvsecBytes 0x0001

theorem oneDvsec_extChain : ExtChain oneDvsec [] where
  linked := by unfold Linked; decide +kernel
  entry := by decide +kernel
  dvsec := by decide +kernel

theorem twoDvsecs_extChain : ExtChain twoDvsecs [0x118] where
  linked := ⟨by decide +kernel, by unfold Linked; decide +kernel⟩
  entry := by decide +kernel
  dvsec := by decide +kernel

/-- The one DVSEC is found. -/
theorem oneDvsec_found :
    findCxlDvsecs oneDvsec = some (answer (chainDvsecs oneDvsec [])) :=
  have hchain := (walk_sound_iff oneDvsec).2 [] oneDvsec_extChain
  hchain.1.mpr ((hchain.2 (by decide +kernel)).mpr fun _ ho => absurd ho List.not_mem_nil)

/-- The second of two DVSECs is not found, and a space of 256 bytes unwinds the walk. -/
theorem second_dvsec_missed :
    ExtChain twoDvsecs [0x118] ∧ (chainDvsecs twoDvsecs [0x118]).map Dvsec.offset = [0x100, 0x118] ∧
      findCxlDvsecs twoDvsecs ≠ some (answer (chainDvsecs twoDvsecs [0x118])) ∧
      findCxlDvsecs (List.replicate 256 0) = none := by
  refine ⟨twoDvsecs_extChain, by decide +kernel, by decide +kernel, by decide +kernel⟩

end Cxl

end DiscCleaner
