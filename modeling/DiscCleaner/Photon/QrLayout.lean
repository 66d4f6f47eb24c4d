import DiscCleaner.Photon.Qr

/-!
# DiscCleaner — the layout of a QR symbol

Every payload of at most 213 bytes gets a symbol: no index leaves the grid and no slice the
data. Function modules keep the colour they are drawn with, since placement and mask pass
over them.
-/

namespace DiscCleaner

open ByteLib ProgLib

namespace QrMatrix

/-- Both vectors cover the grid. -/
structure Full (m : QrMatrix) : Prop where
  modules : m.modules.length = m.size * m.size
  function : m.function.length = m.size * m.size

/-- The same symbol with other module colours. -/
def SameLayout (m m' : QrMatrix) : Prop :=
  m'.size = m.size ∧ m'.mask = m.mask ∧ m'.version = m.version

theorem SameLayout.refl (m : QrMatrix) : SameLayout m m := ⟨rfl, rfl, rfl⟩

theorem SameLayout.trans {m m' m'' : QrMatrix} (h : SameLayout m m') (h' : SameLayout m' m'') :
    SameLayout m m'' :=
  ⟨h'.1.trans h.1, h'.2.1.trans h.2.1, h'.2.2.trans h.2.2⟩

theorem index_lt {size row col : Nat} (hrow : row < size) (hcol : col < size) :
    row * size + col < size * size :=
  calc row * size + col < row * size + size := Nat.add_lt_add_left hcol _
    _ = (row + 1) * size := (Nat.succ_mul row size).symm
    _ ≤ size * size := Nat.mul_le_mul_right size hrow

theorem set_eq {m : QrMatrix} (h : m.Full) {row col : Nat} (hrow : row < m.size) (hcol : col < m.size)
    (v : Bool) :
    m.set row col v = some { m with modules := m.modules.set (row * m.size + col) v } :=
  if_pos (h.modules ▸ index_lt hrow hcol)

theorem reserve_eq {m : QrMatrix} (h : m.Full) {row col : Nat} (hrow : row < m.size)
    (hcol : col < m.size) :
    m.reserve row col = some { m with function := m.function.set (row * m.size + col) true } :=
  if_pos (h.function ▸ index_lt hrow hcol)

theorem Full.setModules {m : QrMatrix} (h : m.Full) (i : Nat) (v : Bool) :
    Full { m with modules := m.modules.set i v } :=
  ⟨by rw [List.length_set]; exact h.modules, h.function⟩

theorem Full.setFunction {m : QrMatrix} (h : m.Full) (i : Nat) :
    Full { m with function := m.function.set i true } :=
  ⟨h.modules, by rw [List.length_set]; exact h.function⟩

end QrMatrix

namespace Qr

open QrMatrix

/-! ## Drawing -/

section Last

variable {α β : Type}

/-- What the last of the cells at index `i` holds. -/
def lastAt (size : Nat) (cells : List (Nat × Nat × α)) (i : Nat) : Option α :=
  cells.foldl (fun found cell => if cell.1 * size + cell.2.1 = i then some cell.2.2 else found) none

theorem foldl_lastAt (size : Nat) (cells : List (Nat × Nat × α)) (i : Nat) (found : Option α) :
    cells.foldl (fun found cell => if cell.1 * size + cell.2.1 = i then some cell.2.2 else found)
        found
      = (lastAt size cells i).or found := by
  induction cells generalizing found with
  | nil => rfl
  | cons cell cells ih =>
    rw [lastAt, List.foldl_cons, List.foldl_cons, ih, ih]
    split
    · rw [Option.or_assoc, Option.some_or]
    · rw [Option.or_none]

theorem lastAt_cons (size : Nat) (cell : Nat × Nat × α) (cells : List (Nat × Nat × α)) (i : Nat) :
    lastAt size (cell :: cells) i
      = (lastAt size cells i).or (if cell.1 * size + cell.2.1 = i then some cell.2.2 else none) := by
  rw [← foldl_lastAt]
  rfl

theorem lastAt_append (size : Nat) (cells cells' : List (Nat × Nat × α)) (i : Nat) :
    lastAt size (cells ++ cells') i = (lastAt size cells' i).or (lastAt size cells i) := by
  rw [← foldl_lastAt, lastAt, List.foldl_append]
  rfl

theorem lastAt_map (f : α → β) (size : Nat) (cells : List (Nat × Nat × α)) (i : Nat) :
    lastAt size (cells.map fun cell => (cell.1, cell.2.1, f cell.2.2)) i
      = (lastAt size cells i).map f := by
  induction cells with
  | nil => rfl
  | cons cell cells ih =>
    rw [List.map_cons, lastAt_cons, lastAt_cons, ih]
    split
    · cases lastAt size cells i <;> rfl
    · rw [Option.or_none, Option.or_none]

end Last

/-- All cells lie on the grid. -/
def OnGrid (size : Nat) (cells : List Cell) : Prop :=
  ∀ cell ∈ cells, cell.1 < size ∧ cell.2.1 < size

instance (size : Nat) (cells : List Cell) : Decidable (OnGrid size cells) :=
  inferInstanceAs (Decidable (∀ cell ∈ cells, cell.1 < size ∧ cell.2.1 < size))

/-- **Drawing cells on the grid** leaves each with the colour drawn last and makes it a function
module; the others stay as they are. -/
theorem drawCells_spec {cells : List Cell} {m : QrMatrix} (h : m.Full) (hin : OnGrid m.size cells) :
    ∃ m', drawCells cells m = some m' ∧ m'.Full ∧ SameLayout m m'
      ∧ (∀ i, m'.modules[i]? = (lastAt m.size cells i).or m.modules[i]?)
      ∧ ∀ i, m'.function[i]? = ((lastAt m.size cells i).map fun _ => true).or m.function[i]? := by
  induction cells generalizing m with
  | nil => exact ⟨m, rfl, h, .refl m, fun _ => rfl, fun _ => rfl⟩
  | cons cell cells ih =>
    obtain ⟨row, col, v⟩ := cell
    obtain ⟨⟨hrow, hcol⟩, hrest⟩ := List.forall_mem_cons.mp hin
    have hlt : row * m.size + col < m.size * m.size := index_lt hrow hcol
    obtain ⟨m', hrun, hfull, hsame, hmodules, hfunction⟩ :=
      @ih { m with
        modules := m.modules.set (row * m.size + col) v
        function := m.function.set (row * m.size + col) true }
        ((h.setModules _ v).setFunction _) hrest
    refine ⟨m', ?_, hfull, hsame, fun i => ?_, fun i => ?_⟩
    · rw [drawCells, List.foldlM_cons, QrMatrix.setFunction, set_eq h hrow hcol, Option.bind_some,
        reserve_eq (h.setModules _ v) hrow hcol]
      exact hrun
    · rw [hmodules, lastAt_cons, Option.or_assoc, List.getElem?_set]
      rcases eq_or_ne (row * m.size + col) i with rfl | hi
      · rw [if_pos rfl, if_pos rfl, if_pos (show _ < m.modules.length from h.modules ▸ hlt),
          Option.some_or]
      · rw [if_neg hi, if_neg hi, Option.none_or]
    · rw [hfunction, lastAt_cons, List.getElem?_set]
      rcases eq_or_ne (row * m.size + col) i with rfl | hi
      · rw [if_pos rfl, if_pos rfl, if_pos (show _ < m.function.length from h.function ▸ hlt)]
        dsimp only
        cases lastAt m.size cells (row * m.size + col) <;> rfl
      · rw [if_neg hi, if_neg hi, Option.or_none]

/-- Reserving cells changes no colour and takes no module out of the function modules. -/
theorem reserveCells_spec {cells : List (Nat × Nat)} {m : QrMatrix} (h : m.Full)
    (hin : ∀ cell ∈ cells, cell.1 < m.size ∧ cell.2 < m.size) :
    ∃ m', reserveCells cells m = some m' ∧ m'.Full ∧ SameLayout m m' ∧ m'.modules = m.modules
      ∧ ∀ i, m'.function[i]?
          = if i ∈ cells.map (fun cell => cell.1 * m.size + cell.2) then some true
            else m.function[i]? := by
  induction cells generalizing m with
  | nil => exact ⟨m, rfl, h, .refl m, rfl, fun _ => rfl⟩
  | cons cell cells ih =>
    obtain ⟨row, col⟩ := cell
    obtain ⟨⟨hrow, hcol⟩, hrest⟩ := List.forall_mem_cons.mp hin
    have hlt : row * m.size + col < m.size * m.size := index_lt hrow hcol
    obtain ⟨m', hrun, hfull, hsame, hmodules, hfunction⟩ :=
      @ih { m with function := m.function.set (row * m.size + col) true } (h.setFunction _) hrest
    refine ⟨m', ?_, hfull, hsame, hmodules, fun i => ?_⟩
    · rw [reserveCells, List.foldlM_cons, reserve_eq h hrow hcol]
      exact hrun
    · rw [hfunction, List.map_cons, List.getElem?_set]
      rcases eq_or_ne (row * m.size + col) i with rfl | hi
      · rw [if_pos rfl, if_pos (show _ < m.function.length from h.function ▸ hlt), ite_self,
          if_pos List.mem_cons_self]
      · rw [if_neg hi]
        refine if_congr ?_ rfl rfl
        rw [List.mem_cons]
        exact ⟨Or.inr, fun hor => hor.resolve_left fun heq => hi heq.symm⟩

/-! ## Placing and masking -/

/-- What stays when data modules are written: the layout, and the function modules' colours. -/
structure KeepsFunction (m m' : QrMatrix) : Prop where
  full : m'.Full
  same : SameLayout m m'
  function : m'.function = m.function
  colours : ∀ i : Nat, m.function[i]? = some true → m'.modules[i]? = m.modules[i]?

theorem KeepsFunction.refl {m : QrMatrix} (h : m.Full) : KeepsFunction m m :=
  ⟨h, .refl m, rfl, fun _ _ => rfl⟩

theorem KeepsFunction.trans {m m' m'' : QrMatrix} (h : KeepsFunction m m')
    (h' : KeepsFunction m' m'') : KeepsFunction m m'' where
  full := h'.full
  same := h.same.trans h'.same
  function := h'.function.trans h.function
  colours i hi := (h'.colours i (h.function ▸ hi)).trans (h.colours i hi)

/-- Writing a data module. -/
theorem keepsFunction_set {m : QrMatrix} (h : m.Full) {i : Nat} (hi : m.function[i]? = some false)
    (v : Bool) : KeepsFunction m { m with modules := m.modules.set i v } where
  full := h.setModules i v
  same := ⟨rfl, rfl, rfl⟩
  function := rfl
  colours j hj := List.getElem?_set_ne fun heq => by
    rw [heq, hj] at hi
    cases hi

/-- A cell of the grid is a function module or a data module. -/
theorem function_cases {m : QrMatrix} (h : m.Full) {row col : Nat} (hrow : row < m.size)
    (hcol : col < m.size) :
    m.function[row * m.size + col]? = some true ∨ m.function[row * m.size + col]? = some false := by
  have hlt : row * m.size + col < m.function.length := h.function ▸ index_lt hrow hcol
  rw [List.getElem?_eq_getElem hlt]
  cases m.function[row * m.size + col] <;> simp

theorem placeFrom_spec (codewords : Bytes) {walk : List (Nat × Nat)} {m : QrMatrix} (h : m.Full)
    (hin : ∀ cell ∈ walk, cell.1 < m.size ∧ cell.2 < m.size) (bitIndex : Nat) :
    ∃ m', placeFrom codewords walk bitIndex m = some m' ∧ KeepsFunction m m' := by
  induction walk generalizing m bitIndex with
  | nil => exact ⟨m, rfl, .refl h⟩
  | cons cell walk ih =>
    obtain ⟨row, col⟩ := cell
    obtain ⟨⟨hrow, hcol⟩, hrest⟩ := List.forall_mem_cons.mp hin
    rw [placeFrom]
    rcases function_cases h hrow hcol with hfun | hdata
    · rw [hfun]
      exact ih h hrest bitIndex
    · rw [hdata]
      dsimp only
      rw [set_eq h hrow hcol, Option.bind_some]
      have hset := keepsFunction_set h hdata (codewordBit codewords bitIndex)
      obtain ⟨m', hrun, hkeep⟩ := ih hset.full hrest (bitIndex + 1)
      exact ⟨m', hrun, hset.trans hkeep⟩

theorem maskFrom_spec (mask : Nat) {cells : List (Nat × Nat)} {m : QrMatrix} (h : m.Full)
    (hin : ∀ cell ∈ cells, cell.1 < m.size ∧ cell.2 < m.size) :
    ∃ m', maskFrom mask cells m = some m' ∧ KeepsFunction m m' := by
  induction cells generalizing m with
  | nil => exact ⟨m, rfl, .refl h⟩
  | cons cell cells ih =>
    obtain ⟨row, col⟩ := cell
    obtain ⟨⟨hrow, hcol⟩, hrest⟩ := List.forall_mem_cons.mp hin
    rw [maskFrom]
    rcases function_cases h hrow hcol with hfun | hdata
    · rw [hfun]
      exact ih h hrest
    · rw [hdata]
      dsimp only
      split
      · rw [set_eq h hrow hcol, Option.bind_some]
        have hset := keepsFunction_set h hdata (!m.get row col)
        obtain ⟨m', hrun, hkeep⟩ := ih hset.full hrest
        exact ⟨m', hrun, hset.trans hkeep⟩
      · exact ih h hrest

theorem zigzagFrom_onGrid {size col : Nat} (hcol : col < size) (upward : Bool) :
    ∀ cell ∈ zigzagFrom size col upward, cell.1 < size ∧ cell.2 < size := by
  intro cell hcell
  rw [zigzagFrom] at hcell
  split at hcell
  · exact absurd hcell List.not_mem_nil
  · next hpos =>
    have hle : (if col = 6 then col - 1 else col) ≤ col := by split <;> omega
    rcases List.mem_append.mp hcell with hpair | hrest
    · obtain ⟨i, hi, hmem⟩ := List.mem_flatMap.mp hpair
      have hi := List.mem_range.mp hi
      have hrow : (if upward then size - 1 - i else i) < size := by split <;> omega
      rcases List.mem_cons.mp hmem with rfl | hmem
      · exact ⟨hrow, by omega⟩
      · obtain rfl := List.mem_singleton.mp hmem
        exact ⟨hrow, by omega⟩
    · exact zigzagFrom_onGrid (by omega) (!upward) cell hrest
termination_by col

theorem zigzag_onGrid {size : Nat} (hsize : 0 < size) :
    ∀ cell ∈ zigzag size, cell.1 < size ∧ cell.2 < size :=
  zigzagFrom_onGrid (by omega) true

theorem allCells_onGrid (size : Nat) : ∀ cell ∈ allCells size, cell.1 < size ∧ cell.2 < size := by
  intro cell hcell
  obtain ⟨row, hrow, hmem⟩ := List.mem_flatMap.mp hcell
  obtain ⟨col, hcol, rfl⟩ := List.mem_map.mp hmem
  exact ⟨List.mem_range.mp hrow, List.mem_range.mp hcol⟩

/-! ## The function modules of a version -/

theorem formatCells_onGrid {size : Nat} (hsize : 21 ≤ size) (mask : Nat) :
    OnGrid size (formatCells size mask) := by
  intro cell hcell
  obtain ⟨i, hi, hmem⟩ := List.mem_flatMap.mp hcell
  have hi := List.mem_range.mp hi
  rcases List.mem_cons.mp hmem with rfl | hmem
  · split_ifs <;> dsimp only <;> omega
  · obtain rfl := List.mem_singleton.mp hmem
    split_ifs <;> dsimp only <;> omega

/-- The versions the encoder has tables for. -/
def versions : List Nat := List.range' 1 10

theorem version_range {version : Nat} (h : version ∈ versions) : 1 ≤ version ∧ version ≤ 10 := by
  have := List.mem_range'_1.mp h
  omega

theorem patternCells_onGrid : ∀ version ∈ versions,
    OnGrid (versionSide version)
      (finderCells (versionSide version) ++ timingCells (versionSide version)
        ++ alignmentCells version (versionSide version)) := by
  decide +kernel

theorem versionCells_onGrid : ∀ version ∈ versions,
    OnGrid (versionSide version) (versionCells version (versionSide version)) := by
  decide

theorem reservedCells_onGrid : ∀ version ∈ versions,
    ∀ cell ∈ reservedCells (versionSide version),
      cell.1 < versionSide version ∧ cell.2 < versionSide version := by
  decide

/-- The cells drawn before the format regions are reserved, and those drawn after. -/
def patternCells (version : Nat) : List Cell :=
  finderCells (versionSide version) ++ timingCells (versionSide version)
    ++ alignmentCells version (versionSide version)

def infoCells (version mask : Nat) : List Cell :=
  versionCells version (versionSide version) ++ formatCells (versionSide version) mask
    ++ [darkModule (versionSide version)]

theorem infoCells_onGrid {version : Nat} (h : version ∈ versions) (mask : Nat) :
    OnGrid (versionSide version) (infoCells version mask) := by
  have hside : 21 ≤ versionSide version := by
    have := version_range h
    unfold versionSide
    omega
  intro cell hcell
  rcases List.mem_append.mp hcell with hcell | hcell
  · rcases List.mem_append.mp hcell with hcell | hcell
    · exact versionCells_onGrid version h cell hcell
    · exact formatCells_onGrid hside mask cell hcell
  · obtain rfl := List.mem_singleton.mp hcell
    unfold darkModule
    dsimp only
    omega

/-- The colour a function module is drawn with. -/
def drawn (version mask : Nat) (i : Nat) : Option Bool :=
  (lastAt (versionSide version) (infoCells version mask) i).or
    (lastAt (versionSide version) (patternCells version) i)

theorem blank_full (version size mask : Nat) : (blank version size mask).Full :=
  ⟨List.length_replicate, List.length_replicate⟩

/-- **The grid before the data**: every index is on it, function modules have the colour they
are drawn with and the others are light. -/
theorem buildMatrix_spec {version : Nat} (h : version ∈ versions) (mask : Nat) :
    ∃ m, buildMatrix version (versionSide version) mask = some m ∧ m.Full
      ∧ SameLayout (blank version (versionSide version) mask) m
      ∧ (∀ i, m.modules[i]? = (drawn version mask i).or
          (blank version (versionSide version) mask).modules[i]?)
      ∧ ∀ i, m.function[i]? =
          ((lastAt (versionSide version) (infoCells version mask) i).map fun _ => true).or
            (if i ∈ (reservedCells (versionSide version)).map
                (fun cell => cell.1 * versionSide version + cell.2) then some true
            else ((lastAt (versionSide version) (patternCells version) i).map fun _ => true).or
              (blank version (versionSide version) mask).function[i]?) := by
  obtain ⟨m₁, hrun₁, hfull₁, hsame₁, hmodules₁, hfunction₁⟩ :=
    drawCells_spec (blank_full version (versionSide version) mask) (patternCells_onGrid version h)
  obtain ⟨m₂, hrun₂, hfull₂, hsame₂, hmodules₂, hfunction₂⟩ :=
    @reserveCells_spec (reservedCells (versionSide version)) m₁ hfull₁
      (by rw [hsame₁.1]; exact reservedCells_onGrid version h)
  have hsame := hsame₁.trans hsame₂
  obtain ⟨m₃, hrun₃, hfull₃, hsame₃, hmodules₃, hfunction₃⟩ :=
    @drawCells_spec (infoCells version mask) m₂ hfull₂
      (by rw [hsame.1]; exact infoCells_onGrid h mask)
  refine ⟨m₃, ?_, hfull₃, hsame.trans hsame₃, fun i => ?_, fun i => ?_⟩
  · rw [buildMatrix, hrun₁, Option.bind_eq_bind, Option.bind_some, hrun₂]
    exact hrun₃
  · rw [hmodules₃, hmodules₂, hmodules₁, hsame.1, drawn, Option.or_assoc]
    rfl
  · rw [hfunction₃, hfunction₂, hfunction₁, hsame.1, hsame₁.1]
    rfl

/-- **A symbol** shows every function module in the colour it is drawn with. -/
theorem symbol_spec {version : Nat} (h : version ∈ versions) (interleaved : Bytes) (mask : Nat) :
    ∃ built m, buildMatrix version (versionSide version) mask = some built
      ∧ symbol version interleaved mask = some m ∧ KeepsFunction built m
      ∧ m.size = versionSide version ∧ m.mask = mask ∧ m.version = version := by
  obtain ⟨built, hbuilt, hfull, hsame, -, -⟩ := buildMatrix_spec h mask
  have hsize : built.size = versionSide version := hsame.1
  have hside : 0 < versionSide version := by
    unfold versionSide
    omega
  obtain ⟨placed, hplaced, hkeep⟩ :=
    placeFrom_spec interleaved hfull (zigzag_onGrid (hsize ▸ hside)) 0
  obtain ⟨m, hmasked, hkeep'⟩ := maskFrom_spec mask hkeep.full (allCells_onGrid placed.size)
  have hdone := hkeep.trans hkeep'
  refine ⟨built, m, hbuilt, ?_, hdone, hdone.same.1.trans hsize, hdone.same.2.1.trans hsame.2.1,
    hdone.same.2.2.trans hsame.2.2⟩
  rw [symbol, hbuilt, Option.bind_eq_bind, Option.bind_some, placeData, hplaced]
  exact hmasked

/-! ## The codewords -/

theorem bytesOfBits_length (n : Nat) (bits : List Bool) : (bytesOfBits n bits).length = n := by
  induction n generalizing bits with
  | zero => rfl
  | succ n ih => rw [bytesOfBits, List.length_cons, ih]

theorem padBytes_length (n : Nat) (pad : UInt8) : (padBytes n pad).length = n := by
  induction n generalizing pad with
  | zero => rfl
  | succ n ih => rw [padBytes, List.length_cons, ih]

theorem pushBits_length (value count : Nat) : (pushBits value count).length = count := by
  rw [pushBits, List.length_map, List.length_reverse, List.length_range]

/-- The bit stream of a payload that fits is a whole number of bytes, within the capacity. -/
theorem bitStream_length {version : Nat} {payload : Bytes}
    (hfit : 4 + lenBits version + payload.length * 8 ≤ dataCapacity version * 8) :
    ∃ n ≤ dataCapacity version, (bitStream version payload).length = 8 * n := by
  have hpayload : (payload.flatMap fun b => pushBits b.toNat 8).length = payload.length * 8 := by
    rw [List.length_flatMap, List.map_congr_left fun b _ => pushBits_length b.toNat 8,
      List.map_const', List.sum_replicate_nat]
  unfold bitStream
  dsimp only
  simp only [List.length_append, List.length_replicate, pushBits_length, hpayload]
  refine ⟨(4 + lenBits version + payload.length * 8
    + min 4 (dataCapacity version * 8 - (4 + lenBits version + payload.length * 8)) + 7) / 8, ?_, ?_⟩
  · omega
  · omega

theorem dataBytes_length {version : Nat} {payload : Bytes}
    (hfit : 4 + lenBits version + payload.length * 8 ≤ dataCapacity version * 8) :
    (dataBytes version payload).length = dataCapacity version := by
  obtain ⟨n, hn, hlen⟩ := bitStream_length hfit
  unfold dataBytes
  rw [List.length_append, padBytes_length, bytesOfBits_length, hlen]
  omega

theorem splitBlocks_total {blocks : List (Nat × Nat)} {bytes : Bytes}
    (h : (blocks.map Prod.snd).sum ≤ bytes.length) :
    ∃ dataBlocks, splitBlocks blocks bytes = some dataBlocks := by
  induction blocks generalizing bytes with
  | nil => exact ⟨[], rfl⟩
  | cons block blocks ih =>
    obtain ⟨total, blockData⟩ := block
    rw [List.map_cons, List.sum_cons] at h
    obtain ⟨rest, hrest⟩ := @ih (bytes.drop blockData) (by rw [List.length_drop]; omega)
    rw [splitBlocks, if_pos (by omega), hrest]
    exact ⟨_, rfl⟩

theorem codewords_total {version : Nat} {payload : Bytes}
    (hfit : 4 + lenBits version + payload.length * 8 ≤ dataCapacity version * 8) :
    ∃ interleaved, codewords version payload = some interleaved := by
  obtain ⟨dataBlocks, hsplit⟩ :=
    @splitBlocks_total (blocksOf version) (dataBytes version payload) (dataBytes_length hfit).ge
  rw [codewords, hsplit]
  exact ⟨_, rfl⟩

theorem pickVersion_spec {len : Nat} (h : len ≤ maxBytePayloadV10M) :
    ∃ version ∈ versions, pickVersion len = .ok version
      ∧ 4 + lenBits version + len * 8 ≤ dataCapacity version * 8 := by
  have hlast : 4 + lenBits 10 + len * 8 ≤ dataCapacity 10 * 8 := by
    have : maxBytePayloadV10M = 213 := rfl
    rw [show lenBits 10 = 16 from rfl, show dataCapacity 10 = 216 from rfl]
    omega
  unfold pickVersion
  cases hfind : (List.range' 1 10).find? fun v =>
      decide (4 + lenBits v + len * 8 ≤ dataCapacity v * 8) with
  | none =>
    exact absurd (decide_eq_true hlast) (List.find?_eq_none.mp hfind 10 (by decide))
  | some version =>
    have hfit := List.find?_some hfind
    exact ⟨version, List.mem_of_find?_eq_some hfind, rfl, of_decide_eq_true hfit⟩

/-- What is chosen among the masks is the symbol of one of them. -/
theorem bestSymbol_spec {version : Nat} (h : version ∈ versions) (interleaved : Bytes)
    {masks : List Nat} {best : Option (QrMatrix × Nat)} {candidates : List Nat}
    (hbest : ∀ e ∈ best, ∃ mask ∈ candidates, symbol version interleaved mask = some e.1)
    (hsub : ∀ mask ∈ masks, mask ∈ candidates) (hsome : best ≠ none ∨ masks ≠ []) :
    ∃ mask ∈ candidates, ∃ m penalty, symbol version interleaved mask = some m
      ∧ bestSymbol version interleaved masks best = some (some (m, penalty)) := by
  induction masks generalizing best with
  | nil =>
    obtain ⟨⟨m, penalty⟩, rfl⟩ := Option.ne_none_iff_exists'.mp (hsome.resolve_right fun h => h rfl)
    obtain ⟨mask, hmask, hsymbol⟩ := hbest _ rfl
    exact ⟨mask, hmask, m, penalty, hsymbol, rfl⟩
  | cons mask masks ih =>
    obtain ⟨-, m, -, hsymbol, -⟩ := symbol_spec h interleaved mask
    have hthis : ∃ mask ∈ candidates, symbol version interleaved mask = some m :=
      ⟨mask, hsub mask List.mem_cons_self, hsymbol⟩
    have hrest : ∀ mask' ∈ masks, mask' ∈ candidates := fun mask' hmask' =>
      hsub mask' (List.mem_cons_of_mem mask hmask')
    rw [bestSymbol, hsymbol]
    cases best with
    | none =>
      exact @ih (some (m, penaltyScore m)) (fun e he => by
        rw [← Option.some.inj he]
        exact hthis) hrest (Or.inl (Option.some_ne_none _))
    | some b =>
      refine ih (fun e he => ?_) hrest (Or.inl ?_)
      · split at he
        · rw [← Option.some.inj he]
          exact hthis
        · exact hbest e he
      · split <;> exact Option.some_ne_none _

/-- **Every payload of at most 213 bytes gets a symbol**: that of the version picked for its
length, with one of the eight masks. -/
theorem encode_spec {payload : Bytes} (h : payload.length ≤ maxBytePayloadV10M) :
    ∃ version ∈ versions, ∃ interleaved, ∃ mask ∈ List.range 8, ∃ m,
      pickVersion payload.length = .ok version
        ∧ 4 + lenBits version + payload.length * 8 ≤ dataCapacity version * 8
        ∧ codewords version payload = some interleaved
        ∧ symbol version interleaved mask = some m ∧ encode payload = .ok m := by
  obtain ⟨version, hversion, hpick, hfit⟩ := pickVersion_spec h
  obtain ⟨interleaved, hcodewords⟩ := codewords_total hfit
  obtain ⟨mask, hmask, m, penalty, hsymbol, hbest⟩ :=
    @bestSymbol_spec version hversion interleaved (List.range 8) none (List.range 8)
      (fun _ he => nomatch he) (fun _ hmask => hmask) (Or.inr (by decide))
  refine ⟨version, hversion, interleaved, mask, hmask, m, hpick, hfit, hcodewords, hsymbol, ?_⟩
  rw [encode, if_neg (Nat.not_lt.mpr h), hpick]
  dsimp only
  rw [hcodewords]
  dsimp only
  rw [hbest]

end Qr

end DiscCleaner
