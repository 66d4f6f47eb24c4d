import DiscCleaner.Lib.Peeling
import DiscCleaner.Lib.Prog

/-!
# DiscCleaner — fountain coding (`lt.rs`)

The encoder XORs the blocks a symbol refers to; the decoder peels. Indexing out of bounds, an
`expect` on a missing value and a remainder by zero are panics. The degree of a symbol is
sampled with floating-point arithmetic and its draws come from a rejection loop, so both are
given: any degree of at least one, any draws below their bound.
-/

namespace DiscCleaner

open ByteLib PeelingLib ProgLib

inductive LtError where
  | decodeIncomplete (decoded total : Nat)
  | invalid (reason : String)
  deriving DecidableEq

/-! ## Neighbours -/

/-- `sample_degree` and `SplitMix64::below`, for a generator by its seed: the degree it
samples, and its draws by number and bound. -/
structure Sampling where
  degree : Nat → UInt64 → Nat
  below : UInt64 → Nat → Nat → Nat
  degree_pos : ∀ k rng, 0 < degree k rng
  below_lt : ∀ rng i bound, 0 < bound → below rng i bound < bound

def rotateLeft32 (x : UInt64) : UInt64 := (x <<< 32) ||| (x >>> 32)

/-- The loop of distinct draws: `n` to go, the next being draw `i`. -/
def pickDistinct (s : Sampling) (rng : UInt64) :
    Nat → Nat → List Nat → List Nat → Option (List Nat)
  | 0, _, _, picked => some picked
  | n + 1, i, avail, picked =>
    if avail.length = 0 then none
    else
      let j := s.below rng i avail.length
      match avail[j]? with
      | none => none
      | some a => pickDistinct s rng n (i + 1) (swapRemove avail j) (picked ++ [a])

/-- The blocks of a symbol: the first `k` symbols are the blocks themselves. -/
def neighbors (s : Sampling) (k : Nat) (streamSeed : UInt64) (symbolId : Nat) :
    Option (List Nat) :=
  if symbolId < k then some [symbolId]
  else
    let rng := streamSeed ^^^ rotateLeft32 (UInt64.ofNat (symbolId - k))
    pickDistinct s rng (min (s.degree k rng) k) 0 (List.range k) []

/-- The blocks of a symbol by the number of blocks, the stream seed and the symbol's id; `none`
is a panic. -/
abbrev Neighbors : Type := Nat → UInt64 → Nat → Option (List Nat)

/-- A panic-free choice of distinct blocks for every symbol. -/
structure NeighborFn (k : Nat) where
  of : Nat → List Nat
  ne_nil : ∀ id, of id ≠ []
  nodup : ∀ id, (of id).Nodup
  lt : ∀ id, ∀ n ∈ of id, n < k

/-- A choice of blocks that is the same for every stream. -/
def NeighborFn.fixed {k : Nat} (nf : NeighborFn k) : Neighbors := fun _ _ id => some (nf.of id)

/-- **Step lemma**: with blocks left for every draw, the draws are distinct blocks. -/
theorem pickDistinct_spec (s : Sampling) (rng : UInt64) {k n : Nat} (i : Nat)
    {avail picked : List Nat} (hn : n ≤ avail.length) (hnodup : (picked ++ avail).Nodup)
    (hlt : ∀ a ∈ picked ++ avail, a < k) :
    ∃ l, pickDistinct s rng n i avail picked = some l ∧ l.length = picked.length + n
      ∧ l.Nodup ∧ ∀ a ∈ l, a < k := by
  induction n generalizing i avail picked with
  | zero =>
    refine ⟨picked, rfl, rfl, (List.nodup_append.mp hnodup).1, fun a ha => ?_⟩
    exact hlt a (List.mem_append_left _ ha)
  | succ n ih =>
    have hj := s.below_lt rng i avail.length (by omega)
    rw [pickDistinct, if_neg (by omega)]
    dsimp only
    rw [List.getElem?_eq_getElem hj]
    have hperm := swapRemove_perm hj
    have hlen := hperm.length_eq
    have hmoved : (picked ++ avail).Perm
        ((picked ++ [avail[s.below rng i avail.length]])
          ++ swapRemove avail (s.below rng i avail.length)) := by
      rw [List.append_assoc]
      exact hperm.append_left picked
    rw [List.length_cons] at hlen
    obtain ⟨l, hrun, hlength, hrest⟩ := ih (i + 1) (by omega) (hmoved.nodup_iff.mp hnodup)
      (fun a ha => hlt a (hmoved.mem_iff.mpr ha))
    refine ⟨l, hrun, ?_, hrest⟩
    rw [hlength, List.length_append, List.length_singleton]
    omega

/-- Every symbol of a stream with blocks has distinct neighbours among them. -/
theorem neighbors_spec (s : Sampling) {k : Nat} (hk : 0 < k) (streamSeed : UInt64) (id : Nat) :
    ∃ l, neighbors s k streamSeed id = some l ∧ l ≠ [] ∧ l.Nodup ∧ ∀ n ∈ l, n < k := by
  unfold neighbors
  by_cases hid : id < k
  · rw [if_pos hid]
    refine ⟨[id], rfl, List.cons_ne_nil _ _, List.pairwise_singleton _ _, fun n hn => ?_⟩
    rw [List.mem_singleton.mp hn]
    exact hid
  · rw [if_neg hid]
    dsimp only
    generalize streamSeed ^^^ rotateLeft32 (UInt64.ofNat (id - k)) = rng
    have hdegree := s.degree_pos k rng
    obtain ⟨l, hrun, hlength, hnodup, hlt⟩ :=
      @pickDistinct_spec s rng k (min (s.degree k rng) k) 0 (List.range k) []
        (by rw [List.length_range]; omega) List.nodup_range (fun a ha => List.mem_range.mp ha)
    refine ⟨l, hrun, ?_, hnodup, hlt⟩
    rw [List.length_nil] at hlength
    exact List.ne_nil_of_length_pos (by omega)

/-- The code's own neighbours, as such a choice. -/
def sampledNeighbors (s : Sampling) {k : Nat} (hk : 0 < k) (streamSeed : UInt64) :
    NeighborFn k where
  of id := (neighbors s k streamSeed id).getD []
  ne_nil id := by
    obtain ⟨l, hl, hne, -⟩ := neighbors_spec s hk streamSeed id
    rw [hl]
    exact hne
  nodup id := by
    obtain ⟨l, hl, -, hnodup, -⟩ := neighbors_spec s hk streamSeed id
    rw [hl]
    exact hnodup
  lt id := by
    obtain ⟨l, hl, -, -, hlt⟩ := neighbors_spec s hk streamSeed id
    rw [hl]
    exact hlt

theorem neighbors_eq (s : Sampling) {k : Nat} (hk : 0 < k) (streamSeed : UInt64) :
    neighbors s k streamSeed = fun id => some ((sampledNeighbors s hk streamSeed).of id) := by
  funext id
  obtain ⟨l, hl, -⟩ := neighbors_spec s hk streamSeed id
  show neighbors s k streamSeed id = some ((neighbors s k streamSeed id).getD [])
  rw [hl]
  rfl

/-! ## The encoder -/

structure LtEncoder where
  blocks : List Bytes
  blockSize : Nat
  streamSeed : UInt64

namespace LtEncoder

/-- Block `i` of the payload, padded with zeros. -/
def blockOf (payload : Bytes) (blockSize i : Nat) : Bytes :=
  let b := (payload.drop (i * blockSize)).take
    (min ((i + 1) * blockSize) payload.length - i * blockSize)
  b ++ List.replicate (blockSize - b.length) 0

def new (payload : Bytes) (blockSize : Nat) (streamSeed : UInt64) : Except LtError LtEncoder :=
  if blockSize = 0 ∨ 65535 < blockSize then .error (.invalid "block size must be 1..=65535")
  else
    let k := max ((payload.length + blockSize - 1) / blockSize) 1
    .ok ⟨(List.range k).map (blockOf payload blockSize), blockSize, streamSeed⟩

def numBlocks (e : LtEncoder) : Nat := e.blocks.length

/-- Symbol `symbolId`: the XOR of its neighbour blocks. -/
def encode (e : LtEncoder) (neighbors : Neighbors) (symbolId : Nat) : Option Bytes :=
  (neighbors e.numBlocks e.streamSeed symbolId).bind fun l =>
    l.foldlM (fun out n => (e.blocks[n]?).map (xorInto out)) (List.replicate e.blockSize 0)

end LtEncoder

/-! ## The decoder -/

/-- `pending` holds XOR-folded values with the blocks still missing from them, `references`
the pending symbols of each block. -/
structure LtDecoder where
  k : Nat
  blockSize : Nat
  streamSeed : UInt64
  decoded : List (Option Bytes)
  pending : List (Bytes × List Nat)
  references : List (List Nat)
  resolved : Nat

namespace LtDecoder

def new (k blockSize : Nat) (streamSeed : UInt64) : LtDecoder where
  k := k
  blockSize := blockSize
  streamSeed := streamSeed
  decoded := List.replicate k none
  pending := []
  references := List.replicate k []
  resolved := 0

/-- The blocks that are still missing. -/
def undecoded (d : LtDecoder) : Nat := d.decoded.count none

/-- Fold block `b` out of a pending symbol, if it refers to it. -/
def foldOut (b : Nat) (val v : Bytes) (unres : List Nat) : Bytes × List Nat :=
  match unres.idxOf? b with
  | some pos => (xorInto v val, swapRemove unres pos)
  | none => (v, unres)

/-- One turn of the inner loop of `resolve`: block `b` is folded out of pending symbol `p`,
which reveals its last block if only one is left. -/
def peelOne (b : Nat) (val : Bytes) (p : Nat) (d : LtDecoder) (queue : List Nat) :
    Option (LtDecoder × List Nat) :=
  match d.pending[p]? with
  | none => some (d, queue)
  | some (v, unres) =>
    if unres = [] then some (d, queue)
    else
      match foldOut b val v unres with
      | (v, [revealed]) =>
        let d := { d with pending := d.pending.set p ([], []) }
        match d.decoded[revealed]? with
        | none => none
        | some (some _) => some (d, queue)
        | some none =>
          some ({ d with
            decoded := d.decoded.set revealed (some v)
            resolved := d.resolved + 1 }, revealed :: queue)
      | (v, unres) => some ({ d with pending := d.pending.set p (v, unres) }, queue)

def peelRefs (b : Nat) (val : Bytes) :
    List Nat → LtDecoder → List Nat → Option (LtDecoder × List Nat)
  | [], d, queue => some (d, queue)
  | p :: refs, d, queue =>
    match peelOne b val p d queue with
    | none => none
    | some (d, queue) => peelRefs b val refs d queue

theorem count_none_set {decoded : List (Option Bytes)} {n : Nat} (h : decoded[n]? = some none)
    (v : Bytes) : (decoded.set n (some v)).count none + 1 = decoded.count none := by
  obtain ⟨hn, hget⟩ := List.getElem?_eq_some_iff.mp h
  have hpos : 0 < decoded.count none := List.count_pos_iff.mpr (hget ▸ List.getElem_mem hn)
  rw [List.count_set hn, hget]
  simp
  omega

/-- A revealed block leaves one block fewer missing and one more in the queue. -/
theorem peelOne_measure {b p : Nat} {val : Bytes} {queue queue' : List Nat} {d d' : LtDecoder}
    (h : peelOne b val p d queue = some (d', queue')) :
    d'.undecoded + queue'.length = d.undecoded + queue.length := by
  unfold peelOne at h
  split at h
  · cases h
    rfl
  · split at h
    · cases h
      rfl
    · split at h
      · next v revealed _ =>
        dsimp only at h
        split at h
        · cases h
        · cases h
          rfl
        · next hmissing =>
          cases h
          have hcount := count_none_set hmissing v
          rw [List.length_cons]
          simp only [undecoded]
          omega
      · cases h
        rfl

theorem peelRefs_measure {b : Nat} {val : Bytes} {refs queue queue' : List Nat}
    {d d' : LtDecoder} (h : peelRefs b val refs d queue = some (d', queue')) :
    d'.undecoded + queue'.length = d.undecoded + queue.length := by
  induction refs generalizing d queue with
  | nil =>
    cases h
    rfl
  | cons p refs ih =>
    rw [peelRefs] at h
    split at h
    · cases h
    · next hone => rw [ih h, peelOne_measure hone]

/-- The outer loop of `resolve`: the queue holds decoded blocks yet to be folded out. -/
def ripple (d : LtDecoder) : List Nat → Option LtDecoder
  | [] => some d
  | b :: queue =>
    match d.references[b]?, d.decoded[b]? with
    | some refs, some (some val) =>
      match _hpeel : peelRefs b val refs { d with references := d.references.set b [] } queue with
      | none => none
      | some (d', queue') => ripple d' queue'
    | _, _ => none
termination_by queue => d.undecoded + queue.length
decreasing_by
  rw [peelRefs_measure _hpeel, List.length_cons]
  show d.undecoded + queue.length < _
  omega

def resolve (d : LtDecoder) (block : Nat) (value : Bytes) : Option LtDecoder :=
  if block < d.decoded.length then
    ripple
      { d with
        decoded := d.decoded.set block (some value)
        resolved := d.resolved + 1 } [block]
  else none

/-- Fold the decoded blocks out of an incoming symbol and collect the others. -/
def gather (decoded : List (Option Bytes)) :
    List Nat → Bytes → List Nat → Option (Bytes × List Nat)
  | [], value, unresolved => some (value, unresolved)
  | n :: ns, value, unresolved =>
    match decoded[n]? with
    | none => none
    | some (some d) => gather decoded ns (xorInto value d) unresolved
    | some none => gather decoded ns value (unresolved ++ [n])

/-- `references[n].push(idx)` for every unresolved block. -/
def noteReferences (idx : Nat) : List Nat → List (List Nat) → Option (List (List Nat))
  | [], references => some references
  | n :: ns, references =>
    match references[n]? with
    | none => none
    | some refs => noteReferences idx ns (references.set n (refs ++ [idx]))

def pushSymbol (neighbors : Neighbors) (d : LtDecoder) (symbolId : Nat) (bytes : Bytes) :
    Outcome LtError LtDecoder :=
  if bytes.length ≠ d.blockSize then
    .err (.invalid ("symbol size " ++ toString bytes.length ++ " != block size "
      ++ toString d.blockSize))
  else
    match neighbors d.k d.streamSeed symbolId with
    | none => .panic
    | some l =>
      match gather d.decoded l bytes [] with
      | none => .panic
      | some (_, []) => .ok d
      | some (value, [b]) =>
        match d.resolve b value with
        | none => .panic
        | some d => .ok d
      | some (value, unresolved) =>
        match noteReferences d.pending.length unresolved d.references with
        | none => .panic
        | some references =>
          .ok { d with references := references, pending := d.pending ++ [(value, unresolved)] }

/-- All blocks in order, with the padding of the last. -/
def finish (d : LtDecoder) : Outcome LtError Bytes :=
  if d.resolved < d.k then .err (.decodeIncomplete d.resolved d.k)
  else
    match d.decoded.mapM id with
    | none => .panic
    | some blocks => .ok blocks.flatten

/-- The decoder has resolved block `n`. -/
def Resolved (d : LtDecoder) (n : Nat) : Prop := ∃ v, d.decoded[n]? = some (some v)

end LtDecoder

end DiscCleaner
