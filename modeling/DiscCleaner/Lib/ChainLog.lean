import DiscCleaner.Lib.Bytes
import Mathlib.Data.List.Induction
import Mathlib.Data.Set.Function

/-!
# Hash-chained logs of length-prefixed records

An append-only log is a sequence of *frames*; each frame carries one record body

```
le32 |body| ++ body ++ digest ++ trailer        digest = hash (body ++ previous digest)
```

so every digest covers all the bodies before it. The library is parametric in the hash,
the digest width and the trailer (a signature, or nothing).

* **Cuts** (`cutFrames`): cutting a concatenation of frames at any byte leaves the frames
  that lie wholly before the cut, and a proper prefix of the next one.
* **Chains** (`head`, `frames`): how heads and frames compose over appended bodies.
* **Binding** (`head_injOn`): equal heads come from equal body lists, as long as the hash
  has no collision among the strings the two chains hashed.
-/

namespace ChainLog

open ByteLib

/-! ## Cutting a concatenation of frames -/

section Cut

variable {α : Type*}

/-- The frames lying wholly in the first `n` elements of their concatenation, and what is
left of the next one. -/
def cutFrames : List (List α) → Nat → List (List α) × List α
  | [], _ => ([], [])
  | f :: fs, n =>
    if f.length ≤ n then
      let c := cutFrames fs (n - f.length)
      (f :: c.1, c.2)
    else ([], f.take n)

/-- The cut concatenation is the whole frames followed by the torn one. -/
theorem take_flatten_eq (fs : List (List α)) (n : Nat) :
    fs.flatten.take n = (cutFrames fs n).1.flatten ++ (cutFrames fs n).2 := by
  induction fs generalizing n with
  | nil => simp [cutFrames]
  | cons f fs ih =>
    by_cases hf : f.length ≤ n
    · rw [List.flatten_cons, List.take_append, List.take_of_length_le hf, ih]
      simp [cutFrames, hf]
    · rw [List.flatten_cons, List.take_append_of_le_length (by omega)]
      simp [cutFrames, hf]

/-- The whole frames are the first ones. -/
theorem cutFrames_fst (fs : List (List α)) (n : Nat) :
    (cutFrames fs n).1 = fs.take (cutFrames fs n).1.length := by
  induction fs generalizing n with
  | nil => simp [cutFrames]
  | cons f fs ih =>
    by_cases hf : f.length ≤ n
    · simp only [cutFrames, hf, if_true, List.length_cons, List.take_succ_cons]
      rw [← ih]
    · simp [cutFrames, hf]

theorem cutFrames_length_le (fs : List (List α)) (n : Nat) :
    (cutFrames fs n).1.length ≤ fs.length := by
  have h := congrArg List.length (cutFrames_fst fs n)
  rw [List.length_take] at h
  omega

/-- **A cut tears at most one frame**: either nothing is left over, or what is left is a
proper prefix of the first frame that does not lie wholly before the cut. -/
theorem cutFrames_snd (fs : List (List α)) (n : Nat) :
    (cutFrames fs n).2 = [] ∨
      ∃ f, fs[(cutFrames fs n).1.length]? = some f ∧ (cutFrames fs n).2 <+: f
        ∧ (cutFrames fs n).2.length < f.length := by
  induction fs generalizing n with
  | nil => simp [cutFrames]
  | cons f fs ih =>
    by_cases hf : f.length ≤ n
    · simpa [cutFrames, hf] using ih (n - f.length)
    · right
      refine ⟨f, by simp [cutFrames, hf], ?_, ?_⟩
      · simpa [cutFrames, hf] using List.take_prefix n f
      · simp only [cutFrames, hf, if_false, List.length_take]
        omega

end Cut

/-! ## Chains of digests -/

/-! ## The bodies in a byte string -/

/-- The bodies of the next `n` frames: each is as long as its length word says and is
followed by `overhead` bytes. -/
def splitBodies (overhead : Nat) : Nat → Bytes → List Bytes
  | 0, _ => []
  | n + 1, bs =>
    let len := ofLe (bs.take 4)
    (bs.drop 4).take len :: splitBodies overhead n (bs.drop (4 + len + overhead))

theorem splitBodies_succ {overhead : Nat} (n : Nat) {lenBuf body after : Bytes} (rest : Bytes)
    (hlen4 : lenBuf.length = 4) (hlen : ofLe lenBuf = body.length)
    (hafter : after.length = overhead) :
    splitBodies overhead (n + 1) (lenBuf ++ (body ++ (after ++ rest)))
      = body :: splitBodies overhead n rest := by
  have hskip : (lenBuf ++ (body ++ after)).length = 4 + body.length + overhead := by
    simp only [List.length_append, hlen4, hafter]
    omega
  have hassoc : lenBuf ++ (body ++ (after ++ rest)) = (lenBuf ++ (body ++ after)) ++ rest := by
    simp
  rw [splitBodies]
  simp only [List.take_left' hlen4, List.drop_left' hlen4, hlen, List.take_left' rfl]
  rw [hassoc, List.drop_left' hskip]

theorem splitBodies_length (overhead n : Nat) (bs : Bytes) :
    (splitBodies overhead n bs).length = n := by
  induction n generalizing bs with
  | zero => rfl
  | succ n ih => rw [splitBodies, List.length_cons, ih]

section Chain

variable {w : Nat} (hash : Bytes → Block w) (trailer : Block w → Bytes → Bytes)

/-- The digest of a record: it covers the body and the previous digest. -/
def link (prev : Block w) (body : Bytes) : Block w := hash (body ++ prev.bytes)

/-- The chain head after a list of bodies. -/
def head (seed : Block w) (bodies : List Bytes) : Block w := bodies.foldl (link hash) seed

@[simp] theorem head_nil (seed : Block w) : head hash seed [] = seed := rfl

@[simp] theorem head_cons (seed : Block w) (b : Bytes) (bs : List Bytes) :
    head hash seed (b :: bs) = head hash (link hash seed b) bs := rfl

theorem head_append (seed : Block w) (as bs : List Bytes) :
    head hash seed (as ++ bs) = head hash (head hash seed as) bs := List.foldl_append

theorem head_concat (seed : Block w) (bs : List Bytes) (b : Bytes) :
    head hash seed (bs ++ [b]) = hash (b ++ (head hash seed bs).bytes) := by
  simp [head_append, link]

/-! ## Frames -/

/-- One record on the wire. -/
def frame (prev : Block w) (body : Bytes) : Bytes :=
  le32 body.length ++ (body ++ ((link hash prev body).bytes ++ trailer prev body))

/-- The frames of a list of bodies, each chained to the one before. -/
def frames : Block w → List Bytes → List Bytes
  | _, [] => []
  | prev, b :: bs => frame hash trailer prev b :: frames (link hash prev b) bs

theorem frame_length (prev : Block w) (body : Bytes) :
    (frame hash trailer prev body).length
      = 4 + body.length + w + (trailer prev body).length := by
  simp [frame, (link hash prev body).size]; omega

@[simp] theorem frames_length (prev : Block w) (bs : List Bytes) :
    (frames hash trailer prev bs).length = bs.length := by
  induction bs generalizing prev with
  | nil => rfl
  | cons b bs ih => simp [frames, ih]

theorem frames_append (prev : Block w) (as bs : List Bytes) :
    frames hash trailer prev (as ++ bs)
      = frames hash trailer prev as ++ frames hash trailer (head hash prev as) bs := by
  induction as generalizing prev with
  | nil => rfl
  | cons a as ih => simp [frames, ih]

theorem frames_take (prev : Block w) (bs : List Bytes) (k : Nat) :
    (frames hash trailer prev bs).take k = frames hash trailer prev (bs.take k) := by
  induction bs generalizing prev k with
  | nil => simp [frames]
  | cons b bs ih =>
    cases k with
    | zero => rfl
    | succ k => simp [frames, ih]

/-- The `k`-th frame carries the `k`-th body, chained to the head of the bodies before it. -/
theorem frames_getElem? (prev : Block w) (bs : List Bytes) (k : Nat) :
    (frames hash trailer prev bs)[k]?
      = bs[k]?.map fun b => frame hash trailer (head hash prev (bs.take k)) b := by
  induction bs generalizing prev k with
  | nil => simp [frames]
  | cons b bs ih =>
    cases k with
    | zero => simp [frames]
    | succ k => simp [frames, ih]

/-! ## Cutting a log of frames -/

/-- The bodies of the frames that lie wholly before a cut. -/
def wholeBodies (prev : Block w) (bs : List Bytes) (n : Nat) : List Bytes :=
  bs.take (cutFrames (frames hash trailer prev bs) n).1.length

/-- The bytes of the frame the cut tears. -/
def tornBytes (prev : Block w) (bs : List Bytes) (n : Nat) : Bytes :=
  (cutFrames (frames hash trailer prev bs) n).2

/-- A cut log is the log of the whole bodies followed by the torn bytes. -/
theorem take_frames_eq (prev : Block w) (bs : List Bytes) (n : Nat) :
    (frames hash trailer prev bs).flatten.take n
      = (frames hash trailer prev (wholeBodies hash trailer prev bs n)).flatten
          ++ tornBytes hash trailer prev bs n := by
  rw [take_flatten_eq, cutFrames_fst, frames_take]
  rfl

/-- The torn bytes are a proper prefix of the first frame that is not whole. -/
theorem tornBytes_cases (prev : Block w) (bs : List Bytes) (n : Nat) :
    tornBytes hash trailer prev bs n = [] ∨
      ∃ b, bs[(wholeBodies hash trailer prev bs n).length]? = some b ∧
        tornBytes hash trailer prev bs n
          <+: frame hash trailer (head hash prev (wholeBodies hash trailer prev bs n)) b ∧
        (tornBytes hash trailer prev bs n).length
          < (frame hash trailer (head hash prev (wholeBodies hash trailer prev bs n)) b).length := by
  have hlen : (wholeBodies hash trailer prev bs n).length
      = (cutFrames (frames hash trailer prev bs) n).1.length := by
    have := cutFrames_length_le (frames hash trailer prev bs) n
    rw [frames_length] at this
    rw [wholeBodies, List.length_take]
    omega
  rcases cutFrames_snd (frames hash trailer prev bs) n with h | ⟨f, hf, hpre, hlt⟩
  · exact Or.inl h
  · rw [frames_getElem?, ← hlen] at hf
    obtain ⟨b, hb, rfl⟩ := Option.map_eq_some_iff.mp hf
    have htake : bs.take (wholeBodies hash trailer prev bs n).length
        = wholeBodies hash trailer prev bs n := by rw [hlen]; rfl
    rw [htake] at hpre hlt
    exact Or.inr ⟨b, hb, hpre, hlt⟩

/-- A torn frame that kept its length word starts with it. -/
theorem torn_starts_with_length {prev : Block w} {body t : Bytes}
    (hpre : t <+: frame hash trailer prev body) (h4 : 4 ≤ t.length) :
    ∃ t', t = le32 body.length ++ t' := by
  obtain ⟨s, hs⟩ := hpre
  rw [frame] at hs
  obtain ⟨t', ht'⟩ : le32 body.length <+: t :=
    List.prefix_of_prefix_length_le ⟨_, rfl⟩ ⟨s, hs⟩ (by simpa using h4)
  exact ⟨t', ht'.symm⟩

/-! ## Binding -/

/-- The strings hashed while a chain grows from `seed`. -/
def chainInputs : Block w → List Bytes → List Bytes
  | _, [] => []
  | prev, b :: bs => (b ++ prev.bytes) :: chainInputs (link hash prev b) bs

theorem chainInputs_append (seed : Block w) (as bs : List Bytes) :
    chainInputs hash seed (as ++ bs)
      = chainInputs hash seed as ++ chainInputs hash (head hash seed as) bs := by
  induction as generalizing seed with
  | nil => rfl
  | cons a as ih => simp [chainInputs, ih]

/-- Every string hashed by a log whose seed is the digest of its magic. -/
def logInputs (magic : Bytes) (bodies : List Bytes) : Set Bytes :=
  {x | x = magic ∨ x ∈ chainInputs hash (hash magic) bodies}

theorem mem_logInputs_concat (magic : Bytes) (bs : List Bytes) (b : Bytes) :
    b ++ (head hash (hash magic) bs).bytes ∈ logInputs hash magic (bs ++ [b]) := by
  right
  rw [chainInputs_append]
  simp [chainInputs]

theorem logInputs_subset_concat (magic : Bytes) (bs : List Bytes) (b : Bytes) :
    logInputs hash magic bs ⊆ logInputs hash magic (bs ++ [b]) := by
  rintro x (rfl | hx)
  · exact Or.inl rfl
  · right
    rw [chainInputs_append]
    exact List.mem_append_left _ hx

/-- **The head binds the bodies.** When the magic is shorter than a digest and the hash is
injective on the strings the two chains hashed, equal heads mean equal body lists.
Induction from the head back to the seed. -/
theorem head_injOn {magic : Bytes} (hmagic : magic.length < w) {as bs : List Bytes}
    (hinj : Set.InjOn hash (logInputs hash magic as ∪ logInputs hash magic bs))
    (heq : head hash (hash magic) as = head hash (hash magic) bs) : as = bs := by
  have seed_ne : ∀ (cs : List Bytes) (c : Bytes),
      magic ≠ c ++ (head hash (hash magic) cs).bytes := by
    intro cs c h
    have := congrArg List.length h
    rw [List.length_append, (head hash (hash magic) cs).size] at this
    omega
  induction as using List.reverseRecOn generalizing bs with
  | nil =>
    rcases List.eq_nil_or_concat bs with rfl | ⟨bs, b, rfl⟩
    · rfl
    · rw [List.concat_eq_append] at heq hinj
      rw [head_nil, head_concat] at heq
      have := hinj (Or.inl (Or.inl rfl)) (Or.inr (mem_logInputs_concat hash magic bs b)) heq
      exact absurd this (seed_ne bs b)
  | append_singleton as a ih =>
    rcases List.eq_nil_or_concat bs with rfl | ⟨bs, b, rfl⟩
    · rw [head_nil, head_concat] at heq
      have := hinj (Or.inr (Or.inl rfl)) (Or.inl (mem_logInputs_concat hash magic as a)) heq.symm
      exact absurd this (seed_ne as a)
    · rw [List.concat_eq_append] at heq hinj ⊢
      rw [head_concat, head_concat] at heq
      have hstr := hinj (Or.inl (mem_logInputs_concat hash magic as a))
        (Or.inr (mem_logInputs_concat hash magic bs b)) heq
      -- both strings end in a digest of the same width
      obtain ⟨hab, hdig⟩ := List.append_inj' hstr (by simp [Block.size])
      have hsub := Set.union_subset_union (logInputs_subset_concat hash magic as a)
        (logInputs_subset_concat hash magic bs b)
      rw [hab, ih (hinj.mono hsub) (Block.ext hdig)]

end Chain

end ChainLog
