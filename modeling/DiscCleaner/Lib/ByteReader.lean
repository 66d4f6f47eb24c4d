import DiscCleaner.Lib.BigEndian

/-!
# Readers over byte strings

A reader takes bytes off a cursor and gives a value, or fails. `Parses` says what it makes of one
byte string, whatever follows it.
-/

namespace ByteLib

/-- The bytes that are left, and how many were taken. -/
structure Cursor where
  rest : Bytes
  pos : Nat

abbrev Read (ε α : Type) : Type := StateT Cursor (Except ε) α

namespace Read

variable {ε α β : Type}

theorem pure_run (a : α) (c : Cursor) : (pure a : Read ε α) c = .ok (a, c) := rfl

theorem bind_run_ok {p : Read ε α} {f : α → Read ε β} {c c' : Cursor} {a : α}
    (h : p c = .ok (a, c')) : (p >>= f) c = f a c' := by
  show Except.bind (p c) _ = _
  rw [h]
  rfl

theorem bind_run_error {p : Read ε α} {f : α → Read ε β} {c : Cursor} {e : ε}
    (h : p c = .error e) : (p >>= f) c = .error e := by
  show Except.bind (p c) _ = _
  rw [h]
  rfl

theorem bind_eq_ok {p : Read ε α} {f : α → Read ε β} {c c' : Cursor} {b : β} :
    (p >>= f) c = .ok (b, c') ↔ ∃ a c₁, p c = .ok (a, c₁) ∧ f a c₁ = .ok (b, c') := by
  constructor
  · intro h
    cases hp : p c with
    | error e =>
      rw [bind_run_error hp] at h
      cases h
    | ok out =>
      obtain ⟨a, c₁⟩ := out
      rw [bind_run_ok hp] at h
      exact ⟨a, c₁, rfl, h⟩
  · rintro ⟨a, c₁, hp, hf⟩
    rw [bind_run_ok hp, hf]

/-- The value of a reader over a whole byte string; what is left over is not looked at. -/
def value (p : Read ε α) (bs : Bytes) : Except ε α :=
  match p ⟨bs, 0⟩ with
  | .ok (a, _) => .ok a
  | .error e => .error e

theorem value_eq_ok {p : Read ε α} {bs : Bytes} {a : α} :
    p.value bs = .ok a ↔ ∃ c, p ⟨bs, 0⟩ = .ok (a, c) := by
  unfold value
  constructor
  · intro h
    cases hp : p ⟨bs, 0⟩ with
    | error e =>
      rw [hp] at h
      cases h
    | ok out =>
      rw [hp] at h
      cases h
      exact ⟨out.2, rfl⟩
  · rintro ⟨c, h⟩
    rw [h]

/-! ## What a reader makes of a byte string -/

/-- The reader takes exactly these bytes off any cursor that starts with them. -/
def Parses (p : Read ε α) (bs : Bytes) (a : α) : Prop :=
  ∀ rest pos, p ⟨bs ++ rest, pos⟩ = .ok (a, ⟨rest, pos + bs.length⟩)

namespace Parses

variable {p : Read ε α} {bs : Bytes} {a : α}

theorem ret (a : α) : Parses (pure a : Read ε α) [] a := fun _ _ => rfl

theorem bind {f : α → Read ε β} {bs' : Bytes} {b : β} (hp : Parses p bs a)
    (hf : Parses (f a) bs' b) : Parses (p >>= f) (bs ++ bs') b := by
  intro rest pos
  rw [List.append_assoc, bind_run_ok (hp _ _), hf, List.length_append, Nat.add_assoc]

/-- The last reader of a chain. -/
theorem map {f : α → Read ε β} {b : β} (hp : Parses p bs a) (hf : Parses (f a) [] b) :
    Parses (p >>= f) bs b := by
  simpa using hp.bind hf

theorem value (h : Parses p bs a) : p.value bs = .ok a := by
  have hrun := h [] 0
  rw [List.append_nil] at hrun
  exact value_eq_ok.mpr ⟨_, hrun⟩

theorem value_append (h : Parses p bs a) (rest : Bytes) : p.value (bs ++ rest) = .ok a :=
  value_eq_ok.mpr ⟨_, h rest 0⟩

end Parses

/-! ## The same reader over and over -/

/-- Read `n` values, one behind the other. -/
def times (p : Read ε α) : Nat → Read ε (List α)
  | 0 => pure []
  | n + 1 => do
    let a ← p
    let as ← times p n
    pure (a :: as)

/-- Strings that the reader takes one by one are taken one behind the other. -/
theorem Parses.times {p : Read ε α} {enc : α → Bytes} {as : List α}
    (h : ∀ a ∈ as, Parses p (enc a) a) : Parses (p.times as.length) (as.flatMap enc) as := by
  induction as with
  | nil => exact .ret []
  | cons a as ih =>
    refine (h a List.mem_cons_self).bind ((ih fun b hb => h b (List.mem_cons_of_mem a hb)).map ?_)
    exact .ret (a :: as)

theorem length_of_times {p : Read ε α} {n : Nat} {c c' : Cursor} {as : List α}
    (h : p.times n c = .ok (as, c')) : as.length = n := by
  induction n generalizing c as with
  | zero =>
    cases h
    rfl
  | succ n ih =>
    obtain ⟨a, c₁, -, hrest⟩ := bind_eq_ok.mp h
    obtain ⟨as', c₂, hmany, hret⟩ := bind_eq_ok.mp hrest
    cases hret
    rw [List.length_cons, ih hmany]

end Read

end ByteLib

/-!
# Readers that keep their place

A reader over the bytes that are left. When it fails, the cursor stays where the failing step found
it, and the caller goes on from there with a default.
-/

namespace ByteLib

def Scan (α : Type) : Type := Bytes → Option α × Bytes

namespace Scan

variable {α β : Type}

def ret (a : α) : Scan α := fun bs => (some a, bs)

def andThen (p : Scan α) (f : α → Scan β) : Scan β := fun bs =>
  match p bs with
  | (some a, rest) => f a rest
  | (none, rest) => (none, rest)

instance : Monad Scan where
  pure := ret
  bind := andThen

def fail : Scan α := fun bs => (none, bs)

def raw (n : Nat) : Scan Bytes := fun bs =>
  if bs.length < n then (none, bs) else (some (bs.take n), bs.drop n)

/-- A big-endian number of `n` bytes. -/
def word (n : Nat) : Scan Nat := do
  let b ← raw n
  pure (beNat b)

/-- The same reader over and over, up to the first failure. -/
def times (p : Scan α) : Nat → Scan (List α)
  | 0 => pure []
  | n + 1 => do
    let a ← p
    let as ← times p n
    pure (a :: as)

/-- What was read, or the default. -/
def orElse (p : Scan α) (default : α) (bs : Bytes) : α × Bytes := ((p bs).1.getD default, (p bs).2)

/-- The reader takes exactly these bytes off any string that starts with them. -/
def Takes (p : Scan α) (bs : Bytes) (a : α) : Prop := ∀ rest, p (bs ++ rest) = (some a, rest)

namespace Takes

variable {p : Scan α} {bs : Bytes} {a : α}

theorem ret (a : α) : Takes (pure a : Scan α) [] a := fun _ => rfl

theorem bind {f : α → Scan β} {bs' : Bytes} {b : β} (hp : Takes p bs a) (hf : Takes (f a) bs' b) :
    Takes (p >>= f) (bs ++ bs') b := by
  intro rest
  show andThen p f _ = _
  rw [andThen, List.append_assoc, hp]
  exact hf rest

/-- The last reader of a chain. -/
theorem map {f : α → Scan β} {b : β} (hp : Takes p bs a) (hf : Takes (f a) [] b) :
    Takes (p >>= f) bs b := by
  simpa using hp.bind hf

theorem raw {n : Nat} (h : bs.length = n) : Takes (raw n) bs bs := by
  intro rest
  have hlen : ¬ (bs ++ rest).length < n := by
    rw [List.length_append]
    omega
  rw [Scan.raw, if_neg hlen, List.take_left' h, List.drop_left' h]

/-- Of a number that does not fit, what was written is read. -/
theorem written (n v : Nat) : Takes (word n) (be n v) (beNat (be n v)) :=
  (raw (be_length n v)).map (.ret _)

theorem word {n v : Nat} (h : v < 256 ^ n) : Takes (word n) (be n v) v := by
  have hword := written n v
  rwa [beNat_be h] at hword

theorem times {enc : α → Bytes} {as : List α} (h : ∀ a ∈ as, Takes p (enc a) a) :
    Takes (p.times as.length) (as.flatMap enc) as := by
  induction as with
  | nil => exact .ret []
  | cons a as ih =>
    refine (h a List.mem_cons_self).bind ((ih fun b hb => h b (List.mem_cons_of_mem a hb)).map ?_)
    exact .ret (a :: as)

theorem orElse (h : Takes p bs a) (default : α) (rest : Bytes) :
    p.orElse default (bs ++ rest) = (a, rest) := by
  rw [Scan.orElse, h rest]
  rfl

/-- Nothing is left behind the last field. -/
theorem orElse_end (h : Takes p bs a) (default : α) : p.orElse default bs = (a, []) := by
  have hrun := h.orElse default []
  rwa [List.append_nil] at hrun

end Takes

end Scan

end ByteLib
