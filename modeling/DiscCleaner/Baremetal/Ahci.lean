import DiscCleaner.Lib.Slices
import DiscCleaner.Lib.Prog
import Mathlib.Logic.Function.Basic
import Mathlib.Data.Nat.Bitwise
import Mathlib.Data.List.Nodup
import Mathlib.Data.List.Perm.Subperm

/-!
# DiscCleaner — the AHCI driver of the boot payload (`dc-baremetal/ahci.rs`)

The structures of a port lie in the DMA window, one port behind the other. A command is a header
and a table there, issued through PxCI; a host bus adapter is whatever it shows at PxCI and PxIS
after that.
-/

namespace DiscCleaner

open ByteLib ProgLib

namespace Baremetal

inductive AhciError where
  | hbaNotIdle
  | noPorts
  | portBusy
  | commandTimeout
  | taskFileError
  | unsupportedSignature (sig : UInt32)
  deriving DecidableEq

def PORT_IRQ_TFE : UInt32 := (1 : UInt32) <<< 0
def PORT_IRQ_DH : UInt32 := (1 : UInt32) <<< 1

/-- The low and the high word of an address. -/
def addrWords (addr : Nat) : Nat × Nat := (addr % 2 ^ 32, addr / 2 ^ 32 % 2 ^ 32)

def joinWords (words : Nat × Nat) : Nat := words.1 + 2 ^ 32 * words.2

theorem joinWords_addrWords {addr : Nat} (h : addr < 2 ^ 64) : joinWords (addrWords addr) = addr := by
  unfold joinWords addrWords
  dsimp only
  omega

/-! ## Frames and structures in memory -/

structure RegFisH2D where
  isWrite : Bool
  command : UInt8
  lba : Nat
  count : Nat

namespace RegFisH2D

def dmaExt (isWrite : Bool) (lba count : Nat) : RegFisH2D :=
  { isWrite, command := if isWrite then 0x35 else 0x25, lba, count }

/-- `write_to`: the 64 bytes of the command FIS area. -/
def writeTo (f : RegFisH2D) : Bytes :=
  ([0x27, (1 : UInt8) <<< 7, f.command, 0,
    UInt8.ofNat f.lba, UInt8.ofNat (f.lba / 2 ^ 8), UInt8.ofNat (f.lba / 2 ^ 16), 0x40,
    UInt8.ofNat (f.lba / 2 ^ 24), UInt8.ofNat (f.lba / 2 ^ 32), UInt8.ofNat (f.lba / 2 ^ 40), 0,
    UInt8.ofNat f.count, UInt8.ofNat (f.count / 2 ^ 8)] : Bytes)
    ++ List.replicate 50 0

end RegFisH2D

/-- The descriptor of the one data region: its address, and its size with the interrupt bit. -/
def prdtEntry (dba sectors : Nat) : Bytes :=
  le32 dba ++ le32 (dba / 2 ^ 32) ++ le32 0 ++ le32 ((sectors * 512 - 1) ||| 1 <<< 31)

/-- Command FIS, ATAPI command and descriptor table. -/
def cmdTable (isWrite : Bool) (lba sectors dba : Nat) : Bytes :=
  (RegFisH2D.dmaExt isWrite lba sectors).writeTo ++ List.replicate 16 0 ++ prdtEntry dba sectors

def cmdHeader (isWrite : Bool) (table : Nat) : Bytes :=
  le32 (5 ||| 1 <<< 16 ||| (if isWrite then 1 else 0) <<< 6 ||| 1 <<< 10) ++ le32 0 ++ le32 table
    ++ le32 (table / 2 ^ 32)

@[simp] theorem cmdTable_length (isWrite : Bool) (lba sectors dba : Nat) :
    (cmdTable isWrite lba sectors dba).length = 96 := rfl

@[simp] theorem cmdHeader_length (isWrite : Bool) (table : Nat) :
    (cmdHeader isWrite table).length = 16 := rfl

/-! ## The driver -/

/-- The physical addresses of a port's structures. -/
structure PortAreas where
  list : Nat
  fis : Nat
  table : Nat

/-- The driver with its DMA window: 2 MiB below 4 GiB, as the payload allocates it. The window is
addressed from its start, the registers hold physical addresses. -/
structure Ahci where
  phys : Nat
  phys_le : phys + 2 ^ 21 ≤ 2 ^ 32
  window : Memory
  bump : Nat
  ports : Nat → PortAreas
  /-- PxCLB and PxCLBU of each port. -/
  clb : Nat → Nat × Nat

namespace Ahci

def init (phys : Nat) (h : phys + 2 ^ 21 ≤ 2 ^ 32) (window : Memory) : Ahci :=
  { phys, phys_le := h, window, bump := 0, ports := fun _ => ⟨0, 0, 0⟩, clb := fun _ => (0, 0) }

/-- The structures of the port that is started `k` bytes into the window. -/
def areasAt (phys k : Nat) : PortAreas := ⟨phys + k, phys + (k + 1024), phys + (k + 1024 + 256)⟩

def startPort (a : Ahci) (port : Nat) : Ahci :=
  { a with
    bump := a.bump + (1024 + 256 + 256 + 128)
    window := a.window.write a.bump (List.replicate (1024 + 256 + 256 + 128) 0)
    ports := Function.update a.ports port (areasAt a.phys a.bump)
    clb := Function.update a.clb port (addrWords (areasAt a.phys a.bump).list) }

/-- The driver after `init`, once these ports were started, each at most once, and after any
commands: those change the window only. -/
inductive Driven : List Nat → Ahci → Prop where
  | init (phys : Nat) (h : phys + 2 ^ 21 ≤ 2 ^ 32) (window : Memory) :
      Driven [] (Ahci.init phys h window)
  | start {started : List Nat} {a : Ahci} {port : Nat} (ha : Driven started a) (hport : port < 32)
      (hnew : port ∉ started) : Driven (started ++ [port]) (a.startPort port)
  | window {started : List Nat} {a : Ahci} (ha : Driven started a) (m : Memory) :
      Driven started { a with window := m }

/-- A port whose structures are `k` bytes into the window. -/
structure PlacedAt (a : Ahci) (port k : Nat) : Prop where
  areas : a.ports port = areasAt a.phys k
  clb : a.clb port = addrWords (a.phys + k)

theorem startPort_placed (a : Ahci) (port : Nat) : (a.startPort port).PlacedAt port a.bump where
  areas := Function.update_self ..
  clb := Function.update_self ..

/-- The structures of the other ports stay where they are. -/
theorem PlacedAt.startPort {a : Ahci} {p port k : Nat} (h : a.PlacedAt p k) (hne : p ≠ port) :
    (a.startPort port).PlacedAt p k where
  areas := (Function.update_of_ne hne ..).trans h.areas
  clb := (Function.update_of_ne hne ..).trans h.clb

/-- Each started port has the structures that its place in the order of the starts gives it. -/
theorem Driven.placed {started : List Nat} {a : Ahci} (h : Driven started a) :
    a.bump = started.length * 1664
      ∧ ∀ n port, started[n]? = some port → port < 32 ∧ a.PlacedAt port (n * 1664) := by
  induction h with
  | init => exact ⟨rfl, fun n port hn => by simp at hn⟩
  | @start started a port ha hport hnew ih =>
    obtain ⟨hbump, hplaced⟩ := ih
    refine ⟨by simp only [startPort, hbump, List.length_append, List.length_singleton]; omega, ?_⟩
    intro n p hn
    by_cases hlast : n < started.length
    · rw [List.getElem?_append_left hlast] at hn
      have hne : p ≠ port := fun heq => hnew (heq ▸ List.mem_of_getElem? hn)
      exact ⟨(hplaced n p hn).1, (hplaced n p hn).2.startPort hne⟩
    · have hn' : n = started.length := by
        have hlt := (List.getElem?_eq_some_iff.mp hn).1
        rw [List.length_append, List.length_singleton] at hlt
        omega
      subst hn'
      rw [List.getElem?_concat_length, Option.some.injEq] at hn
      subst hn
      exact ⟨hport, hbump ▸ a.startPort_placed port⟩
  | window ha m ih =>
    obtain ⟨hbump, hplaced⟩ := ih
    exact ⟨hbump, fun n port hn => ⟨(hplaced n port hn).1, (hplaced n port hn).2.areas,
      (hplaced n port hn).2.clb⟩⟩

theorem Driven.nodup {started : List Nat} {a : Ahci} (h : Driven started a) : started.Nodup := by
  induction h with
  | init => exact List.nodup_nil
  | start ha hport hnew ih => exact List.nodup_append.mpr ⟨ih, List.nodup_singleton _, by
      rintro p hp q hq rfl
      exact hnew (List.mem_singleton.mp hq ▸ hp)⟩
  | window ha m ih => exact ih

/-- There are 32 ports. -/
theorem Driven.length_le {started : List Nat} {a : Ahci} (h : Driven started a) :
    started.length ≤ 32 := by
  have hlt : ∀ p ∈ started, p < 32 := by
    intro p hp
    obtain ⟨n, hn⟩ := List.getElem?_of_mem hp
    exact (h.placed.2 n p hn).1
  have hsub : started ⊆ List.range 32 := fun p hp => List.mem_range.mpr (hlt p hp)
  have hle := (h.nodup.subperm hsub).length_le
  simpa using hle

/-- Build the table and the header of a command in the window. -/
def build (a : Ahci) (port : Nat) (isWrite : Bool) (lba sectors dataOff : Nat) : Ahci :=
  let areas := a.ports port
  let window := a.window.write (areas.table - a.phys)
    (cmdTable isWrite lba sectors (a.phys + dataOff))
  { a with window := window.write (areas.list - a.phys) (cmdHeader isWrite areas.table) }

end Ahci

/-! ## What the adapter fetches -/

/-- A command as the adapter finds it when PxCI is written. -/
structure Issued where
  phys : Nat
  clb : Nat × Nat
  window : Memory

namespace Issued

variable (c : Issued)

/-- Bytes at a physical address of the window. -/
def fetch (addr n : Nat) : Bytes := c.window.read (addr - c.phys) n

def header : Bytes := c.fetch (joinWords c.clb) 16

def table : Nat := joinWords (ofLe (slice c.header 8 4), ofLe (slice c.header 12 4))

def fis : Bytes := c.fetch c.table 64

def prdt : Bytes := c.fetch (c.table + 80) 16

def command : UInt8 := c.fis.getD 2 0

def lba : Nat := ofLe (slice c.fis 4 3 ++ slice c.fis 8 3)

def count : Nat := ofLe (slice c.fis 12 2)

/-- Bits 0 to 21 of the last word of the descriptor, which count from zero. -/
def byteCount : Nat := ofLe (slice c.prdt 12 4) % 2 ^ 22 + 1

def data : Bytes := c.fetch (joinWords (ofLe (slice c.prdt 0 4), ofLe (slice c.prdt 4 4))) c.byteCount

end Issued

/-- A host bus adapter: what PxCI and PxIS show at a poll, and what it leaves in the window by
then, after the commands issued so far. -/
structure Hba where
  poll : List Issued → Nat → UInt32 × UInt32
  dma : List Issued → Nat → Memory → Memory

namespace Hba

/-- A poll without a task file error. -/
def Clean (hba : Hba) (issued : List Issued) (i : Nat) : Prop :=
  (hba.poll issued i).2 &&& PORT_IRQ_TFE = 0

/-- A poll at which the command is off PxCI and its completion is flagged. -/
def Done (hba : Hba) (issued : List Issued) (i : Nat) : Prop :=
  (hba.poll issued i).1 &&& 1 = 0 ∧ (hba.poll issued i).2 &&& PORT_IRQ_DH ≠ 0

instance (hba : Hba) (issued : List Issued) (i : Nat) : Decidable (hba.Clean issued i) :=
  inferInstanceAs (Decidable (_ = _))

instance (hba : Hba) (issued : List Issued) (i : Nat) : Decidable (hba.Done issued i) :=
  inferInstanceAs (Decidable (_ ∧ _))

/-- The polls of one command. -/
def POLLS : Nat := 5000000

/-- The last command issued completes while the driver polls. -/
def Completed (hba : Hba) (issued : List Issued) : Prop :=
  ∃ i < POLLS, hba.Done issued i ∧ ∀ j ≤ i, hba.Clean issued j

/-- The adapter completes each command. -/
def Completes (hba : Hba) : Prop := ∀ issued, hba.Completed issued

end Hba

/-! ## Issuing a command -/

/-- The driver, the commands it has issued and the progress it has reported. -/
structure Session where
  ahci : Ahci
  issued : List Issued
  progress : List Nat

namespace Session

def setWindow (s : Session) (m : Memory) : Session := { s with ahci := { s.ahci with window := m } }

/-- Build a command and write PxCI. -/
def issue (s : Session) (port : Nat) (isWrite : Bool) (lba sectors dataOff : Nat) : Session :=
  let a := s.ahci.build port isWrite lba sectors dataOff
  { s with ahci := a, issued := s.issued ++ [⟨a.phys, a.clb port, a.window⟩] }

end Session

def pollPort (hba : Hba) : Nat → Nat → Prog Session AhciError Unit
  | 0, _ => Prog.fail .commandTimeout
  | left + 1, i => do
    Prog.update fun s => s.setWindow (hba.dma s.issued i s.ahci.window)
    let s ← Prog.get
    if ¬ hba.Clean s.issued i then Prog.fail .taskFileError
    else if hba.Done s.issued i then pure ()
    else pollPort hba left (i + 1)

/-- `dma_io`. Arithmetic that wraps unwinds: the offsets of a port that was not started, and the
byte count of no sectors. -/
def dmaIo (hba : Hba) (port : Nat) (isWrite : Bool) (lba sectors dataOff : Nat) :
    Prog Session AhciError Unit := do
  let s ← Prog.get
  if 32 ≤ port ∨ (s.ahci.ports port).table < s.ahci.phys ∨ sectors * 512 < 1
      ∨ (s.ahci.ports port).list < s.ahci.phys then Prog.unwind
  else do
    Prog.update fun s => s.issue port isWrite lba sectors dataOff
    pollPort hba Hba.POLLS 0

section poll

variable {hba : Hba} {s : Session}

theorem pollPort_succ (left i : Nat) :
    pollPort hba (left + 1) i s
      = (if ¬ hba.Clean s.issued i then Prog.fail .taskFileError
          else if hba.Done s.issued i then pure ()
          else pollPort hba left (i + 1) : Prog Session AhciError Unit)
        (s.setWindow (hba.dma s.issued i s.ahci.window)) := rfl

/-- Polling changes the window only. -/
theorem pollPort_frame (left i : Nat) : ∃ m, (pollPort hba left i s).2 = s.setWindow m := by
  induction left generalizing i s with
  | zero => exact ⟨s.ahci.window, rfl⟩
  | succ left ih =>
    rw [pollPort_succ]
    by_cases hclean : hba.Clean s.issued i
    · rw [if_neg (not_not.mpr hclean)]
      by_cases hdone : hba.Done s.issued i
      · rw [if_pos hdone]
        exact ⟨_, rfl⟩
      · rw [if_neg hdone]
        exact @ih (s.setWindow (hba.dma s.issued i s.ahci.window)) (i + 1)
    · rw [if_pos hclean]
      exact ⟨_, rfl⟩

/-- Polling ends well when the completion comes in time and no error before it. -/
theorem pollPort_ok_iff (left i : Nat) :
    (pollPort hba left i s).1 = .ok ()
      ↔ ∃ j < i + left, i ≤ j ∧ hba.Done s.issued j ∧ ∀ k ≤ j, i ≤ k → hba.Clean s.issued k := by
  induction left generalizing i s with
  | zero =>
    constructor
    · intro h
      cases h
    · rintro ⟨j, hj, hij, -⟩
      omega
  | succ left ih =>
    rw [pollPort_succ]
    by_cases hclean : hba.Clean s.issued i
    · rw [if_neg (not_not.mpr hclean)]
      by_cases hdone : hba.Done s.issued i
      · rw [if_pos hdone]
        refine ⟨fun _ => ⟨i, by omega, le_refl i, hdone, fun k hk hik => ?_⟩, fun _ => rfl⟩
        rwa [le_antisymm hk hik]
      · rw [if_neg hdone]
        refine (@ih (s.setWindow (hba.dma s.issued i s.ahci.window)) (i + 1)).trans ?_
        constructor
        · rintro ⟨j, hj, hij, hdone', hall⟩
          refine ⟨j, by omega, by omega, hdone', fun k hk hik => ?_⟩
          rcases Nat.eq_or_lt_of_le hik with rfl | hlt
          · exact hclean
          · exact hall k hk hlt
        · rintro ⟨j, hj, hij, hdone', hall⟩
          have hne : i ≠ j := fun heq => hdone (heq ▸ hdone')
          exact ⟨j, by omega, by omega, hdone', fun k hk hik => hall k hk (by omega)⟩
    · rw [if_pos hclean]
      constructor
      · intro h
        cases h
      · rintro ⟨j, -, hij, -, hall⟩
        exact absurd (hall i hij (le_refl i)) hclean

theorem pollPort_completed : (pollPort hba Hba.POLLS 0 s).1 = .ok () ↔ hba.Completed s.issued := by
  rw [pollPort_ok_iff, Hba.Completed]
  simp only [Nat.zero_add, Nat.zero_le, true_and, forall_const]

end poll

/-! ## The command that a started port issues -/

section issue

variable {s : Session} {port k lba sectors dataOff : Nat} {isWrite : Bool}

/-- On a started port the arithmetic does not wrap. -/
theorem dmaIo_run {hba : Hba} (hport : port < 32) (hplaced : s.ahci.PlacedAt port k)
    (hsectors : 1 ≤ sectors) :
    dmaIo hba port isWrite lba sectors dataOff s
      = pollPort hba Hba.POLLS 0 (s.issue port isWrite lba sectors dataOff) := by
  have hok : ¬ (32 ≤ port ∨ (s.ahci.ports port).table < s.ahci.phys ∨ sectors * 512 < 1
      ∨ (s.ahci.ports port).list < s.ahci.phys) := by
    rw [hplaced.areas, Ahci.areasAt]
    dsimp only
    omega
  have hget : (Prog.get : Prog Session AhciError Session) s = (.ok s, s) := rfl
  rw [dmaIo, Prog.bind_run_ok hget, if_neg hok]
  rfl

/-- No sectors: the byte count wraps. -/
theorem dmaIo_nothing {hba : Hba} : dmaIo hba port isWrite lba 0 dataOff s = (.panic, s) := by
  have hget : (Prog.get : Prog Session AhciError Session) s = (.ok s, s) := rfl
  rw [dmaIo, Prog.bind_run_ok hget, if_pos (Or.inr (Or.inr (Or.inl (by decide))))]
  rfl

/-- Whatever returns without an error has issued one command, and that command completed. -/
theorem dmaIo_ok {hba : Hba} {s' : Session}
    (h : dmaIo hba port isWrite lba sectors dataOff s = (.ok (), s')) :
    ∃ c, s'.issued = s.issued ++ [c] ∧ hba.Completed s'.issued := by
  have hget : (Prog.get : Prog Session AhciError Session) s = (.ok s, s) := rfl
  rw [dmaIo, Prog.bind_run_ok hget] at h
  by_cases hwrap : 32 ≤ port ∨ (s.ahci.ports port).table < s.ahci.phys ∨ sectors * 512 < 1
      ∨ (s.ahci.ports port).list < s.ahci.phys
  · rw [if_pos hwrap] at h
    cases h
  · rw [if_neg hwrap] at h
    have hpoll : pollPort hba Hba.POLLS 0 (s.issue port isWrite lba sectors dataOff) = (.ok (), s') := h
    obtain ⟨m, hframe⟩ := @pollPort_frame hba (s.issue port isWrite lba sectors dataOff) Hba.POLLS 0
    have hcompleted := pollPort_completed.mp (congrArg Prod.fst hpoll)
    rw [hpoll] at hframe
    subst hframe
    exact ⟨_, rfl, hcompleted⟩

/-- The command with the structures `k` bytes into the window. -/
def issuedAt (a : Ahci) (k : Nat) (isWrite : Bool) (lba sectors dataOff : Nat) : Issued where
  phys := a.phys
  clb := addrWords (a.phys + k)
  window := (a.window.write (k + 1280) (cmdTable isWrite lba sectors (a.phys + dataOff))).write k
    (cmdHeader isWrite (a.phys + (k + 1280)))

theorem issue_issued (hplaced : s.ahci.PlacedAt port k) :
    (s.issue port isWrite lba sectors dataOff).issued
      = s.issued ++ [issuedAt s.ahci k isWrite lba sectors dataOff] := by
  have htable : s.ahci.phys + (k + 1024 + 256) - s.ahci.phys = k + 1280 := by omega
  have hlist : s.ahci.phys + k - s.ahci.phys = k := by omega
  simp only [Session.issue, Ahci.build, hplaced.areas, hplaced.clb, Ahci.areasAt, issuedAt, htable,
    hlist]

end issue

end Baremetal

end DiscCleaner
