import DiscCleaner.Fpga.Machine
import Mathlib.Data.List.Induction

/-!
# DiscCleaner — boots of one board

A board is booted again and again, with any budget each time, and the host writes its registers in
between. The fuses and the latch are what one boot leaves to the next.

## Main results

* `run_shape` — the board that a boot leaves, for each state it ends in
* `oneStory_iff` — the histories over which the fuses tell one story
-/

namespace DiscCleaner

open WordLib ProgLib

namespace Fpga

/-! ## What commands leave alone -/

/-- The fuses and the latch are as they were, and with the latch engaged the media too. -/
structure Quiet (b b' : SimBoard) : Prop where
  fuse : b'.fuse = b.fuse
  latch : b'.latchEngaged = b.latchEngaged
  media : b.latchEngaged = true → b'.media = b.media

namespace Quiet

theorem refl (b : SimBoard) : Quiet b b := ⟨rfl, rfl, fun _ => rfl⟩

theorem trans {a b c : SimBoard} (hab : Quiet a b) (hbc : Quiet b c) : Quiet a c :=
  ⟨hbc.fuse.trans hab.fuse, hbc.latch.trans hab.latch,
    fun h => (hbc.media (hab.latch.trans h)).trans (hab.media h)⟩

theorem setReg (b : SimBoard) (off : Nat) (v : UInt32) : Quiet b (b.setReg off v) :=
  ⟨rfl, rfl, fun _ => rfl⟩

end Quiet

namespace SimBoard

variable {b b' : SimBoard}

theorem quiet_storeOp {lane : Fin 4} {m : Media} {cmd : UInt32}
    (h : b.storeOp lane m cmd = some b') : Quiet b b' := by
  unfold storeOp at h
  by_cases hlatch : b.latchEngaged = true
  · rw [if_pos hlatch] at h
    by_cases hcount : b.latchedWriteAttempts + 1 < 2 ^ 32
    · rw [if_pos hcount] at h
      cases h
      exact ⟨rfl, rfl, fun _ => rfl⟩
    · rw [if_neg hcount] at h
      cases h
  · rw [if_neg hlatch] at h
    by_cases haddr : (b.reg LANE_ADDR).toNat < 256
    · rw [dif_pos haddr] at h
      by_cases herase : cmd = CMD_ERASE
      · rw [if_pos herase] at h
        cases h
        exact ⟨rfl, rfl, fun h => absurd h hlatch⟩
      · rw [if_neg herase] at h
        cases h
        exact ⟨rfl, rfl, fun h => absurd h hlatch⟩
    · rw [dif_neg haddr] at h
      cases h
      exact Quiet.setReg _ _ _

theorem quiet_lookOp (lane : Fin 4) (m : Media) (cmd : UInt32) : Quiet b (b.lookOp lane m cmd) := by
  unfold lookOp
  split_ifs <;> exact ⟨rfl, rfl, fun _ => rfl⟩

theorem quiet_executeLaneOp {lane : Nat} {cmd : UInt32}
    (h : b.executeLaneOp lane cmd = some b') : Quiet b b' := by
  refine (Quiet.setReg b LANE_STAT 0).trans ?_
  unfold executeLaneOp at h
  dsimp only at h
  by_cases hlane : lane < 4
  · rw [dif_pos hlane] at h
    cases hmedia : (b.setReg LANE_STAT 0).media ⟨lane, hlane⟩ with
    | none =>
      rw [hmedia] at h
      cases h
      exact Quiet.setReg _ _ _
    | some m =>
      rw [hmedia] at h
      dsimp only at h
      by_cases hgate : ¬ ((b.setReg LANE_STAT 0).reg LANE_GATE >>> UInt32.ofNat lane) &&& 1 = 1
          ∧ cmd ≠ CMD_IDENTIFY
      · rw [if_pos hgate] at h
        cases h
        exact Quiet.setReg _ _ _
      · rw [if_neg hgate] at h
        by_cases hstore : cmd = CMD_WRITE ∨ cmd = CMD_ERASE
        · rw [if_pos hstore] at h
          exact quiet_storeOp h
        · rw [if_neg hstore] at h
          cases h
          exact quiet_lookOp _ _ _
  · rw [dif_neg hlane] at h
    cases h

/-- Only EFUSE and LANE_LATCH change the fuses or the latch. -/
theorem quiet_write32 {off : Nat} {v : UInt32} (hlatch : off ≠ LANE_LATCH) (hfuse : off ≠ EFUSE)
    (h : b.write32 off v = some b') : Quiet b b' := by
  unfold write32 at h
  rw [if_neg hlatch] at h
  by_cases hcmd : off = LANE_CMD
  · rw [if_pos hcmd] at h
    exact quiet_executeLaneOp h
  · rw [if_neg hcmd, if_neg hfuse] at h
    by_cases hslot : off / 4 < 64
    · rw [if_pos hslot] at h
      cases h
      exact Quiet.setReg _ _ _
    · rw [if_neg hslot] at h
      cases h
      exact Quiet.refl b

end SimBoard

/-! ## Quiet programs -/

def QuietFrom (b₀ : SimBoard) (s : Bus SimBoard) : Prop := Quiet b₀ s.board

section quiet

variable {b₀ : SimBoard}

theorem quiet_readReg (off : Nat) : Prog.Preserves (QuietFrom b₀) (readReg simMmio off) :=
  fun _ h => h

theorem quiet_note (e : Event) :
    Prog.Preserves (QuietFrom b₀) (note e : Prog (Bus SimBoard) Empty Unit) := fun _ h => h

theorem quiet_writeReg {off : Nat} (v : UInt32) (hlatch : off ≠ LANE_LATCH) (hfuse : off ≠ EFUSE) :
    Prog.Preserves (QuietFrom b₀) (writeReg simMmio off v) := by
  intro s hs
  unfold writeReg
  cases hwrite : simMmio.write32 off v s.board with
  | none => exact hs
  | some b => exact Quiet.trans hs (SimBoard.quiet_write32 hlatch hfuse hwrite)

theorem quiet_gate (lanes : UInt32) : Prog.Preserves (QuietFrom b₀) (gate simMmio lanes) :=
  (quiet_writeReg lanes (by decide) (by decide)).bind fun _ => quiet_note _

theorem quiet_present : Prog.Preserves (QuietFrom b₀) (present simMmio) :=
  (quiet_readReg _).bind fun _ => (quiet_note _).bind fun _ => .ret _

theorem quiet_readFuses : Prog.Preserves (QuietFrom b₀) (readFuses simMmio) :=
  (quiet_readReg _).bind fun _ => (quiet_note _).bind fun _ => .ret _

theorem quiet_answer : Prog.Preserves (QuietFrom b₀) (answer simMmio) :=
  (quiet_readReg _).bind fun _ => .ite ((quiet_readReg _).bind fun _ => .ret _) (.ret _)

theorem quiet_selectLane (lane : Nat) : Prog.Preserves (QuietFrom b₀) (selectLane simMmio lane) :=
  quiet_writeReg _ (by decide) (by decide)

theorem quiet_identify (lane : Nat) : Prog.Preserves (QuietFrom b₀) (identify simMmio lane) :=
  (quiet_selectLane lane).bind fun _ => (quiet_writeReg _ (by decide) (by decide)).bind fun _ =>
    (quiet_writeReg _ (by decide) (by decide)).bind fun _ =>
    (quiet_writeReg _ (by decide) (by decide)).bind fun _ =>
    quiet_answer.bind fun _ => (quiet_note _).bind fun _ => .ret _

theorem quiet_enumerateLane (bitmap : UInt32) (lane : Nat) :
    Prog.Preserves (QuietFrom b₀) (enumerateLane simMmio bitmap lane) :=
  .ite ((quiet_identify lane).bind fun _ => .ret _) (.ret _)

theorem quiet_enumerateLanes (bitmap : UInt32) (lanes : List Nat) :
    Prog.Preserves (QuietFrom b₀) (enumerateLanes simMmio bitmap lanes) := by
  induction lanes with
  | nil => exact .ret _
  | cons lane lanes ih => exact (quiet_enumerateLane bitmap lane).bind fun _ => ih.bind fun _ => .ret _

theorem quiet_enumerate : Prog.Preserves (QuietFrom b₀) (enumerate simMmio) :=
  quiet_present.bind fun _ => quiet_enumerateLanes _ _

theorem quiet_raw (lane : Nat) (cmd : UInt32) (addr : Nat) (data : UInt32) :
    Prog.Preserves (QuietFrom b₀) (raw simMmio lane cmd addr data) :=
  (quiet_selectLane lane).bind fun _ => (quiet_writeReg _ (by decide) (by decide)).bind fun _ =>
    (quiet_writeReg _ (by decide) (by decide)).bind fun _ =>
    (quiet_writeReg _ (by decide) (by decide)).bind fun _ => (quiet_readReg _).bind fun _ => .ret _

theorem quiet_erase (lane addr : Nat) : Prog.Preserves (QuietFrom b₀) (erase simMmio lane addr) :=
  (quiet_raw _ _ _ _).bind fun _ => (quiet_note _).bind fun _ => .ret _

theorem quiet_write (lane addr : Nat) (data : UInt32) :
    Prog.Preserves (QuietFrom b₀) (write simMmio lane addr data) :=
  (quiet_raw _ _ _ _).bind fun _ => (quiet_note _).bind fun _ => .ret _

theorem quiet_read (lane addr : Nat) : Prog.Preserves (QuietFrom b₀) (read simMmio lane addr) :=
  (quiet_selectLane lane).bind fun _ => (quiet_writeReg _ (by decide) (by decide)).bind fun _ =>
    (quiet_writeReg _ (by decide) (by decide)).bind fun _ =>
    quiet_answer.bind fun _ => (quiet_note _).bind fun _ => .ret _

theorem quiet_wear (lane : Nat) : Prog.Preserves (QuietFrom b₀) (wear simMmio lane) :=
  (quiet_selectLane lane).bind fun _ => (quiet_writeReg _ (by decide) (by decide)).bind fun _ =>
    quiet_answer.bind fun _ => (quiet_note _).bind fun _ => .ret _

theorem quiet_eachWindow {store : Nat → Prog (Bus SimBoard) Empty Bool}
    (h : ∀ addr, Prog.Preserves (QuietFrom b₀) (store addr)) (addrs : List Nat) :
    Prog.Preserves (QuietFrom b₀) (Machine.eachWindow store addrs) := by
  induction addrs with
  | nil => exact .ret _
  | cons addr addrs ih => exact (h addr).bind fun _ => .ite ih (.ret _)

theorem quiet_sanitizeLane (cfg : RunConfig) (lane : Nat) :
    Prog.Preserves (QuietFrom b₀) (Machine.sanitizeLane simMmio cfg lane) := by
  refine (quiet_eachWindow (quiet_erase lane) _).bind fun _ => .ite ?_ (.ret _)
  cases cfg.pattern with
  | none => exact .ret _
  | some p => exact (quiet_eachWindow (fun addr => quiet_write lane addr p) _).bind fun _ => .ret _

theorem quiet_sanitizeLanes (cfg : RunConfig) (bitmap : UInt32) (lanes : List Nat) :
    Prog.Preserves (QuietFrom b₀) (Machine.sanitizeLanes simMmio cfg bitmap lanes) := by
  induction lanes with
  | nil => exact .ret _
  | cons lane lanes ih =>
    refine .ite ((quiet_sanitizeLane cfg lane).bind fun refusal => ?_) ih
    cases refusal with
    | none => exact ih
    | some why => exact .ret _

theorem quiet_readWindows (lane : Nat) (pattern : Option UInt32) (addrs : List Nat) (r : Readback) :
    Prog.Preserves (QuietFrom b₀) (readWindows simMmio lane pattern addrs r) := by
  induction addrs generalizing r with
  | nil => exact .ret _
  | cons addr addrs ih => exact (quiet_read lane addr).bind fun _ => ih _

theorem quiet_verifyAll (words : Nat) (pattern : Option UInt32) (targets : List (Option Target)) :
    Prog.Preserves (QuietFrom b₀) (verifyAll simMmio words pattern targets) := by
  induction targets with
  | nil => exact .ret _
  | cons slot targets ih =>
    cases slot with
    | none => exact ih.bind fun _ => .ret _
    | some t =>
      refine Prog.Preserves.bind ?_ fun _ => ih.bind fun _ => .ret _
      exact (quiet_readWindows _ _ _ _).bind fun _ => (quiet_wear _).bind fun _ => .ret _

end quiet

/-! ## The board within one boot -/

/-- No COMPLETE and no FAULT. -/
def Fresh (b : SimBoard) : Prop :=
  hasBit b.fuse.word FUSE_COMPLETE = false ∧ hasBit b.fuse.word FUSE_FAULT = false

/-- COMPLETE and FAULT. -/
def BothBlown (b : SimBoard) : Prop :=
  hasBit b.fuse.word FUSE_COMPLETE = true ∧ hasBit b.fuse.word FUSE_FAULT = true

/-- The latch is engaged, and if it was before, the media are as they were. -/
structure Closed (b₀ b : SimBoard) : Prop where
  latch : b.latchEngaged = true
  media : b₀.latchEngaged = true → b.media = b₀.media

/-- What a boot of `b₀` has made of the board, for each state of the machine. -/
def Shape (b₀ : SimBoard) : State → SimBoard → Prop
  | .selfTest, b => Quiet b₀ b
  | .fault, b => Closed b₀ b
      ∧ ∀ i, hasBit b.fuse.word i = (hasBit b₀.fuse.word i || decide (FUSE_FAULT = i))
  | .halted, b => Closed b₀ b ∧ Fresh b₀
      ∧ hasBit b.fuse.word FUSE_COMPLETE = true ∧ hasBit b.fuse.word FUSE_FAULT = false
  | _, b => Quiet b₀ b ∧ Fresh b₀

theorem Shape.quiet {b₀ b : SimBoard} {state : State} (h : Shape b₀ state b)
    (hlive : state.isTerminal = false) : Quiet b₀ b := by
  cases state with
  | selfTest => exact h
  | fault => cases hlive
  | halted => cases hlive
  | _ => exact h.1

/-- A quiet change of the board does not change its shape while the machine runs. -/
theorem Shape.trans {b₀ b b' : SimBoard} {state : State} (h : Shape b₀ state b)
    (hlive : state.isTerminal = false) (hquiet : Quiet b₀ b') : Shape b₀ state b' := by
  cases state with
  | selfTest => exact hquiet
  | fault => cases hlive
  | halted => cases hlive
  | _ => exact ⟨hquiet, h.2⟩

namespace Machine

def InShape (b₀ : SimBoard) (s : Machine SimBoard) : Prop := Shape b₀ s.state s.bus.board

variable {b₀ : SimBoard} {s : Machine SimBoard} {α β : Type}

/-- A quiet program on the bus, and then the rest of the step. -/
theorem leaves_onBus {m : Prog (Bus SimBoard) Empty α} {k : α → Prog (Machine SimBoard) Empty β}
    (hm : Prog.Preserves (QuietFrom b₀) m) (hs : InShape b₀ s) (hlive : s.state.isTerminal = false)
    (hk : ∀ a bus, m s.bus = (.ok a, bus) → InShape b₀ { s with bus } →
      Prog.Leaves (k a) (InShape b₀) { s with bus }) :
    Prog.Leaves (onBus m >>= k) (InShape b₀) s := by
  have hafter : InShape b₀ { s with bus := (m s.bus).2 } :=
    Shape.trans hs hlive (hm s.bus (Shape.quiet hs hlive))
  refine Prog.Leaves.bind hafter fun a s' hrun _ => ?_
  rw [onBus, Prod.mk.injEq] at hrun
  obtain ⟨hok, rfl⟩ := hrun
  exact hk a _ (Prod.ext hok rfl) hafter

/-- The board once a mask was burnt and the latch engaged. -/
def burnAndLatch (b : SimBoard) (mask : UInt32) : SimBoard :=
  { ({ b with fuse := b.fuse.burnMask mask } : SimBoard).setReg LANE_LATCH 1 with
    latchEngaged := b.latchEngaged || (1 : UInt32) != 0 }

theorem closed_burnAndLatch {b : SimBoard} {mask : UInt32} (h : Quiet b₀ b) :
    Closed b₀ (burnAndLatch b mask) :=
  ⟨by simp [burnAndLatch], fun hlatch => h.media hlatch⟩

/-- The mask that `fault` burns. -/
def faultMask (b : SimBoard) : UInt32 :=
  (EfuseBank.burnFault ⟨b.fuse.word &&& FUSE_MASK⟩).word &&& FUSE_MASK

theorem hasBit_mask_of_lt {i : Nat} (h : i < 31) : hasBit FUSE_MASK i = true := by
  have hall : ∀ i < 31, hasBit FUSE_MASK i = true := by decide
  exact hall i h

/-- Burning what was read, and FAULT, blows FAULT. -/
theorem hasBit_faultMask (b : SimBoard) (i : Nat) :
    hasBit (b.fuse.burnMask (faultMask b)).word i
      = (hasBit b.fuse.word i || decide (FUSE_FAULT = i)) := by
  rw [EfuseBank.hasBit_burnMask, faultMask, hasBit_and, EfuseBank.burnFault,
    EfuseBank.hasBit_burn_flag _ (by decide), hasBit_and]
  by_cases hfault : FUSE_FAULT = i
  · subst hfault
    rw [hasBit_mask_of_lt (by decide)]
    simp
  · simp only [hfault, decide_false, Bool.or_false]
    cases hasBit b.fuse.word i <;> simp

theorem fault_run (why : String) (s : Machine SimBoard) :
    ∃ log, fault simMmio why s = (.ok (), { s with
      bus := ⟨burnAndLatch s.bus.board (faultMask s.bus.board), log⟩
      state := .fault }) := ⟨_, rfl⟩

theorem leaves_fault (why : String) (hs : InShape b₀ s) (hlive : s.state.isTerminal = false) :
    Prog.Leaves (fault simMmio why) (InShape b₀) s := by
  obtain ⟨log, hrun⟩ := fault_run why s
  have hquiet := Shape.quiet hs hlive
  rw [Prog.Leaves, hrun]
  refine ⟨closed_burnAndLatch hquiet, fun i => ?_⟩
  rw [← hquiet.fuse]
  exact hasBit_faultMask s.bus.board i

theorem leaves_goto {state : State} (h : Shape b₀ state s.bus.board) :
    Prog.Leaves (goto state) (InShape b₀) s := h

/-! ### The states -/

theorem leaves_selftest (hs : InShape b₀ s) (hstate : s.state = .selfTest) :
    Prog.Leaves (stepSelftest simMmio) (InShape b₀) s := by
  have hlive : s.state.isTerminal = false := by rw [hstate]; rfl
  refine leaves_onBus (quiet_writeReg _ (by decide) (by decide)) hs hlive fun _ bus _ hs => ?_
  refine leaves_onBus (quiet_readReg _) hs hlive fun probe bus _ hs => ?_
  refine leaves_onBus (quiet_note _) hs hlive fun _ bus _ hs => ?_
  by_cases hprobe : probe ≠ 0b0101
  · rw [if_pos hprobe]
    exact leaves_fault _ hs hlive
  rw [if_neg hprobe]
  refine leaves_onBus quiet_readFuses hs hlive fun fuse bus' hread hs' => ?_
  have hfuse : fuse = ⟨bus.board.fuse.word &&& FUSE_MASK⟩ := by
    cases hread
    rfl
  by_cases hcompleted : fuse.Completed
  · rw [if_pos hcompleted]
    exact leaves_fault _ hs' hlive
  rw [if_neg hcompleted]
  by_cases hfaulted : fuse.Faulted
  · rw [if_pos hfaulted]
    exact leaves_fault _ hs' hlive
  rw [if_neg hfaulted]
  -- neither fuse is blown, so the boot began on a fresh board
  have hfresh : Fresh b₀ := by
    have hquiet : Quiet b₀ bus.board := Shape.quiet hs hlive
    rw [EfuseBank.completed_iff, hfuse] at hcompleted
    rw [EfuseBank.faulted_iff, hfuse] at hfaulted
    simp only [hasBit_and, hasBit_mask_of_lt (show FUSE_FAULT < 31 by decide),
      hasBit_mask_of_lt (show FUSE_COMPLETE < 31 by decide), Bool.and_true, hquiet.fuse]
      at hcompleted hfaulted
    rw [Bool.not_eq_true] at hfaulted
    exact ⟨by simpa [hfaulted] using hcompleted, hfaulted⟩
  refine leaves_onBus quiet_present hs' hlive fun bitmap bus'' _ hs'' => ?_
  by_cases hbitmap : bitmap.toNat > 2 ^ MAX_LANES - 1
  · rw [if_pos hbitmap]
    exact leaves_fault _ hs'' hlive
  · rw [if_neg hbitmap]
    exact leaves_goto ⟨Shape.quiet hs'' hlive, hfresh⟩

/-- A state past the self-test is reached on a fresh board only. -/
theorem InShape.fresh (hs : InShape b₀ s) (hlive : s.state.isTerminal = false)
    (hstate : s.state ≠ .selfTest) : Fresh b₀ := by
  unfold InShape at hs
  cases h : s.state with
  | selfTest => exact absurd h hstate
  | fault => rw [h] at hlive; cases hlive
  | halted => rw [h] at hlive; cases hlive
  | _ => rw [h] at hs; exact hs.2

theorem leaves_enumerate (hs : InShape b₀ s) (hstate : s.state = .enumerate) :
    Prog.Leaves (stepEnumerate simMmio) (InShape b₀) s := by
  have hlive : s.state.isTerminal = false := by rw [hstate]; rfl
  have hfresh := InShape.fresh hs hlive (by rw [hstate]; decide)
  refine leaves_onBus quiet_enumerate hs hlive fun targets bus _ hs => ?_
  refine Prog.Leaves.update_bind ?_
  by_cases hany : targets.any Option.isSome = true
  · rw [if_pos hany]
    exact leaves_goto ⟨Shape.quiet hs hlive, hfresh⟩
  · rw [if_neg hany]
    exact leaves_fault _ (show InShape b₀ { s with bus, targets } from hs) hlive

theorem leaves_arm (hs : InShape b₀ s) (hstate : s.state = .awaitArm) :
    Prog.Leaves (stepArm simMmio) (InShape b₀) s := by
  have hlive : s.state.isTerminal = false := by rw [hstate]; rfl
  have hfresh := InShape.fresh hs hlive (by rw [hstate]; decide)
  refine leaves_onBus (quiet_readReg _) hs hlive fun word bus _ hs => ?_
  refine leaves_onBus (quiet_note _) hs hlive fun _ bus _ hs => ?_
  by_cases hword : word ≠ ARM_MAGIC
  · rw [if_pos hword]
    exact hs
  · rw [if_neg hword]
    exact leaves_goto ⟨Shape.quiet hs hlive, hfresh⟩

theorem leaves_sanitize (cfg : RunConfig) (hs : InShape b₀ s) (hstate : s.state = .sanitize) :
    Prog.Leaves (stepSanitize simMmio cfg) (InShape b₀) s := by
  have hlive : s.state.isTerminal = false := by rw [hstate]; rfl
  have hfresh := InShape.fresh hs hlive (by rw [hstate]; decide)
  refine leaves_onBus quiet_present hs hlive fun bitmap bus _ hs => ?_
  refine leaves_onBus (quiet_gate _) hs hlive fun _ bus _ hs => ?_
  refine leaves_onBus (quiet_sanitizeLanes _ _ _) hs hlive fun refusal bus _ hs => ?_
  cases refusal with
  | some why => exact leaves_fault _ hs hlive
  | none => exact leaves_goto ⟨Shape.quiet hs hlive, hfresh⟩

theorem leaves_verify (cfg : RunConfig) (hs : InShape b₀ s) (hstate : s.state = .verify) :
    Prog.Leaves (stepVerify simMmio cfg) (InShape b₀) s := by
  have hlive : s.state.isTerminal = false := by rw [hstate]; rfl
  have hfresh := InShape.fresh hs hlive (by rw [hstate]; decide)
  refine Prog.Leaves.get_bind ?_
  refine leaves_onBus (quiet_verifyAll _ _ _) hs hlive fun verdicts bus _ hs => ?_
  by_cases hnone : verdicts.all Option.isNone = true
  · rw [if_pos hnone]
    exact leaves_fault _ hs hlive
  rw [if_neg hnone]
  by_cases hresidue : ∃ v ∈ verdicts.reduceOption, ¬ v.Passed
  · rw [if_pos hresidue]
    exact leaves_fault _ hs hlive
  · rw [if_neg hresidue]
    exact leaves_goto ⟨Shape.quiet hs hlive, hfresh⟩

theorem leaves_certify (cfg : RunConfig) (hs : InShape b₀ s) (hstate : s.state = .certify) :
    Prog.Leaves (stepCertify simMmio cfg) (InShape b₀) s := by
  have hlive : s.state.isTerminal = false := by rw [hstate]; rfl
  have hfresh := InShape.fresh hs hlive (by rw [hstate]; decide)
  refine Prog.Leaves.get_bind ?_
  refine leaves_onBus (quiet_verifyAll _ _ _) hs hlive fun verdicts bus _ hs => ?_
  refine Prog.Leaves.update_bind ?_
  refine leaves_onBus (quiet_note _) (show InShape b₀ { s with
    bus, transcript := transcriptOf verdicts.reduceOption } from hs) hlive fun _ bus _ hs => ?_
  exact leaves_goto ⟨Shape.quiet hs hlive, hfresh⟩

/-- The fuses of the targets are below FAULT. -/
theorem hasBit_burnTargets (targets : List Target) (f : EfuseBank) {i : Nat} (hi : 28 ≤ i) :
    hasBit (targets.foldl (fun f t => f.burnTarget t.lane) f).word i = hasBit f.word i := by
  induction targets generalizing f with
  | nil => rfl
  | cons t targets ih =>
    have hne : min t.lane 27 ≠ i := by omega
    rw [List.foldl_cons, ih, EfuseBank.hasBit_burnTarget, decide_eq_false hne, Bool.or_false]

/-- The mask of the first burn: what was read, and the targets. -/
def targetMask (b : SimBoard) (targets : List Target) : UInt32 :=
  (targets.foldl (fun f t => f.burnTarget t.lane) (EfuseBank.mk (b.fuse.word &&& FUSE_MASK))).word
    &&& FUSE_MASK

/-- The mask of the second: what was read, VERIFIED and COMPLETE. -/
def sealMask (b : SimBoard) : UInt32 :=
  (EfuseBank.mk (b.fuse.word &&& FUSE_MASK)).burnVerified.burnComplete.word &&& FUSE_MASK

theorem seal_run (s : Machine SimBoard) :
    ∃ log, stepSeal simMmio s = (.ok (), { s with
      bus := ⟨burnAndLatch { s.bus.board with
          fuse := s.bus.board.fuse.burnMask (targetMask s.bus.board s.targets.reduceOption) }
        (sealMask { s.bus.board with
          fuse := s.bus.board.fuse.burnMask (targetMask s.bus.board s.targets.reduceOption) }), log⟩
      state := .halted }) := ⟨_, rfl⟩

theorem hasBit_burn_targetMask (b : SimBoard) (targets : List Target) {i : Nat} (hi : 28 ≤ i) :
    hasBit (b.fuse.burnMask (targetMask b targets)).word i = hasBit b.fuse.word i := by
  rw [EfuseBank.hasBit_burnMask, targetMask, hasBit_and, hasBit_burnTargets _ _ hi, hasBit_and]
  cases hasBit b.fuse.word i <;> simp

theorem hasBit_burn_sealMask (b : SimBoard) (i : Nat) :
    hasBit (b.fuse.burnMask (sealMask b)).word i
      = (hasBit b.fuse.word i || decide (FUSE_VERIFIED = i) || decide (FUSE_COMPLETE = i)) := by
  rw [EfuseBank.hasBit_burnMask, sealMask, hasBit_and, EfuseBank.burnComplete,
    EfuseBank.hasBit_burn_flag _ (by decide), EfuseBank.burnVerified,
    EfuseBank.hasBit_burn_flag _ (by decide), hasBit_and]
  by_cases hi : i < 31
  · rw [hasBit_mask_of_lt hi]
    cases hasBit b.fuse.word i <;> simp
  · have hverified : FUSE_VERIFIED ≠ i := by unfold FUSE_VERIFIED; omega
    have hcomplete : FUSE_COMPLETE ≠ i := by unfold FUSE_COMPLETE; omega
    simp only [hverified, hcomplete, decide_false, Bool.or_false]
    cases hasBit b.fuse.word i <;> simp

theorem leaves_seal (hs : InShape b₀ s) (hstate : s.state = .seal) :
    Prog.Leaves (stepSeal simMmio) (InShape b₀) s := by
  have hlive : s.state.isTerminal = false := by rw [hstate]; rfl
  have hfresh := InShape.fresh hs hlive (by rw [hstate]; decide)
  have hquiet : Quiet b₀ s.bus.board := Shape.quiet hs hlive
  obtain ⟨log, hrun⟩ := seal_run s
  rw [Prog.Leaves, hrun]
  have hburnt : Closed b₀ (burnAndLatch { s.bus.board with
      fuse := s.bus.board.fuse.burnMask (targetMask s.bus.board s.targets.reduceOption) }
      (sealMask { s.bus.board with
        fuse := s.bus.board.fuse.burnMask (targetMask s.bus.board s.targets.reduceOption) })) :=
    ⟨by simp [burnAndLatch], fun hlatch => hquiet.media hlatch⟩
  refine ⟨hburnt, hfresh, ?_, ?_⟩
  · refine (hasBit_burn_sealMask _ _).trans ?_
    simp
  · refine (hasBit_burn_sealMask _ _).trans ?_
    dsimp only
    rw [hasBit_burn_targetMask _ _ (by decide), hquiet.fuse, hfresh.2]
    rfl

/-! ### Steps and runs -/

/-- **Step lemma.** -/
theorem leaves_step (cfg : RunConfig) (hs : InShape b₀ s) (hlive : s.state.isTerminal = false) :
    Prog.Leaves (step simMmio cfg) (InShape b₀) s := by
  refine Prog.Leaves.get_bind ?_
  refine leaves_onBus (quiet_note _) hs hlive fun _ bus _ hs => ?_
  cases s with
  | mk bus₀ state targets transcript =>
    cases state with
    | selfTest => exact leaves_selftest hs rfl
    | enumerate => exact leaves_enumerate hs rfl
    | awaitArm => exact leaves_arm hs rfl
    | sanitize => exact leaves_sanitize cfg hs rfl
    | verify => exact leaves_verify cfg hs rfl
    | certify => exact leaves_certify cfg hs rfl
    | «seal» => exact leaves_seal hs rfl
    | fault => cases hlive
    | halted => cases hlive

/-- **Run lemma.** -/
theorem run_shape (cfg : RunConfig) (budget : Nat) (hs : InShape b₀ s) :
    Prog.Leaves (run simMmio cfg budget) (InShape b₀) s := by
  induction budget generalizing s with
  | zero => exact hs
  | succ budget ih =>
    rw [run]
    refine Prog.Leaves.get_bind ?_
    by_cases hterminal : s.state.isTerminal = true
    · rw [if_pos hterminal]
      exact hs
    · rw [if_neg hterminal]
      exact (leaves_step cfg hs (by simpa using hterminal)).bind fun _ s' _ hs' => ih hs'

/-- The state that a run returns is the machine's. -/
theorem run_state {cfg : RunConfig} {budget : Nat} {state : State} {s' : Machine SimBoard}
    (h : run simMmio cfg budget s = (.ok state, s')) : s'.state = state := by
  induction budget generalizing s with
  | zero =>
    cases h
    rfl
  | succ budget ih =>
    rw [run] at h
    have hrun : (if s.state.isTerminal then pure s.state
        else step simMmio cfg >>= fun _ => run simMmio cfg budget : Prog (Machine SimBoard) Empty State)
      s = (.ok state, s') := h
    by_cases hterminal : s.state.isTerminal = true
    · rw [if_pos hterminal] at hrun
      cases hrun
      rfl
    · rw [if_neg hterminal] at hrun
      obtain ⟨u, s₁, -, hrest⟩ := Prog.bind_eq_ok.mp hrun
      exact ih hrest

/-- On a board that completed, the self-test burns FAULT. -/
theorem step_completed (cfg : RunConfig) {b : SimBoard} (h : b.fuse.Completed) :
    ∃ s', step simMmio cfg (new ⟨b, []⟩) = (.ok (), s') ∧ s'.state = .fault
      ∧ ∀ i, hasBit s'.bus.board.fuse.word i = (hasBit b.fuse.word i || decide (FUSE_FAULT = i)) := by
  have hcompleted : EfuseBank.Completed ⟨b.fuse.word &&& FUSE_MASK⟩ := by
    rw [EfuseBank.completed_iff] at h ⊢
    rw [hasBit_and, hasBit_and, h.1, h.2]
    decide
  have hstart : step simMmio cfg (new ⟨b, []⟩)
      = stepSelftest simMmio (new ⟨b, [.state "SELF-TEST"]⟩) := rfl
  have hwrite : onBus (writeReg simMmio PROBE 0b0101) (new ⟨b, [.state "SELF-TEST"]⟩)
      = (.ok (), new ⟨b.setReg PROBE 0b0101, [.state "SELF-TEST"]⟩) := rfl
  have hread : onBus (readReg simMmio PROBE) (new ⟨b.setReg PROBE 0b0101, [.state "SELF-TEST"]⟩)
      = (.ok 0b0101, new ⟨b.setReg PROBE 0b0101, [.state "SELF-TEST"]⟩) := rfl
  have hnote : onBus (note (.probe 0b0101)) (new ⟨b.setReg PROBE 0b0101, [.state "SELF-TEST"]⟩)
      = (.ok (), new ⟨b.setReg PROBE 0b0101, [.state "SELF-TEST", .probe 0b0101]⟩) := rfl
  have hfuses : onBus (readFuses simMmio)
        (new ⟨b.setReg PROBE 0b0101, [.state "SELF-TEST", .probe 0b0101]⟩)
      = (.ok ⟨b.fuse.word &&& FUSE_MASK⟩, new ⟨b.setReg PROBE 0b0101,
        [.state "SELF-TEST", .probe 0b0101, .fuses (b.fuse.word &&& FUSE_MASK)]⟩) := rfl
  obtain ⟨log, hrun⟩ := fault_run "board already sealed (COMPLETE fuse blown)"
    (new ⟨b.setReg PROBE 0b0101,
      [.state "SELF-TEST", .probe 0b0101, .fuses (b.fuse.word &&& FUSE_MASK)]⟩)
  rw [hstart, stepSelftest, Prog.bind_run_ok hwrite, Prog.bind_run_ok hread,
    Prog.bind_run_ok hnote, if_neg (by decide), Prog.bind_run_ok hfuses, if_pos hcompleted, hrun]
  exact ⟨_, rfl, rfl, fun i => hasBit_faultMask (b.setReg PROBE 0b0101) i⟩

end Machine

/-! ## Histories -/

/-- A boot: a new machine on the board. -/
def boot (cfg : RunConfig) (budget : Nat) : Prog SimBoard Empty State := fun b =>
  let r := Machine.run simMmio cfg budget (Machine.new ⟨b, []⟩)
  (r.1, r.2.bus.board)

/-- The registers that the host writes: the gate, the arm register and those of a command. -/
inductive HostReg where
  | gate
  | arm
  | select
  | cmd
  | addr
  | data

def HostReg.offset : HostReg → Nat
  | .gate => LANE_GATE
  | .arm => ARM
  | .select => LANE_SELECT
  | .cmd => LANE_CMD
  | .addr => LANE_ADDR
  | .data => LANE_DATA

inductive BoardEvent where
  | boot (cfg : RunConfig) (budget : Nat)
  | host (reg : HostReg) (v : UInt32)

/-- The board that an event leaves, also when it unwinds. -/
def BoardEvent.leaves (b : SimBoard) : BoardEvent → SimBoard
  | .boot cfg budget => (Fpga.boot cfg budget b).2
  | .host reg v => (b.write32 reg.offset v).getD b

def after (h : List BoardEvent) (b : SimBoard) : SimBoard := h.foldl BoardEvent.leaves b

theorem after_append (h h' : List BoardEvent) (b : SimBoard) :
    after (h ++ h') b = after h' (after h b) := List.foldl_append

theorem after_concat (h : List BoardEvent) (e : BoardEvent) (b : SimBoard) :
    after (h ++ [e]) b = e.leaves (after h b) := List.foldl_append

/-- The fuses tell one story: COMPLETE and FAULT are never both blown, a board that has completed
stays so, and once a boot ended in a terminal state no boot changes the media. -/
structure OneStory (h : List BoardEvent) (b : SimBoard) : Prop where
  exclusive : ∀ pre, pre <+: h → ¬ BothBlown (after pre b)
  completed : ∀ pre post, pre ++ post <+: h → (after pre b).fuse.Completed →
    (after (pre ++ post) b).fuse.Completed
  media : ∀ pre cfg budget mid cfg' budget',
    pre ++ [.boot cfg budget] ++ mid ++ [.boot cfg' budget'] <+: h →
    (∃ state, (boot cfg budget (after pre b)).1 = .ok state ∧ state.isTerminal = true) →
    (after (pre ++ [.boot cfg budget] ++ mid ++ [.boot cfg' budget']) b).media
      = (after (pre ++ [.boot cfg budget] ++ mid) b).media

section histories

variable {b : SimBoard} {cfg : RunConfig} {budget : Nat}

/-- What a boot makes of a board. -/
theorem boot_shape (cfg : RunConfig) (budget : Nat) (b : SimBoard) :
    ∃ state, Shape b state (boot cfg budget b).2
      ∧ ∀ state', (boot cfg budget b).1 = .ok state' → state' = state := by
  have hs : Machine.InShape b (Machine.new ⟨b, []⟩) := Quiet.refl b
  refine ⟨(Machine.run simMmio cfg budget (Machine.new ⟨b, []⟩)).2.state,
    Machine.run_shape cfg budget hs, fun state' hok => ?_⟩
  exact (Machine.run_state (Prod.ext hok rfl)).symm

theorem boot_completed (h : b.fuse.Completed) :
    BothBlown (boot cfg (budget + 1) b).2 := by
  obtain ⟨s', hstep, hstate, hbits⟩ := Machine.step_completed cfg h
  have hrest : ∀ n, Machine.run simMmio cfg n s' = (.ok s'.state, s') := by
    intro n
    cases n with
    | zero => rfl
    | succ n =>
      rw [Machine.run]
      have hterminal : s'.state.isTerminal = true := by rw [hstate]; rfl
      have hget : (Prog.get : Prog (Machine SimBoard) Empty (Machine SimBoard)) s' = (.ok s', s') := rfl
      rw [Prog.bind_run_ok hget, if_pos hterminal]
      rfl
  have hrun : Machine.run simMmio cfg (budget + 1) (Machine.new ⟨b, []⟩) = (.ok s'.state, s') := by
    rw [Machine.run]
    show (Machine.step simMmio cfg >>= fun _ => Machine.run simMmio cfg budget) _ = _
    rw [Prog.bind_run_ok hstep, hrest budget]
  rw [EfuseBank.completed_iff] at h
  unfold boot
  rw [hrun]
  exact ⟨by rw [hbits, h.1]; rfl, by rw [hbits]; simp⟩

/-- A host write is quiet. -/
theorem leaves_host (reg : HostReg) (v : UInt32) : Quiet b (BoardEvent.leaves b (.host reg v)) := by
  unfold BoardEvent.leaves
  dsimp only
  cases hwrite : b.write32 reg.offset v with
  | none => exact Quiet.refl b
  | some b' =>
    refine SimBoard.quiet_write32 ?_ ?_ hwrite
    · cases reg <;> decide
    · cases reg <;> decide

/-- The latch is one-way, and once it is engaged no event changes the media. -/
theorem leaves_latched (e : BoardEvent) (h : b.latchEngaged = true) :
    (e.leaves b).latchEngaged = true ∧ (e.leaves b).media = b.media := by
  cases e with
  | host reg v =>
    have hquiet := @leaves_host b reg v
    exact ⟨hquiet.latch.trans h, hquiet.media h⟩
  | boot cfg budget =>
    obtain ⟨state, hshape, -⟩ := boot_shape cfg budget b
    by_cases hlive : state.isTerminal = false
    · have hquiet := hshape.quiet hlive
      exact ⟨hquiet.latch.trans h, hquiet.media h⟩
    · cases state with
      | fault => exact ⟨hshape.1.latch, hshape.1.media h⟩
      | halted => exact ⟨hshape.1.latch, hshape.1.media h⟩
      | _ => exact absurd rfl hlive

theorem after_latched (h : List BoardEvent) (hb : b.latchEngaged = true) :
    (after h b).latchEngaged = true := by
  induction h using List.reverseRecOn with
  | nil => exact hb
  | append_singleton h e ih =>
    rw [after_concat]
    exact (leaves_latched e ih).1

/-- A boot that ended in a terminal state has engaged the latch. -/
theorem boot_terminal {state : State} (h : (boot cfg budget b).1 = .ok state)
    (hterminal : state.isTerminal = true) : (boot cfg budget b).2.latchEngaged = true := by
  obtain ⟨state', hshape, hstate⟩ := boot_shape cfg budget b
  rw [← hstate state h] at hshape
  cases state with
  | fault => exact hshape.1.latch
  | halted => exact hshape.1.latch
  | _ => cases hterminal

/-- An event that is no boot of a completed board keeps COMPLETE and FAULT apart, and a completed
board completed. -/
theorem leaves_exclusive (e : BoardEvent) (hb : ¬ BothBlown b)
    (he : ∀ cfg budget, e = .boot cfg budget → 0 < budget → ¬ b.fuse.Completed) :
    ¬ BothBlown (e.leaves b) ∧ (b.fuse.Completed → (e.leaves b).fuse.Completed) := by
  cases e with
  | host reg v =>
    have hquiet := @leaves_host b reg v
    unfold BothBlown
    rw [hquiet.fuse]
    exact ⟨hb, id⟩
  | boot cfg budget =>
    rcases Nat.eq_zero_or_pos budget with rfl | hpos
    · exact ⟨hb, id⟩
    have hnot := he cfg budget rfl hpos
    refine ⟨?_, fun h => absurd h hnot⟩
    obtain ⟨state, hshape, -⟩ := boot_shape cfg budget b
    by_cases hlive : state.isTerminal = false
    · unfold BothBlown at hb ⊢
      rwa [show (BoardEvent.leaves b (.boot cfg budget)).fuse = b.fuse from (hshape.quiet hlive).fuse]
    cases state with
    | fault =>
      -- COMPLETE would have been blown before, without FAULT
      rintro ⟨hcomplete, -⟩
      have hbefore : hasBit b.fuse.word FUSE_COMPLETE = true := by
        have hbit := (hshape.2 FUSE_COMPLETE).symm.trans hcomplete
        simpa [FUSE_FAULT, FUSE_COMPLETE] using hbit
      refine hnot (EfuseBank.completed_iff.mpr ⟨hbefore, ?_⟩)
      cases hfault : hasBit b.fuse.word FUSE_FAULT with
      | false => rfl
      | true => exact absurd ⟨hbefore, hfault⟩ hb
    | halted =>
      rintro ⟨-, hfault⟩
      have hclear : hasBit (BoardEvent.leaves b (.boot cfg budget)).fuse.word FUSE_FAULT = false :=
        hshape.2.2.2
      rw [hclear] at hfault
      cases hfault
    | _ => exact absurd rfl hlive

/-- **The fuses tell one story exactly over the histories** that start without both fuses and in
which no boot takes a step on a board that has completed. -/
theorem oneStory_iff (h : List BoardEvent) (b : SimBoard) :
    OneStory h b ↔ ¬ BothBlown b ∧ ∀ pre cfg budget, pre ++ [.boot cfg budget] <+: h → 0 < budget →
      ¬ (after pre b).fuse.Completed := by
  constructor
  · intro hstory
    refine ⟨hstory.exclusive [] List.nil_prefix, fun pre cfg budget hpre hbudget hcompleted => ?_⟩
    obtain ⟨n, rfl⟩ : ∃ n, budget = n + 1 := ⟨budget - 1, by omega⟩
    refine hstory.exclusive _ hpre ?_
    rw [after_concat]
    exact boot_completed hcompleted
  · rintro ⟨hb, hboots⟩
    have hexclusive : ∀ pre, pre <+: h → ¬ BothBlown (after pre b) := by
      intro pre
      induction pre using List.reverseRecOn with
      | nil => exact fun _ => hb
      | append_singleton pre e ih =>
        intro hpre
        rw [after_concat]
        refine (leaves_exclusive e (ih ((List.prefix_append pre [e]).trans hpre)) ?_).1
        rintro cfg budget rfl
        exact hboots pre cfg budget hpre
    refine ⟨hexclusive, fun pre post => ?_, ?_⟩
    · induction post using List.reverseRecOn with
      | nil => rw [List.append_nil]; exact fun _ h => h
      | append_singleton post e ih =>
        rw [← List.append_assoc]
        intro hpre hcompleted
        have hbefore := (List.prefix_append (pre ++ post) [e]).trans hpre
        rw [after_concat]
        refine (leaves_exclusive e (hexclusive _ hbefore) ?_).2 (ih hbefore hcompleted)
        rintro cfg budget rfl
        exact hboots (pre ++ post) cfg budget hpre
    · rintro pre cfg budget mid cfg' budget' - ⟨state, hok, hterminal⟩
      have hlatched : (after (pre ++ [.boot cfg budget] ++ mid) b).latchEngaged = true := by
        rw [after_append, after_concat]
        exact after_latched mid (boot_terminal hok hterminal)
      rw [after_concat]
      exact (leaves_latched _ hlatched).2

end histories

/-! ### A board that completed is booted again -/

def oneWindow : RunConfig := { windows := 1, pattern := none }

/-- The operator arms the board, a boot runs to its end, and another one takes a step. -/
def rebootHistory : List BoardEvent := [.host .arm ARM_MAGIC, .boot oneWindow 10, .boot oneWindow 1]

/-- The first boot completes the board, the second blows FAULT beside COMPLETE. -/
theorem rebootHistory_not_oneStory :
    (after (rebootHistory.take 2) (SimBoard.new.attachTarget 0)).fuse.Completed
      ∧ ¬ OneStory rebootHistory (SimBoard.new.attachTarget 0) := by
  refine ⟨by decide +kernel, fun hstory => ?_⟩
  exact hstory.exclusive rebootHistory (List.prefix_refl _) ⟨by decide +kernel, by decide +kernel⟩

end Fpga

end DiscCleaner
