import DiscCleaner.Fpga.Machine
import Mathlib.Data.List.Infix
import Mathlib.Data.List.ReduceOption

/-!
# DiscCleaner — the completion fuse and the lanes

Any register bank may be behind the machine. The events of a run say which lanes were gated, erased
and read back before a fuse word with COMPLETE was burnt.

## Main results

* `emits_verifyAll` — the events and verdicts of a readback of all targets
* `run_honest` — the runs in which the completion fuse does not lie about a lane
-/

namespace DiscCleaner

open WordLib ProgLib

namespace Fpga

variable {B : Type} {dev : Mmio B} {α β : Type}

/-! ## Events of a program on the bus -/

/-- However it ends, the program adds events of a kind, and its value says which. -/
def Emits (kind : Event → Prop) (m : Prog (Bus B) Empty α) (Q : α → List Event → Prop) : Prop :=
  ∀ s, ∃ evs, (m s).2.log = s.log ++ evs ∧ (∀ e ∈ evs, kind e) ∧ ∀ a, (m s).1 = .ok a → Q a evs

/-- The program adds no events. -/
def Silent (m : Prog (Bus B) Empty α) : Prop := Prog.Keeps Bus.log m

namespace Emits

variable {kind kind' : Event → Prop} {m : Prog (Bus B) Empty α} {k : α → Prog (Bus B) Empty β}
  {Q Q' : α → List Event → Prop} {R : β → List Event → Prop}

theorem mono (h : Emits kind m Q) (hkind : ∀ e, kind e → kind' e) (hQ : ∀ a evs, Q a evs → Q' a evs) :
    Emits kind' m Q' := by
  intro s
  obtain ⟨evs, hlog, hevs, hok⟩ := h s
  exact ⟨evs, hlog, fun e he => hkind e (hevs e he), fun a ha => hQ a evs (hok a ha)⟩

theorem ret (a : α) : Emits (B := B) kind (pure a) fun b evs => b = a ∧ evs = [] := by
  intro s
  refine ⟨[], (List.append_nil _).symm, fun e he => absurd he List.not_mem_nil, fun b hb => ?_⟩
  cases hb
  exact ⟨rfl, rfl⟩

/-- **Sequencing**: the events of both parts, one behind the other. -/
theorem bind {R : α → β → List Event → Prop} (hm : Emits kind m Q)
    (hk : ∀ a, Emits kind (k a) (R a)) :
    Emits kind (m >>= k) fun b evs => ∃ a e₁ e₂, evs = e₁ ++ e₂ ∧ Q a e₁ ∧ R a b e₂ := by
  intro s
  obtain ⟨e₁, hlog, hevs, hok⟩ := hm s
  show ∃ evs, (Prog.andThen m k s).2.log = s.log ++ evs ∧ (∀ e ∈ evs, kind e)
    ∧ ∀ b, (Prog.andThen m k s).1 = .ok b → _
  unfold Prog.andThen
  cases hrun : m s with
  | mk outcome s₁ =>
    rw [hrun] at hlog hok
    cases outcome with
    | ok a =>
      obtain ⟨e₂, hlog₂, hevs₂, hok₂⟩ := hk a s₁
      refine ⟨e₁ ++ e₂, ?_, ?_, fun b hb => ⟨a, e₁, e₂, rfl, hok a rfl, hok₂ b hb⟩⟩
      · rw [← List.append_assoc, ← hlog, ← hlog₂]
      · intro e he
        rcases List.mem_append.mp he with he | he
        · exact hevs e he
        · exact hevs₂ e he
    | err e => cases e
    | panic => exact ⟨e₁, hlog, hevs, fun b hb => by cases hb⟩
    | blocked => exact ⟨e₁, hlog, hevs, fun b hb => by cases hb⟩

theorem silent_bind (hm : Silent m) (hk : ∀ a, Emits kind (k a) R) : Emits kind (m >>= k) R := by
  intro s
  have hlog := hm s
  show ∃ evs, (Prog.andThen m k s).2.log = s.log ++ evs ∧ (∀ e ∈ evs, kind e)
    ∧ ∀ b, (Prog.andThen m k s).1 = .ok b → _
  unfold Prog.andThen
  cases hrun : m s with
  | mk outcome s₁ =>
    rw [hrun] at hlog
    cases outcome with
    | ok a =>
      obtain ⟨evs, hlog₂, hevs, hok⟩ := hk a s₁
      exact ⟨evs, by rw [hlog₂]; exact congrArg (· ++ evs) hlog, hevs, hok⟩
    | err e => cases e
    | panic =>
      exact ⟨[], by simpa using hlog, fun e he => absurd he List.not_mem_nil, fun b hb => by cases hb⟩
    | blocked =>
      exact ⟨[], by simpa using hlog, fun e he => absurd he List.not_mem_nil, fun b hb => by cases hb⟩

/-- Record an event with the value, and return it. -/
theorem noted {f : α → Event} {a : α} (h : kind (f a)) :
    Emits (B := B) kind (note (f a) >>= fun _ => pure a) fun b evs => evs = [f b] := by
  intro s
  refine ⟨[f a], rfl, fun e he => List.mem_singleton.mp he ▸ h, fun b hb => ?_⟩
  cases hb
  rfl

theorem note_only (e : Event) : Emits (B := B) (· = e) (note e) fun _ evs => evs = [e] := fun _ =>
  ⟨[e], rfl, fun _ he' => List.mem_singleton.mp he', fun _ _ => rfl⟩

theorem ite {c : Prop} [Decidable c] {m m' : Prog (Bus B) Empty α} (hm : c → Emits kind m Q)
    (hm' : ¬ c → Emits kind m' Q) : Emits kind (if c then m else m') Q := by
  by_cases hc : c
  · rw [if_pos hc]
    exact hm hc
  · rw [if_neg hc]
    exact hm' hc

end Emits

theorem silent_readReg (off : Nat) : Silent (readReg dev off) := fun _ => rfl

theorem silent_writeReg (off : Nat) (v : UInt32) : Silent (writeReg dev off v) := by
  intro s
  unfold writeReg
  cases dev.write32 off v s.board <;> rfl

theorem silent_answer : Silent (answer dev) :=
  Prog.Keeps.bind (silent_readReg _) fun _ =>
    .ite (Prog.Keeps.bind (silent_readReg _) fun _ => .ret _) (.ret _)

theorem silent_raw (lane : Nat) (cmd : UInt32) (addr : Nat) (data : UInt32) :
    Silent (raw dev lane cmd addr data) :=
  Prog.Keeps.bind (silent_writeReg _ _) fun _ => Prog.Keeps.bind (silent_writeReg _ _) fun _ =>
    Prog.Keeps.bind (silent_writeReg _ _) fun _ => Prog.Keeps.bind (silent_writeReg _ _) fun _ =>
    Prog.Keeps.bind (silent_readReg _) fun _ => .ret _

/-- Neither a gate nor a burn. -/
def Event.isLook : Event → Bool
  | .gate _ => false
  | .burn _ => false
  | _ => true

/-- Neither a gate nor a burn, and no identification. -/
def Event.isPlain : Event → Bool
  | .gate _ => false
  | .burn _ => false
  | .identify _ _ => false
  | _ => true

theorem Event.isLook_of_isPlain {e : Event} (h : e.isPlain = true) : e.isLook = true := by
  cases e with
  | gate lanes => cases h
  | burn word => cases h
  | _ => rfl

/-- Plain programs on the bus. -/
abbrev EmitsPlain (m : Prog (Bus B) Empty α) (Q : α → List Event → Prop) : Prop :=
  Emits (fun e => e.isPlain = true) m Q

/-! ## The commands -/

theorem emits_identify (lane : Nat) :
    Emits (fun e => e.isLook = true) (identify dev lane) fun a evs => evs = [.identify lane a] := by
  unfold identify
  exact .silent_bind (silent_writeReg _ _) fun _ => .silent_bind (silent_writeReg _ _) fun _ =>
    .silent_bind (silent_writeReg _ _) fun _ => .silent_bind (silent_writeReg _ _) fun _ =>
    .silent_bind silent_answer fun _ => .noted rfl

theorem emits_present : EmitsPlain (present dev) fun bitmap evs => evs = [.present bitmap] :=
  .silent_bind (silent_readReg _) fun _ => .noted rfl

theorem emits_erase (lane addr : Nat) :
    EmitsPlain (erase dev lane addr) fun a evs => evs = [.erase lane addr a] :=
  .silent_bind (silent_raw _ _ _ _) fun _ => .noted rfl

theorem emits_write (lane addr : Nat) (data : UInt32) :
    EmitsPlain (write dev lane addr data) fun a evs => evs = [.write lane addr data a] :=
  .silent_bind (silent_raw _ _ _ _) fun _ => .noted rfl

theorem emits_read (lane addr : Nat) :
    EmitsPlain (read dev lane addr) fun a evs => evs = [.read lane addr a] := by
  unfold read
  exact .silent_bind (silent_writeReg _ _) fun _ => .silent_bind (silent_writeReg _ _) fun _ =>
    .silent_bind (silent_writeReg _ _) fun _ => .silent_bind silent_answer fun _ => .noted rfl

theorem emits_wear (lane : Nat) :
    EmitsPlain (wear dev lane) fun a evs => evs = [.wear lane a] := by
  unfold wear
  exact .silent_bind (silent_writeReg _ _) fun _ => .silent_bind (silent_writeReg _ _) fun _ =>
    .silent_bind silent_answer fun _ => .noted rfl

theorem emits_readFuses :
    EmitsPlain (readFuses dev) fun f evs => evs = [.fuses f.word] :=
  .silent_bind (silent_readReg _) fun word =>
    Emits.noted (f := fun f : EfuseBank => Event.fuses f.word) (a := ⟨word &&& FUSE_MASK⟩) rfl

/-! ## Identification -/

/-- Each lane that answered is among the targets. -/
def Identified (log : List Event) (targets : List (Option Target)) : Prop :=
  ∀ lane word, .identify lane (some word) ∈ log → ∃ t ∈ targets.reduceOption, t.lane = lane

theorem emits_enumerateLane (bitmap : UInt32) (lane : Nat) :
    Emits (fun e => e.isLook = true) (enumerateLane dev bitmap lane)
      fun slot evs => Identified evs [slot] := by
  refine .ite (fun _ => ?_) fun _ => (Emits.ret none).mono (fun _ h => h) ?_
  · refine ((emits_identify lane).bind fun word =>
      Emits.ret (word.map (Target.mk lane))).mono (fun _ h => h) ?_
    rintro slot evs ⟨word, e₁, e₂, rfl, rfl, rfl, rfl⟩ lane' word' hmem
    rw [List.append_nil, List.mem_singleton, Event.identify.injEq] at hmem
    obtain ⟨rfl, rfl⟩ := hmem
    exact ⟨⟨lane', word'⟩, List.reduceOption_mem_iff.mpr List.mem_cons_self, rfl⟩
  · rintro slot evs ⟨-, rfl⟩ lane' word' hmem
    cases hmem

theorem emits_enumerateLanes (bitmap : UInt32) (lanes : List Nat) :
    Emits (fun e => e.isLook = true) (enumerateLanes dev bitmap lanes)
      fun targets evs => Identified evs targets := by
  induction lanes with
  | nil =>
    refine (Emits.ret []).mono (fun _ h => h) ?_
    rintro targets evs ⟨-, rfl⟩ lane word hmem
    cases hmem
  | cons lane lanes ih =>
    refine ((emits_enumerateLane bitmap lane).bind fun slot => ih.bind fun rest =>
      Emits.ret (slot :: rest)).mono (fun _ h => h) ?_
    rintro targets evs ⟨slot, e₁, e₂, rfl, hslot, rest, e₃, e₄, rfl, hrest, rfl, rfl⟩ lane' word hmem
    rw [List.append_nil, List.mem_append] at hmem
    rcases hmem with hmem | hmem
    · obtain ⟨t, ht, hlane⟩ := hslot lane' word hmem
      rw [List.reduceOption_mem_iff, List.mem_singleton] at ht
      exact ⟨t, List.reduceOption_mem_iff.mpr (List.mem_cons.mpr (Or.inl ht)), hlane⟩
    · obtain ⟨t, ht, hlane⟩ := hrest lane' word hmem
      rw [List.reduceOption_mem_iff] at ht
      exact ⟨t, List.reduceOption_mem_iff.mpr (List.mem_cons_of_mem slot ht), hlane⟩

theorem emits_enumerate :
    Emits (fun e => e.isLook = true) (enumerate dev) fun targets evs => Identified evs targets := by
  refine ((emits_present.mono (fun _ => Event.isLook_of_isPlain) fun _ _ h => h).bind fun bitmap =>
    emits_enumerateLanes bitmap _).mono (fun _ h => h) ?_
  rintro targets evs ⟨bitmap, e₁, e₂, rfl, rfl, h⟩ lane word hmem
  rw [List.singleton_append, List.mem_cons] at hmem
  exact h lane word (hmem.resolve_left nofun)

/-! ## Erasure -/

theorem emits_eachWindow {store : Nat → Prog (Bus B) Empty Bool} {f : Nat → Bool → Event}
    (hstore : ∀ addr, EmitsPlain (store addr) fun a evs => evs = [f addr a]) (addrs : List Nat) :
    EmitsPlain (Machine.eachWindow store addrs)
      fun ok evs => ok = true → ∀ addr ∈ addrs, f addr true ∈ evs := by
  induction addrs with
  | nil =>
    refine (Emits.ret true).mono (fun _ h => h) ?_
    rintro ok evs ⟨-, rfl⟩ - addr haddr
    cases haddr
  | cons addr addrs ih =>
    refine ((hstore addr).bind
      (R := fun accepted ok evs => ok = true → accepted = true ∧ ∀ addr ∈ addrs, f addr true ∈ evs)
      fun accepted => .ite (fun haccepted => ih.mono (fun _ h => h) ?_) fun _ =>
        (Emits.ret false).mono (fun _ h => h) ?_).mono (fun _ h => h) ?_
    · intro ok evs h hok
      exact ⟨haccepted, h hok⟩
    · rintro ok evs ⟨rfl, -⟩ hok
      cases hok
    · rintro ok evs ⟨accepted, e₁, e₂, rfl, rfl, hrest⟩ hok addr' haddr'
      obtain ⟨rfl, hall⟩ := hrest hok
      rcases List.mem_cons.mp haddr' with rfl | haddr'
      · exact List.mem_append_left e₂ List.mem_cons_self
      · exact List.mem_append_right _ (hall addr' haddr')

/-- Every window of the lane was erased. -/
def ErasedLane (cfg : RunConfig) (lane : Nat) (evs : List Event) : Prop :=
  ∀ addr < cfg.windows.toNat, .erase lane addr true ∈ evs

theorem emits_sanitizeLane (cfg : RunConfig) (lane : Nat) :
    EmitsPlain (Machine.sanitizeLane dev cfg lane)
      fun refusal evs => refusal = none → ErasedLane cfg lane evs := by
  have herase := emits_eachWindow (fun addr => @emits_erase B dev lane addr)
    (List.range cfg.windows.toNat)
  unfold Machine.sanitizeLane
  refine (herase.bind (R := fun erased refusal _ => refusal = none → erased = true)
    fun erased => .ite (fun herased => ?_) fun _ => ?_).mono (fun _ h => h) ?_
  · cases cfg.pattern with
    | none => exact (Emits.ret none).mono (fun _ h => h) fun _ _ _ _ => herased
    | some p =>
      refine ((emits_eachWindow (fun addr => @emits_write B dev lane addr p) _).bind fun written =>
        Emits.ret _).mono (fun _ h => h) fun _ _ _ _ => herased
  · refine (Emits.ret (some "erase command refused")).mono (fun _ h => h) ?_
    rintro refusal evs ⟨rfl, -⟩ hnone
    cases hnone
  · rintro refusal evs ⟨erased, e₁, e₂, rfl, hall, hrest⟩ hnone addr haddr
    exact List.mem_append_left e₂ (hall (hrest hnone) addr (List.mem_range.mpr haddr))

theorem emits_sanitizeLanes (cfg : RunConfig) (bitmap : UInt32) (lanes : List Nat)
    (hlanes : ∀ lane ∈ lanes, lane < 32) :
    EmitsPlain (Machine.sanitizeLanes dev cfg bitmap lanes) fun refusal evs => refusal = none →
      ∀ lane ∈ lanes, hasBit bitmap lane = true → ErasedLane cfg lane evs := by
  induction lanes with
  | nil =>
    refine (Emits.ret none).mono (fun _ h => h) ?_
    rintro refusal evs - - lane hlane
    cases hlane
  | cons lane lanes ih =>
    have ih := ih fun l hl => hlanes l (List.mem_cons_of_mem lane hl)
    unfold Machine.sanitizeLanes
    refine .ite (fun _ => ?_) fun hbit => ih.mono (fun _ h => h) ?_
    · refine ((emits_sanitizeLane cfg lane).bind
        (R := fun refusal₁ refusal evs => refusal = none → refusal₁ = none
          ∧ ∀ lane ∈ lanes, hasBit bitmap lane = true → ErasedLane cfg lane evs)
        fun refusal₁ => ?_).mono (fun _ h => h) ?_
      · cases refusal₁ with
        | none => exact ih.mono (fun _ h => h) fun _ _ h hnone => ⟨rfl, h hnone⟩
        | some why =>
          refine (Emits.ret (some why)).mono (fun _ h => h) ?_
          rintro refusal evs ⟨rfl, -⟩ hnone
          cases hnone
      · rintro refusal evs ⟨refusal₁, e₁, e₂, rfl, hfirst, hrest⟩ hnone lane' hlane' hbit addr haddr
        obtain ⟨hnone₁, hall⟩ := hrest hnone
        rcases List.mem_cons.mp hlane' with rfl | hlane'
        · exact List.mem_append_left e₂ (hfirst hnone₁ addr haddr)
        · exact List.mem_append_right e₁ (hall lane' hlane' hbit addr haddr)
    · intro refusal evs h hnone lane' hlane' hbit'
      rcases List.mem_cons.mp hlane' with rfl | hlane'
      · exact absurd ((shiftRight_and_one (hlanes lane' List.mem_cons_self)).mpr hbit') hbit
      · exact h hnone lane' hlane' hbit'

/-! ## Readback -/

/-- The answers of a lane to the readback of its windows, and its wear counter. -/
structure LaneAnswers where
  lane : Nat
  answers : List (Option UInt32)
  pulses : Option UInt32

namespace LaneAnswers

def events (r : LaneAnswers) : List Event :=
  List.zipWith (Event.read r.lane) (List.range r.answers.length) r.answers
    ++ [.wear r.lane r.pulses]

def readback (pattern : Option UInt32) (r : LaneAnswers) : Readback :=
  r.answers.foldl (fun b a => b.take pattern a) ⟨0, 0, Digest.new.updateLane r.lane⟩

/-- The verdict over the answers. -/
def verdict (pattern : Option UInt32) (r : LaneAnswers) : LaneVerdict :=
  ⟨r.lane, (r.readback pattern).read, (r.readback pattern).residue, (r.readback pattern).digest,
    r.pulses.getD 0⟩

end LaneAnswers

/-- An answer with status OK that holds zero or the declared pattern. -/
def Clean (pattern : Option UInt32) (answer : Option UInt32) : Prop :=
  ∃ word, answer = some word ∧ (word = 0 ∨ pattern = some word)

theorem classify_isOk_iff (word : UInt32) (pattern : Option UInt32) :
    (classify word pattern).isOk = true ↔ word = 0 ∨ pattern = some word := by
  unfold classify
  split_ifs <;> simp_all [WordClass.isOk]

/-- Without residue every answer was clean. -/
theorem clean_of_residue {pattern : Option UInt32} {answers : List (Option UInt32)} {b : Readback}
    (h : (answers.foldl (fun b a => b.take pattern a) b).residue = 0) :
    b.residue = 0 ∧ ∀ a ∈ answers, Clean pattern a := by
  induction answers generalizing b with
  | nil => exact ⟨h, fun a ha => absurd ha List.not_mem_nil⟩
  | cons a answers ih =>
    obtain ⟨hfirst, hrest⟩ := ih h
    have hclean : b.residue = 0 ∧ Clean pattern a := by
      cases a with
      | none => simp [Readback.take] at hfirst
      | some word =>
        unfold Readback.take at hfirst
        dsimp only at hfirst
        by_cases hok : (classify word pattern).isOk = true
        · rw [if_pos hok] at hfirst
          exact ⟨hfirst, word, rfl, (classify_isOk_iff word pattern).mp hok⟩
        · rw [if_neg hok] at hfirst
          omega
    refine ⟨hclean.1, fun a' ha' => ?_⟩
    rcases List.mem_cons.mp ha' with rfl | ha'
    · exact hclean.2
    · exact hrest a' ha'

namespace LaneAnswers

variable {pattern : Option UInt32} {r : LaneAnswers}

theorem clean_of_passed (h : (r.verdict pattern).Passed) : ∀ a ∈ r.answers, Clean pattern a :=
  (clean_of_residue h.1).2

/-- The answer for a window is among the events. -/
theorem mem_events {addr : Nat} (h : addr < r.answers.length) :
    .read r.lane addr r.answers[addr] ∈ r.events := by
  refine List.mem_append_left _ (List.mem_iff_getElem.mpr ⟨addr, by simpa using h, ?_⟩)
  rw [List.getElem_zipWith, List.getElem_range]

theorem exists_mem_events {a : Option UInt32} (h : a ∈ r.answers) :
    ∃ addr, .read r.lane addr a ∈ r.events := by
  obtain ⟨addr, haddr, rfl⟩ := List.mem_iff_getElem.mp h
  exact ⟨addr, mem_events haddr⟩

/-- Clean answers, window by window. -/
theorem read_of_clean (h : ∀ a ∈ r.answers, Clean pattern a) {addr : Nat}
    (haddr : addr < r.answers.length) :
    ∃ word, .read r.lane addr (some word) ∈ r.events ∧ (word = 0 ∨ pattern = some word) := by
  obtain ⟨word, hword, hclean⟩ := h _ (List.getElem_mem haddr)
  exact ⟨word, hword ▸ mem_events haddr, hclean⟩

end LaneAnswers

theorem emits_readWindows (lane : Nat) (pattern : Option UInt32) (addrs : List Nat) (b : Readback) :
    EmitsPlain (readWindows dev lane pattern addrs b) fun b' evs => ∃ answers : List (Option UInt32),
      answers.length = addrs.length ∧ evs = List.zipWith (Event.read lane) addrs answers
        ∧ b' = answers.foldl (fun b a => b.take pattern a) b := by
  induction addrs generalizing b with
  | nil =>
    refine (Emits.ret b).mono (fun _ h => h) ?_
    rintro b' evs ⟨rfl, rfl⟩
    exact ⟨[], rfl, rfl, rfl⟩
  | cons addr addrs ih =>
    refine ((emits_read lane addr).bind fun answer => ih (b.take pattern answer)).mono
      (fun _ h => h) ?_
    rintro b' evs ⟨answer, e₁, e₂, rfl, rfl, answers, hlen, rfl, rfl⟩
    exact ⟨answer :: answers, by simp [hlen], rfl, rfl⟩

theorem emits_verifyLane (t : Target) (words : Nat) (pattern : Option UInt32) :
    EmitsPlain (verifyLane dev t words pattern) fun v evs => ∃ r : LaneAnswers, r.lane = t.lane
      ∧ r.answers.length = words ∧ evs = r.events ∧ v = r.verdict pattern := by
  refine ((emits_readWindows t.lane pattern (List.range words) _).bind fun b =>
    (emits_wear t.lane).bind fun pulses => Emits.ret _).mono (fun _ h => h) ?_
  rintro v evs ⟨b, e₁, e₂, rfl, ⟨answers, hlen, rfl, rfl⟩, pulses, e₃, e₄, rfl, rfl, rfl, rfl⟩
  rw [List.length_range] at hlen
  refine ⟨⟨t.lane, answers, pulses⟩, rfl, hlen, ?_, rfl⟩
  rw [LaneAnswers.events, hlen]
  rfl

/-- What a readback of all targets has seen: a lane's answers for each target. -/
structure Seen (words : Nat) (targets : List (Option Target)) (rs : List LaneAnswers) : Prop where
  lanes : rs.map LaneAnswers.lane = targets.reduceOption.map Target.lane
  length : ∀ r ∈ rs, r.answers.length = words

/-- **Readback of all targets.** -/
theorem emits_verifyAll (words : Nat) (pattern : Option UInt32) (targets : List (Option Target)) :
    EmitsPlain (verifyAll dev words pattern targets) fun verdicts evs => ∃ rs,
      Seen words targets rs ∧ evs = rs.flatMap LaneAnswers.events
        ∧ verdicts.reduceOption = rs.map (LaneAnswers.verdict pattern) := by
  induction targets with
  | nil =>
    refine (Emits.ret []).mono (fun _ h => h) ?_
    rintro verdicts evs ⟨rfl, rfl⟩
    exact ⟨[], ⟨rfl, fun r hr => absurd hr List.not_mem_nil⟩, rfl, rfl⟩
  | cons slot targets ih =>
    cases slot with
    | none =>
      refine (ih.bind fun rest => Emits.ret (none :: rest)).mono (fun _ h => h) ?_
      rintro verdicts evs ⟨rest, e₁, e₂, rfl, ⟨rs, hseen, rfl, hrest⟩, rfl, rfl⟩
      refine ⟨rs, ⟨?_, hseen.length⟩, List.append_nil _, ?_⟩
      · rw [List.reduceOption_cons_of_none, hseen.lanes]
      · rw [List.reduceOption_cons_of_none, hrest]
    | some t =>
      refine ((emits_verifyLane t words pattern).bind fun verdict => ih.bind fun rest =>
        Emits.ret (some verdict :: rest)).mono (fun _ h => h) ?_
      rintro verdicts evs
        ⟨v, e₁, e₂, rfl, ⟨r, hlane, hlen, rfl, rfl⟩, rest, e₃, e₄, rfl, ⟨rs, hseen, rfl, hrest⟩, rfl, rfl⟩
      refine ⟨r :: rs, ⟨?_, ?_⟩, ?_, ?_⟩
      · rw [List.reduceOption_cons_of_some, List.map_cons, List.map_cons, hlane, hseen.lanes]
      · intro r' hr'
        rcases List.mem_cons.mp hr' with rfl | hr'
        · exact hlen
        · exact hseen.length r' hr'
      · rw [List.append_nil, List.flatMap_cons]
      · rw [List.reduceOption_cons_of_some, List.map_cons, hrest]

/-! ## What a completion burn says -/

def NoBurn (log : List Event) : Prop := ∀ w, Event.burn w ∉ log

def NoGate (log : List Event) : Prop := ∀ p, Event.gate p ∉ log

def NoIdentify (log : List Event) : Prop := ∀ lane a, Event.identify lane a ∉ log

/-- What the events from the gate to a burn of `w` show of a lane: every window was erased and after
that read back clean, the transcript is the digest over the readbacks of CERTIFY, which are clean
and one of which is the lane's, and the lane's fuse is burnt. -/
structure Proven (cfg : RunConfig) (transcript : Digest) (lane : Nat) (post : List Event)
    (w : UInt32) : Prop where
  media : ∃ mid fin, post = mid ++ fin ∧ ErasedLane cfg lane mid ∧ ∀ addr < cfg.windows.toNat,
    ∃ word, .read lane addr (some word) ∈ fin ∧ (word = 0 ∨ cfg.pattern = some word)
  digest : ∃ (rs : List LaneAnswers) (front back : List Event),
    post = front ++ .state "CERTIFY" ::
      (rs.flatMap LaneAnswers.events ++ .transcript transcript.toUInt32 :: back)
    ∧ (∀ r ∈ rs, r.answers.length = cfg.windows.toNat ∧ ∀ a ∈ r.answers, Clean cfg.pattern a)
    ∧ transcript = Machine.transcriptOf (rs.map (LaneAnswers.verdict cfg.pattern))
    ∧ ∃ r ∈ rs, r.lane = lane
  fuse : ∃ v, .burn v ∈ post ++ [.burn w] ∧ hasBit v lane = true

/-- Whenever a word with COMPLETE is burnt, everything is shown of each lane that was gated. -/
def Honest (cfg : RunConfig) (s : Machine B) : Prop :=
  ∀ done w, done ++ [.burn w] <+: s.bus.log → hasBit w FUSE_COMPLETE = true →
    ∀ p, .gate p ∈ done → ∀ lane < 32, hasBit p lane = true →
      ∃ pre post, done = pre ++ .gate p :: post ∧ Proven cfg s.transcript lane post w

/-- How the board answers in a run that burns COMPLETE: each gated lane is one of the four and
answered IDENTIFY, the readbacks of CERTIFY are clean, and no word that the fault path reads holds
COMPLETE once a lane was gated. -/
structure Answered (cfg : RunConfig) (log : List Event) : Prop where
  identified : ∀ p, .gate p ∈ log → ∀ lane < 32, hasBit p lane = true →
    lane < MAX_LANES ∧ ∃ word, .identify lane (some word) ∈ log
  certified : ∀ front fin, log = front ++ .state "CERTIFY" :: fin →
    ∀ lane addr a, .read lane addr a ∈ fin → Clean cfg.pattern a
  noFault : ∀ why w, [.fault why, .fuses w] <:+: log → hasBit w FUSE_COMPLETE = true →
    ∀ p, .gate p ∈ log → ∀ lane < 32, hasBit p lane = false

def Faithful (cfg : RunConfig) (s : Machine B) : Prop :=
  (∃ w, .burn w ∈ s.bus.log ∧ hasBit w FUSE_COMPLETE = true) → Answered cfg s.bus.log

/-! ## Phases of a run -/

/-- The same with the targets of the machine, up to a burn. -/
structure Meets (cfg : RunConfig) (targets : List (Option Target)) (done : List Event) : Prop where
  targeted : ∀ p, .gate p ∈ done → ∀ lane < 32, hasBit p lane = true →
    lane < MAX_LANES ∧ ∃ t ∈ targets.reduceOption, t.lane = lane
  certified : ∀ front fin, done = front ++ .state "CERTIFY" :: fin →
    ∀ lane addr a, .read lane addr a ∈ fin → Clean cfg.pattern a
  noFault : ∀ why w, [.fault why, .fuses w] <:+: done → hasBit w FUSE_COMPLETE = true →
    ∀ p, .gate p ∈ done → ∀ lane < 32, hasBit p lane = false

def HonestGiven (cfg : RunConfig) (targets : List (Option Target)) (transcript : Digest)
    (log : List Event) : Prop :=
  ∀ done w, done ++ [.burn w] <+: log → hasBit w FUSE_COMPLETE = true → Meets cfg targets done →
    ∀ p, .gate p ∈ done → ∀ lane < 32, hasBit p lane = true →
      ∃ pre post, done = pre ++ .gate p :: post ∧ Proven cfg transcript lane post w

/-- What is said of a machine however its run ends. -/
structure Told (cfg : RunConfig) (s : Machine B) : Prop where
  honest : HonestGiven cfg s.targets s.transcript s.bus.log
  identified : NoBurn s.bus.log ∨ Identified s.bus.log s.targets

theorem HonestGiven.of_prefix {cfg : RunConfig} {targets : List (Option Target)} {transcript : Digest}
    {log log' : List Event} (h : HonestGiven cfg targets transcript log) (hpre : log' <+: log) :
    HonestGiven cfg targets transcript log' := fun done w hdone => h done w (hdone.trans hpre)

theorem told_of_noBurn {cfg : RunConfig} {s : Machine B} (h : NoBurn s.bus.log) : Told cfg s where
  honest := by
    rintro done w hdone
    exact absurd (hdone.subset (List.mem_append_right done List.mem_cons_self)) (h w)
  identified := Or.inl h

theorem run_honest_of_told {cfg : RunConfig} {s : Machine B} (h : Told cfg s) (hs : Faithful cfg s) :
    Honest cfg s := by
  intro done w hdone hcomplete
  have hmem : .burn w ∈ s.bus.log :=
    hdone.subset (List.mem_append_right done List.mem_cons_self)
  have hanswered := hs ⟨w, hmem, hcomplete⟩
  have hidentified := h.identified.resolve_left fun hno => hno w hmem
  obtain ⟨rest, hrest⟩ := hdone
  have hsub : done ⊆ s.bus.log := fun e he => by
    rw [← hrest]
    exact List.mem_append_left rest (List.mem_append_left _ he)
  refine h.honest done w ⟨rest, hrest⟩ hcomplete ⟨?_, ?_, ?_⟩
  · intro p hp lane hlane hbit
    obtain ⟨hlt, word, hword⟩ := hanswered.identified p (hsub hp) lane hlane hbit
    exact ⟨hlt, hidentified lane word hword⟩
  · rintro front fin rfl lane addr a ha
    refine hanswered.certified front (fin ++ [.burn w] ++ rest) ?_ lane addr a ?_
    · rw [← hrest]
      simp
    · exact List.mem_append_left rest (List.mem_append_left _ ha)
  · intro why w' hsegment hw' p hp
    refine hanswered.noFault why w' (hsegment.trans ?_) hw' p (hsub hp)
    exact ⟨[], [.burn w] ++ rest, by rw [← hrest]; simp⟩

/-- A burn behind a log without burns. -/
theorem prefix_of_notMem {L M done : List Event} {x : Event} (hx : x ∉ L)
    (h : done ++ [x] <+: L ++ M) : ∃ d, done = L ++ d ∧ d ++ [x] <+: M := by
  obtain ⟨t, ht⟩ := h
  rw [List.append_assoc] at ht
  rcases List.append_eq_append_iff.mp ht with ⟨a, rfl, ha⟩ | ⟨c, hc, rfl⟩
  · cases a with
    | nil => exact ⟨[], by simp, t, by simpa using ha⟩
    | cons y a =>
      have hxy : x = y := by simpa using (List.cons.inj ha).1
      exact absurd (by simp [hxy]) hx
  · exact ⟨c, hc, t, by simp⟩

namespace Machine

variable {cfg : RunConfig} {s : Machine B} {R : β → Machine B → Prop}

/-- A program on the bus that burns nothing, and then the rest of the step. -/
theorem told_onBus {kind : Event → Prop} {m : Prog (Bus B) Empty α}
    {k : α → Prog (Machine B) Empty β} {Q : α → List Event → Prop} (hm : Emits kind m Q)
    (hkind : ∀ w, ¬ kind (.burn w)) (hs : NoBurn s.bus.log)
    (hk : ∀ a board evs, (∀ e ∈ evs, kind e) → Q a evs → NoBurn (s.bus.log ++ evs) →
      Prog.Triple (fun t => t = { s with bus := ⟨board, s.bus.log ++ evs⟩ }) (k a) R (Told cfg)) :
    Prog.Triple (fun t => t = s) (onBus m >>= k) R (Told cfg) := by
  rintro t rfl
  obtain ⟨evs, hlog, hevs, hok⟩ := hm t.bus
  have hnoBurn : NoBurn (t.bus.log ++ evs) := by
    intro w hw
    rcases List.mem_append.mp hw with hw | hw
    · exact hs w hw
    · exact hkind w (hevs _ hw)
  have htold : Told cfg { t with bus := (m t.bus).2 } := told_of_noBurn (by rw [← hlog] at hnoBurn; exact hnoBurn)
  show (∀ b s', Prog.andThen (onBus m) k t = (.ok b, s') → R b s')
    ∧ ((∀ b, (Prog.andThen (onBus m) k t).1 ≠ .ok b) → Told cfg (Prog.andThen (onBus m) k t).2)
  unfold Prog.andThen onBus
  cases hrun : m t.bus with
  | mk outcome bus =>
    rw [hrun] at hlog hok htold
    have hbus : bus = ⟨bus.board, t.bus.log ++ evs⟩ := by rw [← hlog]
    cases outcome with
    | ok a => exact hk a bus.board evs hevs (hok a rfl) hnoBurn _ (by rw [← hbus])
    | err e => cases e
    | panic => exact ⟨fun b s' h => absurd (Prod.mk.inj h).1 nofun, fun _ => htold⟩
    | blocked => exact ⟨fun b s' h => absurd (Prod.mk.inj h).1 nofun, fun _ => htold⟩

/-! ### The fault path -/

/-- However it ends, the fault path does no more than this. -/
theorem fault_log (why : String) (s : Machine B) : ∃ w,
    (fault dev why s).2.bus.log <+: s.bus.log ++ [.fault why, .fuses w,
      .burn ((EfuseBank.mk w).burnFault.word &&& FUSE_MASK), .latch]
    ∧ (fault dev why s).2.targets = s.targets ∧ (fault dev why s).2.transcript = s.transcript
    ∧ ((fault dev why s).1 = .ok () → (fault dev why s).2.state = .fault) := by
  refine ⟨(dev.read32 EFUSE s.bus.board).1 &&& FUSE_MASK, ?_⟩
  simp only [fault, Prog.bind_run, Prog.andThen, onBus, note, Prog.update, readFuses, readReg, burnFuses,
    writeReg, latch, goto, Prog.pure_run]
  cases dev.write32 EFUSE _ _ with
  | none =>
    refine ⟨⟨[.burn ((EfuseBank.mk ((dev.read32 EFUSE s.bus.board).1 &&& FUSE_MASK)).burnFault.word
      &&& FUSE_MASK), .latch], ?_⟩, rfl, rfl, fun h => by cases h⟩
    simp
  | some b =>
    dsimp only
    cases dev.write32 LANE_LATCH _ _ with
    | none =>
      refine ⟨⟨[.latch], ?_⟩, rfl, rfl, fun h => by cases h⟩
      simp
    | some b => exact ⟨⟨[], by simp⟩, rfl, rfl, fun _ => rfl⟩

/-- Where a word with COMPLETE is burnt on the fault path, it was read there. -/
theorem complete_of_faultWord {w : UInt32}
    (h : hasBit ((EfuseBank.mk w).burnFault.word &&& FUSE_MASK) FUSE_COMPLETE = true) :
    hasBit w FUSE_COMPLETE = true := by
  rw [hasBit_and, EfuseBank.burnFault, EfuseBank.hasBit_burn_flag _ (by decide)] at h
  simp only [FUSE_FAULT, FUSE_COMPLETE, Nat.reduceEqDiff, decide_false, Bool.or_false,
    Bool.and_eq_true] at h
  exact h.1

theorem told_fault (why : String) (hno : NoBurn s.bus.log) (hid : Identified s.bus.log s.targets) :
    Prog.Triple (fun t => t = s) (fault dev why)
      (fun _ t => t.state = .fault ∧ Told cfg t) (Told cfg) := by
  rintro t rfl
  obtain ⟨w, hpre, htargets, htranscript, hstate⟩ := @fault_log B dev why t
  have htold : Told cfg (fault dev why t).2 := by
    refine ⟨?_, Or.inr fun lane word hmem => ?_⟩
    · rw [htargets, htranscript]
      refine HonestGiven.of_prefix ?_ hpre
      intro done x hdone hcomplete hmeets p hp lane hlane hbit
      obtain ⟨d, rfl, hd⟩ := prefix_of_notMem (hno x) hdone
      have hcase : d = [.fault why, .fuses w]
          ∧ x = (EfuseBank.mk w).burnFault.word &&& FUSE_MASK := by
        rcases d with _ | ⟨e₁, _ | ⟨e₂, _ | ⟨e₃, _ | ⟨e₄, d⟩⟩⟩⟩ <;> simp_all
      obtain ⟨rfl, rfl⟩ := hcase
      -- the word that was read holds COMPLETE, and no lane was gated
      have hclear := hmeets.noFault why w (List.suffix_append _ _).isInfix
        (complete_of_faultWord hcomplete) p hp lane hlane
      rw [hclear] at hbit
      cases hbit
    · rw [htargets]
      refine hid lane word ?_
      rcases List.mem_append.mp (hpre.subset hmem) with hmem | hmem
      · exact hmem
      · simp at hmem
  exact ⟨fun a s' hrun => by rw [hrun] at hstate htold; exact ⟨hstate rfl, htold⟩, fun _ => htold⟩

/-! ### The phases -/

/-- The lanes were gated, the four of them erased, and since then `fin` happened. -/
structure Erased (cfg : RunConfig) (s : Machine B) (fin : List Event) : Prop where
  noBurn : NoBurn s.bus.log
  identified : Identified s.bus.log s.targets
  history : ∃ pre p mid, s.bus.log = pre ++ .gate p :: (mid ++ fin) ∧ NoGate pre
    ∧ NoGate (mid ++ fin) ∧ ∀ lane < MAX_LANES, hasBit p lane = true → ErasedLane cfg lane mid

/-- Every window of every target was read back clean. -/
def ReadClean (cfg : RunConfig) (s : Machine B) (fin : List Event) : Prop :=
  ∀ t ∈ s.targets.reduceOption, ∀ addr < cfg.windows.toNat, ∃ word,
    .read t.lane addr (some word) ∈ fin ∧ (word = 0 ∨ cfg.pattern = some word)

/-- The transcript is the digest over what CERTIFY has read. -/
def Digested (cfg : RunConfig) (s : Machine B) (fin : List Event) : Prop :=
  ∃ rs front, fin = front ++ .state "CERTIFY" :: (rs.flatMap LaneAnswers.events
      ++ [.transcript s.transcript.toUInt32])
    ∧ Seen cfg.windows.toNat s.targets rs
    ∧ s.transcript = transcriptOf (rs.map (LaneAnswers.verdict cfg.pattern))

/-- Nothing was gated, identified or burnt. -/
structure Untouched (s : Machine B) : Prop where
  noBurn : NoBurn s.bus.log
  noGate : NoGate s.bus.log
  noIdentify : NoIdentify s.bus.log

/-- The targets are known, and nothing was gated or burnt. -/
structure Aimed (s : Machine B) : Prop where
  noBurn : NoBurn s.bus.log
  noGate : NoGate s.bus.log
  identified : Identified s.bus.log s.targets

/-- What each state has behind it. -/
def Phase (cfg : RunConfig) (s : Machine B) : State → Prop
  | .selfTest => Untouched s
  | .enumerate => Untouched s
  | .awaitArm => Aimed s
  | .sanitize => Aimed s
  | .verify => ∃ fin, Erased cfg s fin
  | .certify => ∃ fin, Erased cfg s fin ∧ ReadClean cfg s fin
  | .seal => ∃ fin, Erased cfg s fin ∧ ReadClean cfg s fin ∧ Digested cfg s fin
  | .fault => Told cfg s
  | .halted => Told cfg s

def InPhase (cfg : RunConfig) (s : Machine B) : Prop := Phase cfg s s.state

theorem identified_of_noIdentify {log : List Event} {targets : List (Option Target)}
    (h : NoIdentify log) : Identified log targets := fun lane _ hmem => absurd hmem (h lane _)

theorem noGate_append {log evs : List Event} (h : NoGate log) (hevs : NoGate evs) :
    NoGate (log ++ evs) := by
  intro p hp
  rcases List.mem_append.mp hp with hp | hp
  · exact h p hp
  · exact hevs p hp

theorem noGate_of_isLook {evs : List Event} (h : ∀ e ∈ evs, e.isLook = true) : NoGate evs :=
  fun p hp => absurd (h _ hp) (by simp [Event.isLook])

theorem identified_append {log evs : List Event} {targets : List (Option Target)}
    (h : Identified log targets) (hevs : NoIdentify evs) : Identified (log ++ evs) targets := by
  intro lane word hmem
  rcases List.mem_append.mp hmem with hmem | hmem
  · exact h lane word hmem
  · exact absurd hmem (hevs lane _)

theorem noIdentify_of_isPlain {evs : List Event} (h : ∀ e ∈ evs, e.isPlain = true) :
    NoIdentify evs := fun lane a hmem => absurd (h _ hmem) (by simp [Event.isPlain])

theorem not_burn_of_isLook (w : UInt32) : ¬ (Event.burn w).isLook = true := by simp [Event.isLook]

theorem not_burn_of_isPlain (w : UInt32) : ¬ (Event.burn w).isPlain = true := by
  simp [Event.isPlain]

theorem noGate_of_isPlain {evs : List Event} (h : ∀ e ∈ evs, e.isPlain = true) : NoGate evs :=
  noGate_of_isLook fun e he => Event.isLook_of_isPlain (h e he)

theorem Untouched.append {evs : List Event} (board : B) (h : Untouched s)
    (hevs : ∀ e ∈ evs, e.isPlain = true) (hno : NoBurn (s.bus.log ++ evs)) :
    Untouched { s with bus := ⟨board, s.bus.log ++ evs⟩ } where
  noBurn := hno
  noGate := noGate_append h.noGate (noGate_of_isPlain hevs)
  noIdentify := by
    intro lane a hmem
    rcases List.mem_append.mp hmem with hmem | hmem
    · exact h.noIdentify lane a hmem
    · exact noIdentify_of_isPlain hevs lane a hmem

theorem Aimed.append {evs : List Event} (board : B) (h : Aimed s)
    (hevs : ∀ e ∈ evs, e.isPlain = true) (hno : NoBurn (s.bus.log ++ evs)) :
    Aimed { s with bus := ⟨board, s.bus.log ++ evs⟩ } where
  noBurn := hno
  noGate := noGate_append h.noGate (noGate_of_isPlain hevs)
  identified := identified_append h.identified (noIdentify_of_isPlain hevs)

/-- Plain events after the erasure. -/
theorem Erased.append {fin evs : List Event} (board : B) (h : Erased cfg s fin)
    (hevs : ∀ e ∈ evs, e.isPlain = true) (hno : NoBurn (s.bus.log ++ evs)) :
    Erased cfg { s with bus := ⟨board, s.bus.log ++ evs⟩ } (fin ++ evs) := by
  obtain ⟨pre, p, mid, hlog, hpre, hfin, herased⟩ := h.history
  refine ⟨hno, identified_append h.identified (noIdentify_of_isPlain hevs),
    pre, p, mid, ?_, hpre, ?_, herased⟩
  · show s.bus.log ++ evs = _
    rw [hlog]
    simp
  · rw [← List.append_assoc]
    exact noGate_append hfin (noGate_of_isPlain hevs)

/-- A step from one state: it ends in a phase, or unwinds. -/
abbrev StepsTo (cfg : RunConfig) (m : Prog (Machine B) Empty Unit) (s : Machine B) : Prop :=
  Prog.Triple (fun t => t = s) m (fun _ t => InPhase cfg t) (Told cfg)

theorem steps_goto {state : State} (h : Phase cfg { s with state } state) :
    StepsTo cfg (goto state) s := by
  rintro t rfl
  exact ⟨fun a s' hrun => by cases hrun; exact h, fun hno => absurd rfl (hno ())⟩

theorem steps_fault (why : String) (hno : NoBurn s.bus.log) (hid : Identified s.bus.log s.targets) :
    StepsTo cfg (fault dev why) s := by
  refine (told_fault why hno hid).strengthen_post ?_
  rintro a t ⟨hstate, htold⟩
  rw [InPhase, hstate]
  exact htold

theorem emits_nothing {m : Prog (Bus B) Empty α} (h : Silent m) :
    EmitsPlain m fun _ evs => evs = [] := fun s =>
  ⟨[], by rw [List.append_nil]; exact h s, fun e he => absurd he List.not_mem_nil, fun _ _ => rfl⟩

theorem emits_note {e : Event} (h : e.isPlain = true) :
    EmitsPlain (note e : Prog (Bus B) Empty Unit) fun _ evs => evs = [e] :=
  (Emits.note_only e).mono (fun _ he => he ▸ h) fun _ _ h => h

theorem Untouched.identified (h : Untouched s) : Identified s.bus.log s.targets :=
  identified_of_noIdentify h.noIdentify

theorem steps_selftest (hs : Untouched s) : StepsTo cfg (stepSelftest dev) s := by
  refine told_onBus (emits_nothing (silent_writeReg _ _)) not_burn_of_isPlain hs.noBurn
    fun _ board evs hevs _ hno => ?_
  replace hs := hs.append board hevs hno
  refine told_onBus (emits_nothing (silent_readReg _)) not_burn_of_isPlain hs.noBurn
    fun probe board evs hevs _ hno => ?_
  replace hs := hs.append board hevs hno
  refine told_onBus (emits_note rfl) not_burn_of_isPlain hs.noBurn fun _ board evs hevs _ hno => ?_
  replace hs := hs.append board hevs hno
  by_cases hprobe : probe ≠ 0b0101
  · rw [if_pos hprobe]
    exact steps_fault _ hs.noBurn hs.identified
  rw [if_neg hprobe]
  refine told_onBus emits_readFuses not_burn_of_isPlain hs.noBurn fun fuse board evs hevs _ hno => ?_
  replace hs := hs.append board hevs hno
  by_cases hcompleted : fuse.Completed
  · rw [if_pos hcompleted]
    exact steps_fault _ hs.noBurn hs.identified
  rw [if_neg hcompleted]
  by_cases hfaulted : fuse.Faulted
  · rw [if_pos hfaulted]
    exact steps_fault _ hs.noBurn hs.identified
  rw [if_neg hfaulted]
  refine told_onBus emits_present not_burn_of_isPlain hs.noBurn fun bitmap board evs hevs _ hno => ?_
  replace hs := hs.append board hevs hno
  by_cases hbitmap : bitmap.toNat > 2 ^ MAX_LANES - 1
  · rw [if_pos hbitmap]
    exact steps_fault _ hs.noBurn hs.identified
  · rw [if_neg hbitmap]
    exact steps_goto ⟨hs.noBurn, hs.noGate, hs.noIdentify⟩

/-- Update the state and go on. -/
theorem steps_update {f : Machine B → Machine B} {k : Unit → Prog (Machine B) Empty Unit}
    (h : StepsTo cfg (k ()) (f s)) : StepsTo cfg (Prog.update f >>= k) s := by
  rintro t rfl
  exact h _ rfl

theorem steps_enumerate (hs : Untouched s) : StepsTo cfg (stepEnumerate dev) s := by
  refine told_onBus emits_enumerate not_burn_of_isLook hs.noBurn fun targets board evs hevs hid hno => ?_
  refine steps_update ?_
  have hidentified : Identified (s.bus.log ++ evs) targets := by
    intro lane word hmem
    rcases List.mem_append.mp hmem with hmem | hmem
    · exact absurd hmem (hs.noIdentify lane _)
    · exact hid lane word hmem
  by_cases hany : targets.any Option.isSome = true
  · rw [if_pos hany]
    exact steps_goto ⟨hno, noGate_append hs.noGate (noGate_of_isLook hevs), hidentified⟩
  · rw [if_neg hany]
    exact steps_fault _ hno hidentified

theorem steps_arm (hs : Aimed s) (hstate : s.state = .awaitArm) : StepsTo cfg (stepArm dev) s := by
  refine told_onBus (emits_nothing (silent_readReg _)) not_burn_of_isPlain hs.noBurn
    fun word board evs hevs _ hno => ?_
  replace hs := hs.append board hevs hno
  refine told_onBus (emits_note rfl) not_burn_of_isPlain hs.noBurn fun _ board evs hevs _ hno => ?_
  replace hs := hs.append board hevs hno
  by_cases hword : word ≠ ARM_MAGIC
  · rw [if_pos hword]
    refine Prog.Triple.ret () ?_
    rintro t rfl
    show Phase cfg _ s.state
    rw [hstate]
    exact ⟨hs.noBurn, hs.noGate, hs.identified⟩
  · rw [if_neg hword]
    exact steps_goto ⟨hs.noBurn, hs.noGate, hs.identified⟩

theorem emits_gate (lanes : UInt32) :
    Emits (· = .gate lanes) (gate dev lanes) fun _ evs => evs = [.gate lanes] :=
  .silent_bind (silent_writeReg _ _) fun _ => Emits.note_only _

theorem steps_sanitize (hs : Aimed s) : StepsTo cfg (stepSanitize dev cfg) s := by
  refine told_onBus emits_present not_burn_of_isPlain hs.noBurn fun bitmap board evs hevs _ hno => ?_
  replace hs := hs.append board hevs hno
  refine told_onBus (emits_gate bitmap) (fun w hw => by cases hw) hs.noBurn
    fun _ board' evs' _ hgate hno => ?_
  subst hgate
  have herase := @emits_sanitizeLanes B dev cfg bitmap (List.range MAX_LANES) (by decide)
  refine told_onBus herase not_burn_of_isPlain hno fun refusal board'' mid hmid herased hno => ?_
  have hidentified : Identified (s.bus.log ++ evs ++ [.gate bitmap] ++ mid) s.targets :=
    identified_append (identified_append hs.identified (by
      intro lane a hmem
      cases List.mem_singleton.mp hmem)) (noIdentify_of_isPlain hmid)
  cases refusal with
  | some why => exact steps_fault why hno hidentified
  | none =>
    refine steps_goto ⟨[], hno, hidentified, s.bus.log ++ evs, bitmap, mid, ?_, hs.noGate, ?_, ?_⟩
    · show s.bus.log ++ evs ++ [.gate bitmap] ++ mid = _
      simp
    · rw [List.append_nil]
      exact noGate_of_isPlain hmid
    · intro lane hlane hbit
      exact herased rfl lane (List.mem_range.mpr hlane) hbit

theorem steps_get {k : Machine B → Prog (Machine B) Empty Unit} (h : StepsTo cfg (k s) s) :
    StepsTo cfg (Prog.get >>= k) s := by
  rintro t rfl
  exact h t rfl

/-- Passed verdicts over what was seen of the targets. -/
theorem readClean_of_passed {rs : List LaneAnswers}
    (hseen : Seen cfg.windows.toNat s.targets rs)
    (hpassed : ∀ r ∈ rs, (r.verdict cfg.pattern).Passed) (fin : List Event) :
    ReadClean cfg s (fin ++ rs.flatMap LaneAnswers.events) := by
  intro t ht addr haddr
  have hlane : t.lane ∈ rs.map LaneAnswers.lane := hseen.lanes ▸ List.mem_map_of_mem ht
  obtain ⟨r, hr, hlane⟩ := List.mem_map.mp hlane
  have hclean := LaneAnswers.clean_of_passed (hpassed r hr)
  obtain ⟨word, hword, hok⟩ := LaneAnswers.read_of_clean hclean (hseen.length r hr ▸ haddr)
  rw [hlane] at hword
  exact ⟨word, List.mem_append_right fin (List.mem_flatMap.mpr ⟨r, hr, hword⟩), hok⟩

theorem steps_verify {fin : List Event} (hs : Erased cfg s fin) :
    StepsTo cfg (stepVerify dev cfg) s := by
  refine steps_get (told_onBus (emits_verifyAll _ _ _) not_burn_of_isPlain hs.noBurn
    fun verdicts board evs hevs hread hno => ?_)
  obtain ⟨rs, hseen, rfl, hverdicts⟩ := hread
  replace hs := hs.append board hevs hno
  by_cases hnone : verdicts.all Option.isNone = true
  · rw [if_pos hnone]
    exact steps_fault _ hs.noBurn hs.identified
  rw [if_neg hnone]
  by_cases hresidue : ∃ v ∈ verdicts.reduceOption, ¬ v.Passed
  · rw [if_pos hresidue]
    exact steps_fault _ hs.noBurn hs.identified
  rw [if_neg hresidue]
  have hpassed : ∀ r ∈ rs, (r.verdict cfg.pattern).Passed := by
    intro r hr
    by_contra hnot
    refine hresidue ⟨r.verdict cfg.pattern, ?_, hnot⟩
    rw [hverdicts]
    exact List.mem_map_of_mem hr
  exact steps_goto ⟨_, ⟨hs.noBurn, hs.identified, hs.history⟩, readClean_of_passed hseen hpassed fin⟩

theorem steps_certify {fin : List Event} (hs : Erased cfg s (fin ++ [.state "CERTIFY"]))
    (hclean : ReadClean cfg s fin) : StepsTo cfg (stepCertify dev cfg) s := by
  refine steps_get (told_onBus (emits_verifyAll _ _ _) not_burn_of_isPlain hs.noBurn
    fun verdicts board evs hevs hread hno => steps_update ?_)
  obtain ⟨rs, hseen, rfl, hverdicts⟩ := hread
  replace hs := hs.append board hevs hno
  refine told_onBus (emits_note rfl) not_burn_of_isPlain hs.noBurn
    fun _ board evs' hevs' hnote hno => ?_
  replace hs := hs.append board hevs' hno
  subst hnote
  refine steps_goto ⟨_, ⟨hs.noBurn, hs.identified, hs.history⟩, ?_, rs, fin, ?_, hseen, ?_⟩
  · intro t ht addr haddr
    obtain ⟨word, hword, hok⟩ := hclean t ht addr haddr
    exact ⟨word, by simp [hword], hok⟩
  · simp
  · exact congrArg transcriptOf hverdicts

/-! ### The seal -/

/-- The targets' fuses are in the first word. -/
theorem hasBit_target {targets : List Target} {f : EfuseBank} {t : Target} (ht : t ∈ targets)
    (hlane : t.lane < MAX_LANES) :
    hasBit ((targets.foldl (fun f t => f.burnTarget t.lane) f).word &&& FUSE_MASK) t.lane = true := by
  have hkeep : ∀ (targets : List Target) (f : EfuseBank) (i : Nat), hasBit f.word i = true →
      hasBit (targets.foldl (fun f t => f.burnTarget t.lane) f).word i = true := by
    intro targets
    induction targets with
    | nil => exact fun f i h => h
    | cons t targets ih =>
      intro f i h
      refine ih _ i ?_
      rw [EfuseBank.hasBit_burnTarget, h, Bool.true_or]
  have hmask : ∀ lane < MAX_LANES, hasBit FUSE_MASK lane = true := by decide
  rw [hasBit_and, hmask _ hlane, Bool.and_true]
  induction targets generalizing f with
  | nil => cases ht
  | cons t' targets ih =>
    rcases List.mem_cons.mp ht with rfl | ht
    · have hmin : min t.lane 27 = t.lane := by
        unfold MAX_LANES at hlane
        omega
      rw [List.foldl_cons]
      refine hkeep _ _ _ ?_
      rw [EfuseBank.hasBit_burnTarget, hmin, decide_eq_true rfl, Bool.or_true]
    · exact ih ht

/-- However it ends, the step burns no more than two words, the first of them with the targets. -/
theorem stepSeal_log (s : Machine B) : ∃ w₁ v w₂ v',
    (stepSeal dev s).2.bus.log <+:
      s.bus.log ++ [.fuses w₁, .burn v, .fuses w₂, .burn v', .latch]
    ∧ (∀ t ∈ s.targets.reduceOption, t.lane < MAX_LANES → hasBit v t.lane = true)
    ∧ (stepSeal dev s).2.targets = s.targets ∧ (stepSeal dev s).2.transcript = s.transcript
    ∧ ((stepSeal dev s).1 = .ok () → (stepSeal dev s).2.state = .halted) := by
  refine ⟨(dev.read32 EFUSE s.bus.board).1 &&& FUSE_MASK, (s.targets.reduceOption.foldl
    (fun (f : EfuseBank) t => f.burnTarget t.lane)
    (EfuseBank.mk ((dev.read32 EFUSE s.bus.board).1 &&& FUSE_MASK))).word &&& FUSE_MASK, ?_⟩
  simp only [stepSeal, Prog.get, Prog.bind_run, Prog.andThen, onBus, note, Prog.update,
    readFuses, readReg, burnFuses, writeReg, latch, goto, Prog.pure_run]
  cases dev.write32 EFUSE _ _ with
  | none =>
    refine ⟨0, 0, ?_, fun t ht hlane => hasBit_target ht hlane, rfl, rfl, fun h => by cases h⟩
    exact List.prefix_append_right_inj _ |>.mpr ⟨_, rfl⟩
  | some b =>
    dsimp only
    refine ⟨(dev.read32 EFUSE b).1 &&& FUSE_MASK,
      (EfuseBank.mk ((dev.read32 EFUSE b).1 &&& FUSE_MASK)).burnVerified.burnComplete.word
        &&& FUSE_MASK, ?_⟩
    cases dev.write32 EFUSE _ _ with
    | none =>
      refine ⟨?_, fun t ht hlane => hasBit_target ht hlane, rfl, rfl, fun h => by cases h⟩
      rw [List.append_assoc, List.append_assoc]
      exact List.prefix_append_right_inj _ |>.mpr ⟨_, rfl⟩
    | some b =>
      dsimp only
      cases dev.write32 LANE_LATCH _ _ with
      | none =>
        refine ⟨⟨[.latch], ?_⟩, fun t ht hlane => hasBit_target ht hlane, rfl, rfl,
          fun h => by cases h⟩
        simp
      | some b =>
        exact ⟨⟨[], by simp⟩, fun t ht hlane => hasBit_target ht hlane, rfl, rfl, fun _ => rfl⟩

/-- What is shown of a gated lane when the seal burns a word. -/
theorem proven_of_sealed {fin d : List Event} {v w : UInt32}
    (hs : Erased cfg s (fin ++ [.state "SEAL"])) (hclean : ReadClean cfg s fin)
    (hdigest : Digested cfg s fin) (hmeets : Meets cfg s.targets (s.bus.log ++ d)) (hd : NoGate d)
    (hv : .burn v ∈ d ++ [.burn w]) (hfuse : ∀ t ∈ s.targets.reduceOption, t.lane < MAX_LANES →
      hasBit v t.lane = true)
    {p : UInt32} (hp : .gate p ∈ s.bus.log ++ d) {lane : Nat} (hlane : lane < 32)
    (hbit : hasBit p lane = true) :
    ∃ pre post, s.bus.log ++ d = pre ++ .gate p :: post ∧ Proven cfg s.transcript lane post w := by
  obtain ⟨pre, p₀, mid, hlog, hpre, hfin, herased⟩ := hs.history
  -- there is one gate in the log
  have hgate : p = p₀ := by
    rw [hlog, List.append_assoc, List.mem_append, List.cons_append, List.mem_cons, List.mem_append] at hp
    rcases hp with hp | hp | hp | hp
    · exact absurd hp (hpre p)
    · cases hp
      rfl
    · exact absurd hp (hfin p)
    · exact absurd hp (hd p)
  subst hgate
  obtain ⟨hlt, t, ht, rfl⟩ := hmeets.targeted p hp lane hlane hbit
  refine ⟨pre, mid ++ (fin ++ [.state "SEAL"]) ++ d, ?_, ?_, ?_, ?_⟩
  · rw [hlog, List.append_assoc, List.cons_append]
  · refine ⟨mid, fin ++ [.state "SEAL"] ++ d, List.append_assoc _ _ _, herased _ hlt hbit, ?_⟩
    intro addr haddr
    obtain ⟨word, hword, hok⟩ := hclean t ht addr haddr
    exact ⟨word, by simp [hword], hok⟩
  · obtain ⟨rs, front, rfl, hseen, htranscript⟩ := hdigest
    refine ⟨rs, mid ++ front, .state "SEAL" :: d, by simp, ?_, htranscript, ?_⟩
    · intro r hr
      refine ⟨hseen.length r hr, fun a ha => ?_⟩
      obtain ⟨addr, haddr⟩ := LaneAnswers.exists_mem_events ha
      refine hmeets.certified (pre ++ .gate p :: (mid ++ front)) (rs.flatMap LaneAnswers.events
        ++ .transcript s.transcript.toUInt32 :: .state "SEAL" :: d) ?_ r.lane addr a ?_
      · rw [hlog]
        simp
      · exact List.mem_append_left _ (List.mem_flatMap.mpr ⟨r, hr, haddr⟩)
    · have hmem : t.lane ∈ rs.map LaneAnswers.lane := hseen.lanes ▸ List.mem_map_of_mem ht
      exact List.mem_map.mp hmem
  · refine ⟨v, ?_, hfuse t ht hlt⟩
    rw [List.append_assoc]
    exact List.mem_append_right _ hv

theorem steps_seal {fin : List Event} (hs : Erased cfg s (fin ++ [.state "SEAL"]))
    (hclean : ReadClean cfg s fin) (hdigest : Digested cfg s fin) : StepsTo cfg (stepSeal dev) s := by
  rintro t rfl
  obtain ⟨w₁, v, w₂, v', hpre, hfuse, htargets, htranscript, hstate⟩ := @stepSeal_log B dev t
  have htold : Told cfg (stepSeal dev t).2 := by
    refine ⟨?_, Or.inr fun lane word hmem => ?_⟩
    · rw [htargets, htranscript]
      refine HonestGiven.of_prefix ?_ hpre
      intro done x hdone hcomplete hmeets p hp lane hlane hbit
      obtain ⟨d, rfl, hd⟩ := prefix_of_notMem (hs.noBurn x) hdone
      -- the first burn or the second
      have hcase : (d = [.fuses w₁] ∧ x = v) ∨ d = [.fuses w₁, .burn v, .fuses w₂] := by
        rcases d with _ | ⟨e₁, _ | ⟨e₂, _ | ⟨e₃, _ | ⟨e₄, _ | ⟨e₅, d⟩⟩⟩⟩⟩ <;> simp_all
      have hburn : .burn v ∈ d ++ [.burn x] := by
        rcases hcase with ⟨rfl, rfl⟩ | rfl <;> simp
      have hgate : NoGate d := by
        rcases hcase with ⟨rfl, -⟩ | rfl <;> simp [NoGate]
      exact proven_of_sealed hs hclean hdigest hmeets hgate hburn hfuse hp hlane hbit
    · rw [htargets]
      refine hs.identified lane word ?_
      rcases List.mem_append.mp (hpre.subset hmem) with hmem | hmem
      · exact hmem
      · simp at hmem
  refine ⟨fun a s' hrun => ?_, fun _ => htold⟩
  rw [hrun] at hstate htold
  rw [InPhase, hstate rfl]
  exact htold

/-! ## Runs -/

/-- Nothing was burnt before the machine stops. -/
theorem InPhase.noBurn (hs : InPhase cfg s) (hterminal : s.state.isTerminal = false) :
    NoBurn s.bus.log := by
  obtain ⟨bus, state, targets, transcript⟩ := s
  cases state with
  | selfTest => exact Untouched.noBurn hs
  | enumerate => exact Untouched.noBurn hs
  | awaitArm => exact Aimed.noBurn hs
  | sanitize => exact Aimed.noBurn hs
  | verify =>
    obtain ⟨fin, herased⟩ := hs
    exact herased.noBurn
  | certify =>
    obtain ⟨fin, herased, -⟩ := hs
    exact herased.noBurn
  | «seal» =>
    obtain ⟨fin, herased, -⟩ := hs
    exact herased.noBurn
  | fault => cases hterminal
  | halted => cases hterminal

/-- **One step**: it ends in a phase, or unwinds with what is said of the machine. -/
theorem step_inPhase (hs : InPhase cfg s) (hterminal : s.state.isTerminal = false) :
    StepsTo cfg (step dev cfg) s := by
  refine steps_get (told_onBus (emits_note rfl) not_burn_of_isPlain (hs.noBurn hterminal)
    fun _ board evs hevs hnote hno => ?_)
  subst hnote
  obtain ⟨bus, state, targets, transcript⟩ := s
  cases state with
  | selfTest => exact steps_selftest (Untouched.append board hs hevs hno)
  | enumerate => exact steps_enumerate (Untouched.append board hs hevs hno)
  | awaitArm => exact steps_arm (Aimed.append board hs hevs hno) rfl
  | sanitize => exact steps_sanitize (Aimed.append board hs hevs hno)
  | verify =>
    obtain ⟨fin, herased⟩ := hs
    exact steps_verify (herased.append board hevs hno)
  | certify =>
    obtain ⟨fin, herased, hclean⟩ := hs
    exact steps_certify (herased.append board hevs hno) hclean
  | «seal» =>
    obtain ⟨fin, herased, hclean, hdigest⟩ := hs
    exact steps_seal (herased.append board hevs hno) hclean hdigest
  | fault => cases hterminal
  | halted => cases hterminal

theorem told_of_inPhase (hs : InPhase cfg s) : Told cfg s := by
  by_cases hterminal : s.state.isTerminal = true
  · obtain ⟨bus, state, targets, transcript⟩ := s
    cases state with
    | fault => exact hs
    | halted => exact hs
    | _ => cases hterminal
  · exact told_of_noBurn (hs.noBurn (Bool.eq_false_of_not_eq_true hterminal))

/-- **A whole run.** -/
theorem told_run (budget : Nat) (hs : InPhase cfg s) : Told cfg (run dev cfg budget s).2 := by
  induction budget generalizing s with
  | zero => exact told_of_inPhase hs
  | succ budget ih =>
    unfold run
    show Told cfg ((if s.state.isTerminal = true then pure s.state
      else (step dev cfg).andThen fun _ => run dev cfg budget) s).2
    by_cases hterminal : s.state.isTerminal = true
    · rw [if_pos hterminal]
      exact told_of_inPhase hs
    · rw [if_neg hterminal]
      have hsteps : StepsTo cfg (step dev cfg) s :=
        step_inPhase hs (Bool.eq_false_of_not_eq_true hterminal)
      obtain ⟨hok, hunwinds⟩ := hsteps s rfl
      unfold Prog.andThen
      cases hrun : step dev cfg s with
      | mk outcome s' =>
        rw [hrun] at hunwinds
        cases outcome with
        | ok u => exact ih (hok u s' hrun)
        | err e => cases e
        | panic => exact hunwinds nofun
        | blocked => exact hunwinds nofun

theorem inPhase_new (board : B) (cfg : RunConfig) : InPhase cfg (new ⟨board, []⟩) where
  noBurn _ := List.not_mem_nil
  noGate _ := List.not_mem_nil
  noIdentify _ _ := List.not_mem_nil

/-- **The completion fuse does not lie about a lane**, in every run whose board answers so. -/
theorem run_honest {B : Type} (dev : Mmio B) (board : B) (cfg : RunConfig) (budget : Nat)
    (h : Faithful cfg (run dev cfg budget (new ⟨board, []⟩)).2) :
    Honest cfg (run dev cfg budget (new ⟨board, []⟩)).2 :=
  run_honest_of_told (told_run budget (inPhase_new board cfg)) h

end Machine

/-! ### A lane that is not awake yet -/

/-- Two lanes that read back as zero: the lane and the command that were selected, and the fuses. -/
structure TwoLanes where
  sel : UInt32
  cmd : UInt32
  fuse : UInt32

/-- Every command is OK, but IDENTIFY only on the lanes that are awake. -/
def twoLanesMmio (awake : UInt32 → Bool) : Mmio TwoLanes where
  read32 off b :=
    (if off = LANE_PRESENT then 3
    else if off = PROBE then 0b0101
    else if off = ARM then ARM_MAGIC
    else if off = EFUSE then b.fuse
    else if off = LANE_STAT then
      if b.cmd = CMD_IDENTIFY ∧ awake b.sel = false then STAT_TARGET_ERR else STAT_OK
    else 0, b)
  write32 off v b :=
    some (if off = LANE_SELECT then { b with sel := v }
      else if off = LANE_CMD then { b with cmd := v }
      else if off = EFUSE then { b with fuse := b.fuse ||| v }
      else b)

/-- A run over one window of each lane. -/
def twoLanesRun (awake : UInt32 → Bool) : Machine TwoLanes :=
  (Machine.run (twoLanesMmio awake) ⟨1, none⟩ 10 (.new ⟨⟨0, 0, 0⟩, []⟩)).2

/-- A clean readback, no fault, and both lanes gated. -/
def Event.isSound : Event → Bool
  | .read _ _ a => a == some 0
  | .fault _ => false
  | .gate p => p == 3
  | _ => true

theorem twoLanesRun_faithful : Faithful ⟨1, none⟩ (twoLanesRun fun _ => true) := by
  have hsound : ∀ e ∈ (twoLanesRun fun _ => true).bus.log, e.isSound = true := by decide +kernel
  have hlanes : ∀ lane < 32, hasBit 3 lane = true → lane < MAX_LANES
      ∧ .identify lane (some 0) ∈ (twoLanesRun fun _ => true).bus.log := by decide +kernel
  refine fun _ => ⟨?_, ?_, ?_⟩
  · intro p hp lane hlane hbit
    have hthree : p = 3 := by simpa [Event.isSound] using hsound _ hp
    subst hthree
    exact ⟨(hlanes lane hlane hbit).1, 0, (hlanes lane hlane hbit).2⟩
  · intro front fin hlog lane addr a ha
    have hmem : .read lane addr a ∈ (twoLanesRun fun _ => true).bus.log := by
      rw [hlog]
      exact List.mem_append_right front (List.mem_cons_of_mem _ ha)
    have hzero : a = some 0 := by simpa [Event.isSound] using hsound _ hmem
    exact ⟨0, hzero, Or.inl rfl⟩
  · intro why w hsegment
    have hmem : .fault why ∈ (twoLanesRun fun _ => true).bus.log :=
      hsegment.subset List.mem_cons_self
    cases hsound _ hmem

/-- Both lanes are awake, and the run burns COMPLETE. -/
theorem twoLanesRun_honest : (∃ w, .burn w ∈ (twoLanesRun fun _ => true).bus.log
    ∧ hasBit w FUSE_COMPLETE = true) ∧ Honest ⟨1, none⟩ (twoLanesRun fun _ => true) :=
  ⟨⟨0x60000003, by decide +kernel, by decide⟩,
    Machine.run_honest (twoLanesMmio fun _ => true) ⟨0, 0, 0⟩ ⟨1, none⟩ 10 twoLanesRun_faithful⟩

/-- No word with the fuse of lane 1 is burnt. -/
def Event.leavesLaneOne : Event → Bool
  | .burn v => ! hasBit v 1
  | _ => true

/-- Lane 1 does not answer IDENTIFY: it is gated and erased, COMPLETE is burnt, and its fuse is
not. -/
theorem sleepingLane_not_honest : ¬ Honest ⟨1, none⟩ (twoLanesRun (· == 0)) := by
  intro hhonest
  have hdone : (twoLanesRun (· == 0)).bus.log.take 26 ++ [.burn 0x60000001]
      <+: (twoLanesRun (· == 0)).bus.log := by decide +kernel
  have hgate : .gate 3 ∈ (twoLanesRun (· == 0)).bus.log.take 26 := by decide +kernel
  have hburns : ∀ e ∈ (twoLanesRun (· == 0)).bus.log.take 26 ++ [.burn 0x60000001],
      e.leavesLaneOne = true := by decide +kernel
  obtain ⟨pre, post, hlog, hproven⟩ := hhonest _ _ hdone (by decide) 3 hgate 1 (by decide) (by decide)
  obtain ⟨v, hv, hbit⟩ := hproven.fuse
  have hmem : .burn v ∈ (twoLanesRun (· == 0)).bus.log.take 26 ++ [.burn 0x60000001] := by
    rw [hlog]
    simp only [List.append_assoc, List.cons_append]
    exact List.mem_append_right pre (List.mem_cons_of_mem _ hv)
  have hclear : (! hasBit v 1) = true := hburns _ hmem
  rw [hbit] at hclear
  cases hclear

end Fpga

end DiscCleaner
