import DiscCleaner.Lib.Dialogue
import Mathlib.Data.List.Basic

/-!
# Ladders of fallback mechanisms

A ladder tries mechanisms in order: one that the device rejects is passed over for the next, one
that it takes is polled for its end, and anything else stops the ladder with an error. A ladder
goes by its own evidence when its verdict follows from the commands it issued and what it read
back, and from nothing else.
-/

namespace LadderLib

open DialogueLib

/-- How a command ended. A rejection says that the device does not perform it; a failure is
everything else, a fault of the transport included. -/
inductive Ending where
  | done
  | rejected
  | failed
  deriving DecidableEq

/-- What a ladder decides on, of its exchanges with a device. -/
inductive Event (M : Type) where
  | purge (m : M) (ending : Ending)
  | arm (ending : Ending)
  | status (ending : Ending) (finished failed : Bool)
  deriving DecidableEq

namespace Event

variable {M : Type}

/-- The mechanism whose command was issued. -/
def issued : Event M → Option M
  | purge m _ => some m
  | arm _ => none
  | status _ _ _ => none

/-- An event after which nothing more may be tried: a command that failed, or a failure that was
read back. -/
def Stops : Event M → Prop
  | purge _ ending => ending = .failed
  | arm ending => ending ≠ .done
  | status ending _ failed => ending ≠ .done ∨ failed = true

theorem issued_of_mem {events : List (Event M)} {m : M} {ending : Ending}
    (h : purge m ending ∈ events) : m ∈ events.filterMap issued :=
  List.mem_filterMap.mpr ⟨_, h, rfl⟩

end Event

/-- An element that the first part does not hold splits the second. -/
theorem split_right {α : Type} {front events before after : List α} {e : α}
    (h : front ++ events = before ++ e :: after) (he : e ∉ front) :
    ∃ before', events = before' ++ e :: after := by
  rcases List.append_eq_append_iff.mp h with ⟨middle, -, heq⟩ | ⟨middle, rfl, heq⟩
  · exact ⟨middle, heq⟩
  · cases middle with
    | nil => exact ⟨[], heq.symm⟩
    | cons e' middle =>
      rw [List.cons_append, List.cons.injEq] at heq
      exact absurd (heq.1 ▸ List.mem_append_right before List.mem_cons_self) he

/-! ## The contract -/

section contract

variable {M : Type} [DecidableEq M] (sanitizes declined : M → Prop)

/-- What a ladder over `order` owes: `result` is the mechanism it certifies with the mechanisms it
names as passed over, and nothing for an error. -/
structure OwnEvidence (order : List M) (events : List (Event M))
    (result : Option (M × List M)) : Prop where
  ordered : (events.filterMap Event.issued).Sublist order
  fallbacks : ∀ m passed, result = some (m, passed) →
    passed = order.takeWhile (· ≠ m)
      ∧ (∀ m' ∈ passed, Event.purge m' .rejected ∈ events ∨ declined m')
      ∧ ∀ m', Event.purge m' .rejected ∈ events → m' ∈ passed
  stops : ∀ before e after, events = before ++ e :: after → e.Stops → after = [] ∧ result = none
  evidence : ∀ m passed, result = some (m, passed) →
    ∃ before after, events = before ++ Event.purge m .done :: after
      ∧ (sanitizes m → Event.status .done true false ∈ after)

variable {sanitizes declined}

/-- A run that ends in an error, with nothing that stops it before its last event. -/
theorem ownEvidence_error {order : List M} {events : List (Event M)}
    (hordered : (events.filterMap Event.issued).Sublist order)
    (h : ∀ e ∈ events.dropLast, ¬ e.Stops) : OwnEvidence sanitizes declined order events none where
  ordered := hordered
  fallbacks := nofun
  stops := by
    rintro before e after rfl hstops
    cases after with
    | nil => exact ⟨rfl, rfl⟩
    | cons e' after =>
      rw [List.dropLast_append_cons] at h
      exact absurd hstops (h e (List.mem_append_right before List.mem_cons_self))
  evidence := nofun

/-- A mechanism that needs no read-back is certified by its command alone. -/
theorem ownEvidence_done {m : M} {order : List M} {front : List (Event M)} (hm : ¬ sanitizes m)
    (hfront : ∀ e ∈ front, e = Event.arm .done) :
    OwnEvidence sanitizes declined (m :: order) (front ++ [Event.purge m .done]) (some (m, [])) where
  ordered := by
    have hnone : front.filterMap Event.issued = [] :=
      List.filterMap_eq_nil_iff.mpr fun e he => by rw [hfront e he]; rfl
    rw [List.filterMap_append, hnone]
    exact List.singleton_sublist.mpr List.mem_cons_self
  fallbacks := by
    rintro m' passed ⟨⟩
    refine ⟨by simp, nofun, fun m' hm' => ?_⟩
    rcases List.mem_append.mp hm' with hm' | hm'
    · cases hfront _ hm'
    · cases List.mem_singleton.mp hm'
  stops := by
    intro before e after hsplit hstops
    have he : e ∈ front ++ [Event.purge m .done] := hsplit ▸ List.mem_append_right before List.mem_cons_self
    rcases List.mem_append.mp he with he | he
    · rw [hfront e he] at hstops
      exact absurd rfl hstops
    · rw [List.mem_singleton.mp he] at hstops
      cases hstops
  evidence := by
    rintro m' passed ⟨⟩
    exact ⟨front, [], rfl, fun h => absurd h hm⟩

/-- A run that goes on after something that stops it. -/
theorem not_ownEvidence {order : List M} {before after : List (Event M)} {e : Event M}
    {result : Option (M × List M)} (hstops : e.Stops) (hgoes : after ≠ [] ∨ result ≠ none) :
    ¬ OwnEvidence sanitizes declined order (before ++ e :: after) result := by
  intro h
  obtain ⟨hafter, hnone⟩ := h.stops before e after rfl hstops
  rcases hgoes with hgoes | hgoes
  · exact hgoes hafter
  · exact hgoes hnone

/-- **Step rule**: a mechanism passed over, because the device rejects it or does not offer it,
leaves the verdict to the rest of the ladder. -/
theorem ownEvidence_passed {m : M} {order : List M} {front events : List (Event M)}
    {result : Option (M × List M)} (hnew : m ∉ order)
    (hfront : front = [Event.purge m .rejected] ∨ front = [] ∧ declined m)
    (hordered : (events.filterMap Event.issued).Sublist order)
    (hresult : ∀ m' passed, result = some (m', passed) → m' ∈ order) :
    OwnEvidence sanitizes declined (m :: order) (front ++ events)
        (result.map fun r => (r.1, m :: r.2))
      ↔ OwnEvidence sanitizes declined order events result := by
  have hfresh : ∀ ending, Event.purge m ending ∉ events := fun ending hmem =>
    hnew (hordered.subset (Event.issued_of_mem hmem))
  have hfrontMem : ∀ e ∈ front, e = Event.purge m .rejected := by
    rcases hfront with rfl | ⟨rfl, -⟩
    · exact fun e he => List.mem_singleton.mp he
    · nofun
  have hne : ∀ m' passed, result = some (m', passed) → m ≠ m' := by
    rintro m' passed hsome rfl
    exact hnew (hresult m passed hsome)
  constructor
  · intro h
    refine ⟨hordered, fun m' passed hsome => ?_, fun before e after hsplit hstops => ?_,
      fun m' passed hsome => ?_⟩
    · obtain ⟨hpassed, hreason, hall⟩ := h.fallbacks m' (m :: passed) (by rw [hsome]; rfl)
      rw [List.takeWhile_cons_of_pos (by simpa using hne m' passed hsome), List.cons.injEq] at hpassed
      refine ⟨hpassed.2, fun m'' hm'' => ?_, fun m'' hm'' => ?_⟩
      · rcases hreason m'' (List.mem_cons_of_mem m hm'') with hrejected | hdeclined
        · rcases List.mem_append.mp hrejected with hrejected | hrejected
          · have heq := hfrontMem _ hrejected
            rw [Event.purge.injEq] at heq
            have hin : m'' ∈ order := (hpassed.2 ▸ List.takeWhile_sublist _).subset hm''
            exact absurd (heq.1 ▸ hin) hnew
          · exact Or.inl hrejected
        · exact Or.inr hdeclined
      · rcases List.mem_cons.mp (hall m'' (List.mem_append_right front hm'')) with rfl | hm
        · exact absurd hm'' (hfresh _)
        · exact hm
    · obtain ⟨hafter, hnone⟩ := h.stops (front ++ before) e after
        (by rw [hsplit, List.append_assoc]) hstops
      exact ⟨hafter, Option.map_eq_none_iff.mp hnone⟩
    · obtain ⟨before, after, hsplit, hfinished⟩ := h.evidence m' (m :: passed) (by rw [hsome]; rfl)
      obtain ⟨before', hsplit'⟩ := split_right hsplit fun hmem => by
        have heq := hfrontMem _ hmem
        rw [Event.purge.injEq] at heq
        cases heq.2
      exact ⟨before', after, hsplit', hfinished⟩
  · intro h
    refine ⟨?_, fun m' passed hsome => ?_, fun before e after hsplit hstops => ?_,
      fun m' passed hsome => ?_⟩
    · rcases hfront with rfl | ⟨rfl, -⟩
      · exact hordered.cons_cons m
      · exact hordered.cons m
    · obtain ⟨r, hr, heq⟩ := Option.map_eq_some_iff.mp hsome
      obtain ⟨rfl, rfl⟩ := Prod.mk.inj heq
      obtain ⟨hpassed, hreason, hall⟩ := h.fallbacks r.1 r.2 hr
      rw [List.takeWhile_cons_of_pos (by simpa using hne r.1 r.2 hr), ← hpassed]
      refine ⟨rfl, fun m'' hm'' => ?_, fun m'' hm'' => ?_⟩
      · rcases List.mem_cons.mp hm'' with rfl | hm''
        · rcases hfront with rfl | ⟨rfl, hdeclined⟩
          · exact Or.inl List.mem_cons_self
          · exact Or.inr hdeclined
        · exact (hreason m'' hm'').imp_left (List.mem_append_right front)
      · rcases List.mem_append.mp hm'' with hm'' | hm''
        · have heq := hfrontMem _ hm''
          rw [Event.purge.injEq] at heq
          exact heq.1 ▸ List.mem_cons_self
        · exact List.mem_cons_of_mem m (hall m'' hm'')
    · obtain ⟨before', hsplit'⟩ := split_right hsplit fun hmem => by
        rw [hfrontMem e hmem] at hstops
        cases hstops
      obtain ⟨hafter, hnone⟩ := h.stops before' e after hsplit' hstops
      exact ⟨hafter, by rw [hnone]; rfl⟩
    · obtain ⟨r, hr, heq⟩ := Option.map_eq_some_iff.mp hsome
      obtain ⟨rfl, rfl⟩ := Prod.mk.inj heq
      obtain ⟨before, after, hsplit, hfinished⟩ := h.evidence r.1 r.2 hr
      exact ⟨front ++ before, after, by rw [hsplit, List.append_assoc], hfinished⟩

end contract

/-! ## Polling for the end -/

/-- A poll for the end of an operation: a read of its status, what its pages say, and the result
for each way to end. -/
structure Poll (Q R ε S β : Type) where
  read : Dialogue Q R (Except ε S)
  failed : S → Bool
  finished : S → Bool
  onError : ε → β
  onFailed : S → β
  onFinished : S → β
  onExhausted : S → β

namespace Poll

variable {Q R ε S β : Type} (p : Poll Q R ε S β)

/-- One read: an error, a failure or the end settles it, and `again` goes on from anything else. -/
def once (again : S → Dialogue Q R β) : Dialogue Q R β :=
  p.read.andThen fun
    | .error e => .done (p.onError e)
    | .ok s =>
      if p.failed s then .done (p.onFailed s)
      else if p.finished s then .done (p.onFinished s)
      else again s

/-- The poll loop, with so many reads left after the next. -/
def loop : Nat → Dialogue Q R β
  | 0 => p.once fun s => .done (p.onExhausted s)
  | n + 1 => p.once fun _ => loop n

/-- The results a poll may have. -/
theorem loop_result {n : Nat} {es : List (Exchange Q R)} {result : β}
    (h : (p.loop n).Ends es result) :
    (∃ e, result = p.onError e) ∨ (∃ s, result = p.onFailed s) ∨ (∃ s, result = p.onFinished s)
      ∨ ∃ s, result = p.onExhausted s := by
  have honce : ∀ {again : S → Dialogue Q R β} {es : List (Exchange Q R)},
      (p.once again).Ends es result → (∃ e, result = p.onError e) ∨ (∃ s, result = p.onFailed s)
        ∨ (∃ s, result = p.onFinished s) ∨ ∃ s es', (again s).Ends es' result := by
    intro again es h
    obtain ⟨es₁, status, es₂, rfl, -, hrest⟩ := Dialogue.ends_andThen.mp h
    cases status with
    | error e => exact Or.inl ⟨e, (Dialogue.ends_done.mp hrest).2⟩
    | ok s =>
      dsimp only at hrest
      split at hrest
      · exact Or.inr (Or.inl ⟨s, (Dialogue.ends_done.mp hrest).2⟩)
      · split at hrest
        · exact Or.inr (Or.inr (Or.inl ⟨s, (Dialogue.ends_done.mp hrest).2⟩))
        · exact Or.inr (Or.inr (Or.inr ⟨s, es₂, hrest⟩))
  induction n generalizing es with
  | zero =>
    rcases honce h with herror | hfailed | hfinished | ⟨s, es', hagain⟩
    · exact Or.inl herror
    · exact Or.inr (Or.inl hfailed)
    · exact Or.inr (Or.inr (Or.inl hfinished))
    · exact Or.inr (Or.inr (Or.inr ⟨s, (Dialogue.ends_done.mp hagain).2⟩))
  | succ n ih =>
    rcases honce h with herror | hfailed | hfinished | ⟨s, es', hagain⟩
    · exact Or.inl herror
    · exact Or.inr (Or.inl hfailed)
    · exact Or.inr (Or.inr (Or.inl hfinished))
    · exact ih hagain

end Poll

/-- What a status page shows. -/
structure Showing where
  finished : Bool
  failed : Bool
  deriving DecidableEq

/-- One read of the status: a fault, or a page that came with a clean ending or an error status,
and what it decodes to. -/
inductive Read where
  | fault
  | answered (clean : Bool) (page : Option Showing)
  deriving DecidableEq

def Read.event {M : Type} : Read → Event M
  | .fault => .status .failed false false
  | .answered clean page =>
    .status (if clean then .done else .failed) (page.any Showing.finished) (page.any Showing.failed)

/-- A poll loop that goes by the page alone, with so many reads left after this one; it ends with
its verdict. -/
inductive Polled : Nat → List Read → Bool → Prop
  | fault (n : Nat) : Polled n [.fault] false
  | undecodable (n : Nat) (clean : Bool) : Polled n [.answered clean none] false
  | failed (n : Nat) (clean finished : Bool) :
      Polled n [.answered clean (some ⟨finished, true⟩)] false
  | finished (n : Nat) (clean : Bool) : Polled n [.answered clean (some ⟨true, false⟩)] true
  | exhausted (clean : Bool) : Polled 0 [.answered clean (some ⟨false, false⟩)] false
  | again {n : Nat} {reads : List Read} {verdict : Bool} (clean : Bool)
      (h : Polled n reads verdict) :
      Polled (n + 1) (.answered clean (some ⟨false, false⟩) :: reads) verdict

/-- A poll that asks `q` for a page at each read, where `view` is what a reply shows. -/
structure Poll.Reads {Q R ε S β : Type} (p : Poll Q R ε S β) (q : Q) (view : R → Read)
    (ok : β → Bool) : Prop where
  read : ∀ es status, p.read.Ends es status → ∃ r, es = [⟨q, r⟩]
    ∧ ((∃ e, status = .error e ∧ view r = .fault) ∨
      (∃ e clean, status = .error e ∧ view r = .answered clean none) ∨
      ∃ s clean, status = .ok s ∧ view r = .answered clean (some ⟨p.finished s, p.failed s⟩))
  onError : ∀ e, ok (p.onError e) = false
  onFailed : ∀ s, ok (p.onFailed s) = false
  onFinished : ∀ s, ok (p.onFinished s) = true
  onExhausted : ∀ s, ok (p.onExhausted s) = false

namespace Poll.Reads

variable {Q R ε S β : Type} {p : Poll Q R ε S β} {q : Q} {view : R → Read} {ok : β → Bool}

/-- One read settles the poll, or shows neither an end nor a failure. -/
theorem once_inv (hp : p.Reads q view ok) {again : S → Dialogue Q R β} {es : List (Exchange Q R)}
    {result : β} (h : (p.once again).Ends es result) :
    ∃ r es', es = ⟨q, r⟩ :: es'
      ∧ ((es' = [] ∧ ∀ n, Polled n [view r] (ok result)) ∨
        ∃ s clean, view r = .answered clean (some ⟨false, false⟩) ∧ (again s).Ends es' result) := by
  obtain ⟨es₁, status, es₂, rfl, hread, hrest⟩ := Dialogue.ends_andThen.mp h
  obtain ⟨r, rfl, hcases⟩ := hp.read es₁ status hread
  refine ⟨r, es₂, rfl, ?_⟩
  rcases hcases with ⟨e, rfl, hfault⟩ | ⟨e, clean, rfl, hpage⟩ | ⟨s, clean, rfl, hpage⟩
  · obtain ⟨rfl, rfl⟩ := Dialogue.ends_done.mp hrest
    rw [hfault, hp.onError]
    exact Or.inl ⟨rfl, fun n => .fault n⟩
  · obtain ⟨rfl, rfl⟩ := Dialogue.ends_done.mp hrest
    rw [hpage, hp.onError]
    exact Or.inl ⟨rfl, fun n => .undecodable n clean⟩
  · rw [hpage]
    dsimp only at hrest
    cases hfailed : p.failed s with
    | true =>
      rw [if_pos hfailed] at hrest
      obtain ⟨rfl, rfl⟩ := Dialogue.ends_done.mp hrest
      rw [hp.onFailed]
      exact Or.inl ⟨rfl, fun n => .failed n clean _⟩
    | false =>
      rw [if_neg (by rw [hfailed]; decide)] at hrest
      cases hfinished : p.finished s with
      | true =>
        rw [if_pos hfinished] at hrest
        obtain ⟨rfl, rfl⟩ := Dialogue.ends_done.mp hrest
        rw [hp.onFinished]
        exact Or.inl ⟨rfl, fun n => .finished n clean⟩
      | false =>
        rw [if_neg (by rw [hfinished]; decide)] at hrest
        exact Or.inr ⟨s, clean, rfl, hrest⟩

/-- **The loop polls**, and goes by the pages alone. -/
theorem loop_polled (hp : p.Reads q view ok) {n : Nat} {es : List (Exchange Q R)} {result : β}
    (h : (p.loop n).Ends es result) :
    (∀ e ∈ es, e.request = q) ∧ Polled n (es.map fun e => view e.reply) (ok result) := by
  induction n generalizing es with
  | zero =>
    obtain ⟨r, es', rfl, ⟨rfl, hpolled⟩ | ⟨s, clean, hpage, hrest⟩⟩ := hp.once_inv h
    · exact ⟨fun e he => List.mem_singleton.mp he ▸ rfl, hpolled 0⟩
    · obtain ⟨rfl, rfl⟩ := Dialogue.ends_done.mp hrest
      refine ⟨fun e he => List.mem_singleton.mp he ▸ rfl, ?_⟩
      rw [List.map_singleton, hpage, hp.onExhausted]
      exact .exhausted clean
  | succ n ih =>
    obtain ⟨r, es', rfl, ⟨rfl, hpolled⟩ | ⟨s, clean, hpage, hrest⟩⟩ := hp.once_inv h
    · exact ⟨fun e he => List.mem_singleton.mp he ▸ rfl, hpolled (n + 1)⟩
    · obtain ⟨hlog, hpolled⟩ := ih hrest
      refine ⟨List.forall_mem_cons.mpr ⟨rfl, hlog⟩, ?_⟩
      rw [List.map_cons, hpage]
      exact .again clean hpolled

end Poll.Reads

/-- Every page that came with an error status ends the poll in an error anyway: it does not
decode, shows a failure, or shows no end at the last read of the budget. -/
def ReadsSettle (budget : Nat) (reads : List Read) : Prop :=
  ∀ before page after, reads = before ++ .answered false page :: after →
    page = none ∨ page.any Showing.failed = true
      ∨ before.length = budget ∧ page.any Showing.finished = false

theorem readsSettle_nil (budget : Nat) : ReadsSettle budget [] := by
  intro before page after hsplit
  cases before <;> cases hsplit

theorem Polled.ne_nil {n : Nat} {reads : List Read} {verdict : Bool} (h : Polled n reads verdict) :
    reads ≠ [] := by
  cases h <;> exact List.cons_ne_nil _ _

/-- What the contract asks of a poll. -/
structure PollsOwnEvidence (reads : List Read) (verdict : Bool) : Prop where
  stops : ∀ before read after, reads = before ++ read :: after →
    (Read.event (M := Unit) read).Stops → after = [] ∧ verdict = false
  evidence : verdict = true → Read.answered true (some ⟨true, false⟩) ∈ reads

/-- A poll of one read. -/
theorem pollsOwnEvidence_singleton {read : Read} {verdict : Bool} :
    PollsOwnEvidence [read] verdict
      ↔ ((Read.event (M := Unit) read).Stops → verdict = false)
        ∧ (verdict = true → read = .answered true (some ⟨true, false⟩)) := by
  constructor
  · intro h
    exact ⟨fun hstops => (h.stops [] read [] rfl hstops).2,
      fun hok => (List.mem_singleton.mp (h.evidence hok)).symm⟩
  · rintro ⟨hstops, hevidence⟩
    refine ⟨fun before read' after hsplit hstops' => ?_, fun hok => ?_⟩
    · obtain ⟨rfl, rfl, rfl⟩ : before = [] ∧ read' = read ∧ after = [] := by
        cases before with
        | nil => simpa [eq_comm] using hsplit
        | cons r before => simp at hsplit
      exact ⟨rfl, hstops hstops'⟩
    · rw [hevidence hok]
      exact List.mem_singleton_self _

theorem readsSettle_singleton {budget : Nat} {read : Read} :
    ReadsSettle budget [read]
      ↔ ∀ page, read = .answered false page →
        page = none ∨ page.any Showing.failed = true
          ∨ 0 = budget ∧ page.any Showing.finished = false := by
  constructor
  · rintro h page rfl
    exact h [] page [] rfl
  · intro h before page after hsplit
    cases before with
    | nil => exact h page (List.cons.inj hsplit).1
    | cons r before => simp at hsplit

/-- A clean page that shows neither an end nor a failure asks for another read and no more. -/
theorem pollsOwnEvidence_again {reads : List Read} {verdict : Bool} :
    PollsOwnEvidence (.answered true (some ⟨false, false⟩) :: reads) verdict
      ↔ PollsOwnEvidence reads verdict := by
  constructor
  · intro h
    refine ⟨fun before read after hsplit hstops => ?_, fun hok => ?_⟩
    · exact h.stops (.answered true (some ⟨false, false⟩) :: before) read after
        (by rw [hsplit, List.cons_append]) hstops
    · exact (List.mem_cons.mp (h.evidence hok)).resolve_left (by decide)
  · intro h
    refine ⟨fun before read after hsplit hstops => ?_, fun hok => List.mem_cons_of_mem _ (h.evidence hok)⟩
    cases before with
    | nil =>
      rw [← (List.cons.inj hsplit).1] at hstops
      simp [Read.event, Event.Stops] at hstops
    | cons r before => exact h.stops before read after (List.cons.inj hsplit).2 hstops

theorem readsSettle_again {n : Nat} {reads : List Read} :
    ReadsSettle (n + 1) (.answered true (some ⟨false, false⟩) :: reads) ↔ ReadsSettle n reads := by
  constructor
  · intro h before page after hsplit
    have hsettles := h (.answered true (some ⟨false, false⟩) :: before) page after
      (by rw [hsplit, List.cons_append])
    rwa [List.length_cons, Nat.add_right_cancel_iff] at hsettles
  · intro h before page after hsplit
    cases before with
    | nil => exact absurd (List.cons.inj hsplit).1 (by simp)
    | cons r before =>
      rw [List.length_cons, Nat.add_right_cancel_iff]
      exact h before page after (List.cons.inj hsplit).2

/-- **A poll goes by its own evidence exactly when its reads settle.** -/
theorem pollsOwnEvidence_iff {n : Nat} {reads : List Read} {verdict : Bool}
    (h : Polled n reads verdict) : PollsOwnEvidence reads verdict ↔ ReadsSettle n reads := by
  induction h with
  | fault n =>
    rw [pollsOwnEvidence_singleton, readsSettle_singleton]
    simp
  | undecodable n clean =>
    rw [pollsOwnEvidence_singleton, readsSettle_singleton]
    cases clean <;> simp
  | failed n clean finished =>
    rw [pollsOwnEvidence_singleton, readsSettle_singleton]
    cases clean <;> simp
  | finished n clean =>
    rw [pollsOwnEvidence_singleton, readsSettle_singleton]
    cases clean <;> simp [Read.event, Event.Stops]
  | exhausted clean =>
    rw [pollsOwnEvidence_singleton, readsSettle_singleton]
    cases clean <;> simp
  | @again n reads verdict clean h ih =>
    cases clean with
    | true => rw [pollsOwnEvidence_again, readsSettle_again, ih]
    | false =>
      -- The read failed, and the poll reads on.
      refine iff_of_false (fun hown => ?_) fun hsettles => ?_
      · exact h.ne_nil (hown.stops [] _ reads rfl (by simp [Read.event, Event.Stops])).1
      · have hsettled := hsettles [] _ reads rfl
        simp at hsettled

section polledRung

variable {M : Type}

theorem Read.event_stops (read : Read) :
    (Read.event (M := M) read).Stops ↔ (Read.event (M := Unit) read).Stops := by
  cases read <;> exact Iff.rfl

theorem Read.event_not_purge (read : Read) (m : M) (ending : Ending) :
    Read.event read ≠ Event.purge m ending := by
  cases read <;> exact nofun

theorem Read.eq_of_event {read : Read} (h : Read.event (M := M) read = .status .done true false) :
    read = .answered true (some ⟨true, false⟩) := by
  cases read with
  | fault => cases h
  | answered clean page =>
    cases clean with
    | false => simp [Read.event] at h
    | true =>
      cases page with
      | none => simp [Read.event] at h
      | some showing =>
        cases showing
        simp_all [Read.event]

theorem filterMap_issued_reads (reads : List Read) :
    (reads.map (Read.event (M := M))).filterMap Event.issued = [] := by
  refine List.filterMap_eq_nil_iff.mpr fun e he => ?_
  obtain ⟨read, -, rfl⟩ := List.mem_map.mp he
  cases read <;> rfl

variable [DecidableEq M] {sanitizes declined : M → Prop} {m : M} {order : List M}
  {reads : List Read} {verdict : Bool}

theorem pollsOwnEvidence_of_own (hm : sanitizes m)
    (h : OwnEvidence sanitizes declined (m :: order) (Event.purge m .done :: reads.map Read.event)
      (if verdict then some (m, []) else none)) : PollsOwnEvidence reads verdict := by
  refine ⟨fun before read after hsplit hstops => ?_, fun hok => ?_⟩
  · obtain ⟨hafter, hnone⟩ := h.stops (Event.purge m .done :: before.map Read.event)
      (Read.event read) (after.map Read.event)
      (by rw [hsplit, List.map_append, List.map_cons, List.cons_append]) (read.event_stops.mpr hstops)
    refine ⟨List.map_eq_nil_iff.mp hafter, ?_⟩
    cases verdict with
    | false => rfl
    | true => cases hnone
  · obtain ⟨before, after, hsplit, hfinished⟩ := h.evidence m [] (if_pos hok)
    have hmem : Event.status .done true false ∈ Event.purge m .done :: reads.map Read.event :=
      hsplit ▸ List.mem_append_right before (List.mem_cons_of_mem _ (hfinished hm))
    obtain ⟨read, hread, hevent⟩ := List.mem_map.mp ((List.mem_cons.mp hmem).resolve_left nofun)
    exact Read.eq_of_event hevent ▸ hread

theorem ownEvidence_of_polls (h : PollsOwnEvidence reads verdict) :
    OwnEvidence sanitizes declined (m :: order) (Event.purge m .done :: reads.map Read.event)
      (if verdict then some (m, []) else none) where
  ordered := by
    show (m :: (reads.map Read.event).filterMap Event.issued).Sublist _
    rw [filterMap_issued_reads]
    exact List.singleton_sublist.mpr List.mem_cons_self
  fallbacks := by
    intro m' passed hsome
    cases verdict with
    | false => cases hsome
    | true =>
      cases hsome
      refine ⟨by simp, nofun, fun m' hm' => ?_⟩
      obtain ⟨read, -, hevent⟩ := List.mem_map.mp ((List.mem_cons.mp hm').resolve_left (by simp))
      exact absurd hevent (read.event_not_purge m' .rejected)
  stops := by
    intro before e after hsplit hstops
    cases before with
    | nil =>
      rw [← (List.cons.inj hsplit).1] at hstops
      cases hstops
    | cons p before =>
      obtain ⟨front, back, rfl, rfl, hback⟩ := List.map_eq_append_iff.mp (List.cons.inj hsplit).2
      obtain ⟨read, rest, rfl, rfl, rfl⟩ := List.map_eq_cons_iff.mp hback
      obtain ⟨rfl, rfl⟩ := h.stops front read rest rfl (read.event_stops.mp hstops)
      exact ⟨rfl, rfl⟩
  evidence := by
    intro m' passed hsome
    cases verdict with
    | false => cases hsome
    | true =>
      cases hsome
      exact ⟨[], reads.map Read.event, rfl, fun _ =>
        List.mem_map.mpr ⟨_, h.evidence rfl, rfl⟩⟩

/-- **Poll rule**: a mechanism whose command was taken answers for its verdict as its poll does. -/
theorem ownEvidence_polled {n : Nat} (hm : sanitizes m) (h : Polled n reads verdict) :
    OwnEvidence sanitizes declined (m :: order) (Event.purge m .done :: reads.map Read.event)
        (if verdict then some (m, []) else none) ↔ ReadsSettle n reads := by
  rw [← pollsOwnEvidence_iff h]
  exact ⟨pollsOwnEvidence_of_own hm, ownEvidence_of_polls⟩

end polledRung

end LadderLib
