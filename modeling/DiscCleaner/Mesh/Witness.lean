import DiscCleaner.Mesh.Amid
import DiscCleaner.Mesh.Signing

/-!
# DiscCleaner — who checked a drive that is ready (`mesh.rs`)

A transcript that arrives in a frame is kept without a look at its proof, and a proof takes the
challenge it names out of the pending ones before the code asks who sent it. The two claims of
`is_ready` hold in the runs in which nobody makes use of that: what arrives as passed is
accepted against the report on record, and a proof comes from the node that was challenged.
-/

namespace DiscCleaner.Mesh

open ByteLib ProgLib TransitionLib

variable {p : Nat} {G : Type} [AddCommGroup G] [Module (ZMod p) G]

/-! ## What the property says -/

namespace MeshNode

/-- A member of the frozen membership. -/
def isMember (n : MeshNode p) (node : String) : Bool :=
  n.discovery.frozen.any fun m => m.nodes.contains node

/-- The node sent this challenge. -/
def sentChallenge (n : MeshNode p) (ch : SpotChallenge) : Bool :=
  n.sent.any fun x => x.msg = .challenge ch

variable (env : MeshEnv p G)

/-- `SpotTranscript::verify` accepts the proof of the transcript against the report. -/
def accepts (t : SpotTranscript) (r : DriveReport) : Bool :=
  (SpotTranscript.verify env.toCrypto env.ks t.witness r.node t.challenge t.proof r).any
    SpotTranscript.passed

variable (issued : String → SpotChallenge → Bool)

/-- The witness issued the challenge: the node itself as it sent it, another node as `issued`
has it. -/
def issuedBy (n : MeshNode p) (witness : String) (ch : SpotChallenge) : Bool :=
  if witness = n.name then n.sentChallenge ch else issued witness ch

/-- A transcript by which a drive is rightly certified. -/
structure Checked (n : MeshNode p) (r : DriveReport) (t : SpotTranscript) : Prop where
  passed : t.passed = true
  serial : t.challenge.serial = r.serial
  member : n.isMember t.witness = true
  other : t.witness ≠ r.node
  issued : n.issuedBy issued t.witness t.challenge = true
  accepted : accepts env t r = true

/-- Of a node that is ready every live report has such a transcript. -/
def ReadyChecked (n : MeshNode p) : Prop :=
  n.isReady = true → ∀ r ∈ n.gossip.reports, n.rogue.isIsolated r.node = false →
    ∃ t ∈ n.transcripts, Checked env issued n r t

/-- Why a challenge is no longer pending: a proof of the challenged node, the accusation of its
deadline, or the challenged node is isolated. -/
inductive Removed (n n' : MeshNode p) (q : String × SpotChallenge) : Event → Prop
  | answered {f : MeshFrame} {proof : SpotProof} (hmsg : f.msg = .spotProof proof)
      (hnonce : proof.nonce = q.1) (hfrm : f.frm = n.targetOf q.2) : Removed n n' q (.receive f)
  | late (hlate : q.2.deadlineTick < n.tick)
      (haccused : n'.rogue.duplicate n.name
        (RogueLedger.digestOf env.toCrypto (deadlineEvidence q.2)) = true) : Removed n n' q .act
  | excluded {e : Event} (hisolated : n'.rogue.isIsolated (n.targetOf q.2) = true) :
      Removed n n' q e

/-- **The witness property** of a run. -/
structure WitnessChecked (start : MeshNode p) (es : List Event) : Prop where
  ready : ∀ before, before <+: es → ReadyChecked env issued (run (next env) start before)
  removals : ∀ before e after, es = before ++ e :: after →
    ∀ q ∈ (run (next env) start before).pending,
      q ∉ (run (next env) start (before ++ [e])).pending →
        Removed env (run (next env) start before) (run (next env) start (before ++ [e])) q e

/-- The condition of a step. A frame that the inbox drops is as good as none; a transcript that
passes is accepted against the report on record, by a member that issued its challenge; a proof
that names a pending challenge is the challenged node's. -/
def careful (n : MeshNode p) : Event → Bool
  | .receive f =>
    n.rogue.isIsolated f.frm || f.frm = n.name ||
      match f.msg with
      | .transcript t =>
        !t.passed || (n.isMember t.witness && n.issuedBy issued t.witness t.challenge
          && (n.gossip.get t.challenge.serial).any (accepts env t))
      | .spotProof proof =>
        n.pending.all fun q => q.1 ≠ proof.nonce ∨ f.frm = n.targetOf q.2
      | _ => true
  | _ => true

/-! ## Nonces -/

variable {env issued} {n₀ n : MeshNode p} {e : Event}

/-- Two texts cut at their last dash are equal in both parts. -/
theorem eq_of_last_dash {a a' c c' : List Char} (hc : '-' ∉ c) (hc' : '-' ∉ c')
    (h : a ++ '-' :: c = a' ++ '-' :: c') : a = a' ∧ c = c' := by
  rcases List.append_eq_append_iff.mp h with ⟨l, ha, hl⟩ | ⟨l, ha, hl⟩
  · cases l with
    | nil => exact ⟨by simpa using ha.symm, (List.cons.inj hl).2⟩
    | cons x l =>
      have hmem : c = l ++ '-' :: c' := (List.cons.inj hl).2
      exact absurd (hmem ▸ List.mem_append_right l List.mem_cons_self) hc
  · cases l with
    | nil => exact ⟨by simpa using ha, (List.cons.inj hl).2.symm⟩
    | cons x l =>
      have hmem : c' = l ++ '-' :: c := (List.cons.inj hl).2
      exact absurd (hmem ▸ List.mem_append_right l List.mem_cons_self) hc'

theorem dash_not_mem_repr (i : Nat) : '-' ∉ i.repr.toList := by
  rw [Nat.toList_repr]
  intro h
  exact absurd (Nat.isDigit_of_mem_toDigits (by decide) (by decide) h) (by decide)

theorem repr_inj {i i' : Nat} (h : i.repr.toList = i'.repr.toList) : i = i' := by
  rw [Nat.toList_repr, Nat.toList_repr] at h
  rw [← @Nat.ofDigitChars_ten_toDigits i, h, Nat.ofDigitChars_ten_toDigits]

/-- A nonce names its serial and its place among the challenges on it. -/
theorem nonceOf_inj {name serial serial' : String} {i i' : Nat}
    (h : nonceOf name serial i = nonceOf name serial' i') : serial = serial' ∧ i = i' := by
  have hchars := congrArg String.toList h
  simp only [nonceOf, String.toList_append, Nat.toString_eq_repr] at hchars
  have hcut := @eq_of_last_dash (name.toList ++ '-' :: serial.toList)
    (name.toList ++ '-' :: serial'.toList) i.repr.toList i'.repr.toList
    (dash_not_mem_repr i) (dash_not_mem_repr i') (by simpa using hchars)
  refine ⟨String.toList_inj.mp ?_, repr_inj hcut.2⟩
  simpa using hcut.1

/-! ## What an event keeps -/

/-- Nothing on record is lost. -/
structure Grown (n n' : MeshNode p) : Prop where
  name : n'.name = n.name
  me : n'.discovery.me = n.discovery.me
  frozen : ∀ m, n.discovery.frozen = some m → n'.discovery.frozen = some m
  sent : n.sent ⊆ n'.sent
  sound : n'.gossip.Sound
  found : ∀ serial r, n.gossip.get serial = some r → n'.gossip.get serial = some r
  challenged : ∀ serial, n.challenged serial ≤ n'.challenged serial
  rogue : n.rogue.Grows n'.rogue

theorem Grown.refl (hsound : n.gossip.Sound) : Grown n n :=
  ⟨rfl, rfl, fun _ => id, List.Subset.refl _, hsound, fun _ _ => id, fun _ => le_rfl, .refl _⟩

theorem le_update_succ {f : String → Nat} {serial : String} {i : Nat} (hi : f serial = i)
    (s : String) : f s ≤ Function.update f serial (i + 1) s := by
  by_cases hs : s = serial
  · subst hs
    rw [Function.update_self]
    omega
  · rw [Function.update_of_ne hs]

theorem Amid.grown (hsound : n₀.gossip.Sound) (h : Amid env n₀ e n) : Grown n₀ n := by
  induction h with
  | start => exact .refl hsound
  | quiet _ hsame ih =>
    exact
      { name := hsame.name.trans ih.name
        me := hsame.discovery ▸ ih.me
        frozen := hsame.discovery ▸ ih.frozen
        sent := List.Subset.trans ih.sent hsame.sent
        sound := hsame.gossip ▸ ih.sound
        found := hsame.gossip ▸ ih.found
        challenged := hsame.challenged ▸ ih.challenged
        rogue := hsame.rogue ▸ ih.rogue }
  | discovered _ hgrows ih =>
    exact { ih with
      me := hgrows.me.trans ih.me
      frozen := fun m hm => hgrows.keep m (ih.frozen m hm) }
  | accused _ _ _ _ _ ih => exact { ih with rogue := ih.rogue.trans (RogueLedger.grows_accuse ..) }
  | filed _ _ _ _ ih => exact { ih with rogue := ih.rogue.trans (RogueLedger.grows_accuse ..) }
  | isolated _ _ _ ih =>
    exact { ih with rogue := ih.rogue.trans (RogueLedger.grows_tryIsolate ..) }
  | expired _ _ _ _ _ _ ih =>
    exact { ih with rogue := ih.rogue.trans (RogueLedger.grows_accuse ..) }
  | reported _ _ _ _ ih =>
    exact { ih with
      sound := ih.sound.ingest _
      found := fun serial r hget => ih.sound.get_ingest _ (ih.found serial r hget) }
  | reportedOwn _ _ _ _ ih =>
    exact { ih with
      sound := ih.sound.ingest _
      found := fun serial r hget => ih.sound.get_ingest _ (ih.found serial r hget) }
  | issued _ _ _ _ _ hi _ _ _ ih =>
    exact { ih with challenged := fun s => (ih.challenged s).trans (le_update_succ hi s) }
  | _ => rename_i ih; exact { ih with }

theorem Grown.trans {n' n'' : MeshNode p} (h : Grown n n') (h' : Grown n' n'') : Grown n n'' where
  name := h'.name.trans h.name
  me := h'.me.trans h.me
  frozen m hm := h'.frozen m (h.frozen m hm)
  sent := List.Subset.trans h.sent h'.sent
  sound := h'.sound
  found serial r hr := h'.found serial r (h.found serial r hr)
  challenged serial := (h.challenged serial).trans (h'.challenged serial)
  rogue := h.rogue.trans h'.rogue

theorem grown_run (env : MeshEnv p G) (hsound : n.gossip.Sound) (es : List Event) :
    Grown n (run (next env) n es) :=
  run_invariant (fun _ e h => h.trans ((next_amid e).grown h.sound)) (.refl hsound) es

/-- Rounds of the node's loop, each over the frames that came in, however it ends. -/
def rounds (env : MeshEnv p G) (n : MeshNode p) (inboxes : List (List (Except MeshError MeshFrame))) :
    MeshNode p :=
  run (fun n inbox => (step env inbox n).2) n inboxes

theorem grown_rounds (env : MeshEnv p G) (hsound : n.gossip.Sound)
    (inboxes : List (List (Except MeshError MeshFrame))) : Grown n (rounds env n inboxes) := by
  refine run_invariant (I := Grown n) (fun n' inbox h => ?_) (.refl hsound) inboxes
  obtain ⟨es, -, hrun⟩ := step_run env inbox n'
  rw [hrun]
  exact h.trans (grown_run env h.sound es)

/-- **Nothing on record is lost**, whatever comes in and however the rounds end: between any two
moments of a node's life its identity, the frozen membership, the frames it sent, the reports, the
counts of challenges and the ledger are kept. -/
theorem rounds_lose_nothing (env : MeshEnv p G) (name : String) (ml : MlDsa44KeyPair) (mac : Mac)
    (frostPublic : ThresholdPublicKey) (frostShare : Option (ShareSecret p)) (cfg : MeshNodeConfig)
    (before after : List (List (Except MeshError MeshFrame))) :
    Grown (rounds env (new name ml mac frostPublic frostShare cfg) before)
      (rounds env (new name ml mac frostPublic frostShare cfg) (before ++ after)) := by
  rw [rounds, rounds, run_append]
  exact grown_rounds env (grown_rounds env GossipStore.sound_new before).sound after

/-! ## What is pending -/

/-- A pending challenge is one the node sent, on a report of another node. -/
structure Waiting (n : MeshNode p) (q : String × SpotChallenge) : Prop where
  key : q.2.nonce = q.1
  numbered : ∃ i < n.challenged q.2.serial, q.1 = nonceOf n.name q.2.serial i
  sent : n.sentChallenge q.2 = true
  report : ∃ r, n.gossip.get q.2.serial = some r ∧ r.node ≠ n.name ∧ r.node ≠ ""

/-- The pending challenges, one for each nonce. -/
structure Waits (n : MeshNode p) : Prop where
  each : ∀ q ∈ n.pending, Waiting n q
  once : (n.pending.map Prod.fst).Nodup

theorem sentChallenge_mono {n n' : MeshNode p} (h : n.sent ⊆ n'.sent) {ch : SpotChallenge}
    (hsent : n.sentChallenge ch = true) : n'.sentChallenge ch = true := by
  obtain ⟨x, hx, hmsg⟩ := List.any_eq_true.mp hsent
  exact List.any_eq_true.mpr ⟨x, h hx, hmsg⟩

theorem Waiting.grown {n' : MeshNode p} {q : String × SpotChallenge} (h : Waiting n q)
    (hgrown : Grown n n') : Waiting n' q := by
  obtain ⟨i, hi, hnonce⟩ := h.numbered
  obtain ⟨r, hget, hother⟩ := h.report
  refine ⟨h.key, ⟨i, ?_, ?_⟩, sentChallenge_mono hgrown.sent h.sent, ⟨r, ?_, ?_⟩⟩
  · have hle := hgrown.challenged q.2.serial
    omega
  · rw [hgrown.name]
    exact hnonce
  · exact hgrown.found _ _ hget
  · rw [hgrown.name]
    exact hother

theorem frm_ne_empty (f : MeshFrame) : f.frm ≠ "" := by
  intro h
  have hbytes : f.node.bytes = [] := hexEncode_injective (show hexEncode _ = hexEncode [] from h)
  have hlength := f.node.size
  rw [hbytes] at hlength
  exact absurd hlength (by decide)

/-- Challenges that are taken out leave the others as they are. -/
theorem Waits.filter (h : Waits n) (keep : String × SpotChallenge → Bool) :
    (∀ q ∈ n.pending.filter keep, Waiting n q) ∧ ((n.pending.filter keep).map Prod.fst).Nodup :=
  ⟨fun q hq => h.each q (List.mem_of_mem_filter hq),
    h.once.sublist (List.filter_sublist.map Prod.fst)⟩

/-- The challenges stay those the node sent, if the frame is not its own. -/
theorem Amid.waits (hsound : n₀.gossip.Sound) (hopen : ∀ f, e = .receive f → f.frm ≠ n₀.name)
    (hwaits : Waits n₀) (h : Amid env n₀ e n) : Waits n := by
  induction h with
  | start => exact hwaits
  | quiet hbefore hsame ih =>
    have hgrown : Grown _ _ := ((hbefore.quiet hsame).grown hsound)
    refine ⟨fun q hq => ?_, hsame.pending ▸ ih.once⟩
    rw [hsame.pending] at hq
    exact (ih.each q hq).grown
      { name := hsame.name
        me := by rw [hsame.discovery]
        frozen := fun m hm => hsame.discovery ▸ hm
        sent := hsame.sent
        sound := hgrown.sound
        found := fun _ _ hget => hsame.gossip ▸ hget
        challenged := fun _ => by rw [hsame.challenged]
        rogue := hsame.rogue ▸ .refl _ }
  | dropped _ _ ih =>
    obtain ⟨heach, honce⟩ := ih.filter _
    exact ⟨fun q hq => { heach q hq with }, honce⟩
  | taken _ _ _ ih =>
    obtain ⟨heach, honce⟩ := ih.filter _
    exact ⟨fun q hq => { heach q hq with }, honce⟩
  | expired _ _ _ _ _ _ ih =>
    obtain ⟨heach, honce⟩ := ih.filter _
    exact ⟨fun q hq => { heach q hq with }, honce⟩
  | lapsed _ _ _ _ ih =>
    obtain ⟨heach, honce⟩ := ih.filter _
    exact ⟨fun q hq => { heach q hq with }, honce⟩
  | reported hbefore _ _ _ ih =>
    have hgossip := (hbefore.grown hsound).sound
    refine ⟨fun q hq => (ih.each q hq).grown ?_, ih.once⟩
    exact { Grown.refl hgossip with
      sound := hgossip.ingest _
      found := fun _ _ hget => hgossip.get_ingest _ hget }
  | reportedOwn hbefore _ _ _ ih =>
    have hgossip := (hbefore.grown hsound).sound
    refine ⟨fun q hq => (ih.each q hq).grown ?_, ih.once⟩
    exact { Grown.refl hgossip with
      sound := hgossip.ingest _
      found := fun _ _ hget => hgossip.get_ingest _ hget }
  | @issued n hbefore f he report hmsg hnode hget i hi challenge hserial hnonce dst hsent ih =>
    have hgrown := hbefore.grown hsound
    have hstep : Grown n { n with
        pending := (challenge.nonce, challenge) :: n.pending.filter fun q => q.1 ≠ challenge.nonce
        challenged := Function.update n.challenged report.serial (i + 1) } :=
      { Grown.refl hgrown.sound with challenged := le_update_succ hi }
    obtain ⟨heach, honce⟩ := ih.filter fun q => q.1 ≠ challenge.nonce
    constructor
    · intro q hq
      rcases List.mem_cons.mp hq with rfl | hq
      · refine ⟨rfl, ⟨i, ?_, ?_⟩, ?_, ⟨report, ?_, ?_, ?_⟩⟩
        · show i < Function.update n.challenged report.serial (i + 1) challenge.serial
          rw [hserial, Function.update_self]
          omega
        · show challenge.nonce = nonceOf n.name challenge.serial i
          rw [hserial]
          exact hnonce
        · exact List.any_eq_true.mpr ⟨_, hsent, by simp⟩
        · show n.gossip.get challenge.serial = some report
          rw [hserial]
          exact hget
        · show report.node ≠ n.name
          rw [hnode, hgrown.name]
          exact hopen f he
        · rw [hnode]
          exact frm_ne_empty f
      · exact (heach q hq).grown hstep
    · show (challenge.nonce :: (n.pending.filter fun q => q.1 ≠ challenge.nonce).map Prod.fst).Nodup
      refine List.nodup_cons.mpr ⟨?_, honce⟩
      intro hmem
      obtain ⟨q, hq, hkey⟩ := List.mem_map.mp hmem
      have hne := (List.mem_filter.mp hq).2
      exact absurd hkey (by simpa using hne)
  | _ => rename_i ih; exact ⟨fun q hq => { ih.each q hq with }, ih.once⟩

/-! ## Where transcripts come from -/

variable (env n₀) in
/-- The ways a transcript is put on record. -/
inductive Origin : Event → SpotTranscript → Prop
  | received {f : MeshFrame} {t : SpotTranscript} (hmsg : f.msg = .transcript t) :
      Origin (.receive f) t
  | witnessed {f : MeshFrame} {proof : SpotProof} (hmsg : f.msg = .spotProof proof)
      {challenge : SpotChallenge} (hpending : (proof.nonce, challenge) ∈ n₀.pending)
      {report : DriveReport} (hget : n₀.gossip.get proof.serial = some report)
      (hnode : report.node = f.frm) {t : SpotTranscript}
      (hverify : SpotTranscript.verify env.toCrypto env.ks n₀.name f.frm challenge (some proof)
        report = some t)
      (hpassed : t.passed = true) : Origin (.receive f) t

theorem Amid.origin (h : Amid env n₀ e n) {t : SpotTranscript} (ht : t ∈ n.transcripts) :
    t ∈ n₀.transcripts ∨ Origin env n₀ e t := by
  induction h with
  | start => exact .inl ht
  | quiet _ hsame ih => exact ih (hsame.transcripts ▸ ht)
  | received _ he hmsg ih =>
    subst he
    rcases List.mem_append.mp ht with ht | ht
    · exact ih ht
    · rw [List.mem_singleton.mp ht]
      exact .inr (.received hmsg)
  | witnessed _ he hmsg hpending hget hnode hverify hpassed ih =>
    subst he
    rcases List.mem_append.mp ht with ht | ht
    · exact ih ht
    · rw [List.mem_singleton.mp ht]
      exact .inr (.witnessed hmsg hpending hget hnode hverify hpassed)
  | _ => rename_i ih; exact ih ht

/-- What a passed transcript on record says is so. -/
structure Vouched (env : MeshEnv p G) (issued : String → SpotChallenge → Bool) (n : MeshNode p)
    (t : SpotTranscript) : Prop where
  member : t.witness = n.name ∨ n.isMember t.witness = true
  issued : n.issuedBy issued t.witness t.challenge = true
  accepted : ∃ r, n.gossip.get t.challenge.serial = some r ∧ accepts env t r = true

theorem isMember_mono {n' : MeshNode p} (h : Grown n n') {node : String}
    (hnode : n.isMember node = true) : n'.isMember node = true := by
  unfold isMember at hnode ⊢
  cases hfrozen : n.discovery.frozen with
  | none => rw [hfrozen] at hnode; exact absurd hnode Bool.false_ne_true
  | some m =>
    rw [h.frozen m hfrozen, ← hfrozen]
    exact hnode

theorem issuedBy_mono {n' : MeshNode p} (h : Grown n n') {witness : String} {ch : SpotChallenge}
    (hissued : n.issuedBy issued witness ch = true) : n'.issuedBy issued witness ch = true := by
  unfold issuedBy at hissued ⊢
  rw [h.name]
  split
  · next hself =>
    rw [if_pos hself] at hissued
    exact sentChallenge_mono h.sent hissued
  · next hother =>
    rw [if_neg hother] at hissued
    exact hissued

theorem Vouched.grown {n' : MeshNode p} {t : SpotTranscript} (h : Vouched env issued n t)
    (hgrown : Grown n n') : Vouched env issued n' t where
  member := h.member.imp (fun hself => hself.trans hgrown.name.symm) (isMember_mono hgrown)
  issued := issuedBy_mono hgrown h.issued
  accepted := by
    obtain ⟨r, hget, haccepts⟩ := h.accepted
    exact ⟨r, hgrown.found _ r hget, haccepts⟩

/-! ## The invariant -/

/-- The node knows who it is, and the membership has it. -/
structure Enrolled (n : MeshNode p) : Prop where
  me : n.discovery.me.node = n.name
  member : ∀ m, n.discovery.frozen = some m → n.name ∈ m.nodes

theorem Amid.enrolled (henrolled : Enrolled n₀) (h : Amid env n₀ e n) : Enrolled n := by
  induction h with
  | start => exact henrolled
  | quiet _ hsame ih =>
    refine ⟨?_, fun m hm => ?_⟩
    · rw [hsame.discovery, hsame.name]
      exact ih.me
    · rw [hsame.name]
      exact ih.member m (hsame.discovery ▸ hm)
  | discovered _ hgrows ih =>
    refine ⟨(congrArg HelloBody.node hgrows.me).trans ih.me, fun m hm => ?_⟩
    rcases hgrows.new m hm with hkept | hnew
    · exact ih.member m hkept
    · exact ih.me ▸ hnew
  | _ => rename_i ih; exact { ih with }

/-- **The invariant** of the careful runs. -/
structure Watch (env : MeshEnv p G) (issued : String → SpotChallenge → Bool) (n : MeshNode p) :
    Prop where
  enrolled : Enrolled n
  sound : n.gossip.Sound
  vouched : ∀ t ∈ n.transcripts, t.passed = true → Vouched env issued n t
  waits : Waits n

/-- A frame that the inbox drops does nothing. -/
theorem next_dropped {f : MeshFrame} (h : n.rogue.isIsolated f.frm = true ∨ f.frm = n.name) :
    next env n (.receive f) = n := by
  show (receive env f n).2 = n
  show Prog.Leaves (receive env f) (· = n) n
  unfold receive
  refine .get_bind ?_
  rw [if_pos h]
  exact .ret rfl

/-- A proof of the node's own judgement is accepted against the report of its serial. -/
theorem Vouched.witnessed (hwaits : Waits n₀) {f : MeshFrame} {proof : SpotProof}
    {challenge : SpotChallenge} (hpending : (proof.nonce, challenge) ∈ n₀.pending)
    {report : DriveReport} (hget : n₀.gossip.get proof.serial = some report)
    (hnode : report.node = f.frm) {t : SpotTranscript}
    (hverify : SpotTranscript.verify env.toCrypto env.ks n₀.name f.frm challenge (some proof)
      report = some t)
    (hpassed : t.passed = true) : Vouched env issued n₀ t := by
  obtain ⟨hwitness, hchallenge, hproof, hserial⟩ := SpotTranscript.verify_fields hverify
  refine ⟨.inl hwitness, ?_, report, ?_, ?_⟩
  · unfold issuedBy
    rw [if_pos hwitness, hchallenge]
    exact (hwaits.each _ hpending).sent
  · rw [hchallenge, ← hserial hpassed]
    exact hget
  · unfold accepts
    rw [hwitness, hchallenge, hproof, hnode, hverify]
    exact hpassed

theorem watch_next (hwatch : Watch env issued n₀) (hcareful : careful env issued n₀ e = true) :
    Watch env issued (next env n₀ e) := by
  by_cases hdropped : ∃ f, e = .receive f ∧ (n₀.rogue.isIsolated f.frm = true ∨ f.frm = n₀.name)
  · obtain ⟨f, rfl, hwhy⟩ := hdropped
    rw [next_dropped hwhy]
    exact hwatch
  · push Not at hdropped
    have h : Amid env n₀ e (next env n₀ e) := next_amid e
    have hgrown := h.grown hwatch.sound
    refine ⟨h.enrolled hwatch.enrolled, hgrown.sound, fun t ht hpassed => ?_,
      h.waits hwatch.sound (fun f hf => (hdropped f hf).2) hwatch.waits⟩
    rcases h.origin ht with hkept | horigin
    · exact (hwatch.vouched t hkept hpassed).grown hgrown
    · refine Vouched.grown ?_ hgrown
      cases horigin with
      | @received f _ hmsg =>
        -- the frame is taken, so the condition is about its transcript
        obtain ⟨hlive, hother⟩ := hdropped f rfl
        have hvouches : t.passed = false
            ∨ (n₀.isMember t.witness = true ∧ n₀.issuedBy issued t.witness t.challenge = true)
              ∧ (n₀.gossip.get t.challenge.serial).any (accepts env t) = true := by
          simpa [careful, hlive, hother, hmsg] using hcareful
        rcases hvouches with hfailed | ⟨⟨hmember, hissued⟩, haccepted⟩
        · rw [hfailed] at hpassed
          exact absurd hpassed (by decide)
        · refine ⟨.inr hmember, hissued, ?_⟩
          cases hget : n₀.gossip.get t.challenge.serial with
          | none => rw [hget] at haccepted; exact absurd haccepted Bool.false_ne_true
          | some r => exact ⟨r, rfl, by rwa [hget] at haccepted⟩
      | witnessed hmsg hpending hget hnode hverify hpassed =>
        exact .witnessed hwatch.waits hpending hget hnode hverify hpassed

/-! ## What takes a challenge out -/

theorem Removed.mono {n' n'' : MeshNode p} {q : String × SpotChallenge}
    (h : Removed env n n' q e) (hrogue : n'.rogue.Grows n''.rogue) : Removed env n n'' q e := by
  cases h with
  | answered hmsg hnonce hfrm => exact .answered hmsg hnonce hfrm
  | late hlate haccused => exact .late hlate (hrogue.duplicate haccused)
  | excluded hisolated => exact .excluded (hrogue.isIsolated hisolated)

theorem targetOf_of_get {ch : SpotChallenge} {r : DriveReport}
    (h : n.gossip.get ch.serial = some r) : n.targetOf ch = r.node := by
  unfold targetOf
  rw [h]
  rfl

/-- The challenged node of a pending challenge, now as then. -/
theorem Waits.targetOf (h : Waits n₀) (hgrown : Grown n₀ n) {q : String × SpotChallenge}
    (hq : q ∈ n₀.pending) : n.targetOf q.2 = n₀.targetOf q.2 := by
  obtain ⟨r, hget, -⟩ := (h.each q hq).report
  rw [targetOf_of_get hget, targetOf_of_get (hgrown.found _ r hget)]

theorem Waits.eq_of_key (h : Waits n) {q q' : String × SpotChallenge} (hq : q ∈ n.pending)
    (hq' : q' ∈ n.pending) (hkey : q.1 = q'.1) : q = q' :=
  List.inj_on_of_nodup_map h.once hq hq' hkey

/-- What is gone after a filter was gone before it, or the filter does not keep it. -/
theorem gone_of_filter {α : Type} {l : List α} {keep : α → Bool} {a : α}
    (h : a ∉ l.filter keep) : a ∉ l ∨ keep a = false := by
  by_cases ha : a ∈ l
  · refine .inr (Bool.eq_false_iff.mpr fun hkeep => h ?_)
    exact List.mem_filter.mpr ⟨ha, hkeep⟩
  · exact .inl ha

/-- **A challenge that is gone** was answered, is past its deadline, or its node is isolated. -/
theorem Amid.removed (hsound : n₀.gossip.Sound) (hwaits : Waits n₀)
    (hproof : ∀ f proof, e = .receive f → f.msg = .spotProof proof →
      ∀ q ∈ n₀.pending, q.1 = proof.nonce → f.frm = n₀.targetOf q.2)
    (h : Amid env n₀ e n) {q : String × SpotChallenge} (hq : q ∈ n₀.pending)
    (hgone : q ∉ n.pending) : Removed env n₀ n q e := by
  induction h with
  | start => exact absurd hq hgone
  | quiet _ hsame ih => exact (ih (hsame.pending ▸ hgone)).mono (hsame.rogue ▸ .refl _)
  | accused _ _ _ _ _ ih => exact (ih hgone).mono (RogueLedger.grows_accuse ..)
  | filed _ _ _ _ ih => exact (ih hgone).mono (RogueLedger.grows_accuse ..)
  | isolated _ _ _ ih => exact (ih hgone).mono (RogueLedger.grows_tryIsolate ..)
  | @dropped n hbefore node hnode ih =>
    rcases gone_of_filter hgone with hearlier | hserial
    · exact (ih hearlier).mono (.refl _)
    · have hgrown := hbefore.grown hsound
      obtain ⟨r, hr, hreporter, hof⟩ : ∃ r ∈ n.gossip.reports, r.node = node
          ∧ r.serial = q.2.serial := by
        simpa using hserial
      have hget : n.gossip.get q.2.serial = some r := hof ▸ hgrown.sound.found r hr
      have htarget : n₀.targetOf q.2 = node := by
        rw [← hwaits.targetOf hgrown hq, targetOf_of_get hget, hreporter]
      exact .excluded (htarget ▸ hnode)
  | @issued n hbefore f he report hmsg hnode hget i hi challenge hserial hnonce dst hsent ih =>
    have hgone' : q ∉ n.pending.filter fun q => q.1 ≠ challenge.nonce :=
      fun hmem => hgone (List.mem_cons_of_mem _ hmem)
    rcases gone_of_filter hgone' with hearlier | hkey
    · exact (ih hearlier).mono (.refl _)
    · -- the number of the new challenge was never used before
      have hgrown := hbefore.grown hsound
      have hkey : q.1 = challenge.nonce := by simpa using hkey
      obtain ⟨j, hj, hold⟩ := (hwaits.each q hq).numbered
      have hle := hgrown.challenged q.2.serial
      rw [hold, hnonce, hgrown.name] at hkey
      obtain ⟨hsame, hindex⟩ := nonceOf_inj hkey
      rw [hsame] at hj hle
      omega
  | @taken _ _ f he proof hmsg ih =>
    rcases gone_of_filter hgone with hearlier | hkey
    · exact (ih hearlier).mono (.refl _)
    · have hkey : q.1 = proof.nonce := by simpa using hkey
      have hfrm := hproof _ _ he hmsg q hq hkey
      subst he
      exact .answered hmsg hkey.symm hfrm
  | @expired _ hbefore _ he nonce _ hpending hlate _ ih =>
    subst he
    rcases gone_of_filter hgone with hearlier | hkey
    · exact (ih hearlier).mono (RogueLedger.grows_accuse ..)
    · have hkey : q.1 = nonce := by simpa using hkey
      obtain ⟨late, hmem, hpast⟩ := hlate
      have hsame := hwaits.eq_of_key hq hmem hkey
      have hfound := hwaits.eq_of_key hq (hbefore.waiting.1 hpending) hkey
      have hchallenge := congrArg Prod.snd hfound
      refine .late ?_ ?_
      · rw [hsame]
        exact hpast
      · rw [hchallenge, ← hbefore.name]
        exact RogueLedger.duplicate_accuse ..
  | @lapsed _ hbefore he nonce challenge hpending hwhy ih =>
    subst he
    rcases gone_of_filter hgone with hearlier | hkey
    · exact (ih hearlier).mono (.refl _)
    · have hkey : q.1 = nonce := by simpa using hkey
      have hgrown := hbefore.grown hsound
      have hfound := hwaits.eq_of_key hq (hbefore.waiting.1 hpending) hkey
      have hchallenge : q.2 = challenge := congrArg Prod.snd hfound
      have htarget := hwaits.targetOf hgrown hq
      obtain ⟨r, hget, hother, hnamed⟩ := (hwaits.each q hq).report
      rw [← hchallenge, htarget] at hwhy
      rcases hwhy with hempty | hself | hisolated
      · exact absurd ((targetOf_of_get hget).symm.trans hempty) hnamed
      · exact absurd ((targetOf_of_get hget).symm.trans (hself.trans hgrown.name)) hother
      · exact .excluded hisolated
  | _ => rename_i ih; exact (ih hgone).mono (.refl _)

/-! ## The runs -/

theorem watch_new (name : String) (ml : MlDsa44KeyPair) (mac : Mac)
    (frostPublic : ThresholdPublicKey) (frostShare : Option (ShareSecret p))
    (cfg : MeshNodeConfig) :
    Watch env issued (new name ml mac frostPublic frostShare cfg) where
  enrolled := ⟨rfl, fun _ hm => absurd hm nofun⟩
  sound := GossipStore.sound_new
  vouched := fun _ ht => absurd ht List.not_mem_nil
  waits := ⟨fun _ hq => absurd hq List.not_mem_nil, List.nodup_nil⟩

/-- A drive that is ready has a transcript on record that vouches for it. -/
theorem Watch.ready (h : Watch env issued n) : ReadyChecked env issued n := by
  intro hready r hr hlive
  unfold isReady at hready
  cases hfrozen : n.discovery.membership with
  | none => rw [hfrozen] at hready; exact absurd hready Bool.false_ne_true
  | some m =>
    rw [hfrozen] at hready
    simp only [Bool.and_eq_true, List.all_eq_true] at hready
    have hcounted : r ∈ n.liveReports :=
      List.mem_filter.mpr ⟨GossipStore.mem_all.mpr hr, by rw [hlive]; rfl⟩
    obtain ⟨t, ht, hmatch⟩ := List.any_eq_true.mp (hready.1.2 r hcounted)
    obtain ⟨hpassed, hserial, hother⟩ : t.passed = true ∧ t.challenge.serial = r.serial
        ∧ t.witness ≠ r.node := by simpa using hmatch
    have hvouched := h.vouched t ht hpassed
    obtain ⟨r', hget, haccepts⟩ := hvouched.accepted
    have hsame : r' = r := by
      rw [hserial, h.sound.found r hr] at hget
      exact (Option.some.inj hget).symm
    refine ⟨t, ht, hpassed, hserial, ?_, hother, hvouched.issued, hsame ▸ haccepts⟩
    rcases hvouched.member with hself | hmember
    · unfold isMember
      have hin : n.name ∈ m.nodes := h.enrolled.member m hfrozen
      rw [show n.discovery.frozen = some m from hfrozen, hself]
      simpa using hin
    · exact hmember

/-- **No drive is ready without a check**, and no challenge goes unanswered, in a run in which
every transcript that passes is rightly so and every proof comes from the challenged node. -/
theorem witnessChecked_of_careful (env : MeshEnv p G) (issued : String → SpotChallenge → Bool)
    (name : String) (ml : MlDsa44KeyPair) (mac : Mac) (frostPublic : ThresholdPublicKey)
    (frostShare : Option (ShareSecret p)) (cfg : MeshNodeConfig) (es : List Event)
    (hcareful : Along (next env) (fun n e => careful env issued n e = true)
      (new name ml mac frostPublic frostShare cfg) es) :
    WitnessChecked env issued (new name ml mac frostPublic frostShare cfg) es := by
  let start := new name ml mac frostPublic frostShare cfg
  have hwatch : ∀ before, before <+: es → Watch env issued (run (next env) start before) := by
    rintro before ⟨after, rfl⟩
    refine (along_append.mp hcareful).1.invariant (fun _ _ => watch_next) ?_
    exact watch_new name ml mac frostPublic frostShare cfg
  refine ⟨fun before hbefore => (hwatch before hbefore).ready, ?_⟩
  rintro before e after rfl q hq hgone
  have hbefore := hwatch before (List.prefix_append ..)
  have hstep := along_iff_split.mp hcareful before e after rfl
  rw [run_concat] at hgone ⊢
  refine (next_amid e).removed hbefore.sound hbefore.waits ?_ hq hgone
  rintro f proof rfl hmsg q' hq' hkey
  by_cases hdropped : (run (next env) start before).rogue.isIsolated f.frm = true
      ∨ f.frm = (run (next env) start before).name
  · -- nothing is gone after a frame that was dropped
    rw [next_dropped hdropped] at hgone
    exact absurd hq hgone
  · push Not at hdropped
    have hanswers : ∀ q ∈ (run (next env) start before).pending,
        q.1 = proof.nonce → f.frm = (run (next env) start before).targetOf q.2 := by
      have hstep : careful env issued (run (next env) start before) (.receive f) = true := hstep
      simpa [careful, hdropped.1, hdropped.2, hmsg, ← imp_iff_not_or] using hstep
    exact hanswers q' hq' hkey

/-! ## A membership of four -/

/-- Primitives for fixed runs: nothing is refused, and the hash map lists as it was filled. -/
def fixedEnv : MeshEnv 65537 (ZMod 65537) where
  toCrypto := checksumCrypto
  grp := smallGroup
  mlDsaVerify _ _ _ := true
  ks := ⟨fun _ _ len => List.replicate len 0, fun _ _ _ => List.length_replicate⟩
  sendError _ := none
  nonces _ := (1, 1)
  pendingOrder := id
  pendingOrder_perm _ := .refl _
  debugText _ := ""

def repeated (k : UInt8) (len : Nat) : ByteLib.Block len :=
  ⟨List.replicate len k, List.length_replicate⟩

/-- The name of the member whose key repeats one byte. -/
def memberName (k : UInt8) : String := hexEncode (repeated k 32).bytes

/-- A frame that this member signed. -/
def frameOf (k : UInt8) (msg : Message) : Event := .receive ⟨repeated k 32, broadcastMac, 1, msg⟩

/-- A node of a membership of four, without a drive of its own. -/
def drivelessNode : MeshNode 65537 :=
  new (memberName 1) ⟨repeated 0 1312, fun _ => repeated 0 2420⟩ broadcastMac ⟨⟨3, 4⟩, "", [], []⟩
    none
    { behavior := .honest
      drives := []
      pattern := .zero
      threshold := none
      expectedNodes := some 4
      discoverySilenceTicks := 0
      viewTimeoutTicks := 10
      spotChallengesPerDrive := 1
      challengeDeadlineTicks := 10
      reportDeadlineTicks := 10
      seed := 1
      sealDeterminism := none }

/-- Three members say hello, the last of them with a drive, and the node starts to execute. -/
def gathering : List Event :=
  [frameOf 2 (.hello ⟨memberName 2, "", 0, 0⟩), frameOf 3 (.hello ⟨memberName 3, "", 0, 0⟩),
    frameOf 4 (.hello ⟨memberName 4, "", 1, 0⟩), .act, .act]

def zeroReport : DriveReport :=
  { node := memberName 4
    serial := "S"
    wwn := none
    bus := "SIM"
    capacityLbas := 1
    windowSectors := 1
    windowsTotal := 1
    windowsVerified := 1
    pattern := .zero
    evidenceRoot := ""
    view := 1 }

/-- The nonce of the only challenge on that drive. -/
def onlyNonce : String := nonceOf (memberName 1) "S" 0

/-- The drive is reported, challenged and shown to be zero. -/
def honestRun : List Event :=
  gathering ++ [frameOf 4 (.driveReport zeroReport),
    frameOf 4 (.spotProof (.digestForm fixedEnv.toCrypto "S" 0 onlyNonce (List.replicate 512 0)))]

theorem witnessChecked_honestRun :
    WitnessChecked fixedEnv (fun _ _ => false) drivelessNode honestRun
      ∧ (run (next fixedEnv) drivelessNode honestRun).isReady = true :=
  ⟨witnessChecked_of_careful fixedEnv _ _ _ _ _ _ _ honestRun (by decide +kernel), by decide +kernel⟩

/-- A transcript in the name of the second member, which never issued the challenge. -/
def forgedTranscript : SpotTranscript :=
  ⟨memberName 2, memberName 4, ⟨"S", 0, 1, "made up", 0⟩, none, true, none⟩

/-- The reporter answers its challenge with a proof of another drive, then forges a verdict. -/
def forgedRun : List Event :=
  gathering ++ [frameOf 4 (.driveReport zeroReport),
    frameOf 4 (.spotProof ⟨"T", 0, onlyNonce, none, ""⟩), frameOf 4 (.transcript forgedTranscript)]

/-- A third member answers the challenge in the place of the reporter. -/
def stolenRun : List Event :=
  gathering ++ [frameOf 4 (.driveReport zeroReport)]

def stolenProof : Event := frameOf 3 (.spotProof ⟨"S", 0, onlyNonce, none, ""⟩)

/-- **One Byzantine member is enough**: alone it makes its own drive ready with a forged verdict,
or takes the challenge of another one out of the books. -/
theorem drive_ready_unchecked :
    ¬ WitnessChecked fixedEnv (fun _ _ => false) drivelessNode forgedRun
      ∧ ¬ WitnessChecked fixedEnv (fun _ _ => false) drivelessNode (stolenRun ++ [stolenProof]) := by
  constructor
  · intro h
    have hready := h.ready forgedRun List.prefix_rfl (by decide) zeroReport
      (by decide) (by decide)
    obtain ⟨t, ht, hchecked⟩ := hready
    have honly : (run (next fixedEnv) drivelessNode forgedRun).transcripts = [forgedTranscript] := by
      decide
    rw [honly, List.mem_singleton] at ht
    subst ht
    have hissued := hchecked.issued
    exact absurd hissued (by decide)
  · intro h
    have hremoved := h.removals stolenRun stolenProof [] rfl
    have hgone : (run (next fixedEnv) drivelessNode (stolenRun ++ [stolenProof])).pending = [] := by
      decide
    have htarget : (run (next fixedEnv) drivelessNode stolenRun).pending.map
        (fun q => (run (next fixedEnv) drivelessNode stolenRun).targetOf q.2) = [memberName 4] := by
      decide
    cases hq : (run (next fixedEnv) drivelessNode stolenRun).pending with
    | nil => rw [hq] at htarget; exact absurd htarget nofun
    | cons q rest =>
      have hwhy := hremoved q (by rw [hq]; exact List.mem_cons_self)
        (by rw [hgone]; exact List.not_mem_nil)
      rw [hq] at htarget
      have htarget : (run (next fixedEnv) drivelessNode stolenRun).targetOf q.2 = memberName 4 :=
        (List.cons.inj htarget).1
      cases hwhy with
      | answered hmsg hnonce hfrm =>
        rw [htarget] at hfrm
        exact absurd hfrm (by decide)
      | excluded hisolated =>
        rw [htarget] at hisolated
        exact absurd hisolated (by decide)

end MeshNode

end DiscCleaner.Mesh
