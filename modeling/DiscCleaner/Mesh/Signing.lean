import DiscCleaner.Mesh.Threshold
import Mathlib.Tactic.NormNum.Prime

/-!
# DiscCleaner — completeness of threshold signing (`threshold.rs`)

With the powers of the share indices in 64 bits, every share is a point of the dealer's
polynomial, the Lagrange weights of the signers reconstruct the group key in the exponent, and
the aggregate verifies. The largest power is `participants ^ (threshold - 1)`.
-/

namespace DiscCleaner.Mesh

open ByteLib SchnorrGroup

variable {p : Nat} {G : Type} [AddCommGroup G] [Module (ZMod p) G] (grp : SchnorrGroup p G)

/-- The signers commit in this order, everyone answers, the coordinator aggregates. -/
def signTogether (pub : ThresholdPublicKey) (sessions : List (SignerSession p))
    (message : Bytes) : Except MeshError FrostSignature := do
  let opened ← CoordinatorSession.new pub (sessions.map fun s => s.secret.index) message
  let coord := sessions.foldl (fun c s => c.ingestCommitment (s.commitment grp).1) opened
  let shares ← sessions.mapM fun s => s.round2 grp coord
  coord.aggregate grp shares

/-- Fresh sessions of at least `threshold` different participants. -/
structure Signers (out : DealerOutput p) (sessions : List (SignerSession p)) : Prop where
  dealt : ∀ s ∈ sessions, s.secret ∈ out.secrets ∧ s.published = none
  nodup : (sessions.map fun s => s.secret.index).Nodup
  enough : out.pub.params.threshold.toNat ≤ sessions.length

/-- Dealing does not overflow, dealt shares pass their check, and any signers sign. -/
structure SigningComplete (params : ThresholdParams) : Prop where
  fits : ∀ i ∈ shareIndices params, ∀ j < params.threshold.toNat, i.toNat ^ j < 2 ^ 64
  signs : ∀ draw, ∃ out, grp.dealerKeygen draw params = .ok out
    ∧ (∀ secret ∈ out.secrets, grp.verifyShare out.pub secret = true)
    ∧ ∀ sessions message, Signers out sessions →
      ∃ sig, signTogether grp out.pub sessions message = .ok sig
        ∧ grp.verify sig out.pub message = true

/-! ## Encodings -/

@[simp] theorem decompressHex_pointHex (P : G) : grp.decompressHex (grp.pointHex P) = some P := by
  simp [decompressHex, pointHex, grp.decompress_compress]

@[simp] theorem hexScalar_scalarHex (s : ZMod p) : grp.hexScalar (grp.scalarHex s) = some s := by
  simp [hexScalar, scalarHex, grp.fromBytesModOrder_toBytes]

/-! ## Loops that do not fail -/

theorem mapM_eq_some {α β : Type} {f : α → Option β} {g : α → β} {l : List α}
    (h : ∀ a ∈ l, f a = some (g a)) : l.mapM f = some (l.map g) := by
  induction l with
  | nil => rfl
  | cons a l ih =>
    rw [List.mapM_cons, h a List.mem_cons_self, ih fun b hb => h b (List.mem_cons_of_mem a hb)]
    rfl

theorem mapM_eq_ok {α β ε : Type} {f : α → Except ε β} {g : α → β} {l : List α}
    (h : ∀ a ∈ l, f a = .ok (g a)) : l.mapM f = .ok (l.map g) := by
  induction l with
  | nil => rfl
  | cons a l ih =>
    rw [List.mapM_cons, h a List.mem_cons_self, ih fun b hb => h b (List.mem_cons_of_mem a hb)]
    rfl

/-! ## Dealing -/

theorem mem_shareIndices {params : ThresholdParams} {i : UInt16} :
    i ∈ shareIndices params ↔ 1 ≤ i.toNat ∧ i.toNat ≤ params.participants.toNat := by
  unfold shareIndices
  rw [List.mem_map]
  constructor
  · rintro ⟨k, hk, rfl⟩
    have hk' := List.mem_range.mp hk
    have hlt := params.participants.toNat_lt
    have htoNat : (UInt16.ofNat (k + 1)).toNat = k + 1 := by
      rw [UInt16.toNat_ofNat']
      omega
    omega
  · rintro ⟨hpos, hle⟩
    refine ⟨i.toNat - 1, List.mem_range.mpr (by omega), ?_⟩
    rw [Nat.sub_add_cancel hpos, UInt16.ofNat_toNat]

/-- In 64 bits the powers are the field's. -/
theorem shareScalar_eq (coeffs : List (ZMod p)) {i : UInt16}
    (hfits : ∀ j < coeffs.length, i.toNat ^ j < 2 ^ 64) :
    shareScalar coeffs i = (coeffs.zipIdx.map fun a => a.1 * (i.toNat : ZMod p) ^ a.2).sum := by
  unfold shareScalar
  congr 1
  refine List.map_congr_left fun a ha => ?_
  rw [powU64, Nat.mod_eq_of_lt (hfits a.2 (List.snd_lt_of_mem_zipIdx ha)), Nat.cast_pow]

/-- The commitments of the coefficients add up to the committed share, wrapped or not. -/
theorem verifyShare_of_commitments (coeffs : List (ZMod p)) (pub : ThresholdPublicKey)
    (hpub : pub.commitments = coeffs.map fun a => grp.pointHex (a • grp.base)) (i : UInt16) :
    grp.verifyShare pub ⟨i, shareScalar coeffs i⟩ = true := by
  unfold verifyShare
  have hterms : (pub.commitments.zipIdx.mapM fun c =>
      (grp.decompressHex c.1).map fun P => (powU64 i c.2 : ZMod p) • P)
        = some (coeffs.zipIdx.map fun a => (powU64 i a.2 : ZMod p) • a.1 • grp.base) := by
    rw [hpub, List.zipIdx_map, List.mapM_map]
    exact mapM_eq_some fun a _ => by simp
  rw [hterms]
  simp only [decide_eq_true_eq]
  congr 1
  unfold shareScalar
  rw [List.sum_smul, List.map_map]
  congr 1
  refine List.map_congr_left fun a _ => ?_
  simp [smul_smul, mul_comm]

/-! ## Commitments -/

/-- The commitment of a fresh session. -/
def freshCommitment (s : SignerSession p) : RoundOneCommitment :=
  ⟨s.secret.index, grp.pointHex (s.dNonce • grp.base), grp.pointHex (s.eNonce • grp.base)⟩

theorem commitment_fst {s : SignerSession p} (h : s.published = none) :
    (s.commitment grp).1 = freshCommitment grp s := by
  simp only [SignerSession.commitment, h, freshCommitment]

/-- Commitments of different signers are all kept, in the order they arrive. -/
theorem foldl_ingestCommitment (coord : CoordinatorSession) (cs : List RoundOneCommitment)
    (h : ((coord.commitments ++ cs).map RoundOneCommitment.signer).Nodup) :
    cs.foldl CoordinatorSession.ingestCommitment coord
      = { coord with commitments := coord.commitments ++ cs } := by
  induction cs generalizing coord with
  | nil => simp
  | cons c cs ih =>
    have hnew : (coord.commitments.any fun x => x.signer = c.signer) = false := by
      rw [List.any_eq_false]
      intro x hx hsame
      rw [List.map_append, List.map_cons, List.nodup_append] at h
      exact h.2.2 x.signer (List.mem_map_of_mem hx) c.signer List.mem_cons_self
        (of_decide_eq_true hsame)
    have hstep : coord.ingestCommitment c
        = { coord with commitments := coord.commitments ++ [c] } := by
      simp only [CoordinatorSession.ingestCommitment, hnew, Bool.false_eq_true, if_false]
    rw [List.foldl_cons, hstep, ih]
    · simp
    · simpa using h

/-- What a commitment contributes to `R`, when it decodes. -/
def decodedTerm (rho : ZMod p) (c : RoundOneCommitment) : G :=
  (grp.decompressHex c.dCommit).getD 0 + rho • (grp.decompressHex c.eCommit).getD 0

theorem commitmentTerm_eq {sessions : List (SignerSession p)} (rho : ZMod p) (error : String)
    {c : RoundOneCommitment} (hc : c ∈ sessions.map (freshCommitment grp)) :
    CoordinatorSession.commitmentTerm grp rho error c = .ok (decodedTerm grp rho c) := by
  obtain ⟨s, -, rfl⟩ := List.mem_map.mp hc
  simp [CoordinatorSession.commitmentTerm, decodedTerm, freshCommitment]

/-- `R`, whatever the order of the commitments. -/
def groupNonce (rho : ZMod p) (sessions : List (SignerSession p)) : G :=
  (sessions.map fun s => (s.dNonce + rho * s.eNonce) • grp.base).sum

theorem sum_decodedTerm (rho : ZMod p) {sessions : List (SignerSession p)}
    {cs : List RoundOneCommitment} (hperm : cs.Perm (sessions.map (freshCommitment grp))) :
    (cs.map (decodedTerm grp rho)).sum = groupNonce grp rho sessions := by
  rw [(hperm.map _).sum_eq, List.map_map]
  unfold groupNonce
  congr 1
  refine List.map_congr_left fun s _ => ?_
  simp [decodedTerm, freshCommitment, add_smul, mul_smul]

theorem mapM_commitmentTerm (rho : ZMod p) (error : String)
    {sessions : List (SignerSession p)} {cs : List RoundOneCommitment}
    (hperm : cs.Perm (sessions.map (freshCommitment grp))) :
    cs.mapM (CoordinatorSession.commitmentTerm grp rho error)
      = .ok (cs.map (decodedTerm grp rho)) :=
  mapM_eq_ok fun _ hc => commitmentTerm_eq grp rho error (hperm.mem_iff.mp hc)

/-! ## Lagrange weights -/

/-- The weight of the code is the Lagrange weight over the participants. -/
theorem lagrangeAtZero_eq [Fact p.Prime] {parts : List UInt16} (hnodup : parts.Nodup)
    (i : UInt16) :
    (SignerSession.lagrangeAtZero i parts : ZMod p)
      = ShamirLib.weight parts.toFinset (fun j : UInt16 => (j.toNat : ZMod p)) i := by
  unfold SignerSession.lagrangeAtZero
  rw [← List.prod_toFinset _ hnodup, ShamirLib.weight]
  rw [← Finset.prod_erase (a := i) parts.toFinset (by simp)]
  refine Finset.prod_congr rfl fun j hj => ?_
  rw [if_neg (Finset.ne_of_mem_erase hj)]
  simp only
  split
  · next hneg =>
    have habs : ((j.toNat : Int) - i.toNat).natAbs = i.toNat - j.toNat := by omega
    rw [habs, Nat.cast_sub (by omega), ← mul_neg, neg_inv, neg_sub]
  · next hpos =>
    have habs : ((j.toNat : Int) - i.toNat).natAbs = j.toNat - i.toNat := by omega
    rw [habs, Nat.cast_sub (by omega)]

include grp in
/-- Different share indices are different scalars. -/
theorem index_injective : Function.Injective fun i : UInt16 => (i.toNat : ZMod p) := by
  intro i j hij
  have hi : i.toNat < p := lt_of_le_of_lt (Nat.le_of_lt_succ i.toNat_lt) grp.large
  have hj : j.toNat < p := lt_of_le_of_lt (Nat.le_of_lt_succ j.toNat_lt) grp.large
  have hval := congrArg ZMod.val hij
  simp only [ZMod.val_natCast_of_lt hi, ZMod.val_natCast_of_lt hj] at hval
  exact UInt16.toNat_inj.mp hval

include grp in
/-- **The signers reconstruct the group secret**: their weighted shares add up to the constant
coefficient. -/
theorem sum_lagrangeAtZero {coeffs : List (ZMod p)} {sessions : List (SignerSession p)}
    {parts : List UInt16} (hparts : parts.Perm (sessions.map fun s => s.secret.index))
    (hnodup : (sessions.map fun s => s.secret.index).Nodup)
    (hlength : coeffs.length ≤ sessions.length)
    (hshares : ∀ s ∈ sessions, s.secret.scalar
      = (coeffs.zipIdx.map fun a => a.1 * (s.secret.index.toNat : ZMod p) ^ a.2).sum) :
    (sessions.map fun s =>
      SignerSession.lagrangeAtZero s.secret.index parts * s.secret.scalar).sum
        = coeffs.headD 0 := by
  have : Fact p.Prime := ⟨grp.prime⟩
  have hcard : coeffs.length ≤ parts.toFinset.card := by
    rw [List.toFinset_card_of_nodup (hparts.nodup_iff.mpr hnodup), hparts.length_eq,
      List.length_map]
    exact hlength
  rw [← ShamirLib.sum_weight_mul_evalAt ((index_injective grp).injOn (s := parts.toFinset)) hcard]
  rw [List.sum_toFinset _ (hparts.nodup_iff.mpr hnodup), (hparts.map _).sum_eq, List.map_map]
  congr 1
  refine List.map_congr_left fun s hs => ?_
  rw [lagrangeAtZero_eq (hparts.nodup_iff.mpr hnodup), hshares s hs]
  rfl

/-! ## Answers -/

/-- The answer of a session to a challenge. -/
def answer (rho c : ZMod p) (parts : List UInt16) (s : SignerSession p) : ZMod p :=
  s.dNonce + rho * s.eNonce
    + SignerSession.lagrangeAtZero s.secret.index parts * s.secret.scalar * c

theorem round2_eq {coord : CoordinatorSession} {sessions : List (SignerSession p)} {y : G}
    (hgroup : coord.groupPub.groupPub = grp.pointHex y)
    (hcommitments : coord.commitments = sessions.map (freshCommitment grp))
    (s : SignerSession p) :
    s.round2 grp coord = .ok ⟨s.secret.index, grp.scalarHex
      (answer (coord.rho grp)
        (grp.challenge (groupNonce grp (coord.rho grp) sessions) y coord.message)
        coord.participants s)⟩ := by
  have hperm : coord.sortedCommitments.Perm (sessions.map (freshCommitment grp)) := by
    rw [← hcommitments]
    exact List.perm_insertionSort _ _
  unfold SignerSession.round2
  simp only [hgroup, decompressHex_pointHex, mapM_commitmentTerm grp _ _ hperm, bind, Except.bind,
    sum_decodedTerm grp _ hperm, answer]

/-- The share of a signer is found by its index. -/
theorem shareOf_eq {sessions : List (SignerSession p)}
    (hnodup : (sessions.map fun s => s.secret.index).Nodup) (z : SignerSession p → ZMod p)
    {s : SignerSession p} (hs : s ∈ sessions) :
    CoordinatorSession.shareOf grp
      (sessions.map fun s => ⟨s.secret.index, grp.scalarHex (z s)⟩) s.secret.index
        = .ok (z s) := by
  have hfind : (sessions.map fun s =>
      (⟨s.secret.index, grp.scalarHex (z s)⟩ : RoundTwoShare)).reverse.find?
        (fun share => share.signer = s.secret.index)
      = some ⟨s.secret.index, grp.scalarHex (z s)⟩ := by
    rw [← List.map_reverse, List.find?_map]
    obtain ⟨s', hs'⟩ : ∃ s', sessions.reverse.find?
        (fun s' => decide (s'.secret.index = s.secret.index)) = some s' := by
      rw [← Option.isSome_iff_exists, List.find?_isSome]
      exact ⟨s, List.mem_reverse.mpr hs, by simp⟩
    have hsame : s' = s :=
      List.inj_on_of_nodup_map hnodup (List.mem_reverse.mp (List.mem_of_find?_eq_some hs')) hs
        (by simpa using List.find?_some hs')
    subst hsame
    simp only [Function.comp_def, hs', Option.map_some]
  unfold CoordinatorSession.shareOf
  simp only [hfind, hexScalar_scalarHex]

/-! ## The aggregate -/

theorem participants_perm {coord : CoordinatorSession} {sessions : List (SignerSession p)}
    (hcommitments : coord.commitments = sessions.map (freshCommitment grp)) :
    coord.participants.Perm (sessions.map fun s => s.secret.index) := by
  unfold CoordinatorSession.participants
  rw [hcommitments, List.map_map]
  exact List.perm_insertionSort _ _

theorem aggregate_eq {coord : CoordinatorSession} {sessions : List (SignerSession p)}
    (hcommitments : coord.commitments = sessions.map (freshCommitment grp))
    (hnodup : (sessions.map fun s => s.secret.index).Nodup)
    (henough : ¬ UInt16.ofNat coord.participants.length < coord.params.threshold)
    (z : SignerSession p → ZMod p) :
    coord.aggregate grp (sessions.map fun s => ⟨s.secret.index, grp.scalarHex (z s)⟩)
      = .ok ⟨grp.pointHex (groupNonce grp (coord.rho grp) sessions),
          grp.scalarHex (sessions.map z).sum, coord.participants⟩ := by
  have hparts := participants_perm grp hcommitments
  let shares : List RoundTwoShare :=
    sessions.map fun s => ⟨s.secret.index, grp.scalarHex (z s)⟩
  let found (i : UInt16) : ZMod p :=
    match CoordinatorSession.shareOf grp shares i with
    | .ok z => z
    | .error _ => 0
  have hfound {s : SignerSession p} (hs : s ∈ sessions) : found s.secret.index = z s := by
    simp only [found, shares, shareOf_eq grp hnodup z hs]
  have hzs : coord.participants.mapM (CoordinatorSession.shareOf grp shares)
      = .ok (coord.participants.map found) := by
    refine mapM_eq_ok fun i hi => ?_
    obtain ⟨s, hs, rfl⟩ := List.mem_map.mp (hparts.mem_iff.mp hi)
    rw [hfound hs]
    exact shareOf_eq grp hnodup z hs
  have hsum : (coord.participants.map found).sum = (sessions.map z).sum := by
    rw [(hparts.map found).sum_eq, List.map_map]
    congr 1
    exact List.map_congr_left fun s hs => hfound hs
  have hcommitted : coord.commitments.Perm (sessions.map (freshCommitment grp)) := by
    rw [hcommitments]
  have hterms := mapM_commitmentTerm grp (coord.rho grp) "bad commitment encoding" hcommitted
  unfold CoordinatorSession.aggregate
  simp only [if_neg henough]
  show (coord.participants.mapM (CoordinatorSession.shareOf grp shares) >>= _) = _
  rw [hzs, hterms]
  simp only [bind, Except.bind, hsum, sum_decodedTerm grp (coord.rho grp) hcommitted]

/-- **The verification equation** of answers over shares of the secret `x`. -/
theorem sum_answer_smul (rho c x : ZMod p) {sessions : List (SignerSession p)}
    {parts : List UInt16}
    (hsecret : (sessions.map fun s =>
      SignerSession.lagrangeAtZero s.secret.index parts * s.secret.scalar).sum = x) :
    (sessions.map (answer rho c parts)).sum • grp.base
      = groupNonce grp rho sessions + c • x • grp.base := by
  have hsplit : (sessions.map (answer rho c parts)).sum
      = (sessions.map fun s => s.dNonce + rho * s.eNonce).sum
        + (sessions.map fun s =>
          SignerSession.lagrangeAtZero s.secret.index parts * s.secret.scalar).sum * c := by
    rw [← List.sum_map_mul_right, ← List.sum_map_add]
    rfl
  rw [hsplit, hsecret, add_smul, mul_comm x c, mul_smul]
  congr 1
  unfold groupNonce
  rw [List.sum_smul, List.map_map]
  rfl

theorem verify_of_equation {pub : ThresholdPublicKey} {message : Bytes} {r y : G} {z : ZMod p}
    {parts : List UInt16} (hgroup : pub.groupPub = grp.pointHex y)
    (hequation : z • grp.base = r + grp.challenge r y message • y) (hnodup : parts.Nodup)
    (henough : ¬ UInt16.ofNat parts.length < pub.params.threshold)
    (hissued : ∀ i ∈ parts, i ∈ pub.shares.map SharePublic.index) :
    grp.verify ⟨grp.pointHex r, grp.scalarHex z, parts⟩ pub message = true := by
  unfold SchnorrGroup.verify
  simp only [hgroup, decompressHex_pointHex, hexScalar_scalarHex, hequation, ne_eq, not_true,
    if_false, hnodup.dedup, henough]
  have hall : (parts.all fun i => (pub.shares.map SharePublic.index).contains i) = true :=
    List.all_eq_true.mpr fun i hi => List.contains_iff_mem.mpr (hissued i hi)
  rw [hall, Bool.or_true]

/-! ## Completeness -/

/-- What a dealer with valid parameters hands out. -/
def dealt (draw : Nat → ZMod p) (params : ThresholdParams) : DealerOutput p :=
  let coeffs := (List.range params.threshold.toNat).map draw
  { pub :=
      { params
        groupPub := grp.pointHex (coeffs.headD 0 • grp.base)
        shares := (shareIndices params).map fun i =>
          ⟨i, grp.pointHex (shareScalar coeffs i • grp.base)⟩
        commitments := coeffs.map fun a => grp.pointHex (a • grp.base) }
    secrets := (shareIndices params).map fun i => ⟨i, shareScalar coeffs i⟩ }

theorem dealerKeygen_eq (draw : Nat → ZMod p) {params : ThresholdParams}
    (hvalid : params.validate = .ok ()) :
    grp.dealerKeygen draw params = .ok (dealt grp draw params) := by
  unfold dealerKeygen
  rw [hvalid]
  rfl

theorem not_ofNat_lt {n : Nat} {t : UInt16} (hn : n < 65536) (ht : t.toNat ≤ n) :
    ¬ UInt16.ofNat n < t := by
  rw [UInt16.lt_iff_toNat_lt, UInt16.toNat_ofNat', Nat.mod_eq_of_lt hn]
  omega

/-- A signer's index is issued, and different signers are at most all participants. -/
theorem index_mem_of_signers {draw : Nat → ZMod p} {params : ThresholdParams}
    {sessions : List (SignerSession p)} (h : Signers (dealt grp draw params) sessions) :
    (∀ i ∈ sessions.map fun s => s.secret.index, i ∈ shareIndices params)
      ∧ sessions.length < 65536 := by
  have hmem : ∀ i ∈ sessions.map fun s => s.secret.index, i ∈ shareIndices params := by
    intro i hi
    obtain ⟨s, hs, rfl⟩ := List.mem_map.mp hi
    obtain ⟨i, hi', hsecret⟩ := List.mem_map.mp (h.dealt s hs).1
    rw [← hsecret]
    exact hi'
  refine ⟨hmem, ?_⟩
  have hle := (List.subperm_of_subset h.nodup hmem).length_le
  rw [List.length_map, shareIndices, List.length_map, List.length_range] at hle
  exact hle.trans_lt params.participants.toNat_lt

/-- Commitments of the signers, in the order the coordinator hears them. -/
theorem foldl_commitments (opened : CoordinatorSession) (hopened : opened.commitments = [])
    {sessions : List (SignerSession p)} (hfresh : ∀ s ∈ sessions, s.published = none)
    (hnodup : (sessions.map fun s => s.secret.index).Nodup) :
    sessions.foldl (fun c s => c.ingestCommitment (s.commitment grp).1) opened
      = { opened with commitments := sessions.map (freshCommitment grp) } := by
  have hmap : sessions.map (fun s => (s.commitment grp).1)
      = sessions.map (freshCommitment grp) :=
    List.map_congr_left fun s hs => commitment_fst grp (hfresh s hs)
  have hfold := foldl_ingestCommitment opened (sessions.map (freshCommitment grp)) (by
    rw [hopened, List.nil_append, List.map_map]
    exact hnodup)
  rw [hopened, List.nil_append, ← hmap, List.foldl_map, hmap] at hfold
  exact hfold

/-- **Any signers sign**, when the powers of the issued indices fit in 64 bits. -/
theorem signTogether_verifies {params : ThresholdParams} (hvalid : params.validate = .ok ())
    (hfits : ∀ i ∈ shareIndices params, ∀ j < params.threshold.toNat, i.toNat ^ j < 2 ^ 64)
    (draw : Nat → ZMod p) {sessions : List (SignerSession p)} (message : Bytes)
    (h : Signers (dealt grp draw params) sessions) :
    ∃ sig, signTogether grp (dealt grp draw params).pub sessions message = .ok sig
      ∧ grp.verify sig (dealt grp draw params).pub message = true := by
  let coeffs := (List.range params.threshold.toNat).map draw
  let pub := (dealt grp draw params).pub
  let coord : CoordinatorSession :=
    ⟨params, pub, sessions.map (freshCommitment grp), message⟩
  obtain ⟨hissued, hshort⟩ := index_mem_of_signers grp h
  have hthreshold : params.threshold.toNat ≤ sessions.length := h.enough
  -- the round: the coordinator opens it and takes every commitment
  have hopen : CoordinatorSession.new pub (sessions.map fun s => s.secret.index) message
      = .ok ⟨params, pub, [], message⟩ := by
    unfold CoordinatorSession.new
    show (params.validate >>= _) = _
    rw [hvalid]
    simp only [bind, Except.bind, h.nodup.dedup, List.length_map]
    exact if_neg (not_ofNat_lt hshort hthreshold)
  have hingest : sessions.foldl (fun c s => c.ingestCommitment (s.commitment grp).1)
      ⟨params, pub, [], message⟩ = coord :=
    foldl_commitments grp _ rfl (fun s hs => (h.dealt s hs).2) h.nodup
  have hparts : coord.participants.Perm (sessions.map fun s => s.secret.index) :=
    participants_perm grp rfl
  have hlength : coord.participants.length = sessions.length := by
    rw [hparts.length_eq, List.length_map]
  have henough : ¬ UInt16.ofNat coord.participants.length < params.threshold := by
    rw [hlength]
    exact not_ofNat_lt hshort hthreshold
  -- the answers: everyone derives the same challenge
  let c := grp.challenge (groupNonce grp (coord.rho grp) sessions)
    (coeffs.headD 0 • grp.base) message
  have hanswers : (sessions.mapM fun s => s.round2 grp coord)
      = .ok (sessions.map fun s => ⟨s.secret.index, grp.scalarHex
        (answer (coord.rho grp) c coord.participants s)⟩) :=
    mapM_eq_ok fun s _ => round2_eq grp rfl rfl s
  have haggregate := @aggregate_eq p G _ _ grp coord sessions rfl h.nodup henough
    (answer (coord.rho grp) c coord.participants)
  -- the equation: the weighted shares add up to the dealer's secret
  have hsecret : (sessions.map fun s => SignerSession.lagrangeAtZero s.secret.index
      coord.participants * s.secret.scalar).sum = coeffs.headD 0 := by
    refine sum_lagrangeAtZero grp hparts h.nodup ?_ ?_
    · rw [List.length_map, List.length_range]
      exact hthreshold
    · intro s hs
      obtain ⟨i, hi, hsecret⟩ := List.mem_map.mp (h.dealt s hs).1
      rw [← hsecret]
      refine shareScalar_eq coeffs fun j hj => hfits i hi j ?_
      rwa [List.length_map, List.length_range] at hj
  have hequation := sum_answer_smul grp (coord.rho grp) c (coeffs.headD 0) hsecret
  refine ⟨_, ?_, @verify_of_equation p G _ _ grp pub _ _ _ _ _ rfl hequation
    (hparts.nodup_iff.mpr h.nodup) henough ?_⟩
  · show (CoordinatorSession.new pub _ message >>= _) = _
    rw [hopen]
    simp only [bind, Except.bind, hingest, hanswers]
    exact haggregate
  · intro i hi
    show i ∈ ((shareIndices params).map fun i =>
      (⟨i, grp.pointHex (shareScalar coeffs i • grp.base)⟩ : SharePublic)).map SharePublic.index
    rw [List.map_map, List.mem_map]
    exact ⟨i, hissued i (hparts.mem_iff.mp hi), rfl⟩

/-- **Threshold signing is complete exactly when the largest power fits in 64 bits.** -/
theorem signingComplete_iff (params : ThresholdParams) (hvalid : params.validate = .ok ()) :
    SigningComplete grp params
      ↔ params.participants.toNat ^ (params.threshold.toNat - 1) < 2 ^ 64 := by
  have hbounds : 2 ≤ params.threshold.toNat
      ∧ params.threshold.toNat ≤ params.participants.toNat := by
    unfold ThresholdParams.validate at hvalid
    split at hvalid
    · exact absurd hvalid nofun
    · next htwo =>
      split at hvalid
      · exact absurd hvalid nofun
      · next hle =>
        rw [UInt16.lt_iff_toNat_lt] at htwo hle
        exact ⟨Nat.not_lt.mp htwo, Nat.not_lt.mp hle⟩
  constructor
  · intro h
    exact h.fits params.participants (mem_shareIndices.mpr ⟨by omega, le_refl _⟩) _ (by omega)
  · intro hlargest
    have hfits : ∀ i ∈ shareIndices params, ∀ j < params.threshold.toNat,
        i.toNat ^ j < 2 ^ 64 := by
      intro i hi j hj
      obtain ⟨hpos, hle⟩ := mem_shareIndices.mp hi
      calc i.toNat ^ j ≤ params.participants.toNat ^ j := Nat.pow_le_pow_left hle j
        _ ≤ params.participants.toNat ^ (params.threshold.toNat - 1) :=
          Nat.pow_le_pow_right (by omega) (by omega)
        _ < 2 ^ 64 := hlargest
    refine ⟨hfits, fun draw => ⟨dealt grp draw params, dealerKeygen_eq grp draw hvalid, ?_, ?_⟩⟩
    · intro secret hsecret
      obtain ⟨i, -, rfl⟩ := List.mem_map.mp hsecret
      exact verifyShare_of_commitments grp _ _ rfl i
    · exact fun sessions message h => signTogether_verifies grp hvalid hfits draw message h

/-! ## A small group -/

/-- Four bytes of a number, in a block of 32. -/
def wideBlock (n : Nat) : ByteLib.Block 32 where
  bytes := le32 n ++ List.replicate 28 0
  size := rfl

/-- The scalars of a small prime as a group, with a byte sum in place of SHA-512. -/
def smallGroup : SchnorrGroup 65537 (ZMod 65537) where
  prime := by norm_num
  large := by norm_num
  base := 1
  compress P := wideBlock P.val
  decompress b := some (ofLe (b.bytes.take 4) : ZMod 65537)
  decompress_compress P := by
    have hlt : P.val < 2 ^ 32 := (ZMod.val_lt P).trans (by norm_num)
    show some ((ofLe (le32 P.val) : Nat) : ZMod 65537) = some P
    rw [ofLe_le32 hlt, ZMod.natCast_zmod_val]
  toBytes s := wideBlock s.val
  fromBytesModOrder b := (ofLe (b.bytes.take 4) : ZMod 65537)
  fromBytesModOrder_toBytes s := by
    have hlt : s.val < 2 ^ 32 := (ZMod.val_lt s).trans (by norm_num)
    show ((ofLe (le32 s.val) : Nat) : ZMod 65537) = s
    rw [ofLe_le32 hlt, ZMod.natCast_zmod_val]
  sha512 bs := ((bs.map UInt8.toNat).sum : ZMod 65537)

/-- Sixteen of sixteen still sign: `16 ^ 15` fits. -/
theorem signingComplete_sixteen : SigningComplete smallGroup ⟨16, 16⟩ :=
  (signingComplete_iff smallGroup ⟨16, 16⟩ rfl).mpr (by decide)

/-- **The default for 23 nodes overflows**: its threshold is 16, and `23 ^ 15` does not fit. -/
theorem default_for_overflows :
    (ThresholdParams.defaultFor 23).validate = .ok ()
      ∧ ¬ SigningComplete smallGroup (ThresholdParams.defaultFor 23) := by
  refine ⟨rfl, ?_⟩
  intro h
  have hfits := h.fits 23 (mem_shareIndices.mpr (by decide)) 15 (by decide)
  exact absurd hfits (by decide)

end DiscCleaner.Mesh
