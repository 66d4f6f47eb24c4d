import DiscCleaner.Lib.CoeffPoly
import DiscCleaner.Mesh.Consensus
import Mathlib.Data.ZMod.Basic
import Mathlib.Algebra.Field.ZMod

/-!
# DiscCleaner — threshold co-signing (`threshold.rs`)

A dealer shares a group key among the participants; `t` of them sign together. Curve and scalar
arithmetic are those of a group of prime order. The dealer and the share check raise the share
index to the powers of the polynomial in 64 bits.
-/

namespace DiscCleaner.Mesh

open ByteLib

/-! ## The group -/

/-- A group of prime order with its encodings, and SHA-512 reduced to a scalar. Share indices
are distinct scalars. -/
structure SchnorrGroup (p : Nat) (G : Type) [AddCommGroup G] [Module (ZMod p) G] where
  prime : p.Prime
  large : 65535 < p
  base : G
  compress : G → ByteLib.Block 32
  decompress : ByteLib.Block 32 → Option G
  decompress_compress : ∀ P, decompress (compress P) = some P
  toBytes : ZMod p → ByteLib.Block 32
  fromBytesModOrder : ByteLib.Block 32 → ZMod p
  fromBytesModOrder_toBytes : ∀ s, fromBytesModOrder (toBytes s) = s
  sha512 : Bytes → ZMod p

/-- The bytes of a `u16`, most significant first. -/
def be16 (w : UInt16) : Bytes := [UInt8.ofNat (w.toNat / 256), UInt8.ofNat w.toNat]

/-- `(i as u64).pow(j)`: the product of a build without overflow checks. -/
def powU64 (i : UInt16) (j : Nat) : Nat := i.toNat ^ j % 2 ^ 64

/-! ## Parameters and keys -/

structure ThresholdParams where
  threshold : UInt16
  participants : UInt16
  deriving DecidableEq

namespace ThresholdParams

def validate (params : ThresholdParams) : Except MeshError Unit :=
  if params.threshold < 2 then .error (.threshold "threshold must be >= 2")
  else if params.participants < params.threshold then
    .error (.threshold "threshold cannot exceed participants")
  else .ok ()

/-- `t = n - f`. -/
def defaultFor (participants : Nat) : ThresholdParams where
  threshold := .ofNat (max (participants - byzantineTolerance participants % 65536) 2)
  participants := .ofNat participants

end ThresholdParams

structure ShareSecret (p : Nat) where
  index : UInt16
  scalar : ZMod p

structure SharePublic where
  index : UInt16
  sharePub : String
  deriving DecidableEq

structure ThresholdPublicKey where
  params : ThresholdParams
  groupPub : String
  shares : List SharePublic
  commitments : List String
  deriving DecidableEq

structure DealerOutput (p : Nat) where
  pub : ThresholdPublicKey
  secrets : List (ShareSecret p)

structure RoundOneCommitment where
  signer : UInt16
  dCommit : String
  eCommit : String
  deriving DecidableEq

structure RoundTwoShare where
  signer : UInt16
  zShare : String
  deriving DecidableEq

structure FrostSignature where
  rPoint : String
  zScalar : String
  participants : List UInt16
  deriving DecidableEq

namespace SchnorrGroup

variable {p : Nat} {G : Type} [AddCommGroup G] [Module (ZMod p) G] (grp : SchnorrGroup p G)

/-- Hex of the compressed point. -/
def pointHex (P : G) : String := hexEncode (grp.compress P).bytes

def decompressHex (h : String) : Option G := do
  let bytes ← hexDecode h
  let arr ← ByteLib.Block.ofBytes? 32 bytes
  grp.decompress arr

def scalarHex (s : ZMod p) : String := hexEncode (grp.toBytes s).bytes

def hexScalar (h : String) : Option (ZMod p) := do
  let bytes ← hexDecode h
  let arr ← ByteLib.Block.ofBytes? 32 bytes
  some (grp.fromBytesModOrder arr)

/-- `c = H(DST ∥ R ∥ Y ∥ m)`. -/
def challenge (r y : G) (message : Bytes) : ZMod p :=
  grp.sha512 (utf8 "DCMS-FROST2-c-v1" ++ (grp.compress r).bytes ++ (grp.compress y).bytes ++ message)

/-! ## The dealer -/

/-- `x_i = Σ a_j · i^j`. -/
def shareScalar (coeffs : List (ZMod p)) (i : UInt16) : ZMod p :=
  (coeffs.zipIdx.map fun a => a.1 * (powU64 i a.2 : ZMod p)).sum

/-- `1..=participants`. -/
def shareIndices (params : ThresholdParams) : List UInt16 :=
  (List.range params.participants.toNat).map fun k => .ofNat (k + 1)

/-- The trusted-dealer ceremony over the scalars the generator draws. -/
def dealerKeygen (draw : Nat → ZMod p) (params : ThresholdParams) :
    Except MeshError (DealerOutput p) := do
  params.validate
  let coeffs := (List.range params.threshold.toNat).map draw
  .ok
    { pub :=
        { params
          groupPub := grp.pointHex (coeffs.headD 0 • grp.base)
          shares := (shareIndices params).map fun i =>
            ⟨i, grp.pointHex (shareScalar coeffs i • grp.base)⟩
          commitments := coeffs.map fun a => grp.pointHex (a • grp.base) }
      secrets := (shareIndices params).map fun i => ⟨i, shareScalar coeffs i⟩ }

/-- `x_i·B == Σ_j i^j·C_j`. -/
def verifyShare (pub : ThresholdPublicKey) (secret : ShareSecret p) : Bool :=
  match pub.commitments.zipIdx.mapM fun c =>
      (grp.decompressHex c.1).map fun P => (powU64 secret.index c.2 : ZMod p) • P with
  | none => false
  | some terms => grp.compress terms.sum = grp.compress (secret.scalar • grp.base)

/-- The verification equation, then the participants. -/
def verify (sig : FrostSignature) (pub : ThresholdPublicKey) (message : Bytes) : Bool :=
  match grp.decompressHex pub.groupPub, grp.decompressHex sig.rPoint, grp.hexScalar sig.zScalar with
  | some y, some r, some z =>
    let c := grp.challenge r y message
    if grp.compress (z • grp.base) ≠ grp.compress (r + c • y) then false
    else
      let distinct := sig.participants.dedup
      if distinct.length ≠ sig.participants.length then false
      else if UInt16.ofNat distinct.length < pub.params.threshold then false
      else
        let issued := pub.shares.map SharePublic.index
        issued.isEmpty || distinct.all fun i => issued.contains i
  | _, _, _ => false

end SchnorrGroup

/-! ## Sessions -/

structure CoordinatorSession where
  params : ThresholdParams
  groupPub : ThresholdPublicKey
  commitments : List RoundOneCommitment
  message : Bytes

structure SignerSession (p : Nat) where
  secret : ShareSecret p
  dNonce : ZMod p
  eNonce : ZMod p
  published : Option RoundOneCommitment

namespace CoordinatorSession

def new (groupPub : ThresholdPublicKey) (participants : List UInt16) (message : Bytes) :
    Except MeshError CoordinatorSession := do
  groupPub.params.validate
  let distinct := participants.dedup
  if UInt16.ofNat distinct.length < groupPub.params.threshold then
    .error (.threshold (toString distinct.length ++ " participants < threshold "
      ++ toString groupPub.params.threshold.toNat))
  else .ok ⟨groupPub.params, groupPub, [], message⟩

/-- The first commitment of a signer is kept. -/
def ingestCommitment (coord : CoordinatorSession) (c : RoundOneCommitment) : CoordinatorSession :=
  if coord.commitments.any fun x => x.signer = c.signer then coord
  else { coord with commitments := coord.commitments ++ [c] }

def participants (coord : CoordinatorSession) : List UInt16 :=
  (coord.commitments.map RoundOneCommitment.signer).insertionSort (· ≤ ·)

def sortedCommitments (coord : CoordinatorSession) : List RoundOneCommitment :=
  coord.commitments.insertionSort fun a b => a.signer ≤ b.signer

variable {p : Nat} {G : Type} [AddCommGroup G] [Module (ZMod p) G] (grp : SchnorrGroup p G)

/-- `ρ = H(DST ∥ group ∥ m ∥ sorted commitments)`. -/
def rho (coord : CoordinatorSession) : ZMod p :=
  grp.sha512 (utf8 "DCMS-FROST2-rho-v1" ++ utf8 coord.groupPub.groupPub ++ coord.message
    ++ coord.sortedCommitments.flatMap fun c => be16 c.signer ++ utf8 c.dCommit ++ utf8 c.eCommit)

/-- `D_i + ρ·E_i`; a commitment that does not decode is an error. -/
def commitmentTerm (rho : ZMod p) (error : String) (c : RoundOneCommitment) : Except MeshError G :=
  match grp.decompressHex c.dCommit, grp.decompressHex c.eCommit with
  | some d, some e => .ok (d + rho • e)
  | _, _ => .error (.threshold error)

/-- The share of a signer; of two with one index the last counts. -/
def shareOf (shares : List RoundTwoShare) (i : UInt16) : Except MeshError (ZMod p) :=
  match shares.reverse.find? fun s => s.signer = i with
  | none => .error (.threshold ("missing z-share for signer " ++ toString i.toNat))
  | some share =>
    match grp.hexScalar share.zShare with
    | none => .error (.threshold ("bad z-share hex for " ++ toString i.toNat))
    | some z => .ok z

def aggregate (coord : CoordinatorSession) (shares : List RoundTwoShare) :
    Except MeshError FrostSignature := do
  let parts := coord.participants
  if UInt16.ofNat parts.length < coord.params.threshold then
    .error (.threshold "not enough commitments")
  else
    let zs ← parts.mapM (shareOf grp shares)
    let terms ← coord.commitments.mapM (commitmentTerm grp (coord.rho grp) "bad commitment encoding")
    .ok ⟨grp.pointHex terms.sum, grp.scalarHex zs.sum, parts⟩

end CoordinatorSession

namespace SignerSession

variable {p : Nat} {G : Type} [AddCommGroup G] [Module (ZMod p) G] (grp : SchnorrGroup p G)

/-- `λ_i = Π j·(j-i)⁻¹`, with the sign of `j - i` apart. -/
def lagrangeAtZero (i : UInt16) (participants : List UInt16) : ZMod p :=
  (participants.map fun j =>
    if j = i then 1
    else
      let diff : Int := (j.toNat : Int) - i.toNat
      let term : ZMod p := (j.toNat : ZMod p) * (diff.natAbs : ZMod p)⁻¹
      if diff < 0 then -term else term).prod

/-- Two nonces from the generator. -/
def round1 (secret : ShareSecret p) (d e : ZMod p) : SignerSession p := ⟨secret, d, e, none⟩

/-- The commitment, made once. -/
def commitment (s : SignerSession p) : RoundOneCommitment × SignerSession p :=
  match s.published with
  | some c => (c, s)
  | none =>
    let c : RoundOneCommitment :=
      ⟨s.secret.index, grp.pointHex (s.dNonce • grp.base), grp.pointHex (s.eNonce • grp.base)⟩
    (c, { s with published := some c })

/-- `z_i = d_i + ρ·e_i + λ_i·x_i·c`. -/
def round2 (s : SignerSession p) (coord : CoordinatorSession) :
    Except MeshError RoundTwoShare := do
  let parts := coord.participants
  let rho : ZMod p := coord.rho grp
  match grp.decompressHex coord.groupPub.groupPub with
  | none => .error (.threshold "bad group key")
  | some y =>
    let terms ← coord.sortedCommitments.mapM
      (CoordinatorSession.commitmentTerm grp rho "bad commitment")
    let c := grp.challenge terms.sum y coord.message
    let z := s.dNonce + rho * s.eNonce + lagrangeAtZero s.secret.index parts * s.secret.scalar * c
    .ok ⟨s.secret.index, grp.scalarHex z⟩

end SignerSession

/-! ## The post-quantum seal -/

/-- The primitives of the two seal layers: the group of the first, ML-DSA-44 for the second. -/
structure SealPrimitives (p : Nat) (G : Type) [AddCommGroup G] [Module (ZMod p) G]
    extends Crypto where
  grp : SchnorrGroup p G
  mlDsaVerify : ByteLib.Block 1312 → Bytes → ByteLib.Block 2420 → Bool

structure MlDsaSealEntry where
  node : String
  signature : String
  deriving DecidableEq

structure MlDsaSeal where
  threshold : UInt16
  entries : List MlDsaSealEntry
  deriving DecidableEq

namespace MlDsaSeal

variable {p : Nat} {G : Type} [AddCommGroup G] [Module (ZMod p) G] (sp : SealPrimitives p G)

/-- The key of a node in a map collected from pairs: of two pairs the last one counts. -/
def pkOf (membershipPks : List (String × Bytes)) (node : String) : Option Bytes :=
  (membershipPks.reverse.find? fun m => m.1 = node).map Prod.snd

/-- The key is known, key and signature have their sizes, and the signature verifies. -/
def entryGood (membershipPks : List (String × Bytes)) (message : Bytes) (e : MlDsaSealEntry) :
    Bool :=
  match pkOf membershipPks e.node >>= ByteLib.Block.ofBytes? 1312,
      hexDecode e.signature >>= ByteLib.Block.ofBytes? 2420 with
  | some pk, some sig => sp.mlDsaVerify pk message sig
  | _, _ => false

/-- The good entries, the first entry of a node only. -/
def countGood (membershipPks : List (String × Bytes)) (message : Bytes) :
    List String → List MlDsaSealEntry → Nat
  | _, [] => 0
  | seen, e :: es =>
    if e.node ∈ seen then countGood membershipPks message seen es
    else
      (if entryGood sp membershipPks message e then 1 else 0)
        + countGood membershipPks message (e.node :: seen) es

/-- At least `threshold` good entries, counted in 16 bits. -/
def verify (s : MlDsaSeal) (membershipPks : List (String × Bytes)) (message : Bytes) : Bool :=
  s.threshold ≤ UInt16.ofNat (countGood sp membershipPks message [] s.entries)
    ∧ 2 ≤ s.threshold

end MlDsaSeal

end DiscCleaner.Mesh
