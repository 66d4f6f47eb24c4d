import DiscCleaner.Mesh.Threshold

/-!
# DiscCleaner — the swarm certificate and its verifier (`cert.rs`)

The verifier makes its checks one after another, each with a flag or a note of its own, and the
verdict is the conjunction of the flags. The note on a report of an isolated node has no flag.
-/

namespace DiscCleaner.Mesh

open ByteLib

/-! ## The document -/

structure MemberEntry where
  node : String
  mlDsaPk : String
  deriving DecidableEq

structure UncertifiedDrive where
  node : String
  serial : Option String
  reason : String
  deriving DecidableEq

structure SwarmCertificate where
  schema : String
  clusterId : String
  membership : List MemberEntry
  membershipHash : String
  tolerance : Nat
  quorum : Nat
  advertisedDrives : Nat
  driveReports : List DriveReport
  spotTranscripts : List SpotTranscript
  reportRoot : String
  reportCount : UInt32
  spotRoot : String
  spotCount : UInt32
  rogueLedger : List RogueEntry
  uncertified : List UncertifiedDrive
  view : UInt32
  blockHash : String
  committers : List String
  frostGroupPub : String
  frostThreshold : UInt16
  frostSignature : FrostSignature
  mlDsa : MlDsaSeal
  sealedMessage : String
  deriving DecidableEq

/-- What the verifier knows from elsewhere. The keys are those of a hash map. -/
structure SwarmAnchor where
  groupPub : Option String
  membershipHash : Option String
  mlDsaPks : List (String × String)
  deriving DecidableEq

def swarmCertSchema : String := "dc-swarm-cert/1"

namespace SwarmCertificate

/-- The text that is hashed into the sealing message. -/
def sealingText (blockHash : String) (rogue : List RogueEntry) (view : UInt32) : Bytes :=
  utf8 "DCMS-SEAL-v1" ++ utf8 blockHash
    ++ (rogue.flatMap fun e => utf8 e.node ++ utf8 e.evidenceDigest ++ be32 e.isolatedAtView)
    ++ be32 view

/-- BLAKE3 over `block_hash ∥ rogue evidence ∥ view`. -/
def sealingMessage (cr : Crypto) (blockHash : String) (rogue : List RogueEntry) (view : UInt32) :
    Bytes :=
  (cr.blake3 (sealingText blockHash rogue view)).bytes

/-- The keys of the membership; an entry whose key is no hexadecimal text is left out. -/
def mlDsaKeys (cert : SwarmCertificate) : List (String × Bytes) :=
  cert.membership.filterMap fun m => (hexDecode m.mlDsaPk).map fun pk => (m.node, pk)

def certifiedDrives (cert : SwarmCertificate) : Nat := cert.driveReports.length

end SwarmCertificate

/-- The consensus block the certificate shows. -/
def blockFromCert (cert : SwarmCertificate) : Block where
  membershipHash := cert.membershipHash
  reportRoot := cert.reportRoot
  reportCount := cert.reportCount
  spotRoot := cert.spotRoot
  spotCount := cert.spotCount
  rogueEntries := cert.rogueLedger
  view := cert.view

/-! ## The verifier -/

structure SwarmVerificationReport where
  schemaOk : Bool
  anchorMembershipOk : Option Bool
  anchorGroupKeyOk : Option Bool
  reportsConsistent : Bool
  noDuplicateSerials : Bool
  spotProofsPassed : Bool
  quorumReached : Bool
  rogueQuorumsValid : Bool
  frostOk : Bool
  mlDsaOk : Bool
  drivesAccounted : Bool
  verified : Bool
  notes : List String
  deriving DecidableEq

/-- The full lists re-derive the roots of the block. -/
def commitmentsOk (cr : Crypto) (cert : SwarmCertificate) : Bool :=
  reportsRoot cr cert.driveReports = (cert.reportRoot, cert.reportCount)
    ∧ transcriptsRoot cr cert.spotTranscripts = (cert.spotRoot, cert.spotCount)

/-- Whether a serial comes up under another node than the last time it came up. -/
def duplicateSerial : List DriveReport → List (String × String) → Bool
  | [], _ => false
  | rep :: reports, owner =>
    let before := (owner.find? fun o => o.1 = rep.serial).map Prod.snd
    (before.any fun node => node ≠ rep.node)
      || duplicateSerial reports ((rep.serial, rep.node) :: owner)

/-- A passing transcript of the drive by another node than its wiper. -/
def hasPassingWitness (transcripts : List SpotTranscript) (rep : DriveReport) : Bool :=
  transcripts.any fun t => t.passed ∧ t.challenge.serial = rep.serial ∧ t.witness ≠ rep.node

def quorumReached (cert : SwarmCertificate) : Bool :=
  cert.quorum ≤ cert.committers.dedup.length
    ∧ cert.committers.all fun c => cert.membership.any fun m => m.node = c

/-- `accusers.len() > 2 * tolerance`, the product in 64 bits. -/
def rogueQuorumsValid (cert : SwarmCertificate) : Bool :=
  cert.rogueLedger.all fun e => 2 * cert.tolerance % 2 ^ 64 < e.accusers.length

/-- A certified report of a node of the ledger. -/
def certifiesRogue (cert : SwarmCertificate) : Bool :=
  cert.driveReports.any fun rep => cert.rogueLedger.any fun e => e.node = rep.node

/-- The group key the signature is checked under: no share list, `t` as the document says. -/
def groupKeyOf (cert : SwarmCertificate) : ThresholdPublicKey where
  params :=
    { threshold := cert.frostThreshold
      participants := .ofNat (max cert.membership.length cert.frostThreshold.toNat) }
  groupPub := cert.frostGroupPub
  shares := []
  commitments := []

section

variable {p : Nat} {G : Type} [AddCommGroup G] [Module (ZMod p) G] (sp : SealPrimitives p G)

/-- The message the document's own fields give. -/
def messageOf (cr : Crypto) (cert : SwarmCertificate) : Bytes :=
  SwarmCertificate.sealingMessage cr cert.blockHash cert.rogueLedger cert.view

def frostOk (cert : SwarmCertificate) : Bool :=
  hexEncode (messageOf sp.toCrypto cert) = cert.sealedMessage
    ∧ sp.grp.verify cert.frostSignature (groupKeyOf cert) (messageOf sp.toCrypto cert)

/-- The anchored keys, or those of the document when none is anchored. -/
def sealKeys (cert : SwarmCertificate) (anchor : SwarmAnchor) : List (String × Bytes) :=
  if anchor.mlDsaPks.isEmpty then cert.mlDsaKeys
  else anchor.mlDsaPks.filterMap fun k => (hexDecode k.2).map fun pk => (k.1, pk)

def mlDsaOk (cert : SwarmCertificate) (anchor : SwarmAnchor) : Bool :=
  cert.mlDsa.verify sp (sealKeys cert anchor) (messageOf sp.toCrypto cert)

def drivesAccounted (cert : SwarmCertificate) : Bool :=
  cert.advertisedDrives ≤ cert.certifiedDrives + cert.uncertified.length

/-- A note for a check that fails. -/
def noteUnless (ok : Bool) (note : String) : List String := if ok then [] else [note]

def verifySwarmCertificate (cert : SwarmCertificate) (anchor : SwarmAnchor) :
    SwarmVerificationReport :=
  let schemaOk : Bool := cert.schema = swarmCertSchema
  let anchorMembershipOk := anchor.membershipHash.map fun expect =>
    decide (expect = cert.membershipHash)
  let anchorGroupKeyOk := anchor.groupPub.map fun expect => decide (expect = cert.frostGroupPub)
  let commitmentsOk := commitmentsOk sp.toCrypto cert
  let reportsConsistent := cert.driveReports.all DriveReport.isConsistent
  let noDuplicateSerials := !duplicateSerial cert.driveReports []
  let unchallenged := cert.driveReports.filter fun rep => !hasPassingWitness cert.spotTranscripts rep
  let spotProofsPassed :=
    cert.spotTranscripts.all SpotTranscript.passed && unchallenged.isEmpty
  let quorumReached := quorumReached cert
  let rogueQuorumsValid := rogueQuorumsValid cert
  let frostOk := frostOk sp cert
  let mlDsaOk := mlDsaOk sp cert anchor
  let drivesAccounted := drivesAccounted cert
  { schemaOk, anchorMembershipOk, anchorGroupKeyOk, reportsConsistent, noDuplicateSerials,
    spotProofsPassed, quorumReached, rogueQuorumsValid, frostOk, mlDsaOk, drivesAccounted
    verified :=
      schemaOk && anchorMembershipOk.getD true && anchorGroupKeyOk.getD true && commitmentsOk
        && reportsConsistent && noDuplicateSerials && spotProofsPassed && quorumReached
        && rogueQuorumsValid && frostOk && mlDsaOk && drivesAccounted
    notes :=
      noteUnless schemaOk ("unknown schema " ++ cert.schema)
        ++ noteUnless (anchorMembershipOk.getD true) "membership hash does not match the anchor"
        ++ noteUnless (anchorGroupKeyOk.getD true) "FROST group key does not match the anchor"
        ++ noteUnless commitmentsOk
          "report/transcript lists do not re-derive the block commitments"
        ++ noteUnless reportsConsistent
          "at least one drive report has inconsistent window accounting"
        ++ noteUnless noDuplicateSerials "the same serial is attested by two different nodes"
        ++ unchallenged.map (fun rep =>
          "drive " ++ rep.serial ++ " has no passing witness spot-proof")
        ++ noteUnless quorumReached
          ("committers " ++ toString cert.committers.dedup.length ++ " < quorum "
            ++ toString cert.quorum)
        ++ noteUnless rogueQuorumsValid "a rogue entry lacks a 2f+1 accusation quorum"
        ++ noteUnless (!certifiesRogue cert)
          "a certified report belongs to an isolated rogue node"
        ++ noteUnless frostOk "FROST2 threshold signature failed to verify"
        ++ noteUnless mlDsaOk
          ("ML-DSA seal does not reach threshold " ++ toString cert.mlDsa.threshold.toNat
            ++ " of distinct members")
        ++ noteUnless drivesAccounted
          ("certified " ++ toString cert.certifiedDrives ++ " + uncertified "
            ++ toString cert.uncertified.length ++ " < advertised "
            ++ toString cert.advertisedDrives) }

end

end DiscCleaner.Mesh
