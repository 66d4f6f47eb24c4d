import DiscCleaner.Core.Plan

/-!
# DiscCleaner — journal records and the primitives they rest on

The record vocabulary of the DCJ1 journal (`journal.rs`), and the cryptography the
formats are written over (`blake3`, `ed25519-dalek`). The primitives are parameters;
what a proof relies on is a named predicate below.
-/

namespace DiscCleaner

open ByteLib

/-! ## Cryptographic primitives -/

abbrev Digest := Block 32
abbrev Signature := Block 64

/-- An Ed25519 secret key. -/
abbrev SigningKey := Block 32

/-- An Ed25519 public key encoding. -/
abbrev PublicKey := Block 32

/-- `blake3` and `ed25519-dalek` as the formats use them. `ed25519FromBytes` says which
encodings `VerifyingKey::from_bytes` accepts. -/
structure Crypto where
  blake3 : Bytes → Digest
  ed25519Public : SigningKey → PublicKey
  ed25519FromBytes : PublicKey → Bool
  ed25519Sign : SigningKey → Bytes → Signature
  ed25519Verify : PublicKey → Bytes → Signature → Bool

/-- **Ed25519 is correct for a key**: its public half is a valid encoding and every
signature it makes verifies under it. -/
def Crypto.Ed25519Correct (cr : Crypto) (sk : SigningKey) : Prop :=
  cr.ed25519FromBytes (cr.ed25519Public sk) = true
    ∧ ∀ msg, cr.ed25519Verify (cr.ed25519Public sk) msg (cr.ed25519Sign sk msg) = true

/-- Primitives that answer recorded calls of one key pair, and zeros elsewhere; a signature
verifies exactly when it is the one the key makes. -/
def tableCrypto (publicKey : PublicKey) (digests : List (Bytes × Digest))
    (signatures : List (Bytes × Signature)) : Crypto where
  blake3 bs := ((digests.find? fun d => d.1 = bs).map Prod.snd).getD (Block.ofNat 32 0)
  ed25519Public _ := publicKey
  ed25519FromBytes pk := pk = publicKey
  ed25519Sign _ msg :=
    ((signatures.find? fun s => s.1 = msg).map Prod.snd).getD (Block.ofNat 64 0)
  ed25519Verify pk msg sig :=
    pk = publicKey
      ∧ sig = ((signatures.find? fun s => s.1 = msg).map Prod.snd).getD (Block.ofNat 64 0)

theorem tableCrypto_correct (publicKey : PublicKey) (digests : List (Bytes × Digest))
    (signatures : List (Bytes × Signature)) (sk : SigningKey) :
    (tableCrypto publicKey digests signatures).Ed25519Correct sk := by
  simp [Crypto.Ed25519Correct, tableCrypto]

/-! ## Journal records (`journal.rs`) -/

structure EngineTuning where
  qd : Nat
  poolMib : Nat
  windowBytes : Nat
  checkpointMib : Nat
  checkpointMs : Nat
  deriving DecidableEq

/-- Record 0 of every journal: the plan, its hash, and who runs it on what. -/
structure Header where
  uuid : String
  sealed : Bool
  operatorPubkey : Option String
  plan : SanitizationPlan
  planHash : String
  identity : DeviceIdentity
  tool : ToolBuild
  engine : String
  tuning : EngineTuning
  argvHash : String
  startedUtc : String
  deriving DecidableEq

/-- The read-back result as the journal keeps it. -/
structure VerifyRecord where
  level : String
  windowsChecked : Nat
  mismatchCount : Nat
  firstMismatchLbas : List Nat
  streamHashBlake3 : String
  streamHashSha256 : Option String
  fastPathUsed : Bool
  deriving DecidableEq

inductive JournalRecord where
  | header (h : Header)
  | armed (overrides locksHeld : List String) (at_ : String)
  | beginPass (pass : UInt8) (pattern : PatternDescriptor) (windowBytes : Nat)
  | rangeCommit (pass : UInt8) (firstWindow numWindows : Nat)
  | endPass (pass : UInt8)
  | flushed (pass : UInt8)
  | verify (v : VerifyRecord)
  | interrupted (at_ hint : String) (completedThroughPass : Option UInt8)
      (completedThroughWindow : Option Nat) (signalsReceived : Option Nat)
  | resumed (phase : String) (fromPass : UInt8) (fromWindow discardedTailBytes : Nat)
      (at_ : String)
  | failed (code : String) (errno : Option Int) (op : Option String) (atLba : Option Nat)
      (detail : String)
  | completed (at_ : String) (durationMonoMs : Nat)
  deriving DecidableEq

def JournalRecord.isHeader : JournalRecord → Bool
  | .header _ => true
  | _ => false

structure JournalChainSummary where
  path : String
  chainHead : String
  recordCount : Nat
  discardedTailBytes : Nat
  uuid : String
  sealed : Bool
  deriving DecidableEq

end DiscCleaner
