import DiscCleaner.Ata.Codec

/-!
# DiscCleaner — hidden capacity (`dc-ata/geometry.rs`, `restore_geometry` of `dc-ata/purge.rs`)

Before a purge the client asks for the factory ceiling and the native maximum, raises the
visible capacity with SET MAX ADDRESS EXT where it sees room, and leaves a transaction that says
which capacities it covered.
-/

namespace DiscCleaner

open ByteLib DialogueLib

structure FdGen where
  gen : Nat
  deriving DecidableEq

structure GeometryStage where
  op : String
  fdGen : FdGen
  capBefore : Nat
  capAfter : Nat
  deriving DecidableEq

structure GeometryTransaction where
  id : String
  stages : List GeometryStage
  currentCapacity : Nat
  nativeCapacity : Nat
  dcoMaxCapacity : Nat
  committed : Bool
  deriving DecidableEq

/-- The little-endian bytes of a `u64`. -/
def le64 (n : Nat) : Bytes := (List.range 8).map fun i => UInt8.ofNat (n / 256 ^ i)

namespace GeometryTransaction

/-- The id holds the first eight digits of a hash of the current capacity. -/
def start (hashHex : Bytes → String) (current native dco : Nat) : GeometryTransaction :=
  { id := "geom-tx-" ++ String.ofList ((hashHex (le64 current)).toList.take 8)
    stages := []
    currentCapacity := current
    nativeCapacity := native
    dcoMaxCapacity := dco
    committed := false }

/-- Record a DCO restore; the generation after the reset comes back. -/
def stageDcoRestore (tx : GeometryTransaction) (currentGen : FdGen) :
    GeometryTransaction × FdGen :=
  ({ tx with
      nativeCapacity := tx.dcoMaxCapacity
      stages := tx.stages ++ [⟨"DCO_RESTORE", currentGen, tx.nativeCapacity, tx.dcoMaxCapacity⟩] },
    ⟨currentGen.gen + 1⟩)

def stageHpaUnlock (tx : GeometryTransaction) (currentGen : FdGen) : GeometryTransaction :=
  { tx with
    currentCapacity := tx.nativeCapacity
    stages := tx.stages ++ [⟨"HPA_UNLOCK", currentGen, tx.currentCapacity, tx.nativeCapacity⟩] }

def commit (tx : GeometryTransaction) : GeometryTransaction := { tx with committed := true }

end GeometryTransaction

namespace AtaPurgeClient

def dcoIdentifyRequest : SatRequest :=
  ⟨AtaCodec.encodeSatDeviceConfigIdentify, .fromDev 512, readTimeoutMs⟩

def readNativeMaxRequest : SatRequest :=
  ⟨AtaCodec.encodeSatReadNativeMaxExt, .none, readTimeoutMs⟩

def setMaxRequest (nativeMaxLba : Nat) : SatRequest :=
  ⟨AtaCodec.encodeSatSetMaxExt nativeMaxLba, .none, readTimeoutMs⟩

/-- The factory ceiling of a DCO IDENTIFY, whatever its status; without one, what is visible. -/
def dcoMax (visible : Nat) : SatAnswer → Nat
  | .ok reply => (AtaCodec.decodeDeviceConfigOverlay reply.dataIn).toOption.getD visible
  | .error _ => visible

/-- The native maximum of a READ NATIVE MAX ADDRESS EXT; without one, what is visible. -/
def nativeMax (visible : Nat) : SatAnswer → Nat
  | .ok reply => (AtaCodec.decodeAtaReturnDescriptorLba reply.sense).toOption.getD visible
  | .error _ => visible

/-- The transaction before any unlock. A ceiling above the native maximum counts as a restore of
the factory configuration, for which no command is issued. -/
def openGeometry (hashHex : Bytes → String) (visible native dco : Nat) :
    GeometryTransaction × FdGen :=
  let tx := GeometryTransaction.start hashHex visible native dco
  if native < dco then tx.stageDcoRestore ⟨1⟩ else (tx, ⟨1⟩)

def restoreGeometry (hashHex : Bytes → String) (identify : AtaIdentifyData) :
    SatDialogue GeometryTransaction :=
  let visible := identify.lba48Sectors
  .ask dcoIdentifyRequest fun dcoReply =>
    .ask readNativeMaxRequest fun nativeReply =>
      let native := nativeMax visible nativeReply
      let (tx, gen) := openGeometry hashHex visible native (dcoMax visible dcoReply)
      if visible < native then
        .ask (setMaxRequest native) fun reply =>
          .done (if reply.accepted then (tx.stageHpaUnlock gen).commit else tx.commit)
      else .done tx.commit

/-- A restoration asks for the two ceilings, then at most for one SET MAX ADDRESS EXT. -/
theorem restoreGeometry_inv {hashHex : Bytes → String} {identify : AtaIdentifyData}
    {es : List SatExchange} {tx : GeometryTransaction}
    (h : (restoreGeometry hashHex identify).Ends es tx) :
    ∃ dcoReply nativeReply,
      let native := nativeMax identify.lba48Sectors nativeReply
      let opened :=
        openGeometry hashHex identify.lba48Sectors native (dcoMax identify.lba48Sectors dcoReply)
      (identify.lba48Sectors < native ∧ ∃ reply,
          es = [⟨dcoIdentifyRequest, dcoReply⟩, ⟨readNativeMaxRequest, nativeReply⟩,
            ⟨setMaxRequest native, reply⟩]
          ∧ tx = if reply.accepted then (opened.1.stageHpaUnlock opened.2).commit
              else opened.1.commit) ∨
        (¬ identify.lba48Sectors < native
          ∧ es = [⟨dcoIdentifyRequest, dcoReply⟩, ⟨readNativeMaxRequest, nativeReply⟩]
          ∧ tx = opened.1.commit) := by
  obtain ⟨dcoReply, es₁, rfl, hdco⟩ := Dialogue.ends_ask.mp h
  obtain ⟨nativeReply, es₂, rfl, hnative⟩ := Dialogue.ends_ask.mp hdco
  refine ⟨dcoReply, nativeReply, ?_⟩
  dsimp only at hnative ⊢
  by_cases hlt : identify.lba48Sectors < nativeMax identify.lba48Sectors nativeReply
  · rw [if_pos hlt] at hnative
    obtain ⟨reply, es₃, rfl, hset⟩ := Dialogue.ends_ask.mp hnative
    obtain ⟨rfl, rfl⟩ := Dialogue.ends_done.mp hset
    exact Or.inl ⟨hlt, reply, rfl, rfl⟩
  · rw [if_neg hlt] at hnative
    obtain ⟨rfl, rfl⟩ := Dialogue.ends_done.mp hnative
    exact Or.inr ⟨hlt, rfl, rfl⟩

end AtaPurgeClient

end DiscCleaner
