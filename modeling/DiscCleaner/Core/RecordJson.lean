import DiscCleaner.Core.Record
import DiscCleaner.Lib.Json

/-!
# DiscCleaner — the JSON form of journal records

What `serde_json::to_vec` writes for a `JournalRecord`: the members of each type in
declaration order, under the tags and renamings its `serde` attributes give. Parsing is a
parameter (`JournalCodec`), with the round trip as the property proofs rely on.
-/

namespace DiscCleaner

open ByteLib

/-! ## Identities and patterns -/

def BusType.toJson : BusType → Bytes
  | .nvme => Json.string "nvme"
  | .sata => Json.string "sata"
  | .sas => Json.string "sas"
  | .usb => Json.string "usb"
  | .mmc => Json.string "mmc"
  | .ufs => Json.string "ufs"
  | .virtio => Json.string "virtio"
  | .loop => Json.string "loop"
  | .deviceMapper => Json.string "devicemapper"
  | .file => Json.string "file"
  | .unknown => Json.string "unknown"

def StableIdentity.toJson (id : StableIdentity) : Bytes :=
  Json.object
    [("model", Json.option Json.string id.model),
     ("serial", Json.option Json.string id.serial),
     ("wwn", Json.option Json.string id.wwn),
     ("size_bytes", Json.nat id.sizeBytes),
     ("bus", id.bus.toJson),
     ("dm_name", Json.option Json.string id.dmName),
     ("dm_uuid", Json.option Json.string id.dmUuid)]

def KernelIdentity.toJson (k : KernelIdentity) : Bytes :=
  Json.object [("major", Json.nat k.major), ("minor", Json.nat k.minor)]

def DeviceIdentity.toJson (id : DeviceIdentity) : Bytes :=
  Json.object
    [("stable", id.stable.toJson),
     ("kernel", id.kernel.toJson),
     ("kernel_name", Json.string id.kernelName),
     ("dev_path", Json.string id.devPath),
     ("logical_block_size", Json.nat id.logicalBlockSize),
     ("physical_block_size", Json.nat id.physicalBlockSize)]

def ToolBuild.toJson (t : ToolBuild) : Bytes :=
  Json.object
    [("name", Json.string t.name),
     ("version", Json.string t.version),
     ("build_hash", Json.string t.buildHash),
     ("target_triple", Json.string t.targetTriple)]

def PrngScheme.toJson : PrngScheme → Bytes
  | .chaCha20WindowV1 => Json.string "cha-cha20-window-v1"

def VdfWeaveScheme.toJson : VdfWeaveScheme → Bytes
  | .wesolowskiRsaUfoV1 => Json.string "wesolowski-rsa-ufo-v1"

def Pattern.toJson : Pattern → Bytes
  | .zero => Json.object [("type", Json.string "zero")]
  | .fixed byte => Json.object [("type", Json.string "fixed"), ("byte", Json.nat byte.toNat)]
  | .fixedWord word =>
    Json.object
      [("type", Json.string "fixed_word"), ("bytes", Json.string (hexEncode word.bytes))]
  | .deterministicRandom scheme seed =>
    Json.object
      [("type", Json.string "deterministic_random"),
       ("scheme", scheme.toJson),
       ("seed", Json.string (hexEncode seed.bytes))]
  | .vdfWoven scheme seedCommitment =>
    Json.object
      [("type", Json.string "vdf_woven"),
       ("scheme", scheme.toJson),
       ("seed_commitment", Json.string (hexEncode seedCommitment.bytes))]

def PatternDescriptor.toJson (d : PatternDescriptor) : Bytes :=
  Json.object
    [("name", Json.string d.name),
     ("pattern", d.pattern.toJson),
     ("description", Json.string d.description)]

/-! ## Plans -/

def VerifyLevel.toJson : VerifyLevel → Bytes
  | .full => Json.string "full"
  | .sampled stride => Json.object [("sampled", Json.object [("stride", Json.nat stride)])]
  | .none => Json.string "none"

def FastPathPolicy.toJson : FastPathPolicy → Bytes
  | .preferWriteZeroes => Json.string "prefer_write_zeroes"
  | .forbidWriteZeroes => Json.string "forbid_write_zeroes"

def Pass.toJson (p : Pass) : Bytes :=
  Json.object [("pattern", p.pattern.toJson), ("label", Json.string p.label)]

def MechanismStep.toJson (m : MechanismStep) : Bytes :=
  Json.object
    [("name", Json.string m.name),
     ("grade", Json.string m.grade),
     ("nist_class", Json.string m.nistClass),
     ("readback_expectation", Json.string m.readbackExpectation),
     ("fallback_target", Json.option Json.string m.fallbackTarget)]

def StrategyLadder.toJson (l : StrategyLadder) : Bytes :=
  Json.object [("steps", Json.array (l.steps.map MechanismStep.toJson))]

def Mechanism.toJson : Mechanism → Bytes
  | .logicalOverwrite passes =>
    Json.object
      [("type", Json.string "logical_overwrite"),
       ("passes", Json.array (passes.map Pass.toJson))]
  | .hardwarePurge ladder selected =>
    Json.object
      [("type", Json.string "hardware_purge"),
       ("ladder", ladder.toJson),
       ("selected_mechanism", Json.string selected)]

/-- An absent strategy ladder is left out; an absent legacy note is `null`. -/
def SanitizationPlan.toJson (p : SanitizationPlan) : Bytes :=
  Json.object
    ([("plan_schema", Json.string p.planSchema),
      ("target", p.target.toJson),
      ("mechanism", p.mechanism.toJson),
      ("verification", p.verification.toJson),
      ("window_bytes", Json.nat p.windowBytes),
      ("fast_path", p.fastPath.toJson)]
    ++ (match p.strategyLadder with
        | some ladder => [("strategy_ladder", ladder.toJson)]
        | none => [])
    ++ [("legacy_note", Json.option Json.string p.legacyNote)])

/-! ## Records -/

def EngineTuning.toJson (t : EngineTuning) : Bytes :=
  Json.object
    [("qd", Json.nat t.qd),
     ("pool_mib", Json.nat t.poolMib),
     ("window_bytes", Json.nat t.windowBytes),
     ("checkpoint_mib", Json.nat t.checkpointMib),
     ("checkpoint_ms", Json.nat t.checkpointMs)]

def jsonPass (pass : UInt8) : Bytes := Json.nat pass.toNat

/-- The `type` tag of a record and its members. -/
def JournalRecord.members : JournalRecord → String × List (String × Bytes)
  | .header h =>
    ("header",
      [("uuid", Json.string h.uuid),
       ("sealed", Json.bool h.sealed),
       ("operator_pubkey", Json.option Json.string h.operatorPubkey),
       ("plan", h.plan.toJson),
       ("plan_hash", Json.string h.planHash),
       ("identity", h.identity.toJson),
       ("tool", h.tool.toJson),
       ("engine", Json.string h.engine),
       ("tuning", h.tuning.toJson),
       ("argv_hash", Json.string h.argvHash),
       ("started_utc", Json.string h.startedUtc)])
  | .armed overrides locksHeld at_ =>
    ("armed",
      [("overrides", Json.array (overrides.map Json.string)),
       ("locks_held", Json.array (locksHeld.map Json.string)),
       ("at", Json.string at_)])
  | .beginPass pass pattern windowBytes =>
    ("begin_pass",
      [("pass", jsonPass pass),
       ("pattern", pattern.toJson),
       ("window_bytes", Json.nat windowBytes)])
  | .rangeCommit pass firstWindow numWindows =>
    ("range_commit",
      [("pass", jsonPass pass),
       ("first_window", Json.nat firstWindow),
       ("num_windows", Json.nat numWindows)])
  | .endPass pass => ("end_pass", [("pass", jsonPass pass)])
  | .flushed pass => ("flushed", [("pass", jsonPass pass)])
  | .verify v =>
    ("verify",
      [("level", Json.string v.level),
       ("windows_checked", Json.nat v.windowsChecked),
       ("mismatch_count", Json.nat v.mismatchCount),
       ("first_mismatch_lbas", Json.array (v.firstMismatchLbas.map Json.nat)),
       ("stream_hash_blake3", Json.string v.streamHashBlake3),
       ("stream_hash_sha256", Json.option Json.string v.streamHashSha256),
       ("fast_path_used", Json.bool v.fastPathUsed)])
  | .interrupted at_ hint throughPass throughWindow signals =>
    ("interrupted",
      [("at", Json.string at_),
       ("hint", Json.string hint),
       ("completed_through_pass", Json.option jsonPass throughPass),
       ("completed_through_window", Json.option Json.nat throughWindow),
       ("signals_received", Json.option Json.nat signals)])
  | .resumed phase fromPass fromWindow discardedTailBytes at_ =>
    ("resumed",
      [("phase", Json.string phase),
       ("from_pass", jsonPass fromPass),
       ("from_window", Json.nat fromWindow),
       ("discarded_tail_bytes", Json.nat discardedTailBytes),
       ("at", Json.string at_)])
  | .failed code errno op atLba detail =>
    ("failed",
      [("code", Json.string code),
       ("errno", Json.option Json.int errno),
       ("op", Json.option Json.string op),
       ("at_lba", Json.option Json.nat atLba),
       ("detail", Json.string detail)])
  | .completed at_ durationMonoMs =>
    ("completed", [("at", Json.string at_), ("duration_mono_ms", Json.nat durationMonoMs)])

/-- `serde_json::to_vec` at a record: an object that opens with the `type` tag. -/
def JournalRecord.toVec (r : JournalRecord) : Bytes :=
  Json.object (("type", Json.string r.members.1) :: r.members.2)

theorem JournalRecord.toVec_length_pos (r : JournalRecord) : 0 < r.toVec.length :=
  Json.object_length_pos _

/-- `serde_json::from_slice` at `JournalRecord`; a parse failure carries its text. -/
structure JournalCodec where
  fromSlice : Bytes → Except String JournalRecord

/-- The parser reads back the record that was written. -/
def JournalCodec.RoundTrips (codec : JournalCodec) (r : JournalRecord) : Prop :=
  codec.fromSlice r.toVec = .ok r

/-- A parser that knows the texts of some records. -/
def tableCodec (records : List JournalRecord) : JournalCodec where
  fromSlice bs :=
    match records.find? fun r => r.toVec = bs with
    | some r => .ok r
    | none => .error "expected value at line 1 column 1"

end DiscCleaner
