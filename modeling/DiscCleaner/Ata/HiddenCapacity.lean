import DiscCleaner.Ata.Geometry
import Mathlib.Tactic.Ring

/-!
# DiscCleaner — what the client makes of the native maximum

A bridge returns the drive's registers in the order of the command block, so the address bytes of
the ATA return descriptor stand as 31:24, 7:0, 39:32, 15:8, 47:40, 23:16. The decoder reads them
as 47:40, 31:24, 39:32, 23:16, 15:8, 7:0, and takes the maximum address for a sector count.
-/

namespace DiscCleaner

open ByteLib DialogueLib AtaPurgeClient

/-! ## Devices -/

/-- Byte `i` of an address, counted from the lowest. -/
def lbaByte (n i : Nat) : UInt8 := UInt8.ofNat (n >>> (8 * i))

/-- The ATA return descriptor with an address in its registers. -/
def ataReturnDescriptor (n : Nat) (extend error countHigh countLow device status : UInt8) : Bytes :=
  [0x09, 0x0C, extend, error, countHigh, countLow, lbaByte n 3, lbaByte n 0, lbaByte n 4,
   lbaByte n 1, lbaByte n 5, lbaByte n 2, device, status]

/-- Another descriptor of the sense data. -/
structure SenseDescriptor where
  descType : UInt8
  payload : Bytes
  other : descType ≠ 0x09
  short : payload.length < 256

def SenseDescriptor.encode (d : SenseDescriptor) : Bytes :=
  d.descType :: UInt8.ofNat d.payload.length :: d.payload

/-- Descriptor-format sense data with an ATA return descriptor for `n`. -/
def CarriesNativeMax (n : Nat) (sense : Bytes) : Prop :=
  ∃ (header : Block 8) (others : List SenseDescriptor) (extend error countHigh countLow device status : UInt8)
      (rest : Bytes),
    (header.bytes.getD 0 0 = 0x72 ∨ header.bytes.getD 0 0 = 0x73)
      ∧ sense = header.bytes ++ (others.flatMap SenseDescriptor.encode
          ++ (ataReturnDescriptor n extend error countHigh countLow device status ++ rest))

/-- The device answers READ NATIVE MAX ADDRESS EXT with its native maximum. -/
def SatTransport.ReportsNativeMax (transport : SatTransport) (n : Nat) : Prop :=
  ∀ h, ∃ reply, transport h readNativeMaxRequest = .ok reply ∧ CarriesNativeMax n reply.sense

/-! ## What a restoration owes -/

/-- A SET MAX ADDRESS EXT, by its ATA command code. -/
def SatExchange.isSetMax (e : SatExchange) : Bool := e.request.cdb.getD 14 0 == 0x37

/-- The transaction says that nothing of the device stayed hidden. -/
def GeometryTransaction.CoversWhole (tx : GeometryTransaction) : Prop :=
  tx.committed = true ∧ tx.nativeCapacity ≤ tx.currentCapacity
    ∧ tx.dcoMaxCapacity ≤ tx.currentCapacity

/-- Hidden capacity of a device with `v` visible sectors, native maximum address `n` and factory
ceiling `ceiling` is lifted, or not claimed. -/
structure LiftsOrDisclaims (v n ceiling : Nat) (tx : GeometryTransaction) (es : List SatExchange) :
    Prop where
  decoded : ∀ e ∈ es, e.request = readNativeMaxRequest → ∀ reply, e.reply = .ok reply →
    AtaCodec.decodeAtaReturnDescriptorLba reply.sense = .ok n
  setMax : (es.filter SatExchange.isSetMax).map Exchange.request
    = if v < n + 1 then [setMaxRequest n] else []
  dcoRestored : (∃ stage ∈ tx.stages, stage.op = "DCO_RESTORE") →
    ∃ e ∈ es, e.request.cdb = AtaCodec.encodeSatDeviceConfigRestore ∧ e.reply.accepted = true
  covered : tx.CoversWhole →
    (v < n + 1 → ∃ e ∈ es, e.request = setMaxRequest n ∧ e.reply.accepted = true)
      ∧ (n + 1 < ceiling →
          ∃ e ∈ es, e.request.cdb = AtaCodec.encodeSatDeviceConfigRestore ∧ e.reply.accepted = true)

/-! ## The decoder -/

/-- The address that the decoder takes `n` for. -/
def misread (n : Nat) : Nat :=
  let byte (i : Nat) : Nat := n / 256 ^ i % 256
  byte 3 * 2 ^ 40 + byte 4 * 2 ^ 32 + byte 0 * 2 ^ 24 + byte 1 * 2 ^ 16 + byte 5 * 2 ^ 8 + byte 2

/-- The address reads the same in both orders: only byte 4 stands at its place, so the others are
all equal. -/
def ReadsTrue (n : Nat) : Prop :=
  n / 256 % 256 = n % 256 ∧ n / 256 ^ 2 % 256 = n % 256 ∧ n / 256 ^ 3 % 256 = n % 256
    ∧ n / 256 ^ 5 % 256 = n % 256

/-- Six digits to the base 256 are determined by the number they spell. -/
theorem digits_inj {a b c d e f a' b' c' d' e' f' : Nat} (ha : a < 256) (hb : b < 256)
    (hc : c < 256) (hd : d < 256) (he : e < 256) (ha' : a' < 256) (hb' : b' < 256)
    (hc' : c' < 256) (hd' : d' < 256) (he' : e' < 256)
    (h : a + 256 * (b + 256 * (c + 256 * (d + 256 * (e + 256 * f))))
      = a' + 256 * (b' + 256 * (c' + 256 * (d' + 256 * (e' + 256 * f'))))) :
    a = a' ∧ b = b' ∧ c = c' ∧ d = d' ∧ e = e' ∧ f = f' := by
  omega

theorem misread_eq_iff {n : Nat} (h : n < 2 ^ 48) : misread n = n ↔ ReadsTrue n := by
  have hlt : ∀ i, n / 256 ^ i % 256 < 256 := fun i => Nat.mod_lt _ (by decide)
  have hdiv : ∀ i, n / 256 ^ (i + 1) = n / 256 ^ i / 256 := by
    intro i
    rw [Nat.div_div_eq_div_mul, Nat.pow_succ]
  have hspell : n = n / 256 ^ 0 % 256 + 256 * (n / 256 ^ 1 % 256 + 256 * (n / 256 ^ 2 % 256
      + 256 * (n / 256 ^ 3 % 256 + 256 * (n / 256 ^ 4 % 256 + 256 * (n / 256 ^ 5 % 256))))) := by
    have htop : n / 256 ^ 5 < 256 := Nat.div_lt_of_lt_mul (by omega)
    rw [Nat.mod_eq_of_lt htop, hdiv 4, hdiv 3, hdiv 2, hdiv 1, hdiv 0, Nat.pow_zero, Nat.div_one]
    omega
  have hread : misread n = n / 256 ^ 2 % 256 + 256 * (n / 256 ^ 5 % 256 + 256 * (n / 256 ^ 1 % 256
      + 256 * (n / 256 ^ 0 % 256 + 256 * (n / 256 ^ 4 % 256 + 256 * (n / 256 ^ 3 % 256))))) := by
    unfold misread
    ring
  rw [ReadsTrue, hread]
  rw [Nat.pow_zero, Nat.pow_one, Nat.div_one] at hspell ⊢
  constructor
  · intro heq
    have hlow : n % 256 < 256 := Nat.mod_lt _ (by decide)
    have hnext : n / 256 % 256 < 256 := Nat.mod_lt _ (by decide)
    obtain ⟨h20, h51, h12, h03, -, -⟩ := digits_inj (hlt 2) (hlt 5) hnext hlow (hlt 4) hlow hnext
      (hlt 2) (hlt 3) (hlt 4) (heq.trans hspell)
    exact ⟨h12.trans h20, h20, h03.symm, h51.trans (h12.trans h20)⟩
  · rintro ⟨h1, h2, h3, h5⟩
    rw [h1, h2, h3, h5] at hspell ⊢
    exact hspell.symm

theorem lbaByte_toNat (n i : Nat) : (lbaByte n i).toNat = n / 256 ^ i % 256 := by
  have hpow : (2 : Nat) ^ (8 * i) = 256 ^ i := Nat.pow_mul 2 8 i
  rw [lbaByte, UInt8.toNat_ofNat', Nat.shiftRight_eq_div_pow, hpow]

/-- A byte put below a number does not overlap it. -/
theorem or_byte_below {lo : Nat} (h : lo < 256) (hi k : Nat) :
    hi <<< (k + 8) ||| lo <<< k = (hi * 2 ^ 8 + lo) <<< k := by
  have hbelow : lo <<< k < 2 ^ (k + 8) := by
    rw [Nat.shiftLeft_eq, Nat.pow_add, Nat.mul_comm]
    exact Nat.mul_lt_mul_of_pos_left h (Nat.two_pow_pos k)
  rw [← Nat.shiftLeft_add_eq_or_of_lt hbelow]
  simp only [Nat.shiftLeft_eq, Nat.pow_add]
  ring

/-- Or-ing bytes at the places of the decoder adds them up. -/
theorem or_of_bytes {b c d e f : Nat} (a : Nat) (hb : b < 256) (hc : c < 256) (hd : d < 256)
    (he : e < 256) (hf : f < 256) :
    a <<< 40 ||| b <<< 24 ||| c <<< 32 ||| d <<< 16 ||| e <<< 8 ||| f
      = a * 2 ^ 40 + c * 2 ^ 32 + b * 2 ^ 24 + d * 2 ^ 16 + e * 2 ^ 8 + f := by
  -- The fourth byte comes before the third; the others stand in order.
  have hswap : a <<< 40 ||| b <<< 24 ||| c <<< 32 = a <<< 40 ||| c <<< 32 ||| b <<< 24 := by
    rw [Nat.or_assoc, Nat.or_comm (b <<< 24), ← Nat.or_assoc]
  have hlast := or_byte_below hf ((((a * 2 ^ 8 + c) * 2 ^ 8 + b) * 2 ^ 8 + d) * 2 ^ 8 + e) 0
  rw [Nat.shiftLeft_zero, Nat.shiftLeft_zero] at hlast
  rw [hswap, or_byte_below hc a 32, or_byte_below hb _ 24, or_byte_below hd _ 16,
    or_byte_below he _ 8, hlast]
  omega

/-- The walk passes over the other descriptors and reads the address in its own order. -/
theorem walkDescriptors_reads (n : Nat) (extend error countHigh countLow device status : UInt8)
    (rest : Bytes) (others : List SenseDescriptor) {fuel : Nat} (hfuel : others.length < fuel) :
    AtaCodec.walkDescriptors fuel (others.flatMap SenseDescriptor.encode
        ++ (ataReturnDescriptor n extend error countHigh countLow device status ++ rest))
      = .ok (misread n) := by
  induction others generalizing fuel with
  | nil =>
    obtain ⟨fuel, rfl⟩ : ∃ k, fuel = k + 1 := ⟨fuel - 1, by omega⟩
    have hlt : ∀ i, n / 256 ^ i % 256 < 256 := fun i => Nat.mod_lt _ (by decide)
    show AtaCodec.walkDescriptors (fuel + 1) (0x09 :: 0x0C :: _) = _
    rw [AtaCodec.walkDescriptors, if_pos ⟨rfl, by decide, by simp⟩]
    show Except.ok ((lbaByte n 3).toNat <<< 40 ||| (lbaByte n 0).toNat <<< 24
      ||| (lbaByte n 4).toNat <<< 32 ||| (lbaByte n 1).toNat <<< 16 ||| (lbaByte n 5).toNat <<< 8
      ||| (lbaByte n 2).toNat) = _
    simp only [lbaByte_toNat]
    rw [or_of_bytes _ (hlt 0) (hlt 4) (hlt 1) (hlt 5) (hlt 2)]
    rfl
  | cons d others ih =>
    obtain ⟨fuel, rfl⟩ : ∃ k, fuel = k + 1 := ⟨fuel - 1, by omega⟩
    rw [List.flatMap_cons, List.append_assoc, SenseDescriptor.encode, List.cons_append,
      List.cons_append, AtaCodec.walkDescriptors, if_neg (fun h => d.other h.1)]
    have hlen : (UInt8.ofNat d.payload.length).toNat = d.payload.length := by
      rw [UInt8.toNat_ofNat']
      exact Nat.mod_eq_of_lt d.short
    rw [hlen, List.drop_left]
    exact ih (Nat.lt_of_succ_lt_succ hfuel)

theorem others_length_le (others : List SenseDescriptor) :
    others.length ≤ (others.flatMap SenseDescriptor.encode).length := by
  induction others with
  | nil => exact Nat.le_refl 0
  | cons d others ih =>
    rw [List.flatMap_cons, List.length_append, List.length_cons, SenseDescriptor.encode,
      List.length_cons]
    omega

/-- **What the decoder makes of a native maximum.** -/
theorem decode_carriesNativeMax {n : Nat} {sense : Bytes} (h : CarriesNativeMax n sense) :
    AtaCodec.decodeAtaReturnDescriptorLba sense = .ok (misread n) := by
  obtain ⟨header, others, extend, error, countHigh, countLow, device, status, rest, hcode, rfl⟩ := h
  have hlength : 8 + (others.length + 14) ≤ (header.bytes ++ (others.flatMap SenseDescriptor.encode
      ++ (ataReturnDescriptor n extend error countHigh countLow device status ++ rest))).length := by
    have hothers := others_length_le others
    have hdescriptor :
        (ataReturnDescriptor n extend error countHigh countLow device status).length = 14 := rfl
    rw [List.length_append, List.length_append, List.length_append, header.size, hdescriptor]
    omega
  have hfirst : (header.bytes ++ (others.flatMap SenseDescriptor.encode
      ++ (ataReturnDescriptor n extend error countHigh countLow device status ++ rest))).getD 0 0
        = header.bytes.getD 0 0 := by
    rw [List.getD_eq_getElem?_getD, List.getD_eq_getElem?_getD,
      List.getElem?_append_left (by rw [header.size]; decide)]
  unfold AtaCodec.decodeAtaReturnDescriptorLba
  rw [if_neg (by omega), hfirst, List.drop_left' header.size]
  have hformat : ¬ (header.bytes.getD 0 0 &&& 0x7F ≠ 0x72 ∧ header.bytes.getD 0 0 &&& 0x7F ≠ 0x73) := by
    rcases hcode with hcode | hcode
    · rw [hcode]
      decide
    · rw [hcode]
      decide
  rw [if_neg hformat]
  exact walkDescriptors_reads n extend error countHigh countLow device status rest others (by omega)

/-! ## The restoration -/

theorem openGeometry_stage {hashHex : Bytes → String} {visible native dco : Nat} :
    (∃ stage ∈ (openGeometry hashHex visible native dco).1.stages, stage.op = "DCO_RESTORE")
      ↔ native < dco := by
  unfold openGeometry
  constructor
  · rintro ⟨stage, hstage, -⟩
    by_contra hle
    rw [if_neg hle] at hstage
    cases hstage
  · intro hlt
    rw [if_pos hlt]
    exact ⟨_, List.mem_singleton_self _, rfl⟩

/-- No command of a restoration restores the factory configuration. -/
theorem no_dcoRestore {native : Nat} {dcoReply nativeReply reply : SatAnswer} {e : SatExchange}
    (h : e ∈ [(⟨dcoIdentifyRequest, dcoReply⟩ : SatExchange), ⟨readNativeMaxRequest, nativeReply⟩,
      ⟨setMaxRequest native, reply⟩]) :
    e.request.cdb ≠ AtaCodec.encodeSatDeviceConfigRestore := by
  simp only [List.mem_cons, List.not_mem_nil, or_false] at h
  rcases h with rfl | rfl | rfl
  · show dcoIdentifyRequest.cdb ≠ _
    decide
  · show readNativeMaxRequest.cdb ≠ _
    decide
  · intro heq
    have hcode : (0x37 : UInt8) = 0xB1 := congrArg (fun cdb => cdb.getD 14 0) heq
    exact absurd hcode (by decide)

theorem not_isSetMax_dco (reply : SatAnswer) :
    SatExchange.isSetMax ⟨dcoIdentifyRequest, reply⟩ = false := by
  show (dcoIdentifyRequest.cdb.getD 14 0 == 0x37) = false
  decide

theorem not_isSetMax_native (reply : SatAnswer) :
    SatExchange.isSetMax ⟨readNativeMaxRequest, reply⟩ = false := by
  show (readNativeMaxRequest.cdb.getD 14 0 == 0x37) = false
  decide

theorem isSetMax_setMax (n : Nat) (reply : SatAnswer) :
    SatExchange.isSetMax ⟨setMaxRequest n, reply⟩ = true := rfl

/-- The SET MAX commands of a restoration: the one after the two probes, if there is one. -/
theorem setMax_of_probes (dcoReply nativeReply : SatAnswer) (es : List SatExchange) :
    (((⟨dcoIdentifyRequest, dcoReply⟩ : SatExchange) :: ⟨readNativeMaxRequest, nativeReply⟩
        :: es).filter SatExchange.isSetMax).map Exchange.request
      = (es.filter SatExchange.isSetMax).map Exchange.request := by
  rw [List.filter_cons_of_neg (by rw [not_isSetMax_dco]; decide),
    List.filter_cons_of_neg (by rw [not_isSetMax_native]; decide)]

/-- The end of a restoration records no further restore of the factory configuration. -/
theorem closed_stage (opened : GeometryTransaction) (gen : FdGen) (unlocked : Bool) :
    (∃ stage ∈ (if unlocked then (opened.stageHpaUnlock gen).commit else opened.commit).stages,
        stage.op = "DCO_RESTORE")
      ↔ ∃ stage ∈ opened.stages, stage.op = "DCO_RESTORE" := by
  cases unlocked with
  | false => exact Iff.rfl
  | true =>
    constructor
    · rintro ⟨stage, hstage, hop⟩
      rcases List.mem_append.mp hstage with hstage | hstage
      · exact ⟨stage, hstage, hop⟩
      · rw [List.mem_singleton.mp hstage] at hop
        have hother : ("HPA_UNLOCK" : String) ≠ "DCO_RESTORE" := by decide
        exact absurd hop hother
    · rintro ⟨stage, hstage, hop⟩
      exact ⟨stage, List.mem_append_left _ hstage, hop⟩

/-- With a ceiling at or below the native maximum, the transaction opens without a stage. -/
theorem openGeometry_of_le {hashHex : Bytes → String} {visible native dco : Nat}
    (h : dco ≤ native) :
    openGeometry hashHex visible native dco
      = (GeometryTransaction.start hashHex visible native dco, ⟨1⟩) := by
  unfold openGeometry
  rw [if_neg (Nat.not_lt.mpr h)]

/-- A native maximum that is read right, is not the sector count and is not below the ceiling
leaves only the SET MAX ADDRESS EXT to lift, and its refusal shows in the capacities. -/
theorem lifts_of_readsTrue {hashHex : Bytes → String} {v n ceiling : Nat} {es : List SatExchange}
    {tx : GeometryTransaction} {dcoReply nativeReply : SatAnswer} (hv : v ≤ n + 1) (hne : n ≠ v)
    (hceiling : ceiling ≤ n)
    (hdecoded : ∀ e ∈ es, e.request = readNativeMaxRequest → ∀ reply, e.reply = .ok reply →
      AtaCodec.decodeAtaReturnDescriptorLba reply.sense = .ok n)
    (hcases : (v < n ∧ ∃ reply,
          es = [⟨dcoIdentifyRequest, dcoReply⟩, ⟨readNativeMaxRequest, nativeReply⟩,
            ⟨setMaxRequest n, reply⟩]
          ∧ tx = if reply.accepted then
              ((openGeometry hashHex v n ceiling).1.stageHpaUnlock
                (openGeometry hashHex v n ceiling).2).commit
              else (openGeometry hashHex v n ceiling).1.commit) ∨
        (¬ v < n ∧ es = [⟨dcoIdentifyRequest, dcoReply⟩, ⟨readNativeMaxRequest, nativeReply⟩]
          ∧ tx = (openGeometry hashHex v n ceiling).1.commit)) :
    LiftsOrDisclaims v n ceiling tx es := by
  have hnoStage : ¬ ∃ stage ∈ (openGeometry hashHex v n ceiling).1.stages,
      stage.op = "DCO_RESTORE" := fun hstage =>
    absurd (openGeometry_stage.mp hstage) (Nat.not_lt.mpr hceiling)
  have hno : ¬ n + 1 < ceiling := by omega
  rcases hcases with ⟨hlt, reply, rfl, rfl⟩ | ⟨hle, rfl, rfl⟩
  · refine ⟨hdecoded, ?_, fun hstage => ?_, fun hcovers => ⟨fun _ => ?_, fun h => absurd h hno⟩⟩
    · rw [setMax_of_probes, if_pos (Nat.lt_succ_of_lt hlt),
        List.filter_cons_of_pos (isSetMax_setMax n reply)]
      rfl
    · exact absurd ((closed_stage _ _ _).mp hstage) hnoStage
    · -- Without the unlock the current capacity stays at `v`, below the native one.
      by_cases haccepted : reply.accepted = true
      · exact ⟨⟨setMaxRequest n, reply⟩, by simp, rfl, haccepted⟩
      · rw [if_neg haccepted, openGeometry_of_le hceiling] at hcovers
        exact absurd hcovers.2.1 (Nat.not_le.mpr hlt)
  · have hall : ¬ v < n + 1 := by omega
    refine ⟨hdecoded, ?_, fun hstage => absurd hstage hnoStage,
      fun _ => ⟨fun h => absurd h hall, fun h => absurd h hno⟩⟩
    rw [setMax_of_probes, if_neg hall]
    rfl

/-- **A restoration lifts what is hidden, or does not claim it, exactly when** the native maximum
reads the same in both byte orders, is not the visible sector count itself, and the factory
ceiling does not lie above it. -/
theorem restoreGeometry_iff {hashHex : Bytes → String} {identify : AtaIdentifyData} {n : Nat}
    {es : List SatExchange} {tx : GeometryTransaction} {dcoReply : SatAnswer} (hn : n < 2 ^ 48)
    (hv : identify.lba48Sectors ≤ n + 1) (hends : (restoreGeometry hashHex identify).Ends es tx)
    (hdco : es.head? = some ⟨dcoIdentifyRequest, dcoReply⟩)
    (hreports : ∀ e ∈ es, e.request = readNativeMaxRequest →
      ∃ reply, e.reply = .ok reply ∧ CarriesNativeMax n reply.sense) :
    LiftsOrDisclaims identify.lba48Sectors n (dcoMax identify.lba48Sectors dcoReply) tx es
      ↔ ReadsTrue n ∧ n ≠ identify.lba48Sectors ∧ dcoMax identify.lba48Sectors dcoReply ≤ n := by
  obtain ⟨dcoReply', nativeReply, hcases⟩ := restoreGeometry_inv hends
  dsimp only at hcases
  generalize identify.lba48Sectors = v at hv hcases ⊢
  -- Both shapes start with the two probes; the second is answered with `n`.
  have hnative : ∃ reply, nativeReply = .ok reply ∧ CarriesNativeMax n reply.sense
      ∧ ⟨readNativeMaxRequest, nativeReply⟩ ∈ es := by
    have hmem : (⟨readNativeMaxRequest, nativeReply⟩ : SatExchange) ∈ es := by
      rcases hcases with ⟨-, reply, rfl, -⟩ | ⟨-, rfl, -⟩ <;> simp
    obtain ⟨reply, hreply, hcarries⟩ := hreports _ hmem rfl
    exact ⟨reply, hreply, hcarries, hmem⟩
  obtain ⟨reply, rfl, hcarries, hmem⟩ := hnative
  have hdecoded := decode_carriesNativeMax hcarries
  have hmax : nativeMax v (.ok reply) = misread n := by
    rw [nativeMax, hdecoded]
    rfl
  obtain rfl : dcoReply' = dcoReply := by
    rcases hcases with ⟨-, reply', rfl, -⟩ | ⟨-, rfl, -⟩
    all_goals
      simp only [List.head?_cons, Option.some.injEq, Exchange.mk.injEq] at hdco
      exact hdco.2
  rw [hmax] at hcases
  constructor
  · intro hlifts
    have hread : misread n = n := by
      have heq := hlifts.decoded _ hmem rfl reply rfl
      rw [hdecoded] at heq
      exact Except.ok.inj heq
    rw [hread] at hcases
    refine ⟨(misread_eq_iff hn).mp hread, ?_, ?_⟩
    · -- At `n = v` one sector is hidden, and no SET MAX is issued for it.
      rintro rfl
      rcases hcases with ⟨hlt, -⟩ | ⟨-, rfl, -⟩
      · exact absurd hlt (Nat.lt_irrefl n)
      · have hissued := hlifts.setMax
        rw [setMax_of_probes, if_pos (Nat.lt_succ_self n)] at hissued
        cases hissued
    · by_contra hle
      have hopened : ∃ stage ∈ (openGeometry hashHex v n (dcoMax v dcoReply')).1.stages,
          stage.op = "DCO_RESTORE" := openGeometry_stage.mpr (Nat.lt_of_not_le hle)
      rcases hcases with ⟨-, reply', rfl, rfl⟩ | ⟨-, rfl, rfl⟩
      · obtain ⟨e, he, hcdb, -⟩ := hlifts.dcoRestored ((closed_stage _ _ _).mpr hopened)
        exact no_dcoRestore he hcdb
      · obtain ⟨e, he, hcdb, -⟩ := hlifts.dcoRestored hopened
        have hamong := List.mem_append_left [(⟨setMaxRequest n, .ok reply⟩ : SatExchange)] he
        exact no_dcoRestore hamong hcdb
  · rintro ⟨htrue, hne, hle⟩
    have hread : misread n = n := (misread_eq_iff hn).mpr htrue
    rw [hread] at hcases
    refine lifts_of_readsTrue hv hne hle (fun e he hrequest answer hanswer => ?_) hcases
    obtain ⟨answer', hanswer', hcarries'⟩ := hreports e he hrequest
    rw [hanswer, Except.ok.injEq] at hanswer'
    rw [hanswer', decode_carriesNativeMax hcarries', hread]

/-- A disk without a factory overlay that returns its registers in sense data and obeys SET MAX. -/
def plainDisk (n : Nat) : SatTransport := fun _ request =>
  if request = readNativeMaxRequest then
    .ok ⟨0x02, [0x72, 0x01, 0x00, 0x1D, 0, 0, 0, 14]
      ++ ataReturnDescriptor n 0x01 0x00 0x00 0x00 0x40 0x50, []⟩
  else if request = dcoIdentifyRequest then .ok ⟨0x02, [], []⟩
  else .ok ⟨0x00, [], []⟩

theorem plainDisk_reports (n : Nat) : (plainDisk n).ReportsNativeMax n := fun _ =>
  ⟨_, rfl, ⟨[0x72, 0x01, 0x00, 0x1D, 0, 0, 0, 14], rfl⟩, [], 0x01, 0x00, 0x00, 0x00, 0x40, 0x50, [],
    Or.inl rfl, rfl⟩

/-- The IDENTIFY data of a disk with `v` visible sectors. -/
def visibleSectors (v : Nat) : AtaIdentifyData :=
  ⟨v, ⟨true, false, false, false, false, none, none⟩, ⟨false, false, false, false⟩⟩

end DiscCleaner
