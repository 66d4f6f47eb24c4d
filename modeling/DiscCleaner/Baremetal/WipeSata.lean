import DiscCleaner.Baremetal.Ahci
import DiscCleaner.Baremetal.ChaCha

/-!
# DiscCleaner — the SATA pass of the boot payload (`dc-baremetal/wipe.rs`)

The pass writes the keystream of each chunk of sectors, one command after the other. The commands
are read back from the structures that the adapter fetches.

## Main results

* `Issued.data_iff` — the data of a command, where the structures of the port reach into its page
* `wipeSata_covers_iff` — the disks that the pass covers
-/

namespace DiscCleaner

open ByteLib ProgLib

namespace Baremetal

inductive DeviceVerdict where
  | purged (patternPass cryptoErase : Bool)
  | failed (reason : String)
  | skipped (reason : String)
  deriving DecidableEq

/-- The offset of the data page in the DMA window. -/
def SATA_PAGE : Nat := 32768

/-- The sectors of the next command; the count of those left is cut to 16 bits first. -/
def sataChunk (total lba : Nat) : Nat := min 16 ((total - lba) % 2 ^ 16)

def sataPage (seed : Block 32) (total lba : Nat) : Bytes :=
  keystream seed (lbaNonce lba) (sataChunk total lba * 512)

/-- `lba * 1000` in 64 bits, which unwinds on overflow. -/
def reportProgress (total done : Nat) : Prog Session AhciError Unit :=
  if done * 1000 < 2 ^ 64 then
    Prog.update fun s => { s with progress := s.progress ++ [done * 1000 / max total 1 % 2 ^ 32] }
  else Prog.unwind

/-- Fill the data page with the keystream of a chunk. -/
def fillPage (seed : Block 32) (total lba : Nat) (s : Session) : Session :=
  s.setWindow (s.ahci.window.write SATA_PAGE (sataPage seed total lba))

/-- The loop of the pass, from a sector on. -/
def sataLoop (hba : Hba) (port total : Nat) (seed : Block 32) :
    Nat → Nat → Prog Session AhciError DeviceVerdict
  | _, 0 => fun s => (.blocked, s)
  | lba, turns + 1 =>
    if lba < total then do
      Prog.update (fillPage seed total lba)
      dmaIo hba port true lba (sataChunk total lba) SATA_PAGE
      reportProgress total (lba + sataChunk total lba)
      sataLoop hba port total seed (lba + sataChunk total lba) turns
    else pure (.purged true false)

def wipeSata (hba : Hba) (port total : Nat) (seed : Block 32) (turns : Nat) :
    Prog Session AhciError DeviceVerdict :=
  sataLoop hba port total seed 0 turns

/-! ## What a command holds -/

namespace Issued

variable {a : Ahci} {k lba sectors dataOff : Nat} {isWrite : Bool}

/-- The structures lie in the window. -/
def Fits (k : Nat) : Prop := k + 1664 ≤ 2 ^ 21

theorem phys_lt (a : Ahci) {off : Nat} (h : off < 2 ^ 21) : a.phys + off < 2 ^ 64 := by
  have hle := a.phys_le
  omega

theorem header_issuedAt (hk : Fits k) :
    (issuedAt a k isWrite lba sectors dataOff).header = cmdHeader isWrite (a.phys + (k + 1280)) := by
  have haddr : joinWords (addrWords (a.phys + k)) - a.phys = k := by
    rw [joinWords_addrWords (phys_lt a (by unfold Fits at hk; omega))]
    omega
  unfold header fetch
  rw [issuedAt, haddr]
  exact Memory.read_write_self

theorem table_issuedAt (hk : Fits k) :
    (issuedAt a k isWrite lba sectors dataOff).table = a.phys + (k + 1280) := by
  have haddr : a.phys + (k + 1280) < 2 ^ 32 := by
    have hle := a.phys_le
    unfold Fits at hk
    omega
  have hlow : slice (cmdHeader isWrite (a.phys + (k + 1280))) 8 4 = le32 (a.phys + (k + 1280)) := rfl
  have hhigh : slice (cmdHeader isWrite (a.phys + (k + 1280))) 12 4
      = le32 ((a.phys + (k + 1280)) / 2 ^ 32) := rfl
  rw [table, header_issuedAt hk, hlow, hhigh, ofLe_le32_mod, ofLe_le32_mod]
  exact joinWords_addrWords (by omega)

/-- The header is not in the way of the table. -/
theorem fetch_table {i n : Nat} (h : i + n ≤ 96) :
    (issuedAt a k isWrite lba sectors dataOff).fetch (a.phys + (k + 1280) + i) n
      = slice (cmdTable isWrite lba sectors (a.phys + dataOff)) i n := by
  have haddr : a.phys + (k + 1280) + i - a.phys = k + 1280 + i := by omega
  unfold fetch
  rw [issuedAt, haddr, Memory.read_write_apart (by simp; omega)]
  exact Memory.read_write_slice h

theorem fis_issuedAt (hk : Fits k) :
    (issuedAt a k isWrite lba sectors dataOff).fis
      = (RegFisH2D.dmaExt isWrite lba sectors).writeTo := by
  have htable := @fetch_table a k lba sectors dataOff isWrite 0 64 (by omega)
  rw [fis, table_issuedAt hk]
  exact htable

theorem prdt_issuedAt (hk : Fits k) :
    (issuedAt a k isWrite lba sectors dataOff).prdt = prdtEntry (a.phys + dataOff) sectors := by
  have htable := @fetch_table a k lba sectors dataOff isWrite 80 16 (by omega)
  rw [prdt, table_issuedAt hk]
  exact htable

theorem command_issuedAt (hk : Fits k) :
    (issuedAt a k true lba sectors dataOff).command = 0x35 := by
  rw [command, fis_issuedAt hk]
  rfl

theorem lba_issuedAt (hk : Fits k) (hlba : lba < 2 ^ 48) :
    (issuedAt a k isWrite lba sectors dataOff).lba = lba := by
  have hbytes : slice (RegFisH2D.dmaExt isWrite lba sectors).writeTo 4 3
        ++ slice (RegFisH2D.dmaExt isWrite lba sectors).writeTo 8 3
      = [UInt8.ofNat lba, UInt8.ofNat (lba / 2 ^ 8), UInt8.ofNat (lba / 2 ^ 16),
        UInt8.ofNat (lba / 2 ^ 24), UInt8.ofNat (lba / 2 ^ 32), UInt8.ofNat (lba / 2 ^ 40)] := rfl
  rw [Issued.lba, fis_issuedAt hk, hbytes]
  simp only [ofLe, UInt8.toNat_ofNat']
  omega

theorem count_issuedAt (hk : Fits k) (hsectors : sectors < 2 ^ 16) :
    (issuedAt a k isWrite lba sectors dataOff).count = sectors := by
  have hbytes : slice (RegFisH2D.dmaExt isWrite lba sectors).writeTo 12 2
      = [UInt8.ofNat sectors, UInt8.ofNat (sectors / 2 ^ 8)] := rfl
  rw [count, fis_issuedAt hk, hbytes]
  simp only [ofLe, UInt8.toNat_ofNat']
  omega

/-- The interrupt bit is above the bits of the byte count. -/
theorem byteCount_issuedAt (hk : Fits k) (h1 : 1 ≤ sectors) (h16 : sectors ≤ 16) :
    (issuedAt a k isWrite lba sectors dataOff).byteCount = sectors * 512 := by
  have hbytes : slice (prdtEntry (a.phys + dataOff) sectors) 12 4
      = le32 ((sectors * 512 - 1) ||| 1 <<< 31) := rfl
  have hbit : (sectors * 512 - 1) ||| 1 <<< 31 = 2 ^ 31 * 1 + (sectors * 512 - 1) := by
    rw [Nat.two_pow_add_eq_or_of_lt (by omega), Nat.or_comm]
    rfl
  rw [byteCount, prdt_issuedAt hk, hbytes, ofLe_le32_mod, hbit]
  omega

theorem data_issuedAt (hk : Fits k) (hoff : dataOff < 2 ^ 21) (h1 : 1 ≤ sectors)
    (h16 : sectors ≤ 16) :
    (issuedAt a k isWrite lba sectors dataOff).data
      = (issuedAt a k isWrite lba sectors dataOff).window.read dataOff (sectors * 512) := by
  have hlow : slice (prdtEntry (a.phys + dataOff) sectors) 0 4 = le32 (a.phys + dataOff) := rfl
  have hhigh : slice (prdtEntry (a.phys + dataOff) sectors) 4 4
      = le32 ((a.phys + dataOff) / 2 ^ 32) := rfl
  have haddr : joinWords (addrWords (a.phys + dataOff)) - a.phys = dataOff := by
    rw [joinWords_addrWords (phys_lt a hoff)]
    omega
  rw [addrWords, ← ofLe_le32_mod, ← ofLe_le32_mod] at haddr
  rw [data, byteCount_issuedAt hk h1 h16, prdt_issuedAt hk, hlow, hhigh, fetch]
  exact congrArg (fun addr => Memory.read _ addr _) haddr

end Issued

/-! ## Structures in the data page -/

/-- The byte of the port's table or header at an offset of the window. -/
def structureByte (phys k lba sectors off : Nat) : Option UInt8 :=
  if k ≤ off ∧ off < k + 16 then (cmdHeader true (phys + (k + 1280)))[off - k]?
  else if k + 1280 ≤ off ∧ off < k + 1376 then
    (cmdTable true lba sectors (phys + SATA_PAGE))[off - (k + 1280)]?
  else none

theorem window_issuedAt (a : Ahci) (k lba sectors off : Nat) :
    (issuedAt a k true lba sectors SATA_PAGE).window off
      = (structureByte a.phys k lba sectors off).getD (a.window off) := by
  unfold issuedAt structureByte
  dsimp only
  by_cases hheader : k ≤ off ∧ off < k + 16
  · obtain ⟨i, rfl⟩ := Nat.exists_eq_add_of_le hheader.1
    have hi : i < (cmdHeader true (a.phys + (k + 1280))).length := by
      rw [cmdHeader_length]
      omega
    rw [if_pos hheader, Memory.write_inside hi, Nat.add_sub_cancel_left,
      List.getElem?_eq_getElem hi, Option.getD_some, List.getD_eq_getElem _ _ hi]
  · rw [if_neg hheader, Memory.write_outside (by rw [cmdHeader_length]; omega)]
    by_cases htable : k + 1280 ≤ off ∧ off < k + 1376
    · obtain ⟨i, rfl⟩ := Nat.exists_eq_add_of_le htable.1
      have hi : i < (cmdTable true lba sectors (a.phys + SATA_PAGE)).length := by
        rw [cmdTable_length]
        omega
      rw [if_pos htable, Memory.write_inside hi, Nat.add_sub_cancel_left,
        List.getElem?_eq_getElem hi, Option.getD_some, List.getD_eq_getElem _ _ hi]
    · rw [if_neg htable, Memory.write_outside (by rw [cmdTable_length]; omega), Option.getD_none]

/-- Wherever the structures of the port reach into the page of a chunk, they hold what the page
does. -/
def Intact (phys k total : Nat) (seed : Block 32) (lba : Nat) : Prop :=
  ∀ i < sataChunk total lba * 512,
    ∀ b ∈ structureByte phys k lba (sataChunk total lba) (SATA_PAGE + i),
      b = (sataPage seed total lba).getD i 0

/-- Structures in front of the page or behind it are not in the way. -/
theorem intact_of_clear {phys k total lba : Nat} {seed : Block 32}
    (h : k + 1376 ≤ SATA_PAGE ∨ SATA_PAGE + 8192 ≤ k) : Intact phys k total seed lba := by
  intro i hi b hb
  have hchunk : sataChunk total lba ≤ 16 := Nat.min_le_left _ _
  have hnone : structureByte phys k lba (sataChunk total lba) (SATA_PAGE + i) = none := by
    rw [structureByte, if_neg (by omega), if_neg (by omega)]
  rw [hnone] at hb
  cases hb

section command

variable {a : Ahci} {k total lba : Nat} {seed : Block 32}

/-- The command of a chunk, issued once its page was filled. -/
def chunkCommand (a : Ahci) (k total : Nat) (seed : Block 32) (lba : Nat) : Issued :=
  issuedAt { a with window := a.window.write SATA_PAGE (sataPage seed total lba) } k true lba
    (sataChunk total lba) SATA_PAGE

theorem sataPage_length (seed : Block 32) (total lba : Nat) :
    (sataPage seed total lba).length = sataChunk total lba * 512 := keystream_length ..

/-- **The data of a command** is the keystream exactly when the structures leave the page intact. -/
theorem data_iff (hk : Issued.Fits k) (hchunk : 1 ≤ sataChunk total lba) :
    (chunkCommand a k total seed lba).data = sataPage seed total lba
      ↔ Intact a.phys k total seed lba := by
  have hle : sataChunk total lba ≤ 16 := Nat.min_le_left _ _
  rw [chunkCommand, Issued.data_issuedAt hk (by decide) hchunk hle, ← sataPage_length seed,
    Memory.read_eq_iff]
  refine forall_congr' fun i => ?_
  rw [sataPage_length]
  refine imp_congr_right fun hi => ?_
  have hpage : ({ a with window := a.window.write SATA_PAGE (sataPage seed total lba) } : Ahci).window
      (SATA_PAGE + i) = (sataPage seed total lba).getD i 0 :=
    Memory.write_inside (by rwa [sataPage_length])
  rw [window_issuedAt, hpage]
  cases structureByte a.phys k lba (sataChunk total lba) (SATA_PAGE + i) with
  | none => simp
  | some b => simp

end command

/-! ## The commands of a pass -/

/-- Commands that write the sectors from `lba` to `total` one behind the other, each 1 to 16 of
them with the keystream of its own first sector. -/
def Tiles (total : Nat) (seed : Block 32) : Nat → List Issued → Prop
  | lba, [] => lba = total
  | lba, c :: cs => c.command = 0x35 ∧ c.lba = lba ∧ (1 ≤ c.count ∧ c.count ≤ 16)
    ∧ c.byteCount = c.count * 512 ∧ c.data = keystream seed (lbaNonce lba) (c.count * 512)
    ∧ Tiles total seed (lba + c.count) cs

/-- The pass returns a verdict, and its commands cover the disk. -/
def CoversDisk (hba : Hba) (port total : Nat) (seed : Block 32) (s : Session) : Prop :=
  ∃ s', (∃ enough, ∀ turns ≥ enough,
      wipeSata hba port total seed turns s = (.ok (.purged true false), s'))
    ∧ ∃ cmds, s'.issued = s.issued ++ cmds ∧ Tiles total seed 0 cmds

section loop

variable {hba : Hba} {port k total lba : Nat} {seed : Block 32} {s : Session}

theorem sataChunk_le (total lba : Nat) : lba < total → sataChunk total lba ≤ total - lba := by
  intro h
  have hmod := Nat.mod_le (total - lba) (2 ^ 16)
  unfold sataChunk
  omega

/-- **One turn of the pass** with sectors to write: one command goes out. -/
theorem sataLoop_turn (hba_ok : hba.Completes) (hport : port < 32) (hplaced : s.ahci.PlacedAt port k)
    (htotal : total < 2 ^ 48) (hlba : lba < total) (hchunk : 1 ≤ sataChunk total lba) :
    ∃ m progress, ∀ turns, sataLoop hba port total seed lba (turns + 1) s
      = sataLoop hba port total seed (lba + sataChunk total lba) turns
          ⟨{ s.ahci with window := m }, s.issued ++ [chunkCommand s.ahci k total seed lba],
            progress⟩ := by
  have hle := sataChunk_le total lba hlba
  have hfilled : (fillPage seed total lba s).ahci.PlacedAt port k := ⟨hplaced.areas, hplaced.clb⟩
  have hissued := @issue_issued _ port k lba (sataChunk total lba) SATA_PAGE true hfilled
  obtain ⟨m, hframe⟩ := @pollPort_frame hba
    ((fillPage seed total lba s).issue port true lba (sataChunk total lba) SATA_PAGE) Hba.POLLS 0
  have hok := (@pollPort_completed hba
    ((fillPage seed total lba s).issue port true lba (sataChunk total lba) SATA_PAGE)).mpr (hba_ok _)
  have hio : dmaIo hba port true lba (sataChunk total lba) SATA_PAGE (fillPage seed total lba s)
      = (.ok (), ((fillPage seed total lba s).issue port true lba (sataChunk total lba)
          SATA_PAGE).setWindow m) :=
    (dmaIo_run hport hfilled hchunk).trans (Prod.ext hok hframe)
  refine ⟨m, s.progress ++ [(lba + sataChunk total lba) * 1000 / max total 1 % 2 ^ 32],
    fun turns => ?_⟩
  rw [sataLoop, if_pos hlba]
  show (dmaIo hba port true lba (sataChunk total lba) SATA_PAGE >>= _) _ = _
  rw [Prog.bind_run_ok hio, reportProgress, if_pos (by omega)]
  show sataLoop hba port total seed (lba + sataChunk total lba) turns _ = _
  congr 1
  exact Session.mk.injEq .. ▸ ⟨rfl, hissued, rfl⟩

/-- With no sectors left the pass ends. -/
theorem sataLoop_done (turns : Nat) :
    sataLoop hba port total seed total (turns + 1) s = (.ok (.purged true false), s) := by
  rw [sataLoop, if_neg (Nat.lt_irrefl total)]
  rfl

/-- The command of a chunk is in its place, and its data is the keystream when it is intact. -/
theorem tiles_cons_iff {a : Ahci} {cmds : List Issued} (hk : Issued.Fits k) (htotal : total < 2 ^ 48)
    (hlba : lba < total) (hchunk : 1 ≤ sataChunk total lba) :
    Tiles total seed lba (chunkCommand a k total seed lba :: cmds)
      ↔ Intact a.phys k total seed lba ∧ Tiles total seed (lba + sataChunk total lba) cmds := by
  have hle : sataChunk total lba ≤ 16 := Nat.min_le_left _ _
  have hcount : (chunkCommand a k total seed lba).count = sataChunk total lba :=
    Issued.count_issuedAt hk (by omega)
  have hlba' : (chunkCommand a k total seed lba).lba = lba := Issued.lba_issuedAt hk (by omega)
  have hcommand : (chunkCommand a k total seed lba).command = 0x35 := Issued.command_issuedAt hk
  have hbytes : (chunkCommand a k total seed lba).byteCount = sataChunk total lba * 512 :=
    Issued.byteCount_issuedAt hk hchunk hle
  rw [Tiles, hcount, hlba', hcommand, hbytes, ← @data_iff a k total lba seed hk hchunk]
  constructor
  · rintro ⟨-, -, -, -, hdata, hrest⟩
    exact ⟨hdata, hrest⟩
  · rintro ⟨hdata, hrest⟩
    exact ⟨rfl, rfl, ⟨hchunk, hle⟩, rfl, hdata, hrest⟩

/-- **Run lemma.** With fewer than 2^16 sectors left each command takes the next 16, or the rest. -/
theorem sataLoop_covers (hba_ok : hba.Completes) (hport : port < 32)
    (hplaced : s.ahci.PlacedAt port k) (hk : Issued.Fits k) (htotal : total < 2 ^ 16)
    (hle : lba ≤ total) (haligned : 16 ∣ lba ∨ lba = total) :
    ∃ s' cmds, (∀ turns > total - lba, sataLoop hba port total seed lba turns s
        = (.ok (.purged true false), s'))
      ∧ s'.issued = s.issued ++ cmds
      ∧ (Tiles total seed lba cmds
        ↔ ∀ l, lba ≤ l → l < total → 16 ∣ l → Intact s.ahci.phys k total seed l) := by
  -- the sectors left get fewer
  induction hleft : total - lba using Nat.strong_induction_on generalizing lba s with
  | _ left ih =>
    rcases Nat.eq_or_lt_of_le hle with rfl | hlt
    · refine ⟨s, [], fun turns hturns => ?_, by simp, ?_⟩
      · obtain ⟨n, rfl⟩ : ∃ n, turns = n + 1 := ⟨turns - 1, by omega⟩
        exact sataLoop_done n
      · exact ⟨fun _ l hl hlt => absurd hlt (by omega), fun _ => rfl⟩
    · have hchunk : sataChunk total lba = min 16 (total - lba) := by
        rw [sataChunk, Nat.mod_eq_of_lt (by omega)]
      obtain ⟨m, progress, hturn⟩ := @sataLoop_turn hba port k total lba seed s hba_ok hport hplaced
        (by omega) hlt (by omega)
      have hdvd : 16 ∣ lba := haligned.resolve_right (by omega)
      obtain ⟨s', cmds, hrun, hissued, htiles⟩ := @ih (total - (lba + sataChunk total lba)) (by omega)
        (lba + sataChunk total lba) ⟨{ s.ahci with window := m },
          s.issued ++ [chunkCommand s.ahci k total seed lba], progress⟩ ⟨hplaced.areas, hplaced.clb⟩
        (by omega) (by omega) rfl
      refine ⟨s', chunkCommand s.ahci k total seed lba :: cmds, fun turns hturns => ?_, ?_, ?_⟩
      · obtain ⟨n, rfl⟩ : ∃ n, turns = n + 1 := ⟨turns - 1, by omega⟩
        rw [hturn n]
        exact hrun n (by omega)
      · rw [hissued, List.append_assoc]
        rfl
      · rw [tiles_cons_iff hk (by omega) hlt (by omega), htiles]
        constructor
        · rintro ⟨hhere, hrest⟩ l hl hltotal hldvd
          rcases Nat.eq_or_lt_of_le hl with rfl | hafter
          · exact hhere
          · exact hrest l (by omega) hltotal hldvd
        · intro hall
          exact ⟨hall lba (le_refl lba) hlt hdvd,
            fun l hl hltotal hldvd => hall l (by omega) hltotal hldvd⟩

/-- **Run lemma.** With 2^16 sectors left or more, the pass comes to a multiple of 2^16 of them,
and there it unwinds. -/
theorem sataLoop_unwinds (hba_ok : hba.Completes) (hport : port < 32)
    (hplaced : s.ahci.PlacedAt port k) (htotal : total < 2 ^ 48) (hlba : lba + 2 ^ 16 ≤ total) :
    Prog.Returns (sataLoop hba port total seed lba) s .panic := by
  induction hrest : (total - lba) % 2 ^ 16 using Nat.strong_induction_on generalizing lba s with
  | _ rest ih =>
    by_cases hzero : rest = 0
    · have hchunk : sataChunk total lba = 0 := by
        rw [sataChunk, hrest, hzero]
        rfl
      refine .of_end rfl fun turns => ?_
      rw [sataLoop, if_pos (by omega)]
      show ((dmaIo hba port true lba (sataChunk total lba) SATA_PAGE >>= _) _).1 = _
      rw [hchunk, Prog.bind_run, Prog.andThen, dmaIo_nothing]
    · have hchunk : sataChunk total lba = min 16 rest := by rw [sataChunk, hrest]
      obtain ⟨m, progress, hturn⟩ := @sataLoop_turn hba port k total lba seed s hba_ok hport hplaced
        htotal (by omega) (by omega)
      exact .of_turn rfl (fun turns => congrArg Prod.fst (hturn turns))
        (@ih (rest - sataChunk total lba) (by omega) (lba + sataChunk total lba) _
          ⟨hplaced.areas, hplaced.clb⟩ (by omega) (by omega))

/-- Each command that the pass went past has completed. -/
theorem sataLoop_completed {turns : Nat} {verdict : DeviceVerdict} {s' : Session}
    (h : sataLoop hba port total seed lba turns s = (.ok verdict, s')) :
    ∃ cmds, s'.issued = s.issued ++ cmds
      ∧ ∀ n < cmds.length, hba.Completed (s.issued ++ cmds.take (n + 1)) := by
  induction turns generalizing lba s with
  | zero => cases h
  | succ turns ih =>
    rw [sataLoop] at h
    by_cases hlba : lba < total
    · rw [if_pos hlba] at h
      have hio : (dmaIo hba port true lba (sataChunk total lba) SATA_PAGE >>= _)
        (fillPage seed total lba s) = (Outcome.ok verdict, s') := h
      obtain ⟨u, s₁, hrun, hrest⟩ := Prog.bind_eq_ok.mp hio
      obtain ⟨c, hissued, hcompleted⟩ := dmaIo_ok hrun
      obtain ⟨u, s₂, hprogress, hloop⟩ := Prog.bind_eq_ok.mp hrest
      have hsame : s₂.issued = s₁.issued := by
        unfold reportProgress at hprogress
        by_cases hfits : (lba + sataChunk total lba) * 1000 < 2 ^ 64
        · rw [if_pos hfits] at hprogress
          cases hprogress
          rfl
        · rw [if_neg hfits] at hprogress
          cases hprogress
      obtain ⟨cmds, hafter, hall⟩ := ih hloop
      have hissued' : s₂.issued = s.issued ++ [c] := hsame.trans hissued
      refine ⟨c :: cmds, by rw [hafter, hissued', List.append_assoc]; rfl, fun n hn => ?_⟩
      cases n with
      | zero =>
        rw [hissued] at hcompleted
        exact hcompleted
      | succ n =>
        have hnext := hall n (by simpa using hn)
        rw [hissued', List.append_assoc] at hnext
        exact hnext
    · rw [if_neg hlba] at h
      cases h
      exact ⟨[], by simp, fun n hn => absurd hn (Nat.not_lt_zero n)⟩

end loop

/-! ## The disks that the pass covers -/

/-- **The pass covers the disk** on an adapter that completes each command exactly when the disk has
fewer than 2^16 sectors and the structures of the port leave the data pages intact; and no verdict
is returned past a command that did not complete. -/
theorem wipeSata_covers_iff (hba : Hba) (seed : Block 32) (started : List Nat) (s : Session)
    (hstarted : s.ahci.Driven started) (n port : Nat) (hport : started[n]? = some port) (total : Nat)
    (htotal : total < 2 ^ 48) :
    (hba.Completes → (CoversDisk hba port total seed s ↔ total < 2 ^ 16
      ∧ ∀ lba < total, 16 ∣ lba → Intact s.ahci.phys (n * 1664) total seed lba))
    ∧ ∀ turns verdict s', wipeSata hba port total seed turns s = (.ok verdict, s') →
      ∃ cmds, s'.issued = s.issued ++ cmds
        ∧ ∀ n < cmds.length, hba.Completed (s.issued ++ cmds.take (n + 1)) := by
  obtain ⟨hlt, hplaced⟩ := hstarted.placed.2 n port hport
  have hk : Issued.Fits (n * 1664) := by
    have hn := (List.getElem?_eq_some_iff.mp hport).1
    have hle := hstarted.length_le
    unfold Issued.Fits
    omega
  refine ⟨fun hba_ok => ?_, fun turns verdict s' h => sataLoop_completed h⟩
  by_cases hsmall : total < 2 ^ 16
  · obtain ⟨s', cmds, hrun, hissued, htiles⟩ := @sataLoop_covers hba port _ total 0 seed s hba_ok hlt
      hplaced hk hsmall (Nat.zero_le total) (Or.inl (Nat.dvd_zero 16))
    have hpages : Tiles total seed 0 cmds
        ↔ ∀ lba < total, 16 ∣ lba → Intact s.ahci.phys (n * 1664) total seed lba :=
      htiles.trans ⟨fun hall l => hall l (Nat.zero_le l), fun hall l _ => hall l⟩
    rw [← hpages]
    constructor
    · rintro ⟨s'', ⟨enough, hrun'⟩, cmds', hissued', htiles'⟩
      -- both runs are one run
      have hone := (hrun' (enough + total + 1) (by omega)).symm.trans (hrun (enough + total + 1)
        (by omega))
      rw [Prod.mk.injEq] at hone
      rw [hone.2, hissued] at hissued'
      exact ⟨hsmall, List.append_cancel_left hissued' ▸ htiles'⟩
    · rintro ⟨-, htiles'⟩
      exact ⟨s', ⟨total + 1, fun turns hturns => hrun turns (by omega)⟩, cmds, hissued, htiles'⟩
  · refine ⟨fun hcovers => ?_, fun h => absurd h.1 hsmall⟩
    obtain ⟨s', ⟨enough, hrun⟩, -⟩ := hcovers
    have hreturns := @sataLoop_unwinds hba port _ total 0 seed s hba_ok hlt hplaced htotal (by omega)
    have hone := hreturns.of_run (congrArg Prod.fst (hrun enough (le_refl enough))) nofun
    cases hone

/-! ### Disks of one sector and of 2^16 -/

/-- An adapter that completes each command at the first poll. -/
def promptHba : Hba where
  poll _ _ := (0, PORT_IRQ_DH)
  dma _ _ m := m

theorem promptHba_completes : promptHba.Completes := fun issued =>
  ⟨0, by decide, by show (0 : UInt32) &&& 1 = 0 ∧ PORT_IRQ_DH &&& PORT_IRQ_DH ≠ 0; decide,
    fun _ _ => by show PORT_IRQ_DH &&& PORT_IRQ_TFE = 0; decide⟩

def zeroSeed : Block 32 := Block.ofNat 32 0

/-- The driver with port 0 started. -/
def startedDriver : Ahci := (Ahci.init 0x10000000 (by decide) fun _ => 0).startPort 0

theorem startedDriver_driven : startedDriver.Driven [0] :=
  .start (.init 0x10000000 (by decide) fun _ => 0) (by decide) (by decide)

def startedSession : Session := ⟨startedDriver, [], []⟩

theorem startedSession_covers_one : CoversDisk promptHba 0 1 zeroSeed startedSession := by
  obtain ⟨hcovers, -⟩ := wipeSata_covers_iff promptHba zeroSeed [0] startedSession
    startedDriver_driven 0 0 rfl 1 (by decide)
  exact (hcovers promptHba_completes).mpr
    ⟨by decide, fun lba _ _ => intact_of_clear (Or.inl (by decide))⟩

/-- The count of 2^16 sectors is cut to zero, and the first command unwinds. -/
theorem startedSession_not_covers :
    promptHba.Completes ∧ ¬ CoversDisk promptHba 0 (2 ^ 16) zeroSeed startedSession := by
  refine ⟨promptHba_completes, fun hcovers => ?_⟩
  obtain ⟨s', ⟨enough, hrun⟩, -⟩ := hcovers
  have hplaced := (startedDriver_driven.placed.2 0 0 rfl).2
  have hreturns := @sataLoop_unwinds promptHba 0 _ (2 ^ 16) 0 zeroSeed startedSession
    promptHba_completes (by decide) hplaced (by decide) (by decide)
  have hone := hreturns.of_run (congrArg Prod.fst (hrun enough (le_refl enough))) nofun
  cases hone

end Baremetal

end DiscCleaner
