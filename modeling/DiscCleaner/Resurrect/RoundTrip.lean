import DiscCleaner.Resurrect.ProofScan

/-!
# A written proof is read back (dc-resurrect `attest.rs`)

The reader is run over the whole text that `write_file` puts out, section by section. It gathers the
records, their leaves and the sampled proofs as they were, so that only the accounting is left to
decide: the reader counts at least one block for a die, the writer as many as the geometry says.
-/

namespace DiscCleaner.Resurrect

open ByteLib TextLib ErasureProof

variable {sha256 : Bytes → Block 32}

theorem foldlM_append_ok {f : Scan → Text → Except Halt Scan} {xs : List Text} {s s' : Scan}
    (h : xs.foldlM f s = .ok s') (ys : List Text) : (xs ++ ys).foldlM f s = ys.foldlM f s' := by
  rw [List.foldlM_append, h]
  rfl

theorem foldlM_cons_ok {f : Scan → Text → Except Halt Scan} {x : Text} {s s' : Scan}
    (h : f s x = .ok s') (ys : List Text) : (x :: ys).foldlM f s = ys.foldlM f s' := by
  rw [List.foldlM_cons, h]
  rfl

namespace Scan

/-- Where no proof is under way, there is none to close. -/
theorem enter_of_none {s : Scan} (h : s.curProof = none) (name : Text) :
    s.enter name = { s with within := name } := by
  simp only [enter, closeProof, h, Option.toList_none, List.append_nil]

/-! ## The header -/

/-- What the reader has gathered from the header of a proof. -/
def ofHeader (p : ErasureProof) : Scan where
  controller := trim p.controller.toList
  rootHex := hexText p.merkleRoot
  payloadSha := p.payloadSha256
  total := p.stats.total
  ppb := p.geometry.pagesPerBlock
  bpl := p.geometry.blocksPerLun
  luns := p.geometry.luns

theorem foldlM_header (p : ErasureProof) :
    ("DC-RESURRECT ERASURE PROOF v1".toList :: p.headerLines).foldlM (line sha256) {} =
      .ok (ofHeader p) := by
  have htitle : line sha256 {} "DC-RESURRECT ERASURE PROOF v1".toList = .ok {} := rfl
  rw [foldlM_cons_ok htitle]
  simp only [headerLines]
  -- The lines in their order: five of them the reader looks for, it passes over the others.
  rw [foldlM_cons_ok (line_other rfl (by decide) (by decide) _),
    foldlM_cons_ok (line_controller rfl _),
    foldlM_cons_ok (line_other rfl (by decide) (by decide) _),
    foldlM_cons_ok (line_other rfl (by decide) (by decide) _),
    foldlM_cons_ok (line_payloadSha256 rfl _),
    foldlM_cons_ok (line_other rfl (by decide) (by decide) _),
    foldlM_cons_ok (line_other rfl (by decide) (by decide) _),
    foldlM_cons_ok (line_geometry rfl _),
    foldlM_cons_ok (line_other rfl (by decide) (by decide) _),
    foldlM_cons_ok (line_blocksTotal rfl _),
    foldlM_cons_ok (line_other rfl (by decide) (by decide) _),
    foldlM_cons_ok (line_other rfl (by decide) (by decide) _),
    foldlM_cons_ok (line_other rfl (by decide) (by decide) _),
    foldlM_cons_ok (line_other rfl (by decide) (by decide) _),
    foldlM_cons_ok (line_merkleRoot rfl _),
    foldlM_cons_ok (line_other rfl (by decide) (by decide) _),
    foldlM_cons_ok (line_other rfl (by decide) (by decide) _),
    foldlM_cons_ok (line_other rfl (by decide) (by decide) _),
    foldlM_cons_ok (line_other rfl (by decide) (by decide) _)]
  rfl

/-! ## The sections -/

/-- The leaves of the records, in their order. -/
theorem foldlM_leaves {s : Scan} (hs : s.within = "[leaves]".toList) (records : List BlockRecord) :
    (records.map (ErasureProof.leafLine sha256)).foldlM (line sha256) s =
      .ok { s with
        leaves := s.leaves ++ records.map (BlockRecord.leafHash sha256)
        records := s.records ++ records } := by
  induction records generalizing s with
  | nil =>
    simp only [List.map_nil, List.append_nil]
    rfl
  | cons r records ih =>
    let next : Scan := { s with
      leaves := s.leaves ++ [r.leafHash sha256], records := s.records ++ [r] }
    rw [List.map_cons, foldlM_cons_ok (line_leaf hs r), ih (s := next) hs]
    simp only [next, List.map_cons, List.append_assoc, List.singleton_append]

theorem foldlM_records {s : Scan} (hs : s.within = "[records]".toList)
    (records : List BlockRecord) :
    (records.map recordLine).foldlM (line sha256) s = .ok s := by
  induction records with
  | nil => rfl
  | cons r records ih => rw [List.map_cons, foldlM_cons_ok (line_record hs r), ih]

variable (sha256) in
/-- With or without the full records, no more than the section changes. -/
theorem foldlM_fullRecords {s : Scan} (hs : s.curProof = none) (full : Bool)
    (records : List BlockRecord) :
    ∃ name, (recordSection records full).foldlM (line sha256) s = .ok { s with within := name } := by
  cases full with
  | false => exact ⟨s.within, rfl⟩
  | true =>
    have hsection := line_section sha256 s "[records]".toList (by decide) (by decide)
    refine ⟨"[records]".toList, ?_⟩
    rw [recordSection, if_pos rfl, List.cons_append, List.singleton_append,
      foldlM_cons_ok (line_nil s),
      foldlM_cons_ok hsection, foldlM_records rfl, enter_of_none hs]

theorem foldlM_siblings {s : Scan} (hs : s.within = "[inclusion-proofs]".toList)
    (proof : InclusionProof) (path : List (Block 32 × Bool)) :
    (path.map siblingLine).foldlM (line sha256) (s.withProof proof) =
      .ok (s.withProof { proof with path := proof.path ++ path }) := by
  induction path generalizing proof with
  | nil =>
    simp only [List.append_nil]
    rfl
  | cons step path ih =>
    rw [List.map_cons, foldlM_cons_ok (line_sibling hs proof step), ih]
    simp only [List.append_assoc, List.singleton_append]

/-- The lines of a proof close the one before it and leave this one under way. -/
theorem foldlM_inclusionLines {s : Scan} (hs : s.within = "[inclusion-proofs]".toList)
    (proof : InclusionProof) :
    (inclusionLines proof).foldlM (line sha256) s = .ok (s.closeProof.withProof proof) := by
  have hclosed : s.closeProof.within = "[inclusion-proofs]".toList := hs
  rw [inclusionLines, foldlM_cons_ok (line_index hs proof.index),
    foldlM_cons_ok (line_leafHash hclosed _ proof.leaf), foldlM_siblings hclosed]
  rfl

variable (sha256) in
/-- Once the last one is closed, the proofs are those that were written. -/
theorem foldlM_inclusionProofs {s : Scan} (hs : s.within = "[inclusion-proofs]".toList)
    (proofs : List InclusionProof) :
    ∃ s', (proofs.flatMap inclusionLines).foldlM (line sha256) s = .ok s' ∧
      s'.closeProof = { s.closeProof with proofs := s.closeProof.proofs ++ proofs } := by
  induction proofs generalizing s with
  | nil =>
    refine ⟨s, rfl, ?_⟩
    simp only [List.append_nil]
  | cons proof proofs ih =>
    obtain ⟨s', hrun, hclose⟩ := ih (s := s.closeProof.withProof proof) hs
    refine ⟨s', ?_, ?_⟩
    · rw [List.flatMap_cons, foldlM_append_ok (foldlM_inclusionLines hs proof), hrun]
    · rw [hclose]
      simp [closeProof, withProof]

/-! ## The whole text -/

/-- What the reader has gathered at the end of the text. -/
def ofProof (sha256 : Bytes → Block 32) (p : ErasureProof) : Scan :=
  { ofHeader p with
    leaves := p.records.map (BlockRecord.leafHash sha256)
    records := p.records
    proofs := p.sampled
    within := "[end]".toList }

/-- **The lines of a proof file are read back as the proof.** -/
theorem foldlM_fileLines (p : ErasureProof) (full : Bool) :
    (p.fileLines sha256 full).foldlM (line sha256) {} = .ok (ofProof sha256 p) := by
  have hopen (s : Scan) := line_section sha256 s "[leaves]".toList (by decide) (by decide)
  have hproofs (s : Scan) := line_section sha256 s "[inclusion-proofs]".toList (by decide) (by decide)
  have hend (s : Scan) := line_section sha256 s "[end]".toList (by decide) (by decide)
  let gathered (name : Text) : Scan := { ofHeader p with
    leaves := p.records.map (BlockRecord.leafHash sha256), records := p.records, within := name }
  have hleaves : (p.records.map (ErasureProof.leafLine sha256)).foldlM (line sha256)
      ((ofHeader p).enter "[leaves]".toList) = .ok (gathered "[leaves]".toList) :=
    foldlM_leaves rfl p.records
  obtain ⟨name, hfull⟩ := foldlM_fullRecords sha256 (s := gathered "[leaves]".toList)
    rfl full p.records
  obtain ⟨s', hrun, hclose⟩ := foldlM_inclusionProofs sha256
    (s := (gathered name).enter "[inclusion-proofs]".toList) rfl p.sampled
  have hlast : s'.enter "[end]".toList = ofProof sha256 p := by
    rw [enter, hclose]
    rfl
  -- The header, the leaves, the full records when they are there, the proofs, the end.
  simp only [fileLines, List.append_assoc, List.cons_append, List.nil_append]
  rw [← List.cons_append, foldlM_append_ok (foldlM_header p), foldlM_cons_ok (line_nil _),
    foldlM_cons_ok (hopen _), foldlM_append_ok hleaves, foldlM_append_ok hfull,
    foldlM_cons_ok (line_nil _), foldlM_cons_ok (hproofs _), foldlM_append_ok hrun,
    foldlM_cons_ok (line_nil _), foldlM_cons_ok (hend _), hlast]
  rfl

end Scan

/-! ## The text as lines -/

theorem notMem_keyed {key : String} {value : Text} (hkey : IsKey key) (hvalue : '\n' ∉ value) :
    '\n' ∉ keyed key value := by
  have hword : '\n' ∉ key.toList := hkey.word.notMem (by decide)
  simp [keyed, hword, hvalue]

/-- No text of the proof has a line of its own to add. -/
structure ErasureProof.OneLine (p : ErasureProof) : Prop where
  scenario : '\n' ∉ p.scenario.toList
  controller : '\n' ∉ p.controller.toList
  controllerSha256 : '\n' ∉ p.controllerSha256.toList
  payloadStage : '\n' ∉ p.payloadStage.toList
  rig : '\n' ∉ p.rig.toList

theorem ErasureProof.OneLine.of_scenario {p : ErasureProof}
    (h : ({ p with scenario := "" } : ErasureProof).OneLine) (hscenario : '\n' ∉ p.scenario.toList) :
    p.OneLine :=
  ⟨hscenario, h.controller, h.controllerSha256, h.payloadStage, h.rig⟩

theorem notMem_headerLines {p : ErasureProof} (h : p.OneLine) :
    ∀ text ∈ p.headerLines, '\n' ∉ text := by
  have hdecimal (n : Nat) : '\n' ∉ decimal n := (isWord_decimal n).notMem (by decide)
  have hpad (w n : Nat) : '\n' ∉ hexPad (w + 1) n :=
    (isWord_hexPad (Nat.succ_ne_zero w) n).notMem (by decide)
  have hhex (b : Block 32) : '\n' ∉ hexText b := (isWord_hexText b).notMem (by decide)
  have hgeometry : '\n' ∉ ['|'].intercalate (geometryParts p.geometry) := by
    rw [intercalate_geometryParts]
    simp [hdecimal]
  have hmode : '\n' ∉ p.verifyMode.text.toList := by
    cases p.verifyMode <;> decide
  simp only [headerLines, List.forall_mem_cons]
  exact ⟨notMem_keyed (by decide) h.scenario, notMem_keyed (by decide) h.controller,
    notMem_keyed (by decide) h.controllerSha256, notMem_keyed (by decide) h.payloadStage,
    notMem_keyed (by decide) (hhex _), notMem_keyed (by decide) (hdecimal _),
    notMem_keyed (by decide) (hpad 7 _), notMem_keyed (by decide) hgeometry,
    notMem_keyed (by decide) hmode, notMem_keyed (by decide) (hdecimal _),
    notMem_keyed (by decide) (hdecimal _), notMem_keyed (by decide) (hdecimal _),
    notMem_keyed (by decide) (hdecimal _), notMem_keyed (by decide) (hdecimal _),
    notMem_keyed (by decide) (hhex _), notMem_keyed (by decide) (hpad 15 _),
    notMem_keyed (by decide) (hdecimal _), notMem_keyed (by decide) (hdecimal _),
    notMem_keyed (by decide) h.rig, by simp⟩

theorem notMem_unwords_of_isWord {ws : List Text} (h : ∀ w ∈ ws, IsWord w) :
    '\n' ∉ unwords ws :=
  notMem_unwords (fun w hw => (h w hw).notMem (by decide)) (by decide)

theorem notMem_inclusionLines (proof : InclusionProof) :
    ∀ text ∈ inclusionLines proof, '\n' ∉ text := by
  have hhex (b : Block 32) : '\n' ∉ hexText b := (isWord_hexText b).notMem (by decide)
  simp only [inclusionLines, List.forall_mem_cons, List.forall_mem_map]
  refine ⟨notMem_keyed (by decide) ((isWord_decimal _).notMem (by decide)),
    notMem_keyed (by decide) (hhex _), fun step _ => notMem_keyed (by decide) ?_⟩
  exact notMem_unwords_of_isWord (isWord_sibling step)

theorem notMem_fileLines {p : ErasureProof} (h : p.OneLine) (full : Bool) :
    ∀ text ∈ p.fileLines sha256 full, '\n' ∉ text := by
  have hleaves : ∀ r ∈ p.records, '\n' ∉ ErasureProof.leafLine sha256 r := fun r _ =>
    notMem_unwords_of_isWord (isWord_leafLine sha256 r)
  have hrecords : ∀ text ∈ recordSection p.records full, '\n' ∉ text := by
    cases full with
    | false => simp [recordSection]
    | true =>
      simp only [recordSection, if_true, List.cons_append, List.nil_append, List.forall_mem_cons,
        List.forall_mem_map]
      exact ⟨by decide, by decide, fun r _ => notMem_unwords_of_isWord (isWord_recordLine r)⟩
  have hproofs : ∀ text ∈ p.sampled.flatMap inclusionLines, '\n' ∉ text := by
    intro text htext
    obtain ⟨proof, _, hline⟩ := List.mem_flatMap.mp htext
    exact notMem_inclusionLines proof text hline
  simp only [fileLines, List.forall_mem_append, List.forall_mem_cons, List.forall_mem_map]
  exact ⟨⟨⟨⟨⟨⟨⟨by decide, notMem_headerLines h⟩, by decide, by decide, by simp⟩, hleaves⟩, hrecords⟩,
    by decide, by decide, by simp⟩, hproofs⟩, by decide, by decide, by simp⟩

/-- The reader takes a text of lines line by line: a carriage return it loses at the end of one would
go with the white space there. -/
theorem foldlM_lines {texts : List Text} (h : ∀ text ∈ texts, '\n' ∉ text) (s : Scan) :
    (lines (texts.flatMap (· ++ ['\n']))).foldlM (Scan.line sha256) s =
      texts.foldlM (Scan.line sha256) s := by
  have hstrip : (fun s text => Scan.line sha256 s (stripReturn text)) = Scan.line sha256 := by
    funext s text
    exact Scan.line_stripReturn s text
  rw [lines_flatMap h, List.foldlM_map, hstrip]

/-- The reader gathers from the text of a proof what the proof holds. -/
theorem foldlM_writeFile {p : ErasureProof} (h : p.OneLine) (full : Bool) :
    (lines (p.writeFile sha256 full).toList).foldlM (Scan.line sha256) {} =
      .ok (Scan.ofProof sha256 p) := by
  rw [writeFile, String.toList_ofList, foldlM_lines (notMem_fileLines h full)]
  exact Scan.foldlM_fileLines p full

/-! ## A line within a text

A text with a line break puts a line of its own into the header, and the reader takes it for one of
the writer's. -/

theorem line_blocksTotal_malformed {s : Scan} (hs : s.within = []) {value : Text}
    (hvalue : fromStrRadix 10 (2 ^ 32) (trim value) = none) :
    Scan.line sha256 s (keyed "blocks_total" value) = malformed "blocks_total" := by
  rw [Scan.line_keyed hs (by decide), Scan.headerLine,
    get_keyed_ne (by decide) (by decide) (by decide),
    get_keyed_ne (by decide) (by decide) (by decide),
    get_keyed_ne (by decide) (by decide) (by decide), get_keyed (by decide)]
  simp only [numeral, hvalue]
  rfl

/-- A scenario that goes on with a count that is none is refused for that count. -/
theorem verifyStr_of_scenario_break {p : ErasureProof} {first value : Text}
    (hscenario : p.scenario.toList = first ++ '\n' :: keyed "blocks_total" value)
    (hfirst : '\n' ∉ first) (hvalue : '\n' ∉ value)
    (hnone : fromStrRadix 10 (2 ^ 32) (trim value) = none)
    (hline : ({ p with scenario := "" } : ErasureProof).OneLine) (full : Bool) :
    verifyStr sha256 (p.writeFile sha256 full) = malformed "blocks_total" := by
  let title : Text := "DC-RESURRECT ERASURE PROOF v1".toList
  let later := (({ p with scenario := "" } : ErasureProof).fileLines sha256 full).drop 2
  let read : List Text := title :: keyed "scenario" first :: keyed "blocks_total" value :: later
  have htext : (p.fileLines sha256 full).flatMap (· ++ ['\n']) = read.flatMap (· ++ ['\n']) := by
    have hlines : p.fileLines sha256 full =
        title :: keyed "scenario" p.scenario.toList :: later := rfl
    rw [hlines]
    simp [read, keyed, hscenario]
  have hread : ∀ text ∈ read, '\n' ∉ text := by
    simp only [read, List.forall_mem_cons]
    exact ⟨by decide, notMem_keyed (by decide) hfirst, notMem_keyed (by decide) hvalue,
      fun text htext => notMem_fileLines hline full text (List.mem_of_mem_drop htext)⟩
  have htitle : Scan.line sha256 {} title = .ok {} := rfl
  -- The title and the first line of the scenario pass; its second line ends the reading.
  rw [verifyStr, writeFile, String.toList_ofList, htext, foldlM_lines hread, foldlM_cons_ok htitle,
    foldlM_cons_ok (Scan.line_other rfl (by decide) (by decide) first), List.foldlM_cons,
    line_blocksTotal_malformed rfl hnone]
  rfl

/-! ## What the reader decides -/

/-- A root over the leaves of the records, and samples that verify against it. -/
structure ErasureProof.Attested (sha256 : Bytes → Block 32) (p : ErasureProof) : Prop where
  root : p.merkleRoot = Resurrect.merkleRoot sha256 (p.records.map (BlockRecord.leafHash sha256))
  sampled : ∀ proof ∈ p.sampled, verifyInclusion sha256 proof p.merkleRoot = true

/-- The geometry that the reader counts with: at least one of everything. -/
def ErasureProof.readGeometry (p : ErasureProof) : NandGeometry :=
  ⟨2048, 64, max p.geometry.pagesPerBlock 1, max p.geometry.blocksPerLun 1, max p.geometry.luns 1⟩

/-- The report on a proof. -/
def ErasureProof.report (p : ErasureProof) : VerifyReport where
  controller := String.ofList (trim p.controller.toList)
  stats := p.stats
  merkleRoot := p.merkleRoot
  leavesChecked := p.records.length
  inclusionsChecked := p.sampled.length
  payloadSha256 := p.payloadSha256

/-- Of an attested proof only the accounting is left to decide. -/
theorem finish_ofProof {p : ErasureProof} (h : p.Attested sha256) :
    (Scan.ofProof sha256 p).finish sha256 =
      if p.stats.complete p.readGeometry then .ok p.report
      else .error (.failed .incomplete) := by
  have hclosed : (Scan.ofProof sha256 p).closeProof = Scan.ofProof sha256 p := by
    simp [Scan.closeProof, Scan.ofProof, Scan.ofHeader]
  have hroot : hexHash "root" (Scan.ofProof sha256 p).rootHex = .ok (some p.merkleRoot) :=
    hexHash_hexText "root" p.merkleRoot
  have hleaves : merkleRoot sha256 (Scan.ofProof sha256 p).leaves = p.merkleRoot := h.root.symm
  have hsampled : (Scan.ofProof sha256 p).proofs.any
      (fun proof => !verifyInclusion sha256 proof p.merkleRoot) = false := by
    refine List.any_eq_false.mpr fun proof hproof => ?_
    rw [h.sampled proof hproof]
    decide
  have hstats : BlockStats.fromRecords (Scan.ofProof sha256 p).records
      (Scan.ofProof sha256 p).total = p.stats := by
    show BlockStats.fromRecords p.records p.stats.total = p.stats
    rw [ErasureProof.stats, BlockStats.fromRecords_total]
  simp only [Scan.finish, hclosed, hroot, bind, Except.bind, hleaves, ne_eq, not_true_eq_false,
    if_false, hsampled, Bool.false_eq_true, hstats]
  show (if !p.stats.complete p.readGeometry then _ else _) = _
  cases p.stats.complete p.readGeometry with
  | true => simp [ErasureProof.report, Scan.ofProof, Scan.ofHeader, ErasureProof.stats]
  | false => rfl

/-- **The text of an attested proof is read back as its report, or refused for its accounting.** -/
theorem verifyStr_writeFile {p : ErasureProof} (hline : p.OneLine) (h : p.Attested sha256)
    (full : Bool) :
    verifyStr sha256 (p.writeFile sha256 full) =
      if p.stats.complete p.readGeometry then .ok p.report
      else .error (.failed .incomplete) := by
  rw [verifyStr, foldlM_writeFile hline full, ← finish_ofProof h]
  rfl

/-- What is complete for the geometry is complete for the reader too, but for dies of no blocks: the
reader counts one block for each that failed its ID. -/
theorem complete_readGeometry {p : ErasureProof} (h : p.stats.complete p.geometry = true) :
    p.stats.complete p.readGeometry = true ↔
      (p.geometry.blocksPerLun = 0 → p.stats.dieIdFail = 0) := by
  have hsum := of_decide_eq_true h
  by_cases hzero : p.geometry.blocksPerLun = 0
  · have hmax : p.readGeometry.blocksPerLun = 1 := by
      rw [readGeometry, hzero]
      rfl
    rw [hzero, BlockStats.saturatingMul_zero, UInt32.add_zero] at hsum
    simp only [BlockStats.complete, hmax, BlockStats.saturatingMul_one, decide_eq_true_eq, hzero,
      forall_const, ← hsum]
    exact UInt32.add_eq_left
  · have hmax : p.readGeometry.blocksPerLun = p.geometry.blocksPerLun := by
      show (if p.geometry.blocksPerLun ≤ 1 then 1 else p.geometry.blocksPerLun) = _
      grind
    simp only [BlockStats.complete, hmax, hzero, hsum, decide_true, false_imp_iff]

/-! ## What `build` gives -/

theorem below_lt (rng : XorShift) {n : Nat} (hn : 0 < n) :
    (rng.below (UInt64.ofNat n)).1.toNat < n := by
  rw [XorShift.below]
  split_ifs with hzero
  · exact hn
  · have hpos : 0 < (UInt64.ofNat n).toNat := UInt64.pos_iff_ne_zero.mpr hzero
    have hle : (UInt64.ofNat n).toNat ≤ n := by
      rw [UInt64.toNat_ofNat']
      exact Nat.mod_le n _
    rw [UInt64.toNat_mod]
    exact (Nat.mod_lt _ hpos).trans_le hle

theorem sample_verifies {leaves : List (Block 32)} (hne : leaves ≠ []) (n : Nat) (rng : XorShift) :
    ∃ proofs after, sample sha256 leaves n rng = some (proofs, after) ∧
      ∀ proof ∈ proofs, verifyInclusion sha256 proof (merkleRoot sha256 leaves) = true := by
  induction n generalizing rng with
  | zero => exact ⟨[], rng, rfl, by simp⟩
  | succ n ih =>
    have hindex := below_lt rng (List.length_pos_of_ne_nil hne)
    obtain ⟨proof, hproof, _, hverifies⟩ := inclusionProof_verifies sha256 hindex
    obtain ⟨proofs, after, hrest, hall⟩ := ih (rng.below (UInt64.ofNat leaves.length)).2
    refine ⟨proof :: proofs, after, ?_, ?_⟩
    · simp only [sample, hproof, hrest, Option.bind_eq_bind, Option.bind_some]
    · rw [List.forall_mem_cons]
      exact ⟨hverifies, hall⟩

variable (sha256) in
/-- The sampler gives out proofs that verify, and none over no leaves. -/
theorem sampler_verifies (leaves : List (Block 32)) (rng : XorShift) :
    ∃ proofs after, sampler sha256 leaves rng = some (proofs, after) ∧
      ∀ proof ∈ proofs, verifyInclusion sha256 proof (merkleRoot sha256 leaves) = true := by
  unfold sampler
  by_cases hempty : leaves = []
  · exact ⟨[], rng, if_pos hempty, by simp⟩
  · rw [if_neg hempty]
    exact sample_verifies hempty _ rng

variable (sha256) in
/-- **A proof over any records can be built, and the one that is built is attested.** But for
the scenario it is of one line throughout when the profile is. -/
theorem build_attested (clock : Option UInt64) (scenario : String) (controller : ControllerProfile)
    (stage : Stage) (payloadSha256 : Block 32) (payloadLen payloadCrc32 : UInt32)
    (geometry : NandGeometry) (verifyMode : VerifyMode) (records : List BlockRecord)
    (seed coreInstructions : UInt64) :
    ∃ p, build sha256 clock scenario controller stage payloadSha256 payloadLen payloadCrc32 geometry
        verifyMode records seed coreInstructions = some p ∧
      p.Attested sha256 ∧ p.scenario = scenario ∧ p.geometry = geometry ∧ p.records = records ∧
      ('\n' ∉ controller.name.toList → '\n' ∉ controller.profileSha256.toList →
        ({ p with scenario := "" } : ErasureProof).OneLine) := by
  have hstage : '\n' ∉ stage.name.toList := by
    cases stage <;> decide
  have hrig : '\n' ∉ "dc-resurrect 0.15.0 (sim transport)".toList := by decide
  obtain ⟨proofs, after, hrun, hall⟩ := sampler_verifies sha256
    (records.map (BlockRecord.leafHash sha256)) (XorShift.new (seed ^^^ 0xD15EA5E))
  simp only [build, hrun, Option.bind_eq_bind, Option.bind_some, Option.some.injEq, exists_eq_left']
  exact ⟨⟨rfl, hall⟩, trivial, trivial, trivial, fun hname hsha =>
    ⟨List.not_mem_nil, hname, hsha, hstage, hrig⟩⟩

/-! ## The round trip -/

/-- **Merkle completeness and the round trip of a proof.** Each leaf of a list has an inclusion proof
that verifies against the root. A proof that is built over records that account for the geometry,
from texts of one line each, is read back with its root, its counts and its payload hash, with the
full records and without, exactly when no die of no blocks failed its ID. -/
theorem erasureProof_roundTrip (sha256 : Bytes → Block 32) :
    (∀ (leaves : List (Block 32)) (index : UInt64),
      (∃ proof, inclusionProof sha256 leaves index = some proof ∧
        verifyInclusion sha256 proof (merkleRoot sha256 leaves) = true) ↔
      index.toNat < leaves.length) ∧
    ∀ (clock : Option UInt64) (scenario : String) (controller : ControllerProfile) (stage : Stage)
      (payloadSha256 : Block 32) (payloadLen payloadCrc32 : UInt32) (geometry : NandGeometry)
      (verifyMode : VerifyMode) (records : List BlockRecord) (seed coreInstructions : UInt64),
      (BlockStats.fromRecords records geometry.totalBlocks).complete geometry = true →
      '\n' ∉ scenario.toList → '\n' ∉ controller.name.toList →
      '\n' ∉ controller.profileSha256.toList →
      ∃ p, build sha256 clock scenario controller stage payloadSha256 payloadLen payloadCrc32
          geometry verifyMode records seed coreInstructions = some p ∧
        ∀ full : Bool,
          (∃ report, verifyStr sha256 (p.writeFile sha256 full) = .ok report ∧
            report.merkleRoot = p.merkleRoot ∧ report.stats = p.stats ∧
            report.payloadSha256 = p.payloadSha256) ↔
          (geometry.blocksPerLun = 0 → p.stats.dieIdFail = 0) := by
  constructor
  · intro leaves index
    constructor
    · rintro ⟨proof, hproof, _⟩
      exact index_lt_of_inclusionProof sha256 hproof
    · intro hindex
      obtain ⟨proof, hproof, _, hverifies⟩ := inclusionProof_verifies sha256 hindex
      exact ⟨proof, hproof, hverifies⟩
  · intro clock scenario controller stage payloadSha256 payloadLen payloadCrc32 geometry verifyMode
      records seed coreInstructions hcomplete hscenario hname hsha
    obtain ⟨p, hbuild, hattested, rfl, rfl, rfl, hline⟩ := build_attested sha256 clock scenario
      controller stage payloadSha256 payloadLen payloadCrc32 geometry verifyMode records seed
      coreInstructions
    refine ⟨p, hbuild, fun full => ?_⟩
    rw [← complete_readGeometry hcomplete,
      verifyStr_writeFile ((hline hname hsha).of_scenario hscenario) hattested full]
    cases p.stats.complete p.readGeometry with
    | true => exact iff_of_true ⟨p.report, rfl, rfl, rfl, rfl⟩ rfl
    | false => exact iff_of_false (by simp) (by decide)

/-- A die whose ID failed stands for its two blocks beside one that was erased and one that is
bad. -/
theorem erasureProof_roundTrip_twoDies :
    (∃ proof, inclusionProof (fun _ => zeroHash) [zeroHash] 0 = some proof ∧
      verifyInclusion (fun _ => zeroHash) proof (merkleRoot (fun _ => zeroHash) [zeroHash]) = true) ∧
    ∃ p, build (fun _ => zeroHash) none "sim" ⟨"marvell-88ss1077", "ab"⟩ .kernel zeroHash 0 0
        ⟨2048, 64, 64, 2, 2⟩ .full
        [⟨0, 0, ST_ERASED, 0, 7⟩, ⟨0, 1, ST_SKIPPED_BAD, 0, 0⟩, BlockRecord.dieIdFail 1]
        7 0 = some p ∧
      ∀ full : Bool,
        (∃ report, verifyStr (fun _ => zeroHash) (p.writeFile (fun _ => zeroHash) full) = .ok report ∧
          report.merkleRoot = p.merkleRoot ∧ report.stats = p.stats ∧
          report.payloadSha256 = p.payloadSha256) ↔
        ((2 : UInt32) = 0 → p.stats.dieIdFail = 0) :=
  ⟨((erasureProof_roundTrip fun _ => zeroHash).1 [zeroHash] 0).mpr (by decide),
    (erasureProof_roundTrip fun _ => zeroHash).2 none "sim" ⟨"marvell-88ss1077", "ab"⟩ .kernel
      zeroHash 0 0 ⟨2048, 64, 64, 2, 2⟩ .full
      [⟨0, 0, ST_ERASED, 0, 7⟩, ⟨0, 1, ST_SKIPPED_BAD, 0, 0⟩, BlockRecord.dieIdFail 1] 7 0
      (by decide) (by decide) (by decide) (by decide)⟩

/-- Complete proofs that are refused: one over a die of no blocks that failed its ID, and one whose
scenario has a second line. -/
theorem erasureProof_text_refused :
    (∃ p, build (fun _ => zeroHash) none "sim" ⟨"marvell-88ss1077", "ab"⟩ .kernel zeroHash 0 0
        ⟨2048, 64, 64, 0, 1⟩ .full [BlockRecord.dieIdFail 0] 7 0 = some p ∧
      p.stats.complete p.geometry = true ∧
      ∀ full : Bool, verifyStr (fun _ => zeroHash) (p.writeFile (fun _ => zeroHash) full) =
        .error (.failed .incomplete)) ∧
    ∃ p, build (fun _ => zeroHash) none "sim\nblocks_total: many" ⟨"marvell-88ss1077", "ab"⟩ .kernel
        zeroHash 0 0 ⟨2048, 64, 64, 1, 1⟩ .full [BlockRecord.erased 0 0 0 0] 7 0 = some p ∧
      p.stats.complete p.geometry = true ∧
      ∀ full : Bool, verifyStr (fun _ => zeroHash) (p.writeFile (fun _ => zeroHash) full) =
        .error (.failed (.malformed "blocks_total")) := by
  constructor
  · obtain ⟨p, hbuild, hattested, hscenario, hgeometry, hrecords, hline⟩ :=
      build_attested (fun _ => zeroHash) none "sim" ⟨"marvell-88ss1077", "ab"⟩ .kernel zeroHash 0 0
        ⟨2048, 64, 64, 0, 1⟩ .full [BlockRecord.dieIdFail 0] 7 0
    have hone : p.OneLine := by
      refine (hline (by decide) (by decide)).of_scenario ?_
      rw [hscenario]
      decide
    have hcomplete : p.stats.complete p.geometry = true := by
      rw [ErasureProof.stats, hrecords, hgeometry]
      decide
    -- The reader counts a block for the die.
    have hrefused : p.stats.complete p.readGeometry = false := by
      rw [ErasureProof.stats, readGeometry, hrecords, hgeometry]
      decide
    refine ⟨p, hbuild, hcomplete, fun full => ?_⟩
    rw [verifyStr_writeFile hone hattested full, hrefused]
    rfl
  · obtain ⟨p, hbuild, _, hscenario, hgeometry, hrecords, hline⟩ :=
      build_attested (fun _ => zeroHash) none "sim\nblocks_total: many" ⟨"marvell-88ss1077", "ab"⟩
        .kernel zeroHash 0 0 ⟨2048, 64, 64, 1, 1⟩ .full [BlockRecord.erased 0 0 0 0] 7 0
    have hcomplete : p.stats.complete p.geometry = true := by
      rw [ErasureProof.stats, hrecords, hgeometry]
      decide
    have hbreak : p.scenario.toList = "sim".toList ++ '\n' :: keyed "blocks_total" "many".toList := by
      rw [hscenario]
      decide
    exact ⟨p, hbuild, hcomplete, verifyStr_of_scenario_break hbreak (by decide) (by decide)
      (by decide) (hline (by decide) (by decide))⟩

end DiscCleaner.Resurrect
