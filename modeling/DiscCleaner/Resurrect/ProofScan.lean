import DiscCleaner.Resurrect.ProofText

/-!
# What a written line is read back as (dc-resurrect `attest.rs`)

One lemma for each kind of line that `write_file` puts out: what the reader has gathered once the
line is behind it.
-/

namespace DiscCleaner.Resurrect

open ByteLib TextLib ErasureProof

variable (sha256 : Bytes → Block 32)

/-! ## Hashes -/

theorem mem_hexText {b : Block 32} {c : Char} (h : c ∈ hexText b) : IsNumeral c := by
  rw [hexText, hexEncode, String.toList_ofList, List.mem_flatMap] at h
  obtain ⟨x, _, hc⟩ := h
  have hlt : x.toNat < 256 := x.toNat_lt
  rw [List.mem_cons, List.mem_singleton] at hc
  rcases hc with rfl | rfl
  · exact isNumeral_hexDigit (by omega)
  · exact isNumeral_hexDigit (by omega)

theorem length_hexText (b : Block 32) : (hexText b).length = 64 := by
  rw [hexText, hexEncode, String.toList_ofList, List.length_flatMap]
  simp [b.size]

theorem isWord_hexText (b : Block 32) : IsWord (hexText b) where
  nonempty hnil := by
    have hlen := length_hexText b
    rw [hnil] at hlen
    exact absurd hlen (by decide)
  dense c hc := (mem_hexText hc).not_space

theorem byteLen_numeral {t : Text} (h : ∀ c ∈ t, IsNumeral c) : byteLen t = t.length := by
  induction t with
  | nil => rfl
  | cons c t ih =>
    have hc : c.utf8Size = 1 := (h c (by simp)).utf8Size
    have ht : byteLen t = t.length := ih fun d hd => h d (by simp [hd])
    show c.utf8Size + byteLen t = t.length + 1
    rw [hc, ht, Nat.add_comm]

theorem takePair_numeral {c d : Char} (hc : IsNumeral c) (hd : IsNumeral d) (t : Text) :
    takePair (c :: d :: t) = some ([c, d], t) := by
  simp [takePair, hc.utf8Size, hd.utf8Size]

/-- The two digits of a byte are read as that byte. -/
theorem numeral_pair (what : String) (x : UInt8) :
    numeral what 16 256 [hexDigit (x.toNat / 16), hexDigit (x.toNat % 16)] = .ok x.toNat := by
  have hlt : x.toNat < 256 := x.toNat_lt
  have hhigh : x.toNat / 16 % 16 = x.toNat / 16 := Nat.mod_eq_of_lt (by omega)
  have hpair : hexPad 2 x.toNat = [hexDigit (x.toNat / 16), hexDigit (x.toNat % 16)] := by
    simp [hexPad, hhigh]
  rw [← hpair, numeral, fromStrRadix_hexPad (by decide) hlt hlt]

/-- Slice by slice, the field of a block spells the block. -/
theorem hexBytes_hexEncode (what : String) {n : Nat} (b : Block n) :
    hexBytes what n (hexEncode b.bytes).toList = .ok b := by
  rw [hexEncode, String.toList_ofList]
  induction n with
  | zero =>
    have hb : b = ⟨[], rfl⟩ := Block.ext (List.length_eq_zero_iff.mp b.size)
    rw [hb]
    rfl
  | succ n ih =>
    obtain ⟨bytes, size⟩ := b
    cases bytes with
    | nil => exact absurd size (by simp)
    | cons x bytes =>
      have hlt : x.toNat < 256 := x.toNat_lt
      have htail := ih ⟨bytes, by simpa using size⟩
      rw [List.flatMap_cons, List.cons_append, List.cons_append, List.nil_append, hexBytes,
        takePair_numeral (isNumeral_hexDigit (by omega)) (isNumeral_hexDigit (by omega))]
      simp only [numeral_pair, htail]
      exact congrArg Except.ok (Block.ext (congrArg (· :: bytes) UInt8.ofNat_toNat))

theorem hexHash_hexText (what : String) (b : Block 32) :
    hexHash what (hexText b) = .ok (some b) := by
  have hlen : byteLen (hexText b) = 64 :=
    (byteLen_numeral fun _ hc => mem_hexText hc).trans (length_hexText b)
  rw [hexHash, if_pos hlen, hexText, hexBytes_hexEncode]
  rfl

theorem numeral_decimal (what : String) {n bound : Nat} (h : n < bound) :
    numeral what 10 bound (decimal n) = .ok n := by
  rw [numeral, fromStrRadix_decimal h]

theorem numeral_hexPad (what : String) {w n bound : Nat} (hw : w ≠ 0) (hfits : n < 16 ^ w)
    (h : n < bound) : numeral what 16 bound (hexPad w n) = .ok n := by
  rw [numeral, fromStrRadix_hexPad hw hfits h]

/-! ## Keys -/

/-- A key that a line may start with. -/
structure IsKey (key : String) : Prop where
  word : IsWord key.toList
  unmarked : ':' ∉ key.toList
  inside : key.toList.head? ≠ some '['

-- Over the list and not over all characters, so that `decide` stays small.
instance (w : Text) : Decidable (IsWord w) :=
  decidable_of_iff (w ≠ [] ∧ w.all (fun c => !isWhitespace c) = true)
    ⟨fun h => ⟨h.1, by simpa using h.2⟩, fun h => ⟨h.nonempty, by simpa using h.dense⟩⟩

instance (key : String) : Decidable (IsKey key) :=
  decidable_of_iff (IsWord key.toList ∧ ':' ∉ key.toList ∧ key.toList.head? ≠ some '[')
    ⟨fun h => ⟨h.1, h.2.1, h.2.2⟩, fun h => ⟨h.word, h.unmarked, h.inside⟩⟩

theorem trim_keyed {key : String} (hkey : IsKey key) (value : Text) :
    trim (keyed key value) = key.toList ++ ':' :: trimEnd (' ' :: value) := by
  obtain ⟨c, rest, hcons⟩ := List.exists_cons_of_ne_nil hkey.word.nonempty
  have hc : isWhitespace c = false := hkey.word.dense c (by simp [hcons])
  rw [keyed, hcons, List.cons_append, trim_cons _ hc,
    trimEnd_append_cons rest (' ' :: value) (by decide), List.cons_append]

/-- A line says for its own key what stands behind it. -/
theorem get_keyed {key : String} (hkey : IsKey key) (value : Text) :
    get key (trim (keyed key value)) = some (trim value) := by
  have hassoc : key.toList ++ ':' :: trimEnd (' ' :: value)
      = (key.toList ++ [':']) ++ trimEnd (' ' :: value) := by simp
  rw [trim_keyed hkey, get, hassoc, stripPrefix_append]
  simp only [Option.map_some]
  rw [trim_trimEnd, trim_space value (by decide)]

/-- A line says nothing for any other key. -/
theorem get_keyed_ne {key other : String} (hkey : IsKey key) (hother : IsKey other)
    (hne : other ≠ key) (value : Text) : get other (trim (keyed key value)) = none := by
  have hlist : other.toList ≠ key.toList := fun h => hne (String.toList_inj.mp h)
  rw [trim_keyed hkey, get, stripPrefix_marked hother.unmarked hkey.unmarked hlist]
  rfl

theorem head?_trim_keyed {key : String} (hkey : IsKey key) (value : Text) :
    (trim (keyed key value)).head? ≠ some '[' := by
  rw [trim_keyed hkey, List.head?_append_of_ne_nil _ hkey.word.nonempty]
  exact hkey.inside

/-! ## The words of a line -/

theorem isWord_leafLine (r : BlockRecord) :
    ∀ w ∈ [hexPad 2 r.die.toNat, hexPad 8 r.block.toNat, decimal r.status.toNat,
      hexPad 8 r.nonzero.toNat, hexPad 8 r.crc32.toNat, hexText (r.leafHash sha256)], IsWord w := by
  have hpad (w n : Nat) : IsWord (hexPad (w + 1) n) := isWord_hexPad (Nat.succ_ne_zero w) n
  simp only [List.forall_mem_cons]
  exact ⟨hpad 1 _, hpad 7 _, isWord_decimal _, hpad 7 _, hpad 7 _, isWord_hexText _, by simp⟩

theorem isWord_recordLine (r : BlockRecord) :
    ∀ w ∈ ["die".toList, decimal r.die.toNat, "block".toList, decimal r.block.toNat,
      r.statusName.toList, "nonzero".toList, decimal r.nonzero.toNat, "crc32".toList,
      hexPad 8 r.crc32.toNat], IsWord w := by
  have hstatus : IsWord r.statusName.toList := by
    unfold BlockRecord.statusName
    split_ifs <;> decide
  simp only [List.forall_mem_cons]
  exact ⟨by decide, isWord_decimal _, by decide, isWord_decimal _, hstatus, by decide,
    isWord_decimal _, by decide, isWord_hexPad (by decide) _, by simp⟩

theorem isWord_sibling (step : Block 32 × Bool) :
    ∀ w ∈ [hexText step.1, if step.2 then "right".toList else "left".toList], IsWord w := by
  have hside : IsWord (if step.2 then "right".toList else "left".toList) := by
    cases step.2 <;> decide
  simp only [List.forall_mem_cons]
  exact ⟨isWord_hexText step.1, hside, by simp⟩

/-! ## The geometry line -/

theorem endsWith_append (suffix : String) (t tail : Text) :
    endsWith suffix (t ++ tail) = suffix.toList.reverse.isPrefixOf (tail.reverse ++ t.reverse) := by
  rw [endsWith, List.isSuffixOf, List.reverse_append]

theorem firstNumber_decimal (n : UInt32) (rest : Text) :
    firstNumber (decimal n.toNat ++ ' ' :: rest) = n := by
  rw [firstNumber, words_append_space (isWord_decimal n.toNat), List.headD_cons,
    fromStrRadix_decimal n.toNat_lt]
  exact UInt32.ofNat_toNat

/-- A mark that is no digit and stands in none of the units stands in no part. -/
theorem notMem_geometryParts {c : Char} (hdigit : ¬ IsNumeral c)
    (hunit : c ∉ "+ B/page ppb blk/LUN LUN bytes".toList) (geo : NandGeometry) :
    ∀ part ∈ geometryParts geo, c ∉ part := by
  have hdecimal (n : Nat) : c ∉ decimal n := fun h => hdigit (isNumeral_decimal h)
  simp at hunit
  simp [geometryParts, hdecimal, hunit]

/-- The parts between their bars are the line that the format string prints. -/
theorem intercalate_geometryParts (geo : NandGeometry) :
    ['|'].intercalate (geometryParts geo) = decimal geo.bytesPerPage.toNat
      ++ ("+".toList ++ decimal geo.spareBytes.toNat ++ " B/page | ".toList
        ++ decimal geo.pagesPerBlock.toNat ++ " ppb | ".toList
        ++ decimal geo.blocksPerLun.toNat ++ " blk/LUN | ".toList
        ++ decimal geo.luns.toNat ++ " LUN | ".toList
        ++ decimal geo.capacity.toNat ++ " ".toList) ++ "bytes".toList := by
  simp [geometryParts, List.intercalate]

/-- The line starts with a digit and ends with a letter. -/
theorem tidy_geometryParts (geo : NandGeometry) : Tidy (['|'].intercalate (geometryParts geo)) := by
  have hpages : IsWord (decimal geo.bytesPerPage.toNat) := isWord_decimal _
  have hbytes : IsWord "bytes".toList := by decide
  rw [intercalate_geometryParts]
  exact hpages.tidy.append hbytes.tidy hpages.nonempty hbytes.nonempty _

/-- A part is read without the spaces around it. -/
theorem trim_part (n : Nat) {unit : Text} (hunit : IsWord unit) :
    trim (' ' :: decimal n ++ ' ' :: unit ++ [' ']) = decimal n ++ ' ' :: unit := by
  have hnumber := isWord_decimal n
  have htidy := hnumber.tidy.append hunit.tidy hnumber.nonempty hunit.nonempty [' ']
  rw [trim_concat_space _ (by decide), List.cons_append, trim_space _ (by decide)]
  simpa using htidy.trim

namespace Scan

variable {sha256}

/-! ## Blank lines and sections -/

theorem line_nil (s : Scan) : line sha256 s [] = .ok s := by
  have hheader : s.headerLine [] = .ok s := rfl
  have hleaf : s.leafLine sha256 [] = .ok s := rfl
  have hinclusion : s.inclusionLine [] = .ok s := rfl
  simp only [line, trim_nil, List.head?_nil, hheader, hleaf, hinclusion, reduceCtorEq, if_false,
    ite_self]

variable (sha256) in
theorem line_section (s : Scan) (name : Text) (htidy : trim name = name)
    (hname : name.head? = some '[') :
    line sha256 s name = .ok (s.enter name) := by
  simp only [line, htidy, hname, if_true]

theorem line_stripReturn (s : Scan) (text : Text) :
    line sha256 s (stripReturn text) = line sha256 s text := by
  simp only [line, trim_stripReturn]

/-! ## The header -/

theorem line_keyed {s : Scan} (hs : s.within = []) {key : String} (hkey : IsKey key) (value : Text) :
    line sha256 s (keyed key value) = s.headerLine (trim (keyed key value)) := by
  simp only [line, if_neg (head?_trim_keyed hkey value), hs, if_true]

/-- A line for a key that the reader does not look for changes nothing. -/
theorem line_other {s : Scan} (hs : s.within = []) {key : String} (hkey : IsKey key)
    (hother : key ∉ ["controller", "merkle_root", "payload_sha256", "blocks_total", "geometry"])
    (value : Text) : line sha256 s (keyed key value) = .ok s := by
  simp only [List.mem_cons, List.not_mem_nil, or_false, not_or] at hother
  obtain ⟨hcontroller, hroot, hpayload, htotal, hgeometry⟩ := hother
  rw [line_keyed hs hkey, headerLine,
    get_keyed_ne hkey (by decide) (Ne.symm hcontroller),
    get_keyed_ne hkey (by decide) (Ne.symm hroot),
    get_keyed_ne hkey (by decide) (Ne.symm hpayload),
    get_keyed_ne hkey (by decide) (Ne.symm htotal),
    get_keyed_ne hkey (by decide) (Ne.symm hgeometry)]

theorem line_controller {s : Scan} (hs : s.within = []) (value : Text) :
    line sha256 s (keyed "controller" value) = .ok { s with controller := trim value } := by
  rw [line_keyed hs (by decide), headerLine, get_keyed (by decide)]

theorem line_merkleRoot {s : Scan} (hs : s.within = []) (root : Block 32) :
    line sha256 s (keyed "merkle_root" (hexText root)) = .ok { s with rootHex := hexText root } := by
  rw [line_keyed hs (by decide), headerLine, get_keyed_ne (by decide) (by decide) (by decide),
    get_keyed (by decide), (isWord_hexText root).tidy.trim]

theorem line_payloadSha256 {s : Scan} (hs : s.within = []) (hash : Block 32) :
    line sha256 s (keyed "payload_sha256" (hexText hash)) = .ok { s with payloadSha := hash } := by
  rw [line_keyed hs (by decide), headerLine, get_keyed_ne (by decide) (by decide) (by decide),
    get_keyed_ne (by decide) (by decide) (by decide), get_keyed (by decide),
    (isWord_hexText hash).tidy.trim]
  simp only [hexHash_hexText]
  rfl

theorem line_blocksTotal {s : Scan} (hs : s.within = []) (total : UInt32) :
    line sha256 s (keyed "blocks_total" (decimal total.toNat)) = .ok { s with total := total } := by
  rw [line_keyed hs (by decide), headerLine, get_keyed_ne (by decide) (by decide) (by decide),
    get_keyed_ne (by decide) (by decide) (by decide),
    get_keyed_ne (by decide) (by decide) (by decide), get_keyed (by decide),
    (isWord_decimal total.toNat).tidy.trim]
  simp only [numeral_decimal "blocks_total" total.toNat_lt]
  exact congrArg (fun n => Except.ok { s with total := n }) UInt32.ofNat_toNat

/-- A part that names a unit is read by the end of that unit. -/
theorem geometryPart_unit (s : Scan) (n : UInt32) {unit : Text} (hunit : IsWord unit) :
    s.geometryPart (' ' :: decimal n.toNat ++ (' ' :: unit ++ [' '])) =
      let ends := fun suffix : String =>
        suffix.toList.reverse.isPrefixOf ((' ' :: unit).reverse ++ (decimal n.toNat).reverse)
      if ends "ppb" then { s with ppb := n }
      else if ends "blk/LUN" then { s with bpl := n }
      else if ends "LUN" then { s with luns := n }
      else s := by
  simp only [geometryPart]
  rw [← List.append_assoc, trim_part n.toNat hunit, endsWith_append, endsWith_append,
    endsWith_append, firstNumber_decimal]

theorem geometryPart_ppb (s : Scan) (n : UInt32) :
    s.geometryPart (' ' :: decimal n.toNat ++ " ppb ".toList) = { s with ppb := n } := by
  have hpart : " ppb ".toList = ' ' :: "ppb".toList ++ [' '] := by decide
  rw [hpart, geometryPart_unit s n (by decide)]
  rfl

theorem geometryPart_blk (s : Scan) (n : UInt32) :
    s.geometryPart (' ' :: decimal n.toNat ++ " blk/LUN ".toList) = { s with bpl := n } := by
  have hpart : " blk/LUN ".toList = ' ' :: "blk/LUN".toList ++ [' '] := by decide
  rw [hpart, geometryPart_unit s n (by decide)]
  rfl

theorem geometryPart_lun (s : Scan) (n : UInt32) :
    s.geometryPart (' ' :: decimal n.toNat ++ " LUN ".toList) = { s with luns := n } := by
  have hpart : " LUN ".toList = ' ' :: "LUN".toList ++ [' '] := by decide
  rw [hpart, geometryPart_unit s n (by decide)]
  rfl

/-- The first part has no unit that counts. -/
theorem geometryPart_page (s : Scan) (n m : Nat) :
    s.geometryPart (decimal n ++ '+' :: decimal m ++ " B/page ".toList) = s := by
  have hn := isWord_decimal n
  have hpage : IsWord "B/page".toList := by decide
  have htrim : trim (decimal n ++ '+' :: decimal m ++ " B/page ".toList)
      = (decimal n ++ '+' :: decimal m) ++ " B/page".toList := by
    have htidy := hn.tidy.append hpage.tidy hn.nonempty hpage.nonempty ('+' :: decimal m ++ [' '])
    have hspace := trim_concat_space (decimal n ++ ('+' :: decimal m ++ [' ']) ++ "B/page".toList)
      (show isWhitespace ' ' = true by decide)
    rw [htidy.trim] at hspace
    simpa using hspace
  simp only [geometryPart]
  rw [htrim, endsWith_append, endsWith_append, endsWith_append]
  rfl

/-- Nor has the last. -/
theorem geometryPart_bytes (s : Scan) (n : Nat) :
    s.geometryPart (' ' :: decimal n ++ " bytes".toList) = s := by
  have hn := isWord_decimal n
  have hbytes : IsWord "bytes".toList := by decide
  have htrim : trim (' ' :: decimal n ++ " bytes".toList) = decimal n ++ " bytes".toList := by
    have htidy := hn.tidy.append hbytes.tidy hn.nonempty hbytes.nonempty [' ']
    rw [List.cons_append, trim_space _ (by decide)]
    simpa using htidy.trim
  simp only [geometryPart]
  rw [htrim, endsWith_append, endsWith_append, endsWith_append]
  rfl

/-- **The geometry line gives back the blocks of a LUN and the LUNs.** -/
theorem line_geometry {s : Scan} (hs : s.within = []) (geo : NandGeometry) :
    line sha256 s (keyed "geometry" (['|'].intercalate (geometryParts geo))) =
      .ok { s with ppb := geo.pagesPerBlock, bpl := geo.blocksPerLun, luns := geo.luns } := by
  have hparts := notMem_geometryParts (c := '|') (by decide) (by decide) geo
  rw [line_keyed hs (by decide), headerLine, get_keyed_ne (by decide) (by decide) (by decide),
    get_keyed_ne (by decide) (by decide) (by decide),
    get_keyed_ne (by decide) (by decide) (by decide),
    get_keyed_ne (by decide) (by decide) (by decide), get_keyed (by decide),
    (tidy_geometryParts geo).trim]
  simp only [List.splitOn_intercalate '|' hparts (by simp [geometryParts])]
  simp only [geometryParts, List.foldl_cons, List.foldl_nil, geometryPart_page, geometryPart_ppb,
    geometryPart_blk, geometryPart_lun, geometryPart_bytes]

/-! ## Leaves and records -/

/-- A line of words that does not open a section stands as it is. -/
theorem line_unwords {s : Scan} {w : Text} {ws : List Text} (h : ∀ v ∈ w :: ws, IsWord v)
    (hhead : w.head? ≠ some '[') :
    line sha256 s (unwords (w :: ws)) =
      if s.within = [] then s.headerLine (unwords (w :: ws))
      else if s.within = "[leaves]".toList then s.leafLine sha256 (unwords (w :: ws))
      else if s.within = "[inclusion-proofs]".toList then s.inclusionLine (unwords (w :: ws))
      else .ok s := by
  have hne : w ≠ [] := (h w (by simp)).nonempty
  have hfirst : (unwords (w :: ws)).head? ≠ some '[' := by
    cases ws with
    | nil => exact hhead
    | cons v ws =>
      show (w ++ ' ' :: unwords (v :: ws)).head? ≠ some '['
      rwa [List.head?_append_of_ne_nil _ hne]
  simp only [line, (tidy_unwords h).trim, if_neg hfirst]

theorem head?_ne_of_numeral {t : Text} (h : ∀ c ∈ t, IsNumeral c) : t.head? ≠ some '[' :=
  fun hhead => absurd (h '[' (List.mem_of_mem_head? hhead)) (by decide)

/-- **A leaf line gives back its record**, whose hash is the leaf that it states. -/
theorem line_leaf {s : Scan} (hs : s.within = "[leaves]".toList) (r : BlockRecord) :
    line sha256 s (ErasureProof.leafLine sha256 r) =
      .ok { s with leaves := s.leaves ++ [r.leafHash sha256], records := s.records ++ [r] } := by
  have hwords := isWord_leafLine sha256 r
  have hhead := head?_ne_of_numeral (t := hexPad 2 r.die.toNat) fun _ hc => isNumeral_hexPad hc
  have hopen : s.within ≠ [] := by simp [hs]
  have hdie : numeral "leaf die" 16 256 (hexPad 2 r.die.toNat) = .ok r.die.toNat :=
    numeral_hexPad _ (by decide) r.die.toNat_lt r.die.toNat_lt
  have hstatus : numeral "leaf status" 10 256 (decimal r.status.toNat) = .ok r.status.toNat :=
    numeral_decimal _ r.status.toNat_lt
  have hword (what : String) (n : UInt32) :
      numeral what 16 (2 ^ 32) (hexPad 8 n.toNat) = .ok n.toNat :=
    numeral_hexPad what (by decide) n.toNat_lt n.toNat_lt
  rw [ErasureProof.leafLine, line_unwords hwords hhead, if_neg hopen, if_pos hs, Scan.leafLine,
    words_unwords hwords]
  simp only [hdie, hstatus, hword, hexHash_hexText]
  simp [bind, Except.bind]

/-- The full records are for other readers. -/
theorem line_record {s : Scan} (hs : s.within = "[records]".toList) (r : BlockRecord) :
    line sha256 s (recordLine r) = .ok s := by
  have hopen : s.within ≠ [] := by simp [hs]
  have hleaves : s.within ≠ "[leaves]".toList := by rw [hs]; decide
  have hproofs : s.within ≠ "[inclusion-proofs]".toList := by rw [hs]; decide
  rw [recordLine, line_unwords (isWord_recordLine r) (by decide), if_neg hopen, if_neg hleaves,
    if_neg hproofs]

/-! ## Inclusion proofs -/

theorem line_inclusion {s : Scan} (hs : s.within = "[inclusion-proofs]".toList) {key : String}
    (hkey : IsKey key) (value : Text) :
    line sha256 s (keyed key value) = s.inclusionLine (trim (keyed key value)) := by
  have hopen : s.within ≠ [] := by simp [hs]
  have hleaves : s.within ≠ "[leaves]".toList := by rw [hs]; decide
  simp only [line, if_neg (head?_trim_keyed hkey value), if_neg hopen, if_neg hleaves, if_pos hs]

theorem line_index {s : Scan} (hs : s.within = "[inclusion-proofs]".toList) (index : UInt64) :
    line sha256 s (keyed "index" (decimal index.toNat)) =
      .ok (s.closeProof.withProof ⟨index, zeroHash, []⟩) := by
  rw [line_inclusion hs (by decide), inclusionLine, get_keyed (by decide),
    (isWord_decimal index.toNat).tidy.trim]
  simp only [numeral_decimal "index" index.toNat_lt]
  exact congrArg (fun n => Except.ok (s.closeProof.withProof ⟨n, zeroHash, []⟩)) UInt64.ofNat_toNat

theorem line_leafHash {s : Scan} (hs : s.within = "[inclusion-proofs]".toList)
    (proof : InclusionProof) (leaf : Block 32) :
    line sha256 (s.withProof proof) (keyed "leaf" (hexText leaf)) =
      .ok (s.withProof { proof with leaf := leaf }) := by
  rw [line_inclusion (s := s.withProof proof) hs (by decide), inclusionLine,
    get_keyed_ne (by decide) (by decide) (by decide),
    get_keyed (by decide), (isWord_hexText leaf).tidy.trim]
  simp only [withProof, hexHash_hexText]
  rfl

theorem line_sibling {s : Scan} (hs : s.within = "[inclusion-proofs]".toList)
    (proof : InclusionProof) (step : Block 32 × Bool) :
    line sha256 (s.withProof proof) (siblingLine step) =
      .ok (s.withProof { proof with path := proof.path ++ [step] }) := by
  obtain ⟨sib, right⟩ := step
  have hwords := isWord_sibling (sib, right)
  have hside : ((if right then "right".toList else "left".toList) == "right".toList) = right := by
    cases right <;> decide
  rw [siblingLine, line_inclusion (s := s.withProof proof) hs (by decide), inclusionLine,
    get_keyed_ne (by decide) (by decide) (by decide),
    get_keyed_ne (by decide) (by decide) (by decide), get_keyed (by decide),
    (tidy_unwords hwords).trim]
  simp only [words_unwords hwords, withProof, List.headD_cons, List.tail_cons, hexHash_hexText, hside]
  rfl

end Scan

end DiscCleaner.Resurrect
