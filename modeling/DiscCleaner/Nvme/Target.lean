import DiscCleaner.Nvme.Evidence

/-!
# DiscCleaner — the namespace a purge addresses (`purge.rs`, `linux_admin.rs`, `guardian.rs`)

A target is a path. Two scanners take it apart, one for the namespace number of Format NVM and one
for the controller the command is sent to, and the Guardian tells a partition by its name.

* **`deriveTargetNsid_namespace`**, **`controllerCharDevFor_namespace`** — a whole namespace is
  taken apart into its two numbers.
* **`isPartitionName_partition`** — a partition is refused before either scanner is asked.
* **`purge_addresses_namespace`** — so every Format NVM of the ladder names that namespace.
-/

namespace DiscCleaner

open ByteLib DialogueLib

/-! ## Scanning a text -/

/-- The position of the last `c`. -/
def rfind (c : Char) (s : List Char) : Option Nat :=
  if c ∈ s then some (s.length - 1 - (s.reverse.takeWhile (· ≠ c)).length) else none

/-- `&s[pos + 1..]` after the last `c` is what stands behind it. -/
theorem lastBack_append {c : Char} (front : List Char) {back : List Char} (h : c ∉ back) :
    ((front ++ c :: back).reverse.takeWhile (· ≠ c)) = back.reverse := by
  have hback : ∀ x ∈ back.reverse, decide (x ≠ c) = true := fun x hx =>
    decide_eq_true fun heq => h (heq ▸ List.mem_reverse.mp hx)
  rw [List.reverse_append, List.reverse_cons, List.append_assoc, List.singleton_append,
    List.takeWhile_append_of_pos hback, List.takeWhile_cons_of_neg (by simp), List.append_nil]

theorem rfind_append {c : Char} (front : List Char) {back : List Char} (h : c ∉ back) :
    rfind c (front ++ c :: back) = some front.length := by
  rw [rfind, if_pos (by simp), lastBack_append front h, List.length_reverse, List.length_append,
    List.length_cons]
  exact congrArg some (by omega)

theorem rfind_eq_none {c : Char} {s : List Char} (h : c ∉ s) : rfind c s = none := if_neg h

/-! ## The controller of a namespace (`linux_admin.rs`) -/

/-- `trim_end_matches('/')`. -/
def trimEndSlashes (s : List Char) : List Char := (s.reverse.dropWhile (· = '/')).reverse

/-- The path before a last `n` that only digits follow; any other path is returned as it is. -/
def controllerCharDevFor (blockNs : String) : String :=
  let s := trimEndSlashes blockNs.toList
  match rfind 'n' s with
  | some pos =>
    if (s.drop (pos + 1)).all Char.isDigit ∧ (rfind '/' s).getD 0 < pos then
      String.ofList (s.take pos)
    else String.ofList s
  | none => String.ofList s

/-! ## Whole disks (`guardian.rs`) -/

/-- A `p` between digits and a number, or a number behind the letters of a SCSI disk. -/
def isPartitionName (name : String) : Bool :=
  let s := name.toList
  let suffixed := match rfind 'p' s with
    | some pos =>
      let after := s.drop (pos + 1)
      after ≠ [] && after.all Char.isDigit && ((s.take pos).getLast?.any Char.isDigit)
    | none => false
  let letters := s.takeWhile Char.isAlpha
  let digits := s.drop letters.length
  suffixed || (digits ≠ [] && digits.all Char.isDigit &&
    ["sd", "hd", "vd", "xvd"].any fun disk => disk.toList.isPrefixOf letters)

namespace Nvme

open NvmePurgeClient

/-! ## The names of namespaces and partitions -/

/-- `nvme{c}n{k}`. -/
def namespaceName (c k : Nat) : String := "nvme" ++ toString c ++ "n" ++ toString k

/-- `nvme{c}n{k}p{j}`. -/
def partitionName (c k j : Nat) : String := namespaceName c k ++ "p" ++ toString j

def devPath (name : String) : String := "/dev/" ++ name

theorem isDigit_digits {n : Nat} {c : Char} (h : c ∈ Nat.toDigits 10 n) : c.isDigit :=
  Nat.isDigit_of_mem_toDigits (by decide) (by decide) h

theorem all_isDigit_digits (n : Nat) : (Nat.toDigits 10 n).all Char.isDigit :=
  List.all_eq_true.mpr fun _ h => isDigit_digits h

/-- No letter or slash stands among digits. -/
theorem not_mem_digits {c : Char} (hc : c.isDigit = false) (n : Nat) : c ∉ Nat.toDigits 10 n :=
  fun h => by
    rw [isDigit_digits h] at hc
    cases hc

/-- **The digits of a number are read as it**, when it fits 32 bits. -/
theorem parseU32_digits {n : Nat} (h : n < 2 ^ 32) :
    VerifyLevel.parseU32 (Nat.toDigits 10 n) = some n := by
  have hplus : (Nat.toDigits 10 n).head? ≠ some '+' := fun hhead =>
    not_mem_digits (by decide) n (List.mem_of_mem_head? hhead)
  have hvalue : (Nat.toDigits 10 n).foldl (fun acc c => 10 * acc + (c.toNat - 48)) 0 = n :=
    Nat.ofDigitChars_ten_toDigits
  rw [VerifyLevel.parseU32]
  simp only [if_neg hplus, hvalue, if_pos h, Nat.toDigits_ne_nil, all_isDigit_digits, not_true,
    or_self, if_false]

/-- A text with anything but digits in it is no number. -/
theorem parseU32_of_letter {s : List Char} {c : Char} (hc : c ∈ s) (hdigit : c.isDigit = false)
    (hplus : s.head? ≠ some '+') : VerifyLevel.parseU32 s = none := by
  have hall : ¬s.all Char.isDigit := fun hall => by
    rw [List.all_eq_true.mp hall c hc] at hdigit
    cases hdigit
  rw [VerifyLevel.parseU32]
  simp only [if_neg hplus]
  exact if_pos (.inr hall)

theorem toList_namespacePath (c k : Nat) : (devPath (namespaceName c k)).toList =
    "/dev/nvme".toList ++ Nat.toDigits 10 c ++ 'n' :: Nat.toDigits 10 k := by
  simp [devPath, namespaceName]

theorem toList_partitionPath (c k j : Nat) : (devPath (partitionName c k j)).toList =
    "/dev/nvme".toList ++ Nat.toDigits 10 c ++
      'n' :: (Nat.toDigits 10 k ++ 'p' :: Nat.toDigits 10 j) := by
  simp [devPath, partitionName, namespaceName]

/-- What stands behind the last slash. -/
theorem name_of_path {path : String} {c : Nat} {back : List Char} (hback : '/' ∉ back)
    (h : path.toList = "/dev/nvme".toList ++ Nat.toDigits 10 c ++ 'n' :: back) :
    (path.toList.reverse.takeWhile (· ≠ '/')).reverse
      = "nvme".toList ++ Nat.toDigits 10 c ++ 'n' :: back := by
  have hname : '/' ∉ "nvme".toList ++ Nat.toDigits 10 c ++ 'n' :: back := by
    have hdigits := not_mem_digits (c := '/') (by decide) c
    simp [hdigits, hback]
  have hsplit : path.toList = "/dev".toList ++ '/' :: ("nvme".toList ++ Nat.toDigits 10 c ++ 'n' :: back) := by
    rw [h]
    simp
  rw [hsplit, lastBack_append _ hname, List.reverse_reverse]

/-- The number behind the last `n` is what decides. -/
theorem deriveTargetNsid_of_path {path : String} {c : Nat} {back : List Char} (hslash : '/' ∉ back)
    (hn : 'n' ∉ back) (h : path.toList = "/dev/nvme".toList ++ Nat.toDigits 10 c ++ 'n' :: back) :
    deriveTargetNsid path = match VerifyLevel.parseU32 back with
      | some nsid => if 0 < nsid then nsid else 1
      | none => 1 := by
  have hback := lastBack_append ("nvme".toList ++ Nat.toDigits 10 c) hn
  cases hparse : VerifyLevel.parseU32 back <;>
    simp only [deriveTargetNsid, name_of_path hslash h, hback, List.reverse_reverse, hparse]
  all_goals exact if_pos (by simp)

theorem deriveTargetNsid_namespace (c : Nat) {k : Nat} (hk : 1 ≤ k) (hk32 : k < 2 ^ 32) :
    deriveTargetNsid (devPath (namespaceName c k)) = k := by
  rw [deriveTargetNsid_of_path (not_mem_digits (by decide) k) (not_mem_digits (by decide) k)
    (toList_namespacePath c k), parseU32_digits hk32]
  exact if_pos hk

/-- A partition's suffix is no number, so the namespace falls back to the first. -/
theorem deriveTargetNsid_partition (c k j : Nat) :
    deriveTargetNsid (devPath (partitionName c k j)) = 1 := by
  have hslash : '/' ∉ Nat.toDigits 10 k ++ 'p' :: Nat.toDigits 10 j := by
    simp [not_mem_digits (c := '/') (by decide)]
  have hn : 'n' ∉ Nat.toDigits 10 k ++ 'p' :: Nat.toDigits 10 j := by
    simp [not_mem_digits (c := 'n') (by decide)]
  have hplus : (Nat.toDigits 10 k ++ 'p' :: Nat.toDigits 10 j).head? ≠ some '+' := by
    intro hhead
    have hmem := List.mem_of_mem_head? hhead
    simp [not_mem_digits (c := '+') (by decide)] at hmem
  rw [deriveTargetNsid_of_path hslash hn (toList_partitionPath c k j),
    parseU32_of_letter (c := 'p') (by simp) (by decide) hplus]

/-! ## The controller -/

theorem trimEndSlashes_of_path {front : List Char} {c : Char} (hc : c ≠ '/') :
    trimEndSlashes (front ++ [c]) = front ++ [c] := by
  rw [trimEndSlashes, List.reverse_append, List.reverse_singleton, List.singleton_append,
    List.dropWhile_cons_of_neg (by simpa using hc), List.reverse_cons, List.reverse_reverse]

/-- A text that ends in a number ends in a digit. -/
theorem ends_in_digit (front : List Char) (n : Nat) :
    ∃ init d, front ++ Nat.toDigits 10 n = init ++ [d] ∧ d.isDigit = true := by
  have hne : Nat.toDigits 10 n ≠ [] := Nat.toDigits_ne_nil
  refine ⟨front ++ (Nat.toDigits 10 n).dropLast, (Nat.toDigits 10 n).getLast hne, ?_,
    isDigit_digits (List.getLast_mem hne)⟩
  rw [List.append_assoc, List.dropLast_append_getLast hne]

theorem trimEndSlashes_digits (front : List Char) (n : Nat) :
    trimEndSlashes (front ++ Nat.toDigits 10 n) = front ++ Nat.toDigits 10 n := by
  obtain ⟨init, d, heq, hd⟩ := ends_in_digit front n
  rw [heq]
  refine trimEndSlashes_of_path fun hslash => ?_
  rw [hslash] at hd
  exact absurd hd (by decide)

/-- A path of the device directory, taken apart at its last `n`. -/
theorem controllerCharDevFor_of_path {path : String} {c : Nat} {back : List Char}
    (htrim : trimEndSlashes path.toList = path.toList) (hslash : '/' ∉ back) (hn : 'n' ∉ back)
    (h : path.toList = "/dev/nvme".toList ++ Nat.toDigits 10 c ++ 'n' :: back) :
    controllerCharDevFor path
      = if back.all Char.isDigit then devPath ("nvme" ++ toString c) else path := by
  have hrest : '/' ∉ "nvme".toList ++ Nat.toDigits 10 c ++ 'n' :: back := by
    simp [not_mem_digits (c := '/') (by decide), hslash]
  have hlastSlash : rfind '/' path.toList = some 4 := by
    have hsplit : path.toList
        = "/dev".toList ++ '/' :: ("nvme".toList ++ Nat.toDigits 10 c ++ 'n' :: back) := by
      rw [h]
      simp
    rw [hsplit, rfind_append _ hrest]
    rfl
  have hlength : ("/dev/nvme".toList ++ Nat.toDigits 10 c).length
      = 9 + (Nat.toDigits 10 c).length := List.length_append
  have hcontroller : String.ofList ("/dev/nvme".toList ++ Nat.toDigits 10 c)
      = devPath ("nvme" ++ toString c) := by
    rw [← String.toList_inj]
    simp [devPath]
  have hdrop : path.toList.drop (("/dev/nvme".toList ++ Nat.toDigits 10 c).length + 1) = back := by
    rw [h, ← List.drop_drop, List.drop_left, List.drop_one, List.tail_cons]
  have htake : path.toList.take ("/dev/nvme".toList ++ Nat.toDigits 10 c).length
      = "/dev/nvme".toList ++ Nat.toDigits 10 c := by rw [h, List.take_left]
  unfold controllerCharDevFor
  simp only [htrim, hlastSlash]
  rw [h, rfind_append _ hn, ← h]
  simp only [hdrop, htake, Option.getD_some]
  by_cases hall : back.all Char.isDigit
  · rw [if_pos ⟨hall, by omega⟩, if_pos hall, hcontroller]
  · rw [if_neg fun hboth => hall hboth.1, if_neg hall, String.ofList_toList]

theorem controllerCharDevFor_namespace (c k : Nat) :
    controllerCharDevFor (devPath (namespaceName c k)) = devPath ("nvme" ++ toString c) := by
  have hpath := toList_namespacePath c k
  have htrim : trimEndSlashes (devPath (namespaceName c k)).toList
      = (devPath (namespaceName c k)).toList := by
    rw [hpath, List.append_cons, trimEndSlashes_digits]
  rw [controllerCharDevFor_of_path htrim (not_mem_digits (by decide) k)
    (not_mem_digits (by decide) k) hpath, if_pos (all_isDigit_digits k)]

/-- The suffix of a partition hides the namespace, and the path is kept. -/
theorem controllerCharDevFor_partition (c k j : Nat) :
    controllerCharDevFor (devPath (partitionName c k j)) = devPath (partitionName c k j) := by
  have hpath := toList_partitionPath c k j
  have hslash : '/' ∉ Nat.toDigits 10 k ++ 'p' :: Nat.toDigits 10 j := by
    simp [not_mem_digits (c := '/') (by decide)]
  have hn : 'n' ∉ Nat.toDigits 10 k ++ 'p' :: Nat.toDigits 10 j := by
    simp [not_mem_digits (c := 'n') (by decide)]
  have htrim : trimEndSlashes (devPath (partitionName c k j)).toList
      = (devPath (partitionName c k j)).toList := by
    have hsplit : (devPath (partitionName c k j)).toList = "/dev/nvme".toList ++ Nat.toDigits 10 c ++
        ('n' :: Nat.toDigits 10 k) ++ ['p'] ++ Nat.toDigits 10 j := by
      rw [hpath]
      simp
    rw [hsplit, trimEndSlashes_digits]
  rw [controllerCharDevFor_of_path htrim hslash hn hpath, if_neg (by simp)]

/-! ## The Guardian's rule -/

theorem isPartitionName_partition (c k j : Nat) : isPartitionName (partitionName c k j) = true := by
  have hsplit : (partitionName c k j).toList
      = ("nvme".toList ++ Nat.toDigits 10 c ++ 'n' :: Nat.toDigits 10 k) ++
        'p' :: Nat.toDigits 10 j := by
    simp [partitionName, namespaceName]
  have hlast : (("nvme".toList ++ Nat.toDigits 10 c ++ 'n' :: Nat.toDigits 10 k).getLast?).any
      Char.isDigit = true := by
    obtain ⟨init, d, heq, hd⟩ := ends_in_digit ("nvme".toList ++ Nat.toDigits 10 c ++ ['n']) k
    rw [List.append_cons, heq, List.getLast?_concat]
    exact hd
  have hdrop : (partitionName c k j).toList.drop
      (("nvme".toList ++ Nat.toDigits 10 c ++ 'n' :: Nat.toDigits 10 k).length + 1)
      = Nat.toDigits 10 j := by
    rw [hsplit, ← List.drop_drop, List.drop_left, List.drop_one, List.tail_cons]
  have htake : (partitionName c k j).toList.take
      ("nvme".toList ++ Nat.toDigits 10 c ++ 'n' :: Nat.toDigits 10 k).length
      = "nvme".toList ++ Nat.toDigits 10 c ++ 'n' :: Nat.toDigits 10 k := by
    rw [hsplit, List.take_left]
  have hpos : rfind 'p' (partitionName c k j).toList
      = some ("nvme".toList ++ Nat.toDigits 10 c ++ 'n' :: Nat.toDigits 10 k).length := by
    rw [hsplit, rfind_append _ (not_mem_digits (by decide) j)]
  unfold isPartitionName
  simp only [hpos, hdrop, htake, hlast, all_isDigit_digits, ne_eq, Nat.toDigits_ne_nil,
    not_false_eq_true, decide_true, Bool.and_self, Bool.true_or]

theorem not_isAlpha_of_isDigit {d : Char} (h : d.isDigit) : d.isAlpha = false := by
  have hle : d.val ≤ 57 := by
    simp only [Char.isDigit, Bool.and_eq_true, decide_eq_true_eq] at h
    exact h.2
  have hupper : ¬ (65 : UInt32) ≤ d.val := by
    rw [UInt32.le_iff_toNat_le] at hle ⊢
    exact Nat.not_le.mpr (Nat.lt_of_le_of_lt hle (by decide))
  have hlower : ¬ (97 : UInt32) ≤ d.val := by
    rw [UInt32.le_iff_toNat_le] at hle ⊢
    exact Nat.not_le.mpr (Nat.lt_of_le_of_lt hle (by decide))
  show (decide ((65 : UInt32) ≤ d.val ∧ d.val ≤ 90)
    || ((97 : UInt32) ≤ d.val && d.val ≤ 122)) = false
  simp [hupper, hlower]

/-- The letters of a whole namespace are no SCSI disk's, and what follows them is no number. -/
theorem isPartitionName_namespace (c k : Nat) : isPartitionName (namespaceName c k) = false := by
  have hlist : (namespaceName c k).toList
      = "nvme".toList ++ (Nat.toDigits 10 c ++ 'n' :: Nat.toDigits 10 k) := by
    simp [namespaceName]
  have hp : 'p' ∉ (namespaceName c k).toList := by
    rw [hlist]
    simp [not_mem_digits (c := 'p') (by decide)]
  have hletters : (namespaceName c k).toList.takeWhile Char.isAlpha = "nvme".toList := by
    obtain ⟨d, rest, hdigits⟩ := List.exists_cons_of_ne_nil (Nat.toDigits_ne_nil (b := 10) (n := c))
    have hd : d.isAlpha = false :=
      not_isAlpha_of_isDigit (isDigit_digits (n := c) (by rw [hdigits]; exact List.mem_cons_self))
    have hnvme : ("nvme".toList).all Char.isAlpha = true := by decide
    rw [hlist, List.takeWhile_append_of_pos (List.all_eq_true.mp hnvme), hdigits, List.cons_append,
      List.takeWhile_cons_of_neg (by rw [hd]; exact Bool.false_ne_true), List.append_nil]
  have hrest : ((namespaceName c k).toList.drop "nvme".toList.length).all Char.isDigit = false := by
    rw [hlist, List.drop_left]
    simp
  unfold isPartitionName
  simp only [rfind_eq_none hp, hletters, hrest, Bool.and_false, Bool.false_and, Bool.or_self]

/-! ## What the ladder sends -/

/-- Every Format NVM of a client is the one for a namespace. -/
def FormatsOnly (nsid : Nat)
    (d : List MechanismFallback → NvmeDialogue (Except String PurgeExecutionSummary)) : Prop :=
  ∀ fallbacks es result, (d fallbacks).Ends es result → ∀ e ∈ es,
    mechanismOf e.request = some .formatNvmCryptoErase →
      e.request = NvmeCodec.encodeFormatNvm nsid .cryptoErase 0

theorem logicalOverwriteRung_formatsOnly (nsid : Nat) : FormatsOnly nsid logicalOverwriteRung := by
  intro fallbacks es result h e he
  rw [(Dialogue.ends_done.mp h).1] at he
  cases he

theorem formatted_formatsOnly (nsid : Nat) : FormatsOnly nsid formatted := by
  intro fallbacks es result h e he
  rw [(Dialogue.ends_done.mp h).1] at he
  cases he

theorem sanitized_formatsOnly (nsid maxPolls : Nat) {m : PurgeMechanism} (hm : m.Sanitizes) :
    FormatsOnly nsid (sanitized maxPolls m) := by
  intro fallbacks es result h e he hformat
  obtain ⟨_, _, hlog, _⟩ := sanitized_followsUp maxPolls hm fallbacks es result h
  rw [hlog e he, mechanismOf_log] at hformat
  cases hformat

/-- **Step lemma**: a rung adds its own command to what its follow-up or the rungs after it send. -/
theorem rung_formatsOnly {nsid : Nat} {cmd : Bytes} {m target : PurgeMechanism} {label : String}
    {passed next : List MechanismFallback → NvmeDialogue (Except String PurgeExecutionSummary)}
    (hcmd : mechanismOf cmd = some .formatNvmCryptoErase →
      cmd = NvmeCodec.encodeFormatNvm nsid .cryptoErase 0)
    (hpassed : FormatsOnly nsid passed) (hnext : FormatsOnly nsid next) :
    FormatsOnly nsid (rung cmd m target label passed next) := by
  intro fallbacks es result h
  obtain ⟨es₁, payload, es₂, rfl, hask, hrest⟩ := Dialogue.ends_andThen.mp h
  obtain ⟨r, es₃, rfl, hdone⟩ := Dialogue.ends_ask.mp hask
  obtain ⟨rfl, rfl⟩ := Dialogue.ends_done.mp hdone
  have htail : ∀ e ∈ es₂, mechanismOf e.request = some .formatNvmCryptoErase →
      e.request = NvmeCodec.encodeFormatNvm nsid .cryptoErase 0 := by
    generalize passthroughResult cmd r = outcome at hrest
    cases outcome with
    | ok _ => exact hpassed _ _ _ hrest
    | error err =>
      cases err with
      | controllerRejected _ description => exact hnext _ _ _ hrest
      | _ =>
        intro e he
        rw [(Dialogue.ends_done.mp hrest).1] at he
        cases he
  intro e he
  rcases List.mem_cons.mp he with rfl | he
  · exact hcmd
  · exact htail e he

/-- **Run lemma**: whatever the device answers, the ladder formats the namespace of its permit. -/
theorem executePurgeLadder_formatsOnly {maxPolls : Nat} {permit : PurgePermit}
    {primary : PurgeMechanism} {es : List NvmeExchange}
    {result : Except String PurgeExecutionSummary}
    (h : (executePurgeLadder maxPolls permit primary).Ends es result) :
    ∀ e ∈ es, mechanismOf e.request = some .formatNvmCryptoErase →
      e.request
        = NvmeCodec.encodeFormatNvm (deriveTargetNsid permit.targetDevice) .cryptoErase 0 := by
  set nsid := deriveTargetNsid permit.targetDevice with hnsid
  have hlogical := logicalOverwriteRung_formatsOnly nsid
  have hformat : FormatsOnly nsid (formatRung permit) :=
    rung_formatsOnly (fun _ => rfl) (formatted_formatsOnly nsid) hlogical
  have hblock : FormatsOnly nsid (blockEraseRung maxPolls permit) :=
    rung_formatsOnly (fun hcmd => by cases hcmd)
      (sanitized_formatsOnly nsid maxPolls (.inr rfl)) hformat
  have hcrypto : FormatsOnly nsid (cryptoEraseRung maxPolls permit) :=
    rung_formatsOnly (fun hcmd => by cases hcmd)
      (sanitized_formatsOnly nsid maxPolls (.inl rfl)) hblock
  cases primary with
  | sanitizeCryptoErase => exact hcrypto _ _ _ h
  | sanitizeBlockErase => exact hblock _ _ _ h
  | formatNvmCryptoErase => exact hformat _ _ _ h
  | logicalOverwrite => exact hlogical [] _ _ h

/-- The namespace field of an admin command. -/
def nsidOfCommand (cmd : Bytes) : Nat := ofLe ((cmd.drop 4).take 4)

theorem nsidOfCommand_format {nsid : Nat} (h : nsid < 2 ^ 32) (ses : NvmeSecureEraseSetting)
    (lbaf : Nat) : nsidOfCommand (NvmeCodec.encodeFormatNvm nsid ses lbaf) = nsid := by
  have hfield : ((NvmeCodec.encodeFormatNvm nsid ses lbaf).drop 4).take 4 = le32 nsid := rfl
  rw [nsidOfCommand, hfield, ofLe_le32 h]

/-- **A purge addresses the namespace it was given.** The path of a whole namespace names its
controller, and below `2^32` every Format NVM carries its number. A partition is no target: the
Guardian tells it by its name, and on its path the scanners find no namespace. -/
theorem purge_addresses_namespace (c k j : Nat) (hk : 1 ≤ k) :
    (isPartitionName (namespaceName c k) = false ∧
      controllerCharDevFor (devPath (namespaceName c k)) = devPath ("nvme" ++ toString c) ∧
      (k < 2 ^ 32 → deriveTargetNsid (devPath (namespaceName c k)) = k ∧
        ∀ maxPolls primary es result,
          (executePurgeLadder maxPolls ⟨devPath (namespaceName c k)⟩ primary).Ends es result →
          ∀ e ∈ es, mechanismOf e.request = some .formatNvmCryptoErase →
            nsidOfCommand e.request = k)) ∧
      isPartitionName (partitionName c k j) = true ∧
      deriveTargetNsid (devPath (partitionName c k j)) = 1 ∧
      controllerCharDevFor (devPath (partitionName c k j)) = devPath (partitionName c k j) := by
  refine ⟨⟨isPartitionName_namespace c k, controllerCharDevFor_namespace c k, fun hk32 => ?_⟩,
    isPartitionName_partition c k j, deriveTargetNsid_partition c k j,
    controllerCharDevFor_partition c k j⟩
  have hnsid := deriveTargetNsid_namespace c hk hk32
  refine ⟨hnsid, fun maxPolls primary es result h e he hformat => ?_⟩
  rw [executePurgeLadder_formatsOnly h e he hformat]
  simp only [hnsid]
  exact nsidOfCommand_format hk32 _ _

theorem purge_addresses_third_namespace :
    1 ≤ 3 ∧ deriveTargetNsid (devPath (namespaceName 0 3)) = 3 :=
  ⟨by decide, ((purge_addresses_namespace 0 3 1 (by decide)).1.2.2 (by decide)).1⟩

/-- A partition of the third namespace names the first, and no controller. -/
theorem partition_loses_namespace :
    deriveTargetNsid "/dev/nvme0n3p1" = 1 ∧
      controllerCharDevFor "/dev/nvme0n3p1" = "/dev/nvme0n3p1" := by
  constructor <;> decide

end Nvme

end DiscCleaner
