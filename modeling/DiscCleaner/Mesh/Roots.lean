import DiscCleaner.Mesh.Gossip
import DiscCleaner.Lib.Json

/-!
# DiscCleaner — the roots a block commits to (`gossip.rs`, `consensus.rs`)

`reports_root` and `transcripts_root` hash the canonical texts of what they are given, in the order
of a sort by serial or by nonce. The texts are JSON objects, so the hashed text has them all. The
sort is stable: items of one key stay in the order they came in, and the root depends on it.

* **`SortedText`** — one text after the other in the order of a key.
* **`Objects`** — reports and transcripts are written as objects.
* **`SortedRoot`** — what a root is over the sorted texts.
* **`roots_set_functions_iff`** — when a root is that of a set, and what it says about the set.
-/

namespace DiscCleaner.Mesh

open ByteLib

/-! ## Texts in the order of a key -/

section SortedText

variable {α : Type*} (key : α → String) (text : α → Bytes)

/-- `sort_by` on a key. -/
def sortByKey (items : List α) : List α := items.insertionSort fun a b => key a ≤ key b

/-- The texts of the items, sorted by key. -/
def sortedText (items : List α) : Bytes := (sortByKey key items).flatMap text

/-- Items of one key have one text. -/
def KeyDecides (items : List α) : Prop :=
  ∀ a ∈ items, ∀ b ∈ items, key a = key b → text a = text b

variable {key text}

theorem perm_sortByKey (items : List α) : (sortByKey key items).Perm items :=
  List.perm_insertionSort _ items

theorem pairwise_sortByKey (items : List α) :
    (sortByKey key items).Pairwise fun a b => key a ≤ key b := by
  have : Std.Total fun a b : α => key a ≤ key b := ⟨fun a b => le_total (key a) (key b)⟩
  have : IsTrans α fun a b => key a ≤ key b := ⟨fun _ _ _ hab hbc => hab.trans hbc⟩
  exact List.pairwise_insertionSort _ items

/-- Sorted permutations have the same texts, if the key decides on the text. -/
theorem map_sortByKey_of_perm {items items' : List α} (h : KeyDecides key text items)
    (hperm : items'.Perm items) :
    (sortByKey key items').map text = (sortByKey key items).map text := by
  have hmem : ∀ {l : List α}, l.Perm items → ∀ p ∈ (sortByKey key l).map fun a => (key a, text a),
      ∃ a ∈ items, p = (key a, text a) := by
    intro l hl p hp
    obtain ⟨a, ha, rfl⟩ := List.mem_map.mp hp
    exact ⟨a, ((perm_sortByKey l).trans hl).subset ha, rfl⟩
  have hsorted : ∀ l : List α, ((sortByKey key l).map fun a => (key a, text a)).Pairwise
      fun p q => p.1 ≤ q.1 := fun l => List.pairwise_map.mpr (pairwise_sortByKey l)
  have hanti : ∀ p q, p ∈ (sortByKey key items').map (fun a => (key a, text a)) →
      q ∈ (sortByKey key items).map (fun a => (key a, text a)) → p.1 ≤ q.1 → q.1 ≤ p.1 → p = q := by
    intro p q hp hq hpq hqp
    obtain ⟨a, ha, rfl⟩ := hmem hperm p hp
    obtain ⟨b, hb, rfl⟩ := hmem (List.Perm.refl items) q hq
    have hkey := le_antisymm hpq hqp
    exact Prod.ext hkey (h a ha b hb hkey)
  have hpairs := List.Perm.eq_of_pairwise hanti (hsorted items') (hsorted items)
    ((((perm_sortByKey items').trans hperm).trans (perm_sortByKey items).symm).map _)
  have htexts := congrArg (List.map Prod.snd) hpairs
  rw [List.map_map, List.map_map] at htexts
  exact htexts

/-- The sort keeps two items of one key in the order they came in. -/
theorem orderedInsert_swap {a b : α} (hkey : key a = key b) (sorted : List α) :
    ∃ before behind : List α,
      (sorted.orderedInsert (fun a b => key a ≤ key b) b).orderedInsert
          (fun a b => key a ≤ key b) a = before ++ a :: b :: behind ∧
        (sorted.orderedInsert (fun a b => key a ≤ key b) a).orderedInsert
          (fun a b => key a ≤ key b) b = before ++ b :: a :: behind := by
  induction sorted with
  | nil => exact ⟨[], [], by simp [hkey], by simp [hkey]⟩
  | cons c sorted ih =>
    by_cases hc : key b ≤ key c
    · exact ⟨[], c :: sorted, by simp [hkey, hc], by simp [hkey, hc]⟩
    · obtain ⟨before, behind, hab, hba⟩ := ih
      refine ⟨c :: before, behind, ?_, ?_⟩
      · simp [hkey, hc, hab]
      · simp [hkey, hc, hba]

/-- Two items of one key with different texts are told apart by the order they come in. -/
theorem keyDecides_of_order_free [DecidableEq α] {items : List α}
    (h : ∀ items', items'.Perm items →
      (sortByKey key items').map text = (sortByKey key items).map text) :
    KeyDecides key text items := by
  intro a ha b hb hkey
  by_cases hab : a = b
  · rw [hab]
  have hb' : b ∈ items.erase a := (List.mem_erase_of_ne (Ne.symm hab)).mpr hb
  have hperm : (a :: b :: (items.erase a).erase b).Perm items :=
    (((List.perm_cons_erase hb').symm.cons a)).trans (List.perm_cons_erase ha).symm
  obtain ⟨before, behind, hfirst, hsecond⟩ :=
    orderedInsert_swap hkey (sortByKey key ((items.erase a).erase b))
  have hsame := (h _ hperm).trans (h _ ((List.Perm.swap a b _).trans hperm)).symm
  change List.map text (List.orderedInsert _ a (List.orderedInsert _ b (sortByKey key _)))
    = List.map text (List.orderedInsert _ b (List.orderedInsert _ a (sortByKey key _))) at hsame
  rw [hfirst, hsecond, List.map_append, List.map_append, List.append_cancel_left_eq] at hsame
  exact (List.cons.inj hsame).1

end SortedText

/-! ## Reports and transcripts are objects -/

section Objects

open Json

theorem transparent_of_mem_optionalMember {key : String} {value : Option String}
    {m : String × Bytes} (h : m ∈ optionalMember key value) : Transparent m.2 := by
  cases value with
  | none => exact absurd h List.not_mem_nil
  | some value =>
    obtain rfl := List.mem_singleton.mp h
    exact .string value

theorem isObject_pattern (p : Pattern) : IsObject p.toJson := by
  cases p with
  | zero => exact ⟨_, by simp [Transparent.string], rfl⟩
  | fixed byte => exact ⟨_, by simp [Transparent.string, Transparent.nat], rfl⟩
  | fixedWord word => exact ⟨_, by simp [Transparent.string], rfl⟩
  | deterministicRandom scheme seed =>
    cases scheme
    exact ⟨_, by simp [PrngScheme.toJson, Transparent.string], rfl⟩
  | vdfWoven scheme seedCommitment =>
    cases scheme
    exact ⟨_, by simp [VdfWeaveScheme.toJson, Transparent.string], rfl⟩

theorem isObject_report (r : DriveReport) : IsObject r.canonical := by
  refine ⟨_, fun m hm => ?_, rfl⟩
  simp only [List.mem_append, List.mem_cons, List.not_mem_nil, or_false] at hm
  rcases hm with ((rfl | rfl) | hwwn) | rfl | rfl | rfl | rfl | rfl | rfl | rfl | rfl
  · exact .string _
  · exact .string _
  · exact transparent_of_mem_optionalMember hwwn
  · exact .string _
  · exact .nat _
  · exact .nat _
  · exact .nat _
  · exact .nat _
  · exact (isObject_pattern r.pattern).transparent
  · exact .string _
  · exact .nat _

theorem isObject_challenge (c : SpotChallenge) : IsObject c.toJson :=
  ⟨_, by simp [Transparent.string, Transparent.nat], rfl⟩

theorem isObject_proof (p : SpotProof) : IsObject p.toJson := by
  refine ⟨_, fun m hm => ?_, rfl⟩
  simp only [List.mem_append, List.mem_cons, List.not_mem_nil, or_false] at hm
  rcases hm with ((rfl | rfl | rfl) | hdata) | rfl
  · exact .string _
  · exact .nat _
  · exact .string _
  · exact transparent_of_mem_optionalMember hdata
  · exact .string _

theorem isObject_transcript (t : SpotTranscript) : IsObject t.toJson := by
  refine ⟨_, fun m hm => ?_, rfl⟩
  simp only [List.mem_append, List.mem_cons, List.not_mem_nil, or_false] at hm
  rcases hm with (((rfl | rfl | rfl) | hproof) | rfl) | hreason
  · exact .string _
  · exact .string _
  · exact (isObject_challenge t.challenge).transparent
  · cases hp : t.proof with
    | none =>
      rw [hp] at hproof
      exact absurd hproof List.not_mem_nil
    | some p =>
      rw [hp] at hproof
      obtain rfl := List.mem_singleton.mp hproof
      exact (isObject_proof p).transparent
  · exact .bool _
  · exact transparent_of_mem_optionalMember hreason

end Objects

/-! ## A root over sorted texts -/

section Root

variable {α : Type*} {key : α → String} {text : α → Bytes}

/-- `root` hashes a tag and the texts of the items in the order of the key. -/
structure SortedRoot (cr : Crypto) (tag : Bytes) (key : α → String) (text : α → Bytes)
    (root : List α → String × UInt32) : Prop where
  hashes : ∀ items, root items
    = (cr.blake3Hex (tag ++ sortedText key text items), UInt32.ofNat items.length)
  objects : ∀ item, Json.IsObject (text item)

/-- The items in any order have the root of the items. -/
def OrderFree (root : List α → String × UInt32) (items : List α) : Prop :=
  ∀ items', items'.Perm items → root items' = root items

variable {cr : Crypto} {tag : Bytes} {root : List α → String × UInt32}

/-- Sorted texts are told apart by what they concatenate to. -/
theorem SortedRoot.map_eq_of_text_eq (h : SortedRoot cr tag key text root) {items items' : List α}
    (heq : sortedText key text items = sortedText key text items') :
    (sortByKey key items).map text = (sortByKey key items').map text := by
  have hobjects : ∀ l : List α, ∀ o ∈ l.map text, Json.IsObject o := by
    intro l o ho
    obtain ⟨item, -, rfl⟩ := List.mem_map.mp ho
    exact h.objects item
  refine Json.flatten_objects_inj (hobjects _) (hobjects _) ?_
  rw [← List.flatMap_def, ← List.flatMap_def]
  exact heq

/-- One root, one sorted text: if the hash does not collide on the two. -/
theorem SortedRoot.text_eq (h : SortedRoot cr tag key text root) {items items' : List α}
    (hinj : Set.InjOn cr.blake3
      {tag ++ sortedText key text items, tag ++ sortedText key text items'})
    (heq : (root items).1 = (root items').1) :
    sortedText key text items = sortedText key text items' := by
  rw [h.hashes, h.hashes] at heq
  have hdigest := Block.ext (hexEncode_injective heq)
  exact List.append_cancel_left (hinj (.inl rfl) (.inr rfl) hdigest)

/-- **A root has the multiset of its texts.** -/
theorem SortedRoot.perm_of_root_eq (h : SortedRoot cr tag key text root) {items items' : List α}
    (hinj : Set.InjOn cr.blake3
      {tag ++ sortedText key text items, tag ++ sortedText key text items'})
    (heq : (root items).1 = (root items').1) : (items.map text).Perm (items'.map text) := by
  have hmap := h.map_eq_of_text_eq (h.text_eq hinj heq)
  calc (items.map text).Perm ((sortByKey key items).map text) :=
        (perm_sortByKey items).symm.map text
    _ = (sortByKey key items').map text := hmap
    List.Perm _ (items'.map text) := (perm_sortByKey items').map text

/-- **A root is free of the order exactly if the key decides on the text.** -/
theorem SortedRoot.orderFree_iff [DecidableEq α] (h : SortedRoot cr tag key text root)
    {items : List α} (hinj : Set.InjOn cr.blake3
      {t | ∃ items' : List α, items'.Perm items ∧ t = tag ++ sortedText key text items'}) :
    OrderFree root items ↔ KeyDecides key text items := by
  constructor
  · intro hfree
    refine keyDecides_of_order_free fun items' hperm => h.map_eq_of_text_eq ?_
    refine h.text_eq (hinj.mono ?_) (congrArg Prod.fst (hfree items' hperm))
    rintro t (rfl | rfl)
    · exact ⟨items', hperm, rfl⟩
    · exact ⟨items, List.Perm.refl items, rfl⟩
  · intro hkey items' hperm
    have htext : sortedText key text items' = sortedText key text items := by
      rw [sortedText, sortedText, List.flatMap_def, List.flatMap_def,
        map_sortByKey_of_perm hkey hperm]
    rw [h.hashes, h.hashes, htext, hperm.length_eq]

end Root

theorem sortedRoot_reports (cr : Crypto) : SortedRoot cr (utf8 "DCMS-REPORTS-v1")
    DriveReport.serial DriveReport.canonical (reportsRoot cr) where
  hashes reports := by
    have hlen : (sortByKey DriveReport.serial reports).length = reports.length :=
      (perm_sortByKey reports).length_eq
    rw [← hlen]
    rfl
  objects := isObject_report

theorem sortedRoot_transcripts (cr : Crypto) : SortedRoot cr (utf8 "DCMS-TRANSCRIPTS-v1")
    (fun t => t.challenge.nonce) SpotTranscript.toJson (transcriptsRoot cr) where
  hashes transcripts := by
    have hlen : (sortByKey (fun t : SpotTranscript => t.challenge.nonce) transcripts).length =
        transcripts.length := (perm_sortByKey transcripts).length_eq
    rw [← hlen]
    rfl
  objects := isObject_transcript

/-- A root of the items as a set: when their order does not count, and that two roots are equal for
equal multisets of texts only, the hash being injective on the texts that are compared. -/
structure RootOfSet {α : Type*} (cr : Crypto) (tag : Bytes) (key : α → String) (text : α → Bytes)
    (root : List α → String × UInt32) : Prop where
  orderFree_iff : ∀ items : List α, Set.InjOn cr.blake3
      {t | ∃ items' : List α, items'.Perm items ∧ t = tag ++ sortedText key text items'} →
    (OrderFree root items ↔ KeyDecides key text items)
  perm_of_root_eq : ∀ items items' : List α, Set.InjOn cr.blake3
      {tag ++ sortedText key text items, tag ++ sortedText key text items'} →
    (root items).1 = (root items').1 → (items.map text).Perm (items'.map text)

/-- **The roots of a block**: both are free of the order in which the items came in exactly if
items of one key are written alike, and both have the multiset of what is written. -/
theorem roots_set_functions_iff (cr : Crypto) :
    RootOfSet cr (utf8 "DCMS-REPORTS-v1") DriveReport.serial DriveReport.canonical
        (reportsRoot cr) ∧
      RootOfSet cr (utf8 "DCMS-TRANSCRIPTS-v1") (fun t => t.challenge.nonce) SpotTranscript.toJson
        (transcriptsRoot cr) :=
  ⟨⟨fun _ hinj => (sortedRoot_reports cr).orderFree_iff hinj,
      fun _ _ hinj heq => (sortedRoot_reports cr).perm_of_root_eq hinj heq⟩,
    ⟨fun _ hinj => (sortedRoot_transcripts cr).orderFree_iff hinj,
      fun _ _ hinj heq => (sortedRoot_transcripts cr).perm_of_root_eq hinj heq⟩⟩

/-- A report of a drive of one window. -/
def sampleReport (node serial : String) : DriveReport where
  node := node
  serial := serial
  wwn := none
  bus := "SATA"
  capacityLbas := 8
  windowSectors := 8
  windowsTotal := 1
  windowsVerified := 1
  pattern := .zero
  evidenceRoot := ""
  view := 0

/-- The texts of two reports with one serial, in both orders, and their digests. -/
def twoReportsCrypto : Crypto :=
  tableCrypto (ByteLib.Block.ofNat 32 0)
    [(utf8 "DCMS-REPORTS-v1" ++ ((sampleReport "n1" "S").canonical
        ++ (sampleReport "n2" "S").canonical),
      ByteLib.Block.ofNat 32 0x72ec4f33d6bcbea4bbad64a806991e011042f6077a7c41af8448db7452f568b6),
     (utf8 "DCMS-REPORTS-v1" ++ ((sampleReport "n2" "S").canonical
        ++ (sampleReport "n1" "S").canonical),
      ByteLib.Block.ofNat 32 0xa70c0716a2fcddde25c3275e3079be16633c0fb5539eac42cb164c8dfd3d04be)] []

/-- Reports of two drives have one root, whichever comes first. -/
theorem roots_two_drives :
    reportsRoot twoReportsCrypto [sampleReport "n2" "T", sampleReport "n1" "S"]
      = reportsRoot twoReportsCrypto [sampleReport "n1" "S", sampleReport "n2" "T"] := by
  have hkey : KeyDecides DriveReport.serial DriveReport.canonical
      [sampleReport "n1" "S", sampleReport "n2" "T"] := by
    unfold KeyDecides
    simp [sampleReport]
  have hinj : Set.InjOn twoReportsCrypto.blake3 {t | ∃ items' : List DriveReport,
      items'.Perm [sampleReport "n1" "S", sampleReport "n2" "T"]
        ∧ t = utf8 "DCMS-REPORTS-v1"
          ++ sortedText DriveReport.serial DriveReport.canonical items'} := by
    refine Set.Subsingleton.injOn ?_ _
    rintro t ⟨l, hl, rfl⟩ u ⟨l', hl', rfl⟩
    simp only [sortedText, List.flatMap_def, map_sortByKey_of_perm hkey hl,
      map_sortByKey_of_perm hkey hl']
  exact ((roots_set_functions_iff twoReportsCrypto).1.orderFree_iff _ hinj).mpr hkey _
    (List.Perm.swap _ _ _)

/-- Two reports of one serial have another root when they come in the other order. -/
theorem swapped_reports_differ : ¬ OrderFree (reportsRoot twoReportsCrypto)
    [sampleReport "n1" "S", sampleReport "n2" "S"] := by
  intro hfree
  have hdiffer : (reportsRoot twoReportsCrypto [sampleReport "n2" "S", sampleReport "n1" "S"]).1
      ≠ (reportsRoot twoReportsCrypto [sampleReport "n1" "S", sampleReport "n2" "S"]).1 := by
    decide +kernel
  exact hdiffer (congrArg Prod.fst (hfree _ (List.Perm.swap _ _ _)))

end DiscCleaner.Mesh
