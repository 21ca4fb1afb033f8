import LayeredStore.Proofs.Catalogue
import Mathlib.Data.Finset.Sort
import Mathlib.Data.Finset.SymmDiff

namespace LayeredStore

/-!
# The catalogue of a folder is the set of numbers that its file names spell

A folder may hold anything: files with other names, sub-folders, several spellings of one
number, digits that are no word, files without a partner. What counts are two sets of numbers,
one for each label, and the generations and the next number follow from these alone.

* `Disk.HasFile`, `Disk.IsListable` — a file of a folder, and folders with a listing;
* `Generation.numbersIn` — the set of numbers under a label;
* `Generation.indices_eq_sort` — it is finite, and what is listed is this set in order;
* `Generation.discover_eq_of_indices`, `Generation.nextIndex_of_empty`,
  `Generation.nextIndex_of_nonempty` — what follows from the two sets;
* `Generation.catalogue_exact` — all of it, for any folder.
-/

namespace Disk

variable {disk : Disk} {folder : Path} {home : Place} {name : String}

/-! ### Files of a folder -/

/-- The folder has a regular file with the name. -/
def HasFile (disk : Disk) (folder : Path) (name : String) : Prop :=
  ∃ listing content, disk.listing folder = .ok listing ∧ (name, Node.file content) ∈ listing

/-- The folder can be listed unless it is missing. -/
def IsListable (disk : Disk) (folder : Path) : Prop :=
  ∀ fault, disk.listing folder = .error fault → fault = .notFound

theorem HasFolder.isListable (hfolder : disk.HasFolder folder home) : disk.IsListable folder := by
  intro fault h
  simp [Generation.listing_eq hfolder] at h

/-- A folder that can be listed unless it is missing is found, or is missing. -/
theorem IsListable.cases (h : disk.IsListable folder) :
    (∃ home, disk.HasFolder folder home) ∨ disk.find folder = .error .notFound :=
  (Generation.folder_or_listing_error disk folder).imp_right
    fun ⟨fault, hlisting, hmissing⟩ => hmissing (h fault hlisting)

/-- The files of a folder are those that the disk records directly below it. -/
theorem hasFile_iff (hfolder : disk.HasFolder folder home) :
    disk.HasFile folder name ↔ ∃ content, disk.node? (name :: home) = some (.file content) := by
  simp [HasFile, Generation.listing_eq hfolder, mem_children]

theorem not_hasFile_of_missing (hmissing : disk.find folder = .error .notFound) :
    ¬ disk.HasFile folder name := by
  simp [HasFile, Generation.listing_of_error hmissing]

end Disk

namespace Generation

variable {disk : Disk} {folder : Path} {home : Place} {label : String} {n : Nat}

/-! ### Numbers under a label -/

/-- The words that are spelled behind the label by the name of a file of the folder. -/
def numbersIn (disk : Disk) (folder : Path) (label : String) : Set Nat :=
  {n | n < Word.limit ∧ ∃ digits, Spells digits n
    ∧ disk.HasFile folder (label ++ String.ofList digits)}

theorem mem_numbersIn (hfolder : disk.HasFolder folder home) :
    n ∈ numbersIn disk folder label ↔ Records disk home label n := by
  simp only [numbersIn, Set.mem_ofPred_eq, Disk.hasFile_iff hfolder, Records, index?_iff_spells]
  constructor
  · rintro ⟨hlimit, digits, hspells, content, hfile⟩
    exact ⟨_, content, hfile, hlimit, digits, rfl, hspells⟩
  · rintro ⟨_, content, hfile, hlimit, digits, rfl, hspells⟩
    exact ⟨hlimit, digits, hspells, content, hfile⟩

/-- A folder that is missing has no numbers. -/
theorem numbersIn_of_missing (hmissing : disk.find folder = .error .notFound) (label : String) :
    numbersIn disk folder label = ∅ := by
  simp [numbersIn, Disk.not_hasFile_of_missing hmissing]

/-! ### What is listed under a label -/

theorem sort_toFinset {numbers : List Nat} (h : numbers.Pairwise (· < ·)) :
    numbers.toFinset.sort = numbers :=
  (List.toFinset_sort _ (h.imp Nat.ne_of_lt)).mpr (h.imp Nat.le_of_lt)

/-- The numbers under a label are finitely many, and they are listed in order. -/
theorem indices_eq_sort (h : disk.IsListable folder) (label : String) :
    ∃ numbers : Finset Nat, ↑numbers = numbersIn disk folder label
      ∧ indices disk folder label = .ok numbers.sort := by
  rcases h.cases with ⟨home, hfolder⟩ | hmissing
  · refine ⟨(numbersOf disk home label).toFinset, ?_, ?_⟩
    · ext n
      simp [mem_numbersIn hfolder]
    · rw [sort_toFinset (pairwise_numbersOf disk home label), indices_of_find hfolder]
  · exact ⟨∅, by simp [numbersIn_of_missing hmissing], by simp [indices_of_missing hmissing]⟩

/-! ### What follows from the two sets -/

theorem difference_sort (left right : Finset Nat) :
    Ascending.difference left.sort right.sort = (symmDiff left right).sort := by
  refine List.Pairwise.eq_of_mem_iff (r := (· < ·)) (Ascending.pairwise_ofList _)
    (symmDiff left right).sortedLT_sort.pairwise fun n => ?_
  simp [Finset.mem_symmDiff]

section Sets

variable {values offsets : Finset Nat}
  (hvalues : indices disk folder valuesLabel = .ok values.sort)
  (hoffsets : indices disk folder offsetsLabel = .ok offsets.sort)
include hvalues hoffsets

/-- The generations are told by the two sets, and so is what is wrong with these. -/
theorem discover_eq_of_indices : discover disk folder =
    if values.card ≠ offsets.card then
      .error (.layout (.unequal folder.text values.card offsets.card))
    else if values ≠ offsets then
      .error (.layout (.unpaired folder.text (symmDiff values offsets).sort))
    else .ok values.sort := by
  have hsort : values.sort = offsets.sort ↔ values = offsets := by
    refine ⟨fun h => ?_, fun h => by rw [h]⟩
    rw [← values.sort_toFinset (· ≤ ·), h, Finset.sort_toFinset]
  simp only [discover, hvalues, hoffsets, bind, Except.bind, Finset.length_sort, difference_sort,
    ne_eq, hsort]
  by_cases hcard : values.card = offsets.card
  · by_cases heq : values = offsets
    · simp [heq, pure, Except.pure]
    · simp [hcard, heq, throw, throwThe, MonadExceptOf.throw]
  · simp [hcard, throw, throwThe, MonadExceptOf.throw]

/-- Where there is no file the next number is zero. -/
theorem nextIndex_of_empty (hempty : values ∪ offsets = ∅) : nextIndex disk folder = .ok 0 := by
  obtain ⟨rfl, rfl⟩ := Finset.union_eq_empty.mp hempty
  simp only [nextIndex, hvalues, hoffsets, bind, Except.bind]
  simp [pure, Except.pure]

/-- The next number is the one above the highest, if there is a word above it. -/
theorem nextIndex_of_nonempty (hne : (values ∪ offsets).Nonempty) :
    nextIndex disk folder = Word.add ((values ∪ offsets).max' hne) 1 := by
  have hmax : (values.sort ++ offsets.sort).max? = some ((values ∪ offsets).max' hne) := by
    have hmem : ∀ n, n ∈ values.sort ++ offsets.sort ↔ n ∈ values ∪ offsets := by simp
    refine List.max?_eq_some_iff.mpr ⟨(hmem _).mpr ((values ∪ offsets).max'_mem hne), ?_⟩
    exact fun n hn => (values ∪ offsets).le_max' n ((hmem n).mp hn)
  simp only [nextIndex, hvalues, hoffsets, bind, Except.bind, hmax]

end Sets

/-- **Generations are discovered by the names of files alone.** Of any folder, let two sets
    hold the words that digits behind the two labels spell in the names of its files; other
    names, sub-folders and numbers that are no words count for nothing, and a folder that is
    missing has none. There are generations exactly if the sets are equal, and they are this
    set in ascending order. Sets of different sizes are reported by their sizes, and else the
    numbers that only one of them has are listed in ascending order. The next number is zero
    where there is none, and else the one above the highest of both sets, which overflows
    exactly at the last word. -/
theorem catalogue_exact (h : disk.IsListable folder) : ∃ values offsets : Finset Nat,
    ↑values = numbersIn disk folder valuesLabel ∧ ↑offsets = numbersIn disk folder offsetsLabel
      ∧ (disk.find folder = .error .notFound → values = ∅ ∧ offsets = ∅)
      ∧ (∀ numbers, discover disk folder = .ok numbers ↔ values = offsets ∧ numbers = values.sort)
      ∧ (values.card ≠ offsets.card → discover disk folder
        = .error (.layout (.unequal folder.text values.card offsets.card)))
      ∧ (values.card = offsets.card → values ≠ offsets → discover disk folder
        = .error (.layout (.unpaired folder.text (symmDiff values offsets).sort)))
      ∧ (values ∪ offsets = ∅ → nextIndex disk folder = .ok 0)
      ∧ ∀ hne : (values ∪ offsets).Nonempty, nextIndex disk folder =
        if (values ∪ offsets).max' hne + 1 = Word.limit then .error (.overflow .sum)
        else .ok ((values ∪ offsets).max' hne + 1) := by
  obtain ⟨values, hvaluesSet, hvalues⟩ := indices_eq_sort h valuesLabel
  obtain ⟨offsets, hoffsetsSet, hoffsets⟩ := indices_eq_sort h offsetsLabel
  have hdiscover := discover_eq_of_indices hvalues hoffsets
  refine ⟨values, offsets, hvaluesSet, hoffsetsSet, fun hmissing => ?_, fun numbers => ?_,
    fun hcard => ?_, fun hcard hne => ?_, nextIndex_of_empty hvalues hoffsets, fun hne => ?_⟩
  · rw [numbersIn_of_missing hmissing] at hvaluesSet hoffsetsSet
    exact ⟨Finset.coe_eq_empty.mp hvaluesSet, Finset.coe_eq_empty.mp hoffsetsSet⟩
  · rw [hdiscover]
    by_cases heq : values = offsets
    · simp [heq, eq_comm]
    · by_cases hcard : values.card = offsets.card <;> simp [heq, hcard]
  · simp [hdiscover, hcard]
  · simp [hdiscover, hcard, hne]
  · -- every number in the sets is a word, so at most the last one has no word above it
    have hword : (values ∪ offsets).max' hne < Word.limit := by
      rcases Finset.mem_union.mp ((values ∪ offsets).max'_mem hne) with hmem | hmem
      · exact (hvaluesSet ▸ Finset.mem_coe.mpr hmem : _ ∈ numbersIn disk folder valuesLabel).1
      · exact (hoffsetsSet ▸ Finset.mem_coe.mpr hmem : _ ∈ numbersIn disk folder offsetsLabel).1
    rw [nextIndex_of_nonempty hvalues hoffsets hne, Word.add]
    by_cases hlast : (values ∪ offsets).max' hne + 1 = Word.limit
    · rw [if_pos hlast, if_neg (by omega)]
    · rw [if_neg hlast, if_pos (by omega)]

/-- Two spellings of one number, a sub-folder and a link named like files, a number that is no
    word, and a file with another name. -/
theorem catalogue_exact_mixed :
    let disk := [("values7", Node.file []), ("values007", .file [1]), ("values10", .file []),
      ("offsets7", .file []), ("offsets010", .file []), ("values9", .folder),
      ("offsets11", .link "values7"), ("offsets18446744073709551616", .file []),
      ("valuesx", .file [])].foldl
        (fun disk file => disk.put [file.1] file.2) Disk.empty
    let folder : Path := .ofText [] "/"
    disk.IsListable folder ∧ discover disk folder = .ok [7, 10]
      ∧ nextIndex disk folder = .ok 11
      ∧ ∃ numbers : Finset Nat, ↑numbers = numbersIn disk folder valuesLabel
        ∧ ↑numbers = numbersIn disk folder offsetsLabel ∧ [7, 10] = numbers.sort := by
  intro disk folder
  have hfolder : disk.HasFolder folder [] := ⟨rfl, rfl⟩
  have hlistable := hfolder.isListable
  have hdiscover : discover disk folder = .ok [7, 10] := by decide +kernel
  obtain ⟨values, offsets, hvalues, hoffsets, -, hok, -⟩ := catalogue_exact hlistable
  obtain ⟨rfl, hsort⟩ := (hok [7, 10]).mp hdiscover
  exact ⟨hlistable, hdiscover, by decide +kernel, values, hvalues, hoffsets, hsort⟩

end Generation

end LayeredStore
