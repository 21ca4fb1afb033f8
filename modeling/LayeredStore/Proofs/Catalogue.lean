import LayeredStore.Generation.Catalogue
import LayeredStore.Proofs.Answers
import LayeredStore.Proofs.Folders
import Mathlib.Data.List.Sort

namespace LayeredStore

/-!
# The catalogue of a folder is what the disk records

The generations of a folder are read off the names of its files, so they are settled by
which files the disk records directly below the folder.

* `labels` — the labels of the two kinds of files;
* `Spells`, `index?_iff_spells` — digits that spell a number, and the names that are read as one;
* `plain_of_index?`, `fileName_inj` — names of generations' files are plain, and each
  stands for one file of one generation;
* `indices_eq`, `discover_eq`, `nextIndex_eq` — what a folder's catalogue says;
* `lt_of_nextIndex`, `vacant_of_nextIndex` — the number of the next generation is above those of
  all files, so none is in its way;
* `oldNames`, `purge_of_plain`, `purge_spec` — which files are gone when old generations were
  deleted;
* `Disk.withoutGenerations` — a disk without the files of some generations.
-/

namespace Generation

/-! ### Names -/

/-- The labels of the two files of a generation. -/
def labels : List String := [valuesLabel, offsetsLabel]

/-- The place of a generation's file in a folder. -/
def filePlace (home : Place) (label : String) (index : Nat) : Place :=
  fileName label index :: home

/-- The place is that of a file of the generation. -/
def IsFileOf (home : Place) (index : Nat) (place : Place) : Prop :=
  ∃ label ∈ labels, place = filePlace home label index

variable {label other name : String} {i j n : Nat}

theorem values_mem_labels : valuesLabel ∈ labels := List.mem_cons_self

theorem offsets_mem_labels : offsetsLabel ∈ labels := List.mem_cons_of_mem _ List.mem_cons_self

/-- The digits, of which there is at least one, spell the number. Zeros may come first. -/
structure Spells (digits : List Char) (n : Nat) : Prop where
  ne_nil : digits ≠ []
  isDigit : ∀ c ∈ digits, c.isDigit = true
  value_eq : Nat.ofDigitChars 10 digits 0 = n

theorem indexOfDigits?_eq_some_iff {digits : List Char} :
    indexOfDigits? digits = some n ↔ n < Word.limit ∧ Spells digits n := by
  unfold indexOfDigits?
  constructor
  · intro h
    split at h
    next hdigits =>
      dsimp only at h
      split at h
      next hlimit =>
        cases h
        exact ⟨hlimit, hdigits.1, List.all_eq_true.mp hdigits.2, rfl⟩
      next => cases h
    next => cases h
  · rintro ⟨hlimit, hne, hdigits, rfl⟩
    simp [hne, List.all_eq_true.mpr hdigits, hlimit]

/-- A name is read as a word exactly if digits that spell it stand behind the label. -/
theorem index?_iff_spells : index? label name = some n ↔
    n < Word.limit ∧ ∃ digits, name = label ++ String.ofList digits ∧ Spells digits n := by
  rw [index?, Option.bind_eq_some_iff]
  simp only [behind?_eq_some_iff, indexOfDigits?_eq_some_iff]
  constructor
  · rintro ⟨digits, hname, hlimit, hspells⟩
    exact ⟨hlimit, digits, String.toList_injective (by simp [hname]), hspells⟩
  · rintro ⟨hlimit, digits, rfl, hspells⟩
    exact ⟨digits, by simp, hlimit, hspells⟩

/-- A generation's file is named by its label and digits. -/
theorem toList_of_index? (h : index? label name = some n) :
    ∃ digits, name.toList = label.toList ++ digits ∧ Spells digits n := by
  obtain ⟨_, digits, rfl, hspells⟩ := index?_iff_spells.mp h
  exact ⟨digits, by simp, hspells⟩

/-- A name that ends in digits is plain: no file system lets it hold the character zero. -/
theorem isPlain_of_index? (h : index? label name = some n) (hzero : '\x00' ∉ name.toList) :
    Path.IsPlain name := by
  obtain ⟨digits, hname, hspells⟩ := toList_of_index? h
  have hdigit : ∃ c ∈ name.toList, c.isDigit = true := by
    obtain ⟨c, hc⟩ := List.exists_mem_of_ne_nil digits hspells.ne_nil
    exact ⟨c, by simp [hname, hc], hspells.isDigit c hc⟩
  -- a name with a digit in it neither stays nor goes up
  refine ⟨?_, ?_, by simpa using hzero⟩
  · rw [Path.stays, Bool.or_eq_false_iff, beq_eq_false_iff_ne, beq_eq_false_iff_ne]
    constructor <;> rintro rfl <;> simp at hdigit
  · rintro rfl
    simp at hdigit

/-- The names of generations' files are plain. -/
theorem plain_of_index? (hlabel : label ∈ labels) (h : index? label name = some n) :
    Path.IsPlain name := by
  refine isPlain_of_index? h fun hzero => ?_
  obtain ⟨digits, hname, hspells⟩ := toList_of_index? h
  rw [hname, List.mem_append] at hzero
  rcases hzero with hzero | hzero
  · rcases List.mem_pair.mp hlabel with rfl | rfl <;> revert hzero <;> decide
  · have hdigit := hspells.isDigit _ hzero
    revert hdigit
    decide

theorem plain_fileName (hlabel : label ∈ labels) (hi : i < Word.limit) :
    Path.IsPlain (fileName label i) :=
  plain_of_index? hlabel (index?_fileName hi)

/-- Texts that begin with different labels differ. -/
theorem label_eq_of_append {digits digits' : List Char} (hlabel : label ∈ labels)
    (hother : other ∈ labels) (h : label.toList ++ digits = other.toList ++ digits') :
    label = other := by
  rcases List.mem_pair.mp hlabel with rfl | rfl <;> rcases List.mem_pair.mp hother with rfl | rfl
  · rfl
  · cases h
  · cases h
  · rfl

/-- A name made from a label and a number stands for no other label and number. -/
theorem of_index?_fileName (hlabel : label ∈ labels) (hother : other ∈ labels)
    (h : index? other (fileName label i) = some n) : other = label ∧ n = i := by
  obtain ⟨digits, hname, _⟩ := toList_of_index? h
  rw [fileName, String.toList_append] at hname
  -- the label is told by how the name begins, and then the number by the digits
  obtain rfl := label_eq_of_append hlabel hother hname
  rw [index?_fileName_eq] at h
  split at h
  · exact ⟨rfl, (Option.some.inj h).symm⟩
  · cases h

/-- Different generations and different labels have different files. -/
theorem fileName_inj (hlabel : label ∈ labels) (hother : other ∈ labels) (hj : j < Word.limit)
    (h : fileName label i = fileName other j) : label = other ∧ i = j := by
  have hindex : index? other (fileName label i) = some j := by rw [h, index?_fileName hj]
  obtain ⟨rfl, rfl⟩ := of_index?_fileName hlabel hother hindex
  exact ⟨rfl, rfl⟩

/-! ### What is listed -/

variable {disk after : Disk} {folder : Path} {home : Place} {numbers descending : List Nat}

/-- The disk records a file of generation `n` with the label in the folder. -/
def Records (disk : Disk) (home : Place) (label : String) (n : Nat) : Prop :=
  ∃ name content, disk.node? (name :: home) = some (.file content)
    ∧ index? label name = some n

/-- While files are kept, so are the numbers that they stand for. -/
theorem Records.mono (h : Records disk home label n) (hkeeps : Disk.KeepsFiles disk after) :
    Records after home label n := by
  obtain ⟨name, content, hfile, hname⟩ := h
  exact ⟨name, content, hkeeps _ _ hfile, hname⟩

/-- The making of folders puts no files anywhere. -/
theorem records_of_makeFolders (hmade : Disk.makeFolders folder disk = .ok () after) :
    Records after home label n ↔ Records disk home label n := by
  refine ⟨?_, fun h => h.mono (Disk.adds_of_makeFolders hmade).keepsFiles⟩
  rintro ⟨name, content, hfile, hname⟩
  exact ⟨name, content, Disk.of_makeFolders_node? hmade hfile (fun heq => by cases heq), hname⟩

/-- The files listed under a label are those that the disk records. -/
theorem mem_numbered_children : (name, n) ∈ numbered label (disk.children home) ↔
    (∃ content, disk.node? (name :: home) = some (.file content))
      ∧ index? label name = some n := by
  rw [numbered, List.mem_filterMap]
  constructor
  · rintro ⟨⟨found, node⟩, hmem, hnumber⟩
    have hnode := Disk.mem_children.mp hmem
    cases node with
    | folder => cases hnumber
    | link target => cases hnumber
    | file content =>
      obtain ⟨number, hnumber, heq⟩ := Option.map_eq_some_iff.mp hnumber
      cases heq
      exact ⟨⟨content, hnode⟩, hnumber⟩
  · rintro ⟨⟨content, hnode⟩, hnumber⟩
    refine ⟨(name, .file content), Disk.mem_children.mpr hnode, ?_⟩
    simp only [Node.isFile, if_true, hnumber, Option.map_some]

theorem listing_eq (hfolder : disk.HasFolder folder home) :
    disk.listing folder = .ok (disk.children home) := by
  simp only [Disk.listing, hfolder.1, hfolder.2]

theorem files_eq (hfolder : disk.HasFolder folder home) (label : String) :
    files disk folder label = .ok (numbered label (disk.children home)) := by
  simp only [files, listing_eq hfolder]

/-- The numbers of the files that are recorded under a label, ascending and each once. -/
def numbersOf (disk : Disk) (home : Place) (label : String) : List Nat :=
  Ascending.ofList ((numbered label (disk.children home)).map Prod.snd)

@[simp] theorem mem_numbersOf : n ∈ numbersOf disk home label ↔ Records disk home label n := by
  rw [numbersOf, Ascending.mem_ofList, List.mem_map]
  constructor
  · rintro ⟨⟨name, number⟩, hlisted, rfl⟩
    obtain ⟨⟨content, hnode⟩, hnumber⟩ := mem_numbered_children.mp hlisted
    exact ⟨name, content, hnode, hnumber⟩
  · rintro ⟨name, content, hnode, hnumber⟩
    exact ⟨(name, n), mem_numbered_children.mpr ⟨⟨content, hnode⟩, hnumber⟩, rfl⟩

theorem pairwise_numbersOf (disk : Disk) (home : Place) (label : String) :
    (numbersOf disk home label).Pairwise (· < ·) :=
  Ascending.pairwise_ofList _

theorem indices_of_find (hfolder : disk.HasFolder folder home) (label : String) :
    indices disk folder label = .ok (numbersOf disk home label) := by
  rw [indices, files_eq hfolder]
  rfl

/-- The numbers under a label are those of the files that the disk records. -/
theorem indices_eq (hfolder : disk.HasFolder folder home)
    (hnumbers : numbers.Pairwise (· < ·)) (hmem : ∀ n, n ∈ numbers ↔ Records disk home label n) :
    indices disk folder label = .ok numbers := by
  have heq : numbersOf disk home label = numbers :=
    List.Pairwise.eq_of_mem_iff (pairwise_numbersOf disk home label) hnumbers
      fun n => by rw [mem_numbersOf, hmem]
  rw [indices_of_find hfolder, heq]

/-- Where the files of both kinds have the same numbers, these are the generations. -/
theorem discover_eq (hfolder : disk.HasFolder folder home)
    (hnumbers : numbers.Pairwise (· < ·))
    (hmem : ∀ label ∈ labels, ∀ n, n ∈ numbers ↔ Records disk home label n) :
    discover disk folder = .ok numbers := by
  have hvalues := indices_eq hfolder hnumbers (hmem _ values_mem_labels)
  have hoffsets := indices_eq hfolder hnumbers (hmem _ offsets_mem_labels)
  simp only [discover, hvalues, hoffsets, bind, Except.bind]
  rw [if_neg (not_not_intro rfl), if_neg (not_not_intro rfl)]
  rfl

/-- What was discovered are the numbers under either label. -/
theorem of_discover_ok (hfolder : disk.HasFolder folder home)
    (h : discover disk folder = .ok numbers) :
    ∀ label ∈ labels, numbers = numbersOf disk home label := by
  have hindices := indices_of_find hfolder
  rw [discover, hindices valuesLabel, hindices offsetsLabel] at h
  dsimp only [bind, Except.bind] at h
  split at h
  · cases h
  split at h
  · cases h
  · rename_i heq
    cases h
    intro label hlabel
    rcases List.mem_pair.mp hlabel with rfl | rfl
    · rfl
    · exact not_not.mp heq

/-- What is not found cannot be listed, for the same reason. -/
theorem listing_of_error {fault : SystemFault} (h : disk.find folder = .error fault) :
    disk.listing folder = .error fault := by
  rw [Disk.find] at h
  rw [Disk.listing]
  split at h
  · cases h
    rfl
  · simp only [h]

/-- A path leads to a folder, or to nothing that can be listed. -/
theorem folder_or_listing_error (disk : Disk) (folder : Path) :
    (∃ home, disk.HasFolder folder home) ∨ ∃ fault, disk.listing folder = .error fault
      ∧ (fault = .notFound → disk.find folder = .error .notFound) := by
  cases hfind : disk.find folder with
  | error fault => exact .inr ⟨fault, listing_of_error hfind, fun heq => by rw [heq]⟩
  | ok node =>
    obtain ⟨place, hpath, hplace⟩ := Disk.find_ok_iff.mp hfind
    -- of what is there only a folder has a listing
    cases node with
    | folder => exact .inl ⟨place, hpath, hplace⟩
    | _ => exact .inr ⟨.notADirectory, by simp only [Disk.listing, hpath, hplace], nofun⟩

theorem files_of_missing (h : disk.find folder = .error .notFound) (label : String) :
    files disk folder label = .ok [] := by
  simp only [files, listing_of_error h]

theorem indices_of_missing (h : disk.find folder = .error .notFound) (label : String) :
    indices disk folder label = .ok [] := by
  rw [indices, files_of_missing h]
  rfl

/-- The numbers under a label are those of files that are recorded in the folder. -/
theorem exists_records_of_indices (h : indices disk folder label = .ok numbers)
    (hn : n ∈ numbers) : ∃ home, disk.HasFolder folder home ∧ Records disk home label n := by
  rcases folder_or_listing_error disk folder with ⟨home, hfolder⟩ | ⟨fault, hlisting, _⟩
  · rw [indices_of_find hfolder] at h
    cases h
    exact ⟨home, hfolder, mem_numbersOf.mp hn⟩
  · -- what cannot be listed has no numbers
    rw [indices, files, hlisting] at h
    cases fault <;> cases h
    cases hn

/-- A folder that is missing holds no generation. -/
theorem discover_of_missing (h : disk.find folder = .error .notFound) :
    discover disk folder = .ok [] := by
  simp only [discover, indices_of_missing h, bind, Except.bind]
  rfl

/-- Where there is no folder to be listed the generations cannot be told. -/
theorem discover_of_fault (hfolder : disk.find folder ≠ .ok .folder)
    (hmissing : disk.find folder ≠ .error .notFound) :
    ∃ fault, discover disk folder = .error fault := by
  rcases folder_or_listing_error disk folder with hfound | ⟨fault, hlisting, hne⟩
  · exact absurd (Disk.find_folder_iff.mpr hfound) hfolder
  -- only a missing folder is taken for an empty one
  have hfiles : files disk folder valuesLabel = .error (.system fault) := by
    rw [files, hlisting]
    cases fault <;> first | rfl | exact absurd (hne rfl) hmissing
  exact ⟨.system fault, by simp only [discover, indices, hfiles, bind, Except.bind]⟩

/-- The number behind descending ones: one above the first, and zero where there is none. -/
def aboveFirst : List Nat → Except Fault Nat
  | [] => .ok 0
  | highest :: _ => Word.add highest 1

/-- The number of the next generation is one above the highest. -/
theorem nextIndex_eq (hfolder : disk.HasFolder folder home)
    (hdescending : descending.Pairwise (· > ·))
    (hmem : ∀ label ∈ labels, ∀ n, n ∈ descending ↔ Records disk home label n) :
    nextIndex disk folder = aboveFirst descending := by
  have hascending : descending.reverse.Pairwise (· < ·) := List.pairwise_reverse.mpr hdescending
  have hreverse : ∀ label ∈ labels, ∀ n, n ∈ descending.reverse ↔ Records disk home label n :=
    fun label hlabel n => List.mem_reverse.trans (hmem label hlabel n)
  have hvalues := indices_eq hfolder hascending (hreverse _ values_mem_labels)
  have hoffsets := indices_eq hfolder hascending (hreverse _ offsets_mem_labels)
  simp only [nextIndex, hvalues, hoffsets, bind, Except.bind]
  cases descending with
  | nil => rfl
  | cons highest rest =>
    -- both labels give the same numbers, and the first of them is the highest
    have hmax : ((highest :: rest).reverse ++ (highest :: rest).reverse).max? = some highest := by
      refine List.max?_eq_some_iff.mpr ⟨by simp, fun n hn => ?_⟩
      rw [List.mem_append, or_self, List.mem_reverse, List.mem_cons] at hn
      rcases hn with rfl | hn
      · exact Nat.le_refl _
      · exact Nat.le_of_lt ((List.pairwise_cons.mp hdescending).1 n hn)
    rw [hmax, aboveFirst]

/-- The number of the next generation is a word. -/
theorem lt_limit_of_nextIndex (h : nextIndex disk folder = .ok i) : i < Word.limit := by
  obtain ⟨values, _, h⟩ := Answer.bind_eq_ok_iff.mp h
  obtain ⟨offsets, _, h⟩ := Answer.bind_eq_ok_iff.mp h
  split at h
  · cases h
    decide
  · rw [Word.add] at h
    split at h
    · cases h
      assumption
    · cases h

/-- The number of the next generation is above that of every file. -/
theorem lt_of_nextIndex (hfolder : disk.HasFolder folder home)
    (h : nextIndex disk folder = .ok i) (hlabel : label ∈ labels)
    (hrecords : Records disk home label n) : n < i := by
  have hmem : n ∈ numbersOf disk home valuesLabel ++ numbersOf disk home offsetsLabel := by
    rw [List.mem_append, mem_numbersOf, mem_numbersOf]
    rcases List.mem_pair.mp hlabel with rfl | rfl
    · exact .inl hrecords
    · exact .inr hrecords
  simp only [nextIndex, indices_of_find hfolder, bind, Except.bind] at h
  split at h
  · rename_i hnone
    rw [List.max?_eq_none_iff.mp hnone] at hmem
    cases hmem
  · rename_i highest hhighest
    rw [Word.add] at h
    split at h
    · cases h
      exact Nat.lt_succ_of_le ((List.max?_eq_some_iff.mp hhighest).2 n hmem)
    · cases h

/-- Where a file of the next generation is to be, there is nothing unless a folder or a link
    is. -/
theorem vacant_of_nextIndex (hfolder : disk.HasFolder folder home)
    (h : nextIndex disk folder = .ok i) (hlabel : label ∈ labels)
    (hfree : ∀ node, disk.node? (filePlace home label i) = some node → node.isFile = true) :
    disk.node? (filePlace home label i) = none := by
  cases hfound : disk.node? (filePlace home label i) with
  | none => rfl
  | some node =>
    cases node with
    | folder => cases hfree _ hfound
    | link target => cases hfree _ hfound
    | file content =>
      have hrecords : Records disk home label i :=
        ⟨_, content, hfound, index?_fileName (lt_limit_of_nextIndex h)⟩
      exact absurd (lt_of_nextIndex hfolder h hlabel hrecords) (Nat.lt_irrefl _)

/-! ### Deleting old generations -/

/-- Files that are there are all deleted, and nothing else. -/
theorem deleteAll_spec {names : List String} (hfolder : disk.HasFolder folder home)
    (hplain : ∀ name ∈ names, Path.IsPlain name) (hnodup : names.Nodup)
    (hfiles : ∀ name ∈ names, ∃ content, disk.node? (name :: home) = some (.file content)) :
    ∃ after, deleteAll folder names disk = .ok names.length after ∧ Disk.KeepsWays disk after
      ∧ ∀ place, after.node? place
        = if place ∈ names.map (· :: home) then none else disk.node? place := by
  -- over the names; the files of those that are left are still there, as names differ
  induction names generalizing disk with
  | nil => exact ⟨disk, rfl, .refl disk, fun place => rfl⟩
  | cons name names ih =>
    obtain ⟨hfresh, hrest⟩ := List.nodup_cons.mp hnodup
    obtain ⟨content, hcontent⟩ := hfiles name List.mem_cons_self
    have hdelete := Disk.delete_child (hplain name List.mem_cons_self) hfolder hcontent
    have hways : Disk.KeepsWays disk (disk.remove (name :: home)) :=
      Disk.keepsWays_remove fun node hnode => by cases hcontent.symm.trans hnode; rfl
    obtain ⟨after, hdeleted, hkept, hnodes⟩ := ih (hfolder.mono hways)
      (fun other hother => hplain other (List.mem_cons_of_mem _ hother)) hrest (by
        intro other hother
        have hne : other ≠ name := fun heq => hfresh (heq ▸ hother)
        have hplace : ¬ other :: home = name :: home :=
          fun heq => hne (List.cons.inj heq).1
        rw [Disk.node?_remove, if_neg hplace]
        exact hfiles other (List.mem_cons_of_mem _ hother))
    refine ⟨after, ?_, hways.trans hkept, fun place => ?_⟩
    · rw [deleteAll, Action.bind_ok hdelete, Action.bind_ok hdeleted]
      rfl
    · rw [hnodes, Disk.node?_remove, List.map_cons]
      by_cases hplace : place = name :: home
      · simp [hplace]
      · simp [hplace]

/-- The file is one of a generation before `keep`. -/
def IsOld (home : Place) (label : String) (keep : Nat) (place : Place) : Prop :=
  ∃ name n, place = name :: home ∧ index? label name = some n ∧ n < keep

/-- A name in a folder stands for one place. -/
theorem place_of_nameIn? {parent place : Place} (h : Disk.nameIn? parent place = some name) :
    place = name :: parent := by
  cases place with
  | nil => cases h
  | cons first outer =>
    rw [Disk.nameIn?] at h
    split at h
    · rename_i hparent
      cases h
      rw [hparent]
    · cases h

/-- The names of the children of a place differ from one another. -/
theorem pairwise_children (disk : Disk) (place : Place) :
    (disk.children place).Pairwise fun a b => a.1 ≠ b.1 := by
  have hnodes : disk.nodes.Pairwise fun a b => a.1 ≠ b.1 := List.pairwise_map.mp disk.nodup
  refine hnodes.filterMap _ fun left right hne a ha b hb heq => hne ?_
  obtain ⟨first, hfirst, rfl⟩ := Option.map_eq_some_iff.mp ha
  obtain ⟨second, hsecond, rfl⟩ := Option.map_eq_some_iff.mp hb
  rw [place_of_nameIn? hfirst, place_of_nameIn? hsecond, show first = second from heq]

/-- The names of the listed files differ from one another. -/
theorem nodup_numbered (disk : Disk) (home : Place) (label : String) :
    ((numbered label (disk.children home)).map Prod.fst).Nodup := by
  have hname : ∀ {child : String × Node} {file : String × Nat},
      (if child.2.isFile then (index? label child.1).map (child.1, ·) else none) = some file →
        file.1 = child.1 := by
    intro child file hfile
    split at hfile
    · obtain ⟨n, _, rfl⟩ := Option.map_eq_some_iff.mp hfile
      rfl
    · cases hfile
  refine List.pairwise_map.mpr ((pairwise_children disk home).filterMap _ ?_)
  intro a a' hne b hb b' hb' heq
  exact hne (by rw [← hname hb, ← hname hb', heq])

/-- The names of the files of generations before `keep`. -/
def oldNames (disk : Disk) (home : Place) (label : String) (keep : Nat) : List String :=
  ((numbered label (disk.children home)).filter fun file => decide (file.2 < keep)).map
    Prod.fst

theorem mem_oldNames {keep : Nat} : name ∈ oldNames disk home label keep ↔
    (∃ content, disk.node? (name :: home) = some (.file content))
      ∧ ∃ n, index? label name = some n ∧ n < keep := by
  simp only [oldNames, List.mem_map, List.mem_filter, decide_eq_true_eq, Prod.exists,
    exists_and_right, exists_eq_right, mem_numbered_children]
  constructor
  · rintro ⟨n, ⟨hnode, hn⟩, hlt⟩
    exact ⟨hnode, n, hn, hlt⟩
  · rintro ⟨hnode, n, hn, hlt⟩
    exact ⟨n, ⟨hnode, hn⟩, hlt⟩

theorem nodup_oldNames (disk : Disk) (home : Place) (label : String) (keep : Nat) :
    (oldNames disk home label keep).Nodup :=
  List.Nodup.sublist (List.Sublist.map _ List.filter_sublist) (nodup_numbered disk home label)

/-- The purge of a folder that is found deletes the files with old names. -/
theorem purge_eq (hfolder : disk.HasFolder folder home) (label : String) (keep : Nat) :
    purge folder label keep disk = deleteAll folder (oldNames disk home label keep) disk := by
  have hfiles : (Action.lift (files disk folder label) : Action Disk _) disk
      = .ok (numbered label (disk.children home)) disk := by
    rw [files_eq hfolder]
    rfl
  exact Action.bind_ok hfiles

/-- All files with old names are deleted and counted, and nothing else is. -/
theorem purge_of_plain {keep : Nat} (hfolder : disk.HasFolder folder home)
    (hplain : ∀ name ∈ oldNames disk home label keep, Path.IsPlain name) :
    ∃ after, purge folder label keep disk = .ok (oldNames disk home label keep).length after
      ∧ Disk.KeepsWays disk after ∧ ∀ place, after.node? place
        = if place ∈ (oldNames disk home label keep).map (· :: home) then none
          else disk.node? place := by
  rw [purge_eq hfolder]
  exact deleteAll_spec hfolder hplain (nodup_oldNames disk home label keep)
    fun name hname => (mem_oldNames.mp hname).1

/-- All files of old generations are deleted, and nothing else. -/
theorem purge_spec (hfolder : disk.HasFolder folder home) (hlabel : label ∈ labels)
    (keep : Nat) : ∃ count after, purge folder label keep disk = .ok count after
      ∧ Disk.KeepsWays disk after ∧ ∀ place node, after.node? place = some node ↔
        disk.node? place = some node ∧ ¬ (node.isFile = true ∧ IsOld home label keep place) := by
  obtain ⟨after, hpurged, hkept, hnodes⟩ := purge_of_plain hfolder fun name hname => by
    obtain ⟨_, n, hn, _⟩ := mem_oldNames.mp hname
    exact plain_of_index? hlabel hn
  refine ⟨_, after, hpurged, hkept, fun place node => ?_⟩
  rw [hnodes]
  -- what was deleted are the places of the old names
  by_cases hplace : place ∈ (oldNames disk home label keep).map (· :: home)
  · obtain ⟨name, hname, rfl⟩ := List.mem_map.mp hplace
    obtain ⟨⟨content, hcontent⟩, n, hn, hlt⟩ := mem_oldNames.mp hname
    rw [if_pos hplace, hcontent]
    constructor
    · intro h
      cases h
    · rintro ⟨h, hnot⟩
      cases h
      exact (hnot ⟨rfl, name, n, rfl, hn, hlt⟩).elim
  · rw [if_neg hplace]
    refine ⟨fun h => ⟨h, ?_⟩, fun h => h.1⟩
    rintro ⟨hfile, name, n, rfl, hn, hlt⟩
    cases node with
    | folder => cases hfile
    | link target => cases hfile
    | file content =>
      exact hplace (List.mem_map.mpr ⟨name, mem_oldNames.mpr ⟨⟨content, h⟩, n, hn, hlt⟩, rfl⟩)

end Generation

/-! ### Disks without some generations -/

namespace Disk

/-- The disk without the files of the given generations of a folder. -/
def withoutGenerations (disk : Disk) (home : Place) (gone : List Nat) : Disk :=
  disk.without fun place => (disk.node? place).any Node.isFile && gone.any fun n =>
    Generation.labels.any fun label => place == Generation.filePlace home label n

variable {disk : Disk} {home : Place} {gone : List Nat}

theorem node?_withoutGenerations {place : Place} {node : Node} :
    (disk.withoutGenerations home gone).node? place = some node ↔ disk.node? place = some node
      ∧ (node.isFile = true →
        ∀ n ∈ gone, ∀ label ∈ Generation.labels, place ≠ Generation.filePlace home label n) := by
  rw [withoutGenerations, node?_without]
  split
  · rename_i hgone
    rw [Bool.and_eq_true] at hgone
    obtain ⟨n, hn, hlabels⟩ := List.any_eq_true.mp hgone.2
    obtain ⟨label, hlabel, hplace⟩ := List.any_eq_true.mp hlabels
    constructor
    · intro h
      cases h
    · rintro ⟨hnode, hleft⟩
      rw [hnode] at hgone
      exact absurd (beq_iff_eq.mp hplace) (hleft hgone.1 n hn label hlabel)
  · rename_i hgone
    refine ⟨fun hnode => ⟨hnode, fun hfile n hn label hlabel heq => hgone ?_⟩, fun h => h.1⟩
    rw [Bool.and_eq_true, hnode]
    exact ⟨hfile, List.any_eq_true.mpr
      ⟨n, hn, List.any_eq_true.mpr ⟨label, hlabel, beq_iff_eq.mpr heq⟩⟩⟩

theorem keepsWays_withoutGenerations (disk : Disk) (home : Place) (gone : List Nat) :
    KeepsWays disk (disk.withoutGenerations home gone) :=
  fun _ _ hnode hplace => node?_withoutGenerations.mpr
    ⟨hplace, fun hfile => by rw [hfile] at hnode; cases hnode⟩

end Disk

end LayeredStore
