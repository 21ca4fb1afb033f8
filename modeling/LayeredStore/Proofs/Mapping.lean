import LayeredStore.Proofs.Writing
import LayeredStore.Store

namespace LayeredStore

/-!
# How the generations of a folder are mapped

A folder is loaded by the names of its files and by what these hold. While files, folders
and links stay, generations are mapped as before, and one that is written with the next
number is mapped in front of the others.

* `Volume` — a generation as it was written;
* `Store.openTable_ok_iff`, `Store.openTables_cons_iff` — when generations are mapped;
* `Store.openTable_eq` — what was written is mapped as the table of a volume;
* `Store.openTable_mono` — generations on a disk with something more;
* `Generation.Keeps` — a generation with files that are kept;
* `Generation.Written.records_iff` — what is recorded once a generation is written;
* `Store.loadTables_cons` — loading a folder to which a generation was added.
-/

/-! ### Volumes -/

/-- A generation as it was written: its number and its entries. -/
structure Volume where
  index : Nat
  entries : List Entry

namespace Volume

/-- What the file of a volume with the given label holds. -/
def content (volume : Volume) (label : String) : Bytes :=
  if label = Generation.valuesLabel then Generation.records volume.entries
  else Generation.slots volume.entries

/-- The table that is a volume when it is mapped. -/
def table (order : KeyOrder) (volume : Volume) : Table :=
  ⟨volume.index, Generation.records volume.entries, Generation.slots volume.entries, order⟩

/-- The number of the volume that comes in front of the given ones. -/
def next : List Volume → Nat
  | [] => 0
  | volume :: _ => volume.index + 1

/-- The entries of volumes, the newest first. -/
def layers (volumes : List Volume) : List (List Entry) := volumes.map entries

@[simp] theorem layers_nil : layers [] = [] := rfl

@[simp] theorem layers_cons (volume : Volume) (volumes : List Volume) :
    layers (volume :: volumes) = volume.entries :: layers volumes := rfl

end Volume

/-! ### Mapping -/

namespace Store

variable {disk after : Disk} {folder : Path} {home : Place} {order : KeyOrder} {index : Nat}
  {numbers : List Nat} {table : Table} {tables : List Table}

/-- A generation is mapped if both files can be and make a table. -/
theorem openTable_ok_iff : openTable disk folder order index = .ok table
    ↔ ∃ values offsets,
      disk.mapFile (folder.child (Generation.fileName Generation.valuesLabel index)) = .ok values
      ∧ disk.mapFile (folder.child (Generation.fileName Generation.offsetsLabel index)) = .ok offsets
      ∧ Table.ofRegions index values offsets order = .ok table := by
  rw [openTable]
  dsimp only
  cases disk.mapFile (folder.child (Generation.fileName Generation.valuesLabel index)) with
  | error fault => simp [Except.mapError, bind, Except.bind]
  | ok values =>
    cases disk.mapFile (folder.child (Generation.fileName Generation.offsetsLabel index)) with
    | error fault => simp [Except.mapError, bind, Except.bind]
    | ok offsets => simp [Except.mapError, bind, Except.bind]

/-- Generations are mapped one after the other. -/
theorem openTables_cons_iff : openTables disk folder order (index :: numbers) = .ok tables
    ↔ ∃ table rest, openTable disk folder order index = .ok table
      ∧ openTables disk folder order numbers = .ok rest ∧ tables = table :: rest := by
  rw [openTables, Answer.bind_eq_ok_iff]
  refine exists_congr fun table => ?_
  rw [Answer.bind_eq_ok_iff, ← exists_and_left]
  refine exists_congr fun rest => and_congr_right fun _ => and_congr_right fun _ => ?_
  show Except.ok (table :: rest) = .ok tables ↔ tables = table :: rest
  rw [Except.ok.injEq, eq_comm]

theorem generation_of_ofRegions {values offsets : Region}
    (h : Table.ofRegions index values offsets order = .ok table) : table.generation = index := by
  rw [Table.ofRegions] at h
  split at h <;> cases h
  rfl

/-- The numbers of mapped tables are those that were asked for. -/
theorem generations_of_openTables (h : openTables disk folder order numbers = .ok tables) :
    tables.map Table.generation = numbers := by
  induction numbers generalizing tables with
  | nil => cases h; rfl
  | cons index numbers ih =>
    obtain ⟨table, rest, htable, hrest, rfl⟩ := openTables_cons_iff.mp h
    obtain ⟨_, _, _, _, hregions⟩ := openTable_ok_iff.mp htable
    rw [List.map_cons, generation_of_ofRegions hregions, ih hrest]

/-- What was loaded are the tables of the generations that are discovered. -/
theorem of_loadTables_ok (h : loadTables disk folder order = .ok tables) :
    ∃ numbers, Generation.discover disk folder = .ok numbers
      ∧ openTables disk folder order numbers.reverse = .ok tables := by
  exact Answer.bind_eq_ok_iff.mp h

/-- Files that hold what a volume's do are mapped as its table, wherever they are. -/
theorem openTable_of_find (volume : Volume)
    (hvalues : disk.find (folder.child (Generation.fileName Generation.valuesLabel volume.index))
      = .ok (.file (Generation.records volume.entries)))
    (hoffsets : disk.find (folder.child (Generation.fileName Generation.offsetsLabel volume.index))
      = .ok (.file (Generation.slots volume.entries))) (order : KeyOrder) :
    openTable disk folder order volume.index = .ok (volume.table order) := by
  have hslots : (Generation.slots volume.entries).length % slotSize = 0 := by
    rw [Generation.length_slots, slotSize, Word.size, Nat.mul_mod_right]
  refine openTable_ok_iff.mpr ⟨_, _, ?_, ?_, if_pos hslots⟩
  · rw [Disk.mapFile, hvalues]
  · rw [Disk.mapFile, hoffsets]

/-- The files of a volume in its folder are mapped as its table. -/
theorem openTable_eq (volume : Volume) (hfolder : disk.HasFolder folder home)
    (hindex : volume.index < Word.limit)
    (hfiles : ∀ label ∈ Generation.labels,
      disk.node? (Generation.filePlace home label volume.index)
        = some (.file (volume.content label))) :
    openTable disk folder order volume.index = .ok (volume.table order) := by
  have hfind : ∀ label ∈ Generation.labels,
      disk.find (folder.child (Generation.fileName label volume.index))
        = .ok (.file (volume.content label)) := fun label hlabel =>
    Disk.find_child_file (Generation.plain_fileName hlabel hindex) hfolder (hfiles label hlabel)
  exact openTable_of_find volume (hfind _ Generation.values_mem_labels)
    (hfind _ Generation.offsets_mem_labels) order

end Store

/-! ### Generations that are kept -/

namespace Generation

variable {disk after : Disk} {folder : Path} {home : Place} {label : String} {index n : Nat}
  {values offsets : Bytes}

/-- The files of a generation are still there, with the same content. -/
def Keeps (home : Place) (n : Nat) (disk after : Disk) : Prop :=
  ∀ label ∈ labels, ∀ content, disk.node? (filePlace home label n) = some (.file content) →
    after.node? (filePlace home label n) = some (.file content)

/-- A name that stands for one generation is none of those of another. -/
theorem ne_filePlace {name : String} (hlabel : label ∈ labels) (hname : index? label name = some n)
    (hne : n ≠ index) :
    ∀ other ∈ labels, name :: home ≠ filePlace home other index := by
  intro other hother hplace
  obtain rfl := (List.cons.inj hplace).1
  exact hne (of_index?_fileName hother hlabel hname).2

/-- Once a generation is written its number is recorded, besides those that were. -/
theorem Written.records_iff (h : Written home index disk after values offsets)
    (hindex : index < Word.limit) (hlabel : label ∈ labels) :
    Records after home label n ↔ n = index ∨ Records disk home label n := by
  have hother : n ≠ index → (Records after home label n ↔ Records disk home label n) := by
    intro hne
    refine exists_congr fun name => exists_congr fun content => and_congr_left fun hname => ?_
    rw [h.elsewhere _ (ne_filePlace hlabel hname hne)]
  by_cases hn : n = index
  · obtain ⟨content, hfile⟩ := h.exists_file hlabel
    exact iff_of_true ⟨_, content, hfile, by rw [hn, index?_fileName hindex]⟩ (.inl hn)
  · rw [hother hn, or_iff_right hn]

end Generation

namespace Store

variable {disk after : Disk} {folder : Path} {home : Place} {order : KeyOrder} {index : Nat}
  {numbers : List Nat} {table : Table} {tables : List Table}

/-- A generation that can be mapped is mapped alike while files, folders and links stay. -/
theorem openTable_mono (hfiles : disk.KeepsFiles after) (hways : disk.KeepsWays after)
    (hopen : openTable disk folder order index = .ok table) :
    openTable after folder order index = .ok table := by
  obtain ⟨values, offsets, hvalues, hoffsets, htable⟩ := openTable_ok_iff.mp hopen
  exact openTable_ok_iff.mpr ⟨values, offsets, Disk.mapFile_mono hfiles hways hvalues,
    Disk.mapFile_mono hfiles hways hoffsets, htable⟩

/-- So are generations one after the other. -/
theorem openTables_mono (hfiles : disk.KeepsFiles after) (hways : disk.KeepsWays after)
    (hopen : openTables disk folder order numbers = .ok tables) :
    openTables after folder order numbers = .ok tables := by
  induction numbers generalizing tables with
  | nil => exact hopen
  | cons index numbers ih =>
    obtain ⟨table, rest, htable, hrest, rfl⟩ := openTables_cons_iff.mp hopen
    exact openTables_cons_iff.mpr ⟨table, rest, openTable_mono hfiles hways htable, ih hrest, rfl⟩

/-- A folder in which no file is one of a generation is loaded without tables, and so is one
    that is missing. -/
theorem loadTables_of_none
    (hthere : disk.HasFolder folder home ∨ disk.find folder = .error .notFound)
    (hnone : ∀ label ∈ Generation.labels, ∀ n, ¬ Generation.Records disk home label n) :
    loadTables disk folder order = .ok [] := by
  have hdiscover : Generation.discover disk folder = .ok [] := by
    rcases hthere with hfolder | hmissing
    · exact Generation.discover_eq hfolder .nil fun label hlabel n =>
        iff_of_false List.not_mem_nil (hnone label hlabel n)
    · exact Generation.discover_of_missing hmissing
  rw [loadTables, hdiscover]
  rfl

/-- What a folder that is found is loaded with. -/
theorem load_of_folder (hfolder : disk.HasFolder folder home)
    (hload : loadTables disk folder order = .ok tables) :
    load disk folder order = .ok ⟨folder, order, tables, false, false⟩ := by
  have hexists : disk.exists? folder = true := by rw [Disk.exists?, hfolder.find_eq]
  rw [load, if_pos hexists, hload]
  rfl

/-- A folder without generations is loaded without tables. -/
theorem load_of_discover_nil (hfolder : disk.HasFolder folder home)
    (hdiscover : Generation.discover disk folder = .ok []) (order : KeyOrder) :
    load disk folder order = .ok ⟨folder, order, [], false, false⟩ := by
  refine load_of_folder hfolder ?_
  rw [loadTables, hdiscover]
  rfl

/-- Where nothing is found a store without tables is loaded. -/
theorem load_of_missing (hmissing : disk.exists? folder = false) (order : KeyOrder) :
    load disk folder order = .ok ⟨folder, order, [], false, false⟩ := by
  rw [load, hmissing]
  rfl

/-- A store is loaded from a folder that is found, or without tables where nothing is. -/
theorem of_load_ok {store : Store} (h : load disk folder order = .ok store) :
    store = ⟨folder, order, store.tables, false, false⟩
      ∧ (((∃ home, disk.HasFolder folder home) ∧ loadTables disk folder order = .ok store.tables)
        ∨ (disk.exists? folder = false ∧ store.tables = [])) := by
  cases hexists : disk.exists? folder with
  | false =>
    rw [load_of_missing hexists] at h
    cases h
    exact ⟨rfl, .inr ⟨rfl, rfl⟩⟩
  | true =>
    rw [load, if_pos hexists] at h
    cases htables : loadTables disk folder order with
    | error fault => rw [htables] at h; cases h
    | ok tables =>
      rw [htables] at h
      cases h
      refine ⟨rfl, .inl ⟨?_, rfl⟩⟩
      -- of what a path may lead to only a folder can be listed
      rw [← Disk.find_folder_iff]
      by_contra hfolder
      have hmissing : disk.find folder ≠ .error .notFound := fun hmissing => by
        rw [Disk.exists?, hmissing] at hexists
        cases hexists
      obtain ⟨fault, hfault⟩ := Generation.discover_of_fault hfolder hmissing
      obtain ⟨numbers, hnumbers, _⟩ := of_loadTables_ok htables
      rw [hfault] at hnumbers
      cases hnumbers

/-- The mapped generations are, descending, those of the files that the folder holds. -/
theorem generations_spec {store : Store} (hfolder : disk.HasFolder store.base home)
    (hmapped : loadTables disk store.base store.order = .ok store.tables) :
    store.generations.Pairwise (· > ·) ∧ ∀ label ∈ Generation.labels, ∀ n,
      n ∈ store.generations ↔ Generation.Records disk home label n := by
  obtain ⟨numbers, hdiscover, hopen⟩ := of_loadTables_ok hmapped
  have hnumbers := Generation.of_discover_ok hfolder hdiscover
  rw [generations, generations_of_openTables hopen]
  constructor
  · rw [List.pairwise_reverse, hnumbers _ Generation.values_mem_labels]
    exact Generation.pairwise_numbersOf _ _ _
  · intro label hlabel n
    rw [List.mem_reverse, hnumbers label hlabel, Generation.mem_numbersOf]

/-- A generation that is written with the next number is mapped in front of the others. -/
theorem loadTables_cons {values offsets : Bytes} {capacity : Footprint}
    (hfits : Generation.Fits folder home index capacity disk)
    (hload : loadTables disk folder order = .ok tables)
    (hindex : Generation.nextIndex disk folder = .ok index)
    (hwritten : Generation.Written home index disk after values offsets)
    (htable : openTable after folder order index = .ok table) :
    loadTables after folder order = .ok (table :: tables) := by
  have hfolder := hfits.folder_found
  have hlimit := Generation.lt_limit_of_nextIndex hindex
  have hadds := (hwritten.touchesOnly hfits.free).adds hfolder hindex
  have hafter := hfolder.mono hadds.keepsWays
  obtain ⟨numbers, hdiscover, hopen⟩ := of_loadTables_ok hload
  have hrecords : ∀ label ∈ Generation.labels, ∀ n,
      n ∈ numbers ↔ Generation.Records disk home label n := by
    intro label hlabel n
    rw [Generation.of_discover_ok hfolder hdiscover label hlabel, Generation.mem_numbersOf]
  -- the next number is above all others, so it is the last that is discovered
  have hbelow : ∀ n ∈ numbers, n < index := fun n hn =>
    Generation.lt_of_nextIndex hfolder hindex Generation.values_mem_labels
      ((hrecords _ Generation.values_mem_labels n).mp hn)
  have hascending : numbers.Pairwise (· < ·) := by
    rw [Generation.of_discover_ok hfolder hdiscover _ Generation.values_mem_labels]
    exact Generation.pairwise_numbersOf _ _ _
  have hdiscovered : Generation.discover after folder = .ok (numbers ++ [index]) := by
    refine Generation.discover_eq hafter ?_ fun label hlabel n => ?_
    · refine List.pairwise_append.mpr ⟨hascending, List.pairwise_singleton _ _, ?_⟩
      intro n hn m hm
      rw [List.mem_singleton.mp hm]
      exact hbelow n hn
    · rw [hwritten.records_iff hlimit hlabel, List.mem_append, List.mem_singleton,
        hrecords label hlabel, or_comm]
  have hrest := openTables_mono hadds.keepsFiles hadds.keepsWays hopen
  rw [loadTables, hdiscovered]
  show openTables after folder order (numbers ++ [index]).reverse = _
  rw [List.reverse_append]
  exact openTables_cons_iff.mpr ⟨table, tables, htable, hrest, rfl⟩

end Store

end LayeredStore
