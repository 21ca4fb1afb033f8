import LayeredStore.Proofs.Rescanning
import LayeredStore.Proofs.Room

namespace LayeredStore

/-!
# What stands in the way of a flush

A store that was loaded can be flushed to, whatever else is in its folder, unless a sub-folder or
a link has the name of a file that is to be made. The next number is above those of all files,
but sub-folders and links are not looked at when it is picked.

* `Generation.Taken`, `Generation.Blocked` — a sub-folder or a link has the name of a generation's
  file, or a sub-folder has it;
* `Generation.discover_of_half` — a folder in which one file of a generation is missing;
* `Generation.write_blocked_values`, `Generation.write_blocked_offsets` — where a sub-folder has a
  name a generation is not written, and its first file may be left;
* `Store.Home` — where a store's folder is, or can be made;
* `Store.Home.flush_ok`, `Store.Home.flush_blocked_values`, `Store.Home.flush_blocked_offsets` —
  the three ways in which a flush ends;
* `Store.flush_unless_taken` — all of them;
* `Store.flush_unless_taken_fails` — sub-folders that are in the way.
-/

namespace Generation

variable {disk after : Disk} {folder : Path} {home : Place} {label : String} {index : Nat}
  {capacity : Footprint} {items : List Item}

/-- A sub-folder or a link has the name of the generation's file with the label. -/
def Taken (disk : Disk) (home : Place) (label : String) (index : Nat) : Prop :=
  (disk.node? (filePlace home label index)).any (fun node => !node.isFile) = true

/-- A sub-folder has the name of the generation's file with the label. -/
def Blocked (disk : Disk) (home : Place) (label : String) (index : Nat) : Prop :=
  disk.node? (filePlace home label index) = some .folder

instance : Decidable (Taken disk home label index) :=
  inferInstanceAs (Decidable (_ = _))

instance : Decidable (Blocked disk home label index) :=
  inferInstanceAs (Decidable (_ = _))

/-- Where a name is not taken only a file can have it. -/
theorem isFile_of_not_taken (h : ¬ Taken disk home label index) {node : Node}
    (hnode : disk.node? (filePlace home label index) = some node) : node.isFile = true := by
  rw [Taken, hnode, Option.any_some, Bool.not_eq_true', Bool.not_eq_false] at h
  exact h

/-- No draft is made under a name that a sub-folder has. -/
theorem makeDraft_blocked (hlabel : label ∈ labels) (hindex : index < Word.limit)
    (hfolder : disk.HasFolder folder home) (hblocked : Blocked disk home label index)
    (capacity : Nat) :
    makeDraft (folder.child (fileName label index)) capacity disk
      = .error (.system .isADirectory) disk :=
  Action.bind_error (Disk.makeFile_child_taken (plain_fileName hlabel hindex) hfolder hblocked)

/-- Where a sub-folder has the first name nothing is changed. -/
theorem write_blocked_values (hindex : index < Word.limit) (hfolder : disk.HasFolder folder home)
    (hblocked : Blocked disk home valuesLabel index) :
    write folder index items capacity disk = .error (.system .isADirectory) disk :=
  Action.bind_error (makeDraft_blocked values_mem_labels hindex hfolder hblocked _)

/-- A folder with the first file of a generation, and not the second, is not one of a store. -/
theorem discover_of_half {content : Bytes} (hindex : index < Word.limit)
    (hfolder : disk.HasFolder folder home)
    (hvalues : disk.node? (filePlace home valuesLabel index) = some (.file content))
    (hoffsets : ¬ Records disk home offsetsLabel index) :
    ∃ cause, discover disk folder = .error (.layout cause) := by
  have hdiffer : numbersOf disk home valuesLabel ≠ numbersOf disk home offsetsLabel := by
    intro hsame
    have hmem : index ∈ numbersOf disk home valuesLabel :=
      mem_numbersOf.mpr ⟨_, _, hvalues, index?_fileName hindex⟩
    rw [hsame] at hmem
    exact hoffsets (mem_numbersOf.mp hmem)
  have hindices := indices_of_find hfolder
  rw [discover, hindices valuesLabel, hindices offsetsLabel]
  dsimp only [bind, Except.bind]
  rw [if_pos hdiffer]
  split
  · exact ⟨_, rfl⟩
  · exact ⟨_, rfl⟩

/-- The first file of a generation does not stand for the second. -/
theorem not_records_of_half {content : Bytes}
    (hnodes : ∀ place, after.node? place = if place = filePlace home valuesLabel index
      then some (.file content) else disk.node? place)
    (hnone : ¬ Records disk home offsetsLabel index) :
    ¬ Records after home offsetsLabel index := by
  rintro ⟨name, content', hnode, hname⟩
  by_cases hplace : name :: home = filePlace home valuesLabel index
  · obtain rfl := (List.cons.inj hplace).1
    have hlabel := (of_index?_fileName values_mem_labels offsets_mem_labels hname).1
    revert hlabel
    decide
  · rw [hnodes, if_neg hplace] at hnode
    exact hnone ⟨name, content', hnode, hname⟩

/-- Where a sub-folder has only the second name the first file is left behind, and the folder is
    not one of a store any more. -/
theorem write_blocked_offsets (hindex : index < Word.limit)
    (hfolder : disk.HasFolder folder home) (hfree : ¬ Taken disk home valuesLabel index)
    (hblocked : Blocked disk home offsetsLabel index)
    (hnone : ¬ Records disk home offsetsLabel index)
    (hcapacity : capacity.valuesBytes < Word.signedLimit) :
    ∃ after cause, write folder index items capacity disk = .error (.system .isADirectory) after
      ∧ after.HasFolder folder home ∧ discover after folder = .error (.layout cause) := by
  have hmade : disk.CanMake (folder.child (fileName valuesLabel index))
      (filePlace home valuesLabel index) :=
    Disk.canMake_child (plain_fileName values_mem_labels hindex) hfolder
      fun node => isFile_of_not_taken hfree
  obtain ⟨after, hfirst, hnodes⟩ := makeDraft_eq hmade hcapacity
  have hways : disk.KeepsWays after := by
    intro place node hnode hplace
    rw [hnodes, if_neg, hplace]
    -- what is no file is not where the first file was made
    rintro rfl
    rw [isFile_of_not_taken hfree hplace] at hnode
    cases hnode
  have hfound := hfolder.mono hways
  have hstill : Blocked after home offsetsLabel index := hways _ _ rfl hblocked
  have hhalf : after.node? (filePlace home valuesLabel index)
      = some (.file (Bytes.zeros capacity.valuesBytes)) := by
    rw [hnodes, if_pos rfl]
  obtain ⟨cause, hdiscover⟩ :=
    discover_of_half hindex hfound hhalf (not_records_of_half hnodes hnone)
  refine ⟨after, cause, ?_, hfound, hdiscover⟩
  refine (Action.bind_ok hfirst).trans ?_
  exact Action.bind_error (makeDraft_blocked offsets_mem_labels hindex hfound hstill _)

end Generation

namespace Store

open Generation (Taken Blocked aboveFirst)

variable {disk made after : Disk} {base : Path} {home : Place} {order : KeyOrder} {store : Store}
  {entries : List Entry} {index : Nat}

/-! ### The folder of a store -/

/-- The path leads to a folder, or to nothing where a folder can be made, and the making brings
    no generations to light. `made` is the disk with the folder, which is at `home`. -/
structure Home (base : Path) (disk made : Disk) (home : Place) : Prop
    extends Disk.Leads disk base made home where
  shown : Shown base disk

/-- A folder that is there is one. -/
theorem home_of_folder (h : disk.HasFolder base home) : Home base disk disk home :=
  ⟨h.leads, shown_of_folder h⟩

/-- What is loaded is usable, and belongs to the folder. -/
theorem of_load (hload : load disk base order = .ok store) :
    store.base = base ∧ store.order = order ∧ store.ensureUsable = .ok () := by
  rw [(of_load_ok hload).1]
  exact ⟨rfl, rfl, rfl⟩

namespace Home

section Made

variable (h : Home store.base disk made home)
  (hload : load disk store.base store.order = .ok store)
include h hload

/-- The tables of the store are those of its folder, also where that was made just now. -/
theorem loadTables_made : loadTables made store.base store.order = .ok store.tables :=
  loadTables_of_makeFolders hload h.shown h.toLeads

theorem load_made : load made store.base store.order = .ok store := by
  rw [load_of_folder h.found (h.loadTables_made hload)]
  exact congrArg Except.ok (of_load_ok hload).1.symm

/-- The next number is above the highest one. -/
theorem nextIndex_eq (hnumbers : ∀ n ∈ store.generations, n + 1 < Word.limit) :
    ∃ index, aboveFirst store.generations = .ok index
      ∧ Generation.nextIndex made store.base = .ok index := by
  obtain ⟨hdescending, hmem⟩ := generations_spec h.found (h.loadTables_made hload)
  rw [Generation.nextIndex_eq h.found hdescending hmem]
  cases hfirst : store.generations with
  | nil => exact ⟨0, rfl, rfl⟩
  | cons n rest =>
    have hsum : Word.add n 1 = .ok (n + 1) :=
      Word.add_of_lt (hnumbers n (by rw [hfirst]; exact List.mem_cons_self))
    exact ⟨n + 1, hsum, hsum⟩

end Made

/-! ### The three ends of a flush -/

variable (h : Home store.base disk made home)
  (hload : load disk store.base store.order = .ok store)
  (hindex : Generation.nextIndex made store.base = .ok index)

include h hindex in
/-- Where both names are free no link is in the way. -/
theorem direct (hfree : ∀ label ∈ Generation.labels, ¬ Taken made home label index) :
    Generation.Direct store.base disk := by
  refine ⟨h.found.text_ne, fun hleads hnext label hlabel target hlink => ?_⟩
  obtain ⟨rfl, rfl⟩ := h.toLeads.unique hleads
  cases hindex.symm.trans hnext
  cases Generation.isFile_of_not_taken (hfree label hlabel) hlink

include h hload hindex

/-- Where both names are free the entries are recorded. -/
theorem exists_recorded (hsize : (Generation.records entries).length < Word.signedLimit)
    (hfree : ∀ label ∈ Generation.labels, ¬ Taken made home label index) :
    ∃ size info after, info.index = index ∧ Footprint.measure entries = .ok size
      ∧ RecordedAt home store (entries.map .ok) size disk made info after := by
  have hlimit := Generation.lt_limit_of_nextIndex hindex
  obtain ⟨size, hmeasure, hvalues, hoffsets, hoffsetsLimit⟩ := Footprint.measure_spec hsize
  have hvaluesLimit : size.valuesBytes < Word.signedLimit := by
    rw [hvalues]
    exact hsize
  obtain ⟨after, hwrite, -⟩ := Generation.write_entries hlimit
    ⟨h.found, fun label hlabel _ => Generation.isFile_of_not_taken (hfree label hlabel),
      hvaluesLimit, hoffsetsLimit⟩ (Nat.le_of_eq hvalues.symm) (Nat.le_of_eq hoffsets.symm)
  have husable : store.ensureUsable = .ok () := (of_load hload).2.2
  exact ⟨size, ⟨index, _, _, _⟩, after, rfl, hmeasure, ⟨husable, h.made_eq, hindex, hwrite⟩,
    h.found, (h.direct hindex hfree).unlinked h.toLeads hindex⟩

variable (hne : entries ≠ [])
include hne

/-- A flush fails as the writing of the generation does. -/
theorem flush_error {size : Footprint} {fault : Fault}
    (hmeasure : Footprint.measure entries = .ok size)
    (hwrite : Generation.write store.base index (entries.map .ok) size made = .error fault after) :
    flush (.ofEntries entries) (store, disk) = .error fault (store, after) := by
  have hempty : (Source.ofEntries entries).isEmpty = false := List.isEmpty_eq_false_iff.mpr hne
  rw [Store.flush_eq (of_load hload).2.2 hempty h.made_eq hindex hmeasure]
  refine Action.bind_error ?_
  show onDisk (Generation.write store.base index (entries.map .ok) size) (store, made) = _
  simp only [onDisk, Action.within, hwrite]

variable (hsize : (Generation.records entries).length < Word.signedLimit)
include hsize

/-- Where both names are free a flush maps the entries in front, and a load from then on does
    so too. -/
theorem flush_ok (hfree : ∀ label ∈ Generation.labels, ¬ Taken made home label index) :
    ∃ info after, flush (.ofEntries entries) (store, disk) = .ok (some info)
        ({ store with tables := Volume.table store.order ⟨index, entries⟩ :: store.tables }, after)
      ∧ info.index = index
      ∧ load after store.base store.order = .ok
        { store with tables := Volume.table store.order ⟨index, entries⟩ :: store.tables }
      ∧ (Volume.table store.order ⟨index, entries⟩).Holds entries := by
  obtain ⟨size, info, after, rfl, hmeasure, hrecorded⟩ := h.exists_recorded hload hindex hsize hfree
  have hempty : (Source.ofEntries entries).isEmpty = false := List.isEmpty_eq_false_iff.mpr hne
  have hwritten : RecordedAt home store ((Source.ofEntries entries).written.map .ok) size disk made
    info after := hrecorded
  have hflush := hwritten.flush_eq hempty hmeasure
  have hmirrors := (Mirrors.of_load h.shown hload).of_flush_ok (h.direct hindex hfree) hflush
  exact ⟨info, after, hflush, rfl, hmirrors.load_eq (of_load hload).2.2, hrecorded.holds _⟩

/-- Where a sub-folder has the first name a flush fails, and nothing is made but the store's
    folder. -/
theorem flush_blocked_values (hblocked : Blocked made home Generation.valuesLabel index) :
    flush (.ofEntries entries) (store, disk) = .error (.system .isADirectory) (store, made) := by
  obtain ⟨size, hmeasure, -⟩ := Footprint.measure_spec hsize
  refine h.flush_error hload hindex hne hmeasure ?_
  exact Generation.write_blocked_values (Generation.lt_limit_of_nextIndex hindex) h.found hblocked

/-- Where a sub-folder has only the second name a flush fails too, and the store is not loaded
    again. -/
theorem flush_blocked_offsets (hfree : ¬ Taken made home Generation.valuesLabel index)
    (hblocked : Blocked made home Generation.offsetsLabel index) :
    ∃ after cause,
      flush (.ofEntries entries) (store, disk) = .error (.system .isADirectory) (store, after)
      ∧ load after store.base store.order = .error (.layout cause) := by
  obtain ⟨size, hmeasure, hvalues, -⟩ := Footprint.measure_spec hsize
  have hnone : ¬ Generation.Records made home Generation.offsetsLabel index := by
    intro hrecords
    exact Nat.lt_irrefl _
      (Generation.lt_of_nextIndex h.found hindex Generation.offsets_mem_labels hrecords)
  have hlimit := Generation.lt_limit_of_nextIndex hindex
  obtain ⟨after, cause, hwrite, hfound, hdiscover⟩ :=
    Generation.write_blocked_offsets hlimit h.found hfree hblocked hnone (hvalues ▸ hsize)
  refine ⟨after, cause, h.flush_error hload hindex hne hmeasure hwrite, ?_⟩
  have hexists : after.exists? store.base = true := by rw [Disk.exists?, hfound.find_eq]
  rw [load, if_pos hexists, loadTables, hdiscover]
  rfl

end Home

/-! ### Flushing to what was loaded -/

/-- A table that is put in front answers for its keys, whatever the others hold. -/
theorem get?_front [Std.TransCmp store.order.compare] (husable : store.ensureUsable = .ok ())
    {table : Table} (h : table.IsLayer store.order entries) {e : Entry} (he : e ∈ entries) :
    get? { store with tables := table :: store.tables } e.key = .ok (some e) := by
  show (store.ensureUsable >>= fun _ => firstEntry e.key (table :: store.tables)) = _
  rw [husable, firstEntry, h.get?_eq, (KeyOrder.find?_eq_some_iff_mem h.ascending).mpr he]
  rfl

/-- **What was loaded can be flushed to, unless something is in the way.** For ascending
    entries that fit into a file, and a store that was loaded and has a number left: unless a
    sub-folder or a link has the name of one of the two files of the next number, a flush
    succeeds, each of its entries is read then, and a load from then on maps the same
    generations. If a sub-folder has the name of the first file the flush fails and the store
    stays what it was; if it has only that of the second, the flush fails and leaves a folder
    that is not loaded again. -/
theorem flush_unless_taken [Std.TransCmp order.compare]
    (hload : load disk base order = .ok store) (hhome : Home base disk made home)
    (hnumbers : ∀ n ∈ store.generations, n + 1 < Word.limit)
    (hne : entries ≠ []) (hascending : order.Ascending (keysOf entries))
    (hsize : (Generation.records entries).length < Word.signedLimit) :
    ∃ index, aboveFirst store.generations = .ok index
      ∧ ((∀ label ∈ Generation.labels, ¬ Taken made home label index) →
        ∃ info flushed after,
          flush (.ofEntries entries) (store, disk) = .ok (some info) (flushed, after)
          ∧ info.index = index ∧ flushed.generations = index :: store.generations
          ∧ (∀ e ∈ entries, flushed.get? e.key = .ok (some e))
          ∧ load after base order = .ok flushed)
      ∧ (Blocked made home Generation.valuesLabel index →
        flush (.ofEntries entries) (store, disk) = .error (.system .isADirectory) (store, made)
          ∧ load made base order = .ok store)
      ∧ (¬ Taken made home Generation.valuesLabel index →
        Blocked made home Generation.offsetsLabel index →
        ∃ after cause,
          flush (.ofEntries entries) (store, disk) = .error (.system .isADirectory) (store, after)
          ∧ load after base order = .error (.layout cause)) := by
  obtain ⟨rfl, rfl, husable⟩ := of_load hload
  obtain ⟨index, habove, hindex⟩ := hhome.nextIndex_eq hload hnumbers
  refine ⟨index, habove, fun hfree => ?_, fun hblocked => ?_, fun hfree hblocked => ?_⟩
  · obtain ⟨info, after, hflush, hinfo, hafter, hholds⟩ :=
      hhome.flush_ok hload hindex hne hsize hfree
    have hlayer : (Volume.table store.order ⟨index, entries⟩).IsLayer store.order entries :=
      ⟨rfl, hholds, hascending⟩
    exact ⟨info, _, after, hflush, hinfo, rfl, fun e he => get?_front husable hlayer he, hafter⟩
  · exact ⟨hhome.flush_blocked_values hload hindex hne hsize hblocked, hhome.load_made hload⟩
  · exact hhome.flush_blocked_offsets hload hindex hne hsize hfree hblocked

/-- A folder with a file, a sub-folder and a link of others is flushed to, and loaded again. -/
theorem flush_unless_taken_foreign :
    ∃ info flushed after, flush (.ofEntries [.live [0x6B] [0x76]])
        (⟨.ofText [] "/", .lexicographic, [], false, false⟩,
          ((Disk.empty.put ["notes"] (.file [0x78])).put ["values7"] .folder).put ["values8"]
            (.link "notes"))
        = .ok (some info) (flushed, after)
      ∧ flushed.generations = [0] ∧ flushed.get? [0x6B] = .ok (some (.live [0x6B] [0x76]))
      ∧ load after (.ofText [] "/") .lexicographic = .ok flushed := by
  let disk := ((Disk.empty.put ["notes"] (.file [0x78])).put ["values7"] .folder).put ["values8"]
    (.link "notes")
  have hfolder : disk.HasFolder (.ofText [] "/") [] := ⟨rfl, rfl⟩
  have hload := load_of_discover_nil hfolder (by decide +kernel) .lexicographic
  have hnumbers : ∀ n ∈ ([] : List Nat), n + 1 < Word.limit :=
    fun n hn => absurd hn List.not_mem_nil
  have hne : [Entry.live [0x6B] [0x76]] ≠ [] := List.cons_ne_nil _ _
  obtain ⟨index, hindex, hflush, -⟩ := flush_unless_taken hload (home_of_folder hfolder) hnumbers
    hne (by decide) (by decide +kernel)
  cases hindex
  have hfree : ∀ label ∈ Generation.labels, ¬ Taken disk [] label 0 := by
    decide +kernel
  obtain ⟨info, flushed, after, hdone, -, hgenerations, hread, hagain⟩ := hflush hfree
  exact ⟨info, flushed, after, hdone, hgenerations, hread _ List.mem_cons_self, hagain⟩

/-- A sub-folder with the name of the first file of the next generation stops a flush. With the
    name of the second file it does so too, and the store is not loaded again. -/
theorem flush_unless_taken_fails :
    (∃ store, load (Disk.empty.put ["values0"] .folder) (.ofText [] "/") .lexicographic = .ok store
      ∧ flush (.ofEntries [.live [0x6B] [0x76]]) (store, Disk.empty.put ["values0"] .folder)
        = .error (.system .isADirectory) (store, Disk.empty.put ["values0"] .folder))
    ∧ ∃ store after cause,
      load (Disk.empty.put ["offsets0"] .folder) (.ofText [] "/") .lexicographic = .ok store
      ∧ flush (.ofEntries [.live [0x6B] [0x76]]) (store, Disk.empty.put ["offsets0"] .folder)
        = .error (.system .isADirectory) (store, after)
      ∧ load after (.ofText [] "/") .lexicographic = .error (.layout cause) := by
  let store : Store := ⟨.ofText [] "/", .lexicographic, [], false, false⟩
  have hne : [Entry.live [0x6B] [0x76]] ≠ [] := List.cons_ne_nil _ _
  have hsize : (Generation.records [Entry.live [0x6B] [0x76]]).length < Word.signedLimit := by
    decide +kernel
  constructor
  · let disk := Disk.empty.put ["values0"] .folder
    have hhome : Home store.base disk disk [] := home_of_folder ⟨rfl, rfl⟩
    have hload : load disk store.base store.order = .ok store :=
      load_of_discover_nil hhome.found (by decide +kernel) .lexicographic
    have hindex : Generation.nextIndex disk store.base = .ok 0 := by decide +kernel
    have hblocked : Blocked disk [] Generation.valuesLabel 0 := by decide +kernel
    exact ⟨store, hload, hhome.flush_blocked_values hload hindex hne hsize hblocked⟩
  · let disk := Disk.empty.put ["offsets0"] .folder
    have hhome : Home store.base disk disk [] := home_of_folder ⟨rfl, rfl⟩
    have hload : load disk store.base store.order = .ok store :=
      load_of_discover_nil hhome.found (by decide +kernel) .lexicographic
    have hindex : Generation.nextIndex disk store.base = .ok 0 := by decide +kernel
    have hfree : ¬ Taken disk [] Generation.valuesLabel 0 := by decide +kernel
    have hblocked : Blocked disk [] Generation.offsetsLabel 0 := by decide +kernel
    obtain ⟨after, cause, hfails⟩ :=
      hhome.flush_blocked_offsets hload hindex hne hsize hfree hblocked
    exact ⟨store, after, cause, hload, hfails⟩

/-- With the name of the first file a link is followed. The flush succeeds then, but the link is
    passed over when the folder is loaded, and the second file has no partner. -/
example :
    let disk := (Disk.empty.put ["notes"] (.file [0x78])).put ["values0"] (.link "notes")
    (flush (.ofEntries [.live [0x6B] [0x76]])).okWith (fun _ state => decide
        (state.1.get? [0x6B] = .ok (some (.live [0x6B] [0x76]))
          ∧ (load state.2 (.ofText [] "/") .lexicographic).toOption.isNone))
      (⟨.ofText [] "/", .lexicographic, [], false, false⟩, disk) = true := by decide +kernel

end Store

end LayeredStore
