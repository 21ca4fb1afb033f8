import LayeredStore.Proofs.Layers
import LayeredStore.Proofs.Mapping

namespace LayeredStore

/-!
# Folders that hold written generations

A shelf is what a folder holds when all its generations were written from ascending
entries. Loading the folder gives back those generations, the newest first. A generation
that is written with the next number goes in front of the others, and what is left when
files of whole generations were deleted is a shelf again.

* `Shelf` — a folder whose generations' files are those of given volumes;
* `Shelf.loadTables_eq`, `Shelf.of_loadTables_ok` — loading gives the volumes' tables;
* `Shelf.nextIndex_eq` — the number of the next volume;
* `Shelf.cons` — a volume is added in front;
* `Shelf.filter` — the files of some volumes are deleted.
-/

/-- The usable store that has mapped the given volumes. -/
def Store.ofVolumes (base : Path) (order : KeyOrder) (volumes : List Volume) : Store :=
  ⟨base, order, volumes.map (Volume.table order), false, false⟩

/-! ### Shelves -/

/-- The generations' files in the folder are those of the given volumes, which come the
    newest first, have numbers that are words, and hold ascending entries. If the folder has to
    be made there are none. -/
structure Shelf (disk : Disk) (base : Path) (order : KeyOrder) (volumes : List Volume) :
    Prop where
  descending : volumes.Pairwise fun a b => b.index < a.index
  index_lt : ∀ volume ∈ volumes, volume.index < Word.limit
  ascending : ∀ volume ∈ volumes, order.Ascending (keysOf volume.entries)
  fits : ∀ volume ∈ volumes, (Generation.records volume.entries).length < Word.signedLimit
  found : volumes ≠ [] → ∃ home, disk.HasFolder base home
  kept : ∀ {made home}, disk.Leads base made home → ∀ volume ∈ volumes,
    ∀ label ∈ Generation.labels,
      made.node? (Generation.filePlace home label volume.index)
        = some (.file (volume.content label))
  only : ∀ {made home}, disk.Leads base made home → ∀ label ∈ Generation.labels,
    ∀ name content n, made.node? (name :: home) = some (.file content) →
      Generation.index? label name = some n →
        ∃ volume ∈ volumes, n = volume.index ∧ name = Generation.fileName label volume.index

namespace Shelf

variable {disk made after : Disk} {base : Path} {home : Place} {order : KeyOrder}
  {volumes : List Volume}

/-- The numbers of the recorded files are those of the volumes. -/
theorem records_iff (h : Shelf disk base order volumes) (hfolder : disk.HasFolder base home)
    {label : String} (hlabel : label ∈ Generation.labels) (n : Nat) :
    n ∈ volumes.map Volume.index ↔ Generation.Records disk home label n := by
  rw [List.mem_map]
  constructor
  · rintro ⟨volume, hvolume, rfl⟩
    exact ⟨_, _, h.kept hfolder.leads volume hvolume label hlabel,
      Generation.index?_fileName (h.index_lt volume hvolume)⟩
  · rintro ⟨name, content, hnode, hn⟩
    obtain ⟨volume, hvolume, rfl, _⟩ := h.only hfolder.leads label hlabel name content n hnode hn
    exact ⟨volume, hvolume, rfl⟩

/-- What is at the place of a volume's file is a file. -/
theorem isFile_eq (h : Shelf disk base order volumes) (hfolder : disk.HasFolder base home)
    {volume : Volume} (hvolume : volume ∈ volumes) {label : String}
    (hlabel : label ∈ Generation.labels) {node : Node}
    (hnode : disk.node? (Generation.filePlace home label volume.index) = some node) :
    node.isFile = true := by
  rw [h.kept hfolder.leads volume hvolume label hlabel] at hnode
  cases hnode
  rfl

/-- What is mapped of a volume's file is its content. -/
theorem mapFile_eq (h : Shelf disk base order volumes) {volume : Volume} (hvolume : volume ∈ volumes)
    {label : String} (hlabel : label ∈ Generation.labels) :
    disk.mapFile (base.child (Generation.fileName label volume.index))
      = .ok (volume.content label) := by
  obtain ⟨home, hfolder⟩ := h.found (List.ne_nil_of_mem hvolume)
  exact Disk.mapFile_child (Generation.plain_fileName hlabel (h.index_lt volume hvolume)) hfolder
    (h.kept hfolder.leads volume hvolume label hlabel)

/-- The generations that are discovered are the volumes. -/
theorem discover_eq (h : Shelf disk base order volumes) (hfolder : disk.HasFolder base home) :
    Generation.discover disk base = .ok (volumes.map Volume.index).reverse := by
  refine Generation.discover_eq hfolder ?_ fun label hlabel n => ?_
  · exact List.pairwise_reverse.mpr (List.pairwise_map.mpr h.descending)
  · rw [List.mem_reverse]
    exact h.records_iff hfolder hlabel n

/-- A volume is mapped as its table. -/
theorem openTable_eq (h : Shelf disk base order volumes) {volume : Volume}
    (hvolume : volume ∈ volumes) :
    Store.openTable disk base order volume.index = .ok (volume.table order) := by
  obtain ⟨home, hfolder⟩ := h.found (List.ne_nil_of_mem hvolume)
  exact Store.openTable_eq volume hfolder (h.index_lt volume hvolume)
    (h.kept hfolder.leads volume hvolume)

theorem openTables_eq (h : Shelf disk base order volumes) {some : List Volume}
    (hsome : ∀ volume ∈ some, volume ∈ volumes) :
    Store.openTables disk base order (some.map Volume.index)
      = .ok (some.map (Volume.table order)) := by
  induction some with
  | nil => rfl
  | cons volume some ih =>
    have hfirst := h.openTable_eq (hsome volume List.mem_cons_self)
    have hrest := ih fun other hother => hsome other (List.mem_cons_of_mem _ hother)
    exact Store.openTables_cons_iff.mpr ⟨_, _, hfirst, hrest, rfl⟩

/-- Loading a folder that is found gives the tables of its volumes. -/
theorem loadTables_eq (h : Shelf disk base order volumes) (hfolder : disk.HasFolder base home) :
    Store.loadTables disk base order = .ok (volumes.map (Volume.table order)) := by
  rw [Store.loadTables, h.discover_eq hfolder]
  show Store.openTables disk base order (volumes.map Volume.index).reverse.reverse = _
  rw [List.reverse_reverse]
  exact h.openTables_eq fun _ hvolume => hvolume

/-- Only an empty shelf can be in a folder that is not found. -/
theorem eq_nil_of_not_found (h : Shelf disk base order volumes)
    (hfolder : disk.find base ≠ .ok .folder) : volumes = [] := by
  by_contra hne
  exact hfolder (Disk.find_folder_iff.mpr (h.found hne))

/-- The store in a folder that is found, or where nothing is, has the tables of the
    volumes. -/
theorem load_eq (h : Shelf disk base order volumes)
    (hthere : disk.find base = .ok .folder ∨ disk.exists? base = false) :
    Store.load disk base order = .ok (.ofVolumes base order volumes) := by
  rw [Store.load]
  rcases hthere with hfolder | hmissing
  · have hexists : disk.exists? base = true := by rw [Disk.exists?, hfolder]
    obtain ⟨home, hfolder⟩ := Disk.find_folder_iff.mp hfolder
    rw [if_pos hexists, h.loadTables_eq hfolder]
    rfl
  · have hfolder : disk.find base ≠ .ok .folder := by
      intro hfolder
      rw [Disk.exists?, hfolder] at hmissing
      cases hmissing
    rw [h.eq_nil_of_not_found hfolder, hmissing]
    rfl

/-- What was loaded are the tables of the volumes. -/
theorem of_loadTables_ok (h : Shelf disk base order volumes) {tables : List Table}
    (hload : Store.loadTables disk base order = .ok tables) :
    tables = volumes.map (Volume.table order) := by
  by_cases hfolder : disk.find base = .ok .folder
  · obtain ⟨home, hfolder⟩ := Disk.find_folder_iff.mp hfolder
    rw [h.loadTables_eq hfolder] at hload
    exact (Except.ok.inj hload).symm
  · rw [h.eq_nil_of_not_found hfolder]
    -- nothing is loaded from a folder that is missing, and no other can be listed
    by_cases hmissing : disk.find base = .error .notFound
    · rw [Store.loadTables, Generation.discover_of_missing hmissing] at hload
      exact (Except.ok.inj hload).symm
    · obtain ⟨fault, hfault⟩ := Generation.discover_of_fault hfolder hmissing
      rw [Store.loadTables, hfault] at hload
      cases hload

/-- A store that was loaded has the tables of the volumes. -/
theorem of_load_ok (h : Shelf disk base order volumes) {store : Store}
    (hload : Store.load disk base order = .ok store) :
    store = .ofVolumes base order volumes := by
  by_cases hexists : disk.exists? base = true
  · rw [Store.load, if_pos hexists] at hload
    cases htables : Store.loadTables disk base order with
    | error fault => rw [htables] at hload; cases hload
    | ok tables =>
      rw [htables] at hload
      rw [Store.ofVolumes, ← h.of_loadTables_ok htables]
      exact (Except.ok.inj hload).symm
  · rw [h.load_eq (.inr (Bool.eq_false_iff.mpr hexists))] at hload
    exact (Except.ok.inj hload).symm

/-! ### Reading -/

theorem isLayer (h : Shelf disk base order volumes) {volume : Volume} (hvolume : volume ∈ volumes) :
    (volume.table order).IsLayer order volume.entries :=
  ⟨rfl, ⟨rfl, rfl, h.fits volume hvolume⟩, h.ascending volume hvolume⟩

/-- A store with the tables of the volumes holds their entries as layers. -/
theorem layered {store : Store} (h : Shelf disk base store.order volumes)
    (htables : store.tables = volumes.map (Volume.table store.order)) :
    store.Layered (Volume.layers volumes) := by
  rw [Store.Layered, htables, Volume.layers, List.forall₂_map_left_iff, List.forall₂_map_right_iff,
    List.forall₂_same]
  exact fun volume hvolume => h.isLayer hvolume

theorem layered_ofVolumes (h : Shelf disk base order volumes) :
    (Store.ofVolumes base order volumes).Layered (Volume.layers volumes) :=
  h.layered rfl

/-! ### The next volume -/

theorem lt_next (h : Shelf disk base order volumes) :
    ∀ volume ∈ volumes, volume.index < Volume.next volumes := by
  intro volume hvolume
  cases volumes with
  | nil => cases hvolume
  | cons first rest =>
    rw [Volume.next, Nat.lt_succ_iff]
    rcases List.mem_cons.mp hvolume with rfl | hvolume
    · exact Nat.le_refl _
    · exact Nat.le_of_lt ((List.pairwise_cons.mp h.descending).1 volume hvolume)

/-- There are no more volumes than there were numbers for them. -/
theorem length_le_next (h : Shelf disk base order volumes) :
    volumes.length ≤ Volume.next volumes := by
  have hdescending := h.descending
  clear h
  induction volumes with
  | nil => exact Nat.zero_le _
  | cons first rest ih =>
    obtain ⟨hlower, hrest⟩ := List.pairwise_cons.mp hdescending
    have hle := ih hrest
    rw [List.length_cons, Volume.next, Nat.succ_le_succ_iff]
    cases rest with
    | nil => exact Nat.zero_le _
    | cons second rest => exact Nat.le_trans hle (hlower second List.mem_cons_self)

theorem nextIndex_eq_aboveFirst (h : Shelf disk base order volumes)
    (hfolder : disk.HasFolder base home) :
    Generation.nextIndex disk base = Generation.aboveFirst (volumes.map Volume.index) :=
  Generation.nextIndex_eq hfolder (List.pairwise_map.mpr h.descending)
    fun _ hlabel n => h.records_iff hfolder hlabel n

/-- The next number is the one above the newest volume's, if that is a word. -/
theorem nextIndex_eq (h : Shelf disk base order volumes) (hfolder : disk.HasFolder base home)
    (hnext : Volume.next volumes < Word.limit) :
    Generation.nextIndex disk base = .ok (Volume.next volumes) := by
  rw [h.nextIndex_eq_aboveFirst hfolder]
  cases volumes with
  | nil => rfl
  | cons volume volumes => exact Word.add_of_lt hnext

theorem of_nextIndex_ok (h : Shelf disk base order volumes)
    (hfolder : disk.HasFolder base home) {index : Nat}
    (hindex : Generation.nextIndex disk base = .ok index) :
    index = Volume.next volumes ∧ index < Word.limit := by
  rw [h.nextIndex_eq_aboveFirst hfolder] at hindex
  cases volumes with
  | nil => cases hindex; exact ⟨rfl, by decide⟩
  | cons volume volumes =>
    rw [List.map_cons, Generation.aboveFirst, Word.add] at hindex
    split at hindex
    · cases hindex
      exact ⟨rfl, by assumption⟩
    · cases hindex

/-! ### Changes -/

/-- The making of the folder leaves the shelf. -/
theorem of_leads (h : Shelf disk base order volumes) (hleads : disk.Leads base made home) :
    Shelf made base order volumes where
  descending := h.descending
  index_lt := h.index_lt
  ascending := h.ascending
  fits := h.fits
  found := fun _ => ⟨home, hleads.found⟩
  kept := fun hmade => by
    obtain ⟨rfl, rfl⟩ := hleads.found.of_leads hmade
    exact h.kept hleads
  only := fun hmade => by
    obtain ⟨rfl, rfl⟩ := hleads.found.of_leads hmade
    exact h.only hleads

/-- In a folder that is there only its files count. -/
theorem of_folder (hfolder : after.HasFolder base home)
    (hdescending : volumes.Pairwise fun a b => b.index < a.index)
    (hindex : ∀ volume ∈ volumes, volume.index < Word.limit)
    (hascending : ∀ volume ∈ volumes, order.Ascending (keysOf volume.entries))
    (hfits : ∀ volume ∈ volumes, (Generation.records volume.entries).length < Word.signedLimit)
    (hkept : ∀ volume ∈ volumes, ∀ label ∈ Generation.labels,
      after.node? (Generation.filePlace home label volume.index)
        = some (.file (volume.content label)))
    (honly : ∀ label ∈ Generation.labels, ∀ name content n,
      after.node? (name :: home) = some (.file content) → Generation.index? label name = some n →
        ∃ volume ∈ volumes, n = volume.index ∧ name = Generation.fileName label volume.index) :
    Shelf after base order volumes where
  descending := hdescending
  index_lt := hindex
  ascending := hascending
  fits := hfits
  found := fun _ => ⟨home, hfolder⟩
  kept := fun hmade => by
    obtain ⟨rfl, rfl⟩ := hfolder.of_leads hmade
    exact hkept
  only := fun hmade => by
    obtain ⟨rfl, rfl⟩ := hfolder.of_leads hmade
    exact honly

/-- A volume with the next number that is written goes in front of the others. -/
theorem cons (h : Shelf disk base order volumes) (hfolder : disk.HasFolder base home)
    (hnext : Volume.next volumes < Word.limit) {entries : List Entry}
    (hascending : order.Ascending (keysOf entries))
    (hfits : (Generation.records entries).length < Word.signedLimit)
    (hfree : ∀ label ∈ Generation.labels, ∀ node,
      disk.node? (Generation.filePlace home label (Volume.next volumes)) = some node →
        node.isFile = true)
    (hwritten : Generation.Written home (Volume.next volumes) disk after
      (Generation.records entries) (Generation.slots entries)) :
    Shelf after base order (⟨Volume.next volumes, entries⟩ :: volumes) := by
  have hways := (hwritten.touchesOnly hfree).keepsWays
  refine of_folder (hfolder.mono hways) (List.pairwise_cons.mpr ⟨h.lt_next, h.descending⟩)
    (List.forall_mem_cons.mpr ⟨hnext, h.index_lt⟩)
    (List.forall_mem_cons.mpr ⟨hascending, h.ascending⟩)
    (List.forall_mem_cons.mpr ⟨hfits, h.fits⟩)
    (List.forall_mem_cons.mpr ⟨fun label hlabel => ?_, fun volume hvolume label hlabel => ?_⟩)
    fun label hlabel name content n hnode hn => ?_
  · rcases List.mem_pair.mp hlabel with rfl | rfl
    · exact hwritten.values_eq
    · exact hwritten.offsets_eq
  · -- the files of the other volumes have lower numbers, so they are untouched
    rw [hwritten.elsewhere, h.kept hfolder.leads volume hvolume label hlabel]
    intro other hother heq
    have hindex :=
      (Generation.fileName_inj hlabel hother hnext (List.cons.inj heq).1).2
    exact Nat.ne_of_lt (h.lt_next volume hvolume) hindex
  · -- a file is one of the two that were written, or was there before
    by_cases hnew : ∀ other ∈ Generation.labels,
        name :: home ≠ Generation.filePlace home other (Volume.next volumes)
    · rw [hwritten.elsewhere _ hnew] at hnode
      obtain ⟨volume, hvolume, heq⟩ := h.only hfolder.leads label hlabel name content n hnode hn
      exact ⟨volume, List.mem_cons_of_mem _ hvolume, heq⟩
    · push Not at hnew
      obtain ⟨other, hother, heq⟩ := hnew
      obtain rfl := (List.cons.inj heq).1
      obtain ⟨rfl, rfl⟩ := Generation.of_index?_fileName hother hlabel hn
      exact ⟨_, List.mem_cons_self, rfl, rfl⟩

/-- What is left when both files of some volumes were deleted, and nothing else. -/
theorem filter (h : Shelf disk base order volumes) (hfolder : disk.HasFolder base home)
    (gone : Nat → Bool) (hways : Disk.KeepsWays disk after)
    (hnodes : ∀ place node, after.node? place = some node ↔ disk.node? place = some node
      ∧ ∀ volume ∈ volumes, gone volume.index = true → ∀ label ∈ Generation.labels,
        place ≠ Generation.filePlace home label volume.index) :
    Shelf after base order (volumes.filter fun volume => !gone volume.index) := by
  have hmem : ∀ volume, volume ∈ volumes.filter (fun volume => !gone volume.index) →
      volume ∈ volumes ∧ gone volume.index = false := by
    intro volume hvolume
    obtain ⟨hvolume, hgone⟩ := List.mem_filter.mp hvolume
    exact ⟨hvolume, by simpa using hgone⟩
  refine of_folder (hfolder.mono hways) (h.descending.filter _)
    (fun volume hvolume => h.index_lt volume (hmem volume hvolume).1)
    (fun volume hvolume => h.ascending volume (hmem volume hvolume).1)
    (fun volume hvolume => h.fits volume (hmem volume hvolume).1)
    (fun volume hvolume label hlabel => ?_) fun label hlabel name content n hnode hn => ?_
  · obtain ⟨hvolume, hkept⟩ := hmem volume hvolume
    refine (hnodes _ _).mpr ⟨h.kept hfolder.leads volume hvolume label hlabel, ?_⟩
    intro other hother hgone label' hlabel' heq
    have hindex := (Generation.fileName_inj hlabel hlabel' (h.index_lt other hother)
      (List.cons.inj heq).1).2
    rw [← hindex, hkept] at hgone
    cases hgone
  · -- a file that is left was there before, and its volume is none of those that are gone
    obtain ⟨hbefore, hleft⟩ := (hnodes _ _).mp hnode
    obtain ⟨volume, hvolume, rfl, rfl⟩ :=
      h.only hfolder.leads label hlabel name content n hbefore hn
    refine ⟨volume, List.mem_filter.mpr ⟨hvolume, ?_⟩, rfl, rfl⟩
    have hgone : gone volume.index = false :=
      Bool.eq_false_iff.mpr fun hgone => hleft volume hvolume hgone label hlabel rfl
    rw [hgone]
    rfl

end Shelf

end LayeredStore
