import LayeredStore.Proofs.Outcomes
import LayeredStore.Proofs.Shelf

namespace LayeredStore

/-!
# What flush, compaction and reload do to a shelf

Each change of a store is told by what it does to the volumes in its folder: a flush puts
a volume in front, a compaction leaves one volume, and a reload maps those that are there.

* `Store.Backed` — a store whose folder is a shelf, which it has mapped if it is usable;
* `Generation.Clear`, `Generation.Vacant`, `Generation.Writable`, `Generation.Ready` — folders
  without anything in the way of the files of generations, or of the next one;
* `Shelf.of_notRecorded` — what is not recorded leaves the volumes as they are;
* `Store.RecordedAt.shelf` — what is recorded is a volume in front of the others;
* `Store.sweep_eq` — what the deletion of superseded generations leaves;
* `Store.Backed.of_flush_ok`, `Store.Backed.of_writeMerged_ok`, `Store.Backed.of_compact_ok`,
  `Store.Backed.of_reload_ok` — what a change leaves.
-/

namespace Store

/-- The store's folder is a shelf of the given volumes, and a usable store has mapped all
    of them. -/
structure Backed (volumes : List Volume) (store : Store) (disk : Disk) : Prop where
  shelf : Shelf disk store.base store.order volumes
  tables_eq : store.ensureUsable = .ok () →
    store.tables = volumes.map (Volume.table store.order)

end Store

/-! ### Folders that can be written to -/

namespace Generation

variable {folder : Path} {home : Place} {disk made after : Disk}

/-- No folder and no link has the name of a generation's file. -/
def Clear (folder : Path) (disk : Disk) : Prop :=
  ∀ made home, disk.Leads folder made home → ∀ label ∈ labels, ∀ name n,
    index? label name = some n → ∀ node, made.node? (name :: home) = some node → node.isFile = true

/-- The path is not empty, and nothing has the name of a generation's file. -/
structure Vacant (folder : Path) (disk : Disk) : Prop where
  text_ne : folder.text ≠ ""
  node?_eq : ∀ {made home}, disk.Leads folder made home → ∀ label ∈ labels, ∀ name n,
    index? label name = some n → made.node? (name :: home) = none

theorem Vacant.clear (h : Vacant folder disk) : Clear folder disk := by
  intro made home hleads label hlabel name n hn node hnode
  cases (h.node?_eq hleads label hlabel name n hn).symm.trans hnode

/-- With no link among the names of generations' files, there is none under the next number. -/
theorem Clear.direct (h : Clear folder disk) (htext : folder.text ≠ "") : Direct folder disk := by
  refine ⟨htext, fun hleads hindex label hlabel target hlink => ?_⟩
  cases h _ _ hleads label hlabel _ _ (index?_fileName (lt_limit_of_nextIndex hindex)) _ hlink

/-- On the empty disk nothing has the name of a generation's file, unless the path makes it. -/
theorem vacant_empty {base : Path} {made : Disk} {home : Place}
    (hmade : Disk.makeFolders base Disk.empty = .ok () made) (hfound : made.HasFolder base home)
    (hnone : made.children home = []) : Vacant base Disk.empty := by
  refine ⟨hfound.text_ne, fun hleads label _ name n _ => ?_⟩
  obtain ⟨rfl, rfl⟩ := (Disk.Leads.mk hmade hfound).unique hleads
  by_contra hsome
  obtain ⟨node, hnode⟩ := Option.ne_none_iff_exists'.mp hsome
  have hmem := Disk.mem_children.mpr hnode
  rw [hnone] at hmem
  cases hmem

/-- In a folder that is there only the names in it count. -/
theorem clear_of_folder (hfolder : disk.HasFolder folder home)
    (h : ∀ label ∈ labels, ∀ name n, index? label name = some n → ∀ node,
      disk.node? (name :: home) = some node → node.isFile = true) : Clear folder disk := by
  intro made place hleads
  obtain ⟨rfl, rfl⟩ := hfolder.of_leads hleads
  exact h

/-- The folder can be made and then takes generations. -/
structure Writable (folder : Path) (disk : Disk) : Prop where
  exists_leads : ∃ made home, disk.Leads folder made home
  clear : Clear folder disk

theorem writable_of_folder (hfolder : disk.HasFolder folder home) (h : Clear folder disk) :
    Writable folder disk :=
  ⟨⟨disk, home, hfolder.leads⟩, h⟩

theorem Writable.direct (h : Writable folder disk) : Direct folder disk := by
  obtain ⟨_, _, hleads⟩ := h.exists_leads
  exact h.clear.direct hleads.found.text_ne

/-- The folder can be made, and neither a folder nor a link has the name of one of the two files of
    the generation. -/
structure Ready (folder : Path) (index : Nat) (disk : Disk) : Prop where
  exists_leads : ∃ made home, disk.Leads folder made home
  free : ∀ {made home}, disk.Leads folder made home → ∀ label ∈ labels, ∀ node,
    made.node? (filePlace home label index) = some node → node.isFile = true

theorem Writable.ready (h : Writable folder disk) {index : Nat} (hindex : index < Word.limit) :
    Ready folder index disk :=
  ⟨h.exists_leads, fun hleads label hlabel node hnode =>
    h.clear _ _ hleads label hlabel _ _ (index?_fileName hindex) node hnode⟩

/-- Writing a generation brings no folders and no links. -/
theorem Clear.of_touchesOnly {index : Nat} (h : Clear folder disk)
    (hleads : disk.Leads folder made home) (htouched : TouchesOnly home index made after) :
    Clear folder after := by
  refine clear_of_folder (hleads.found.mono htouched.keepsWays)
    fun label hlabel name n hn node hnode => ?_
  -- what was changed is a file now
  by_cases hsame : after.node? (name :: home) = made.node? (name :: home)
  · exact h _ _ hleads label hlabel name n hn node (hsame ▸ hnode)
  · obtain ⟨_, content, hfile⟩ := htouched.changed _ hsame
    cases hnode.symm.trans hfile
    rfl

/-- Nor does deleting. -/
theorem Clear.of_subset (h : Clear folder disk) (hfolder : disk.HasFolder folder home)
    (hways : Disk.KeepsWays disk after)
    (hnodes : ∀ place node, after.node? place = some node → disk.node? place = some node) :
    Clear folder after :=
  clear_of_folder (hfolder.mono hways) fun label hlabel name n hn node hnode =>
    h _ _ hfolder.leads label hlabel name n hn node (hnodes _ _ hnode)

end Generation

/-- A folder without generations is an empty shelf. -/
theorem Shelf.of_vacant {disk : Disk} {base : Path} (h : Generation.Vacant base disk)
    (order : KeyOrder) : Shelf disk base order [] where
  descending := .nil
  index_lt := fun _ hvolume => (List.not_mem_nil hvolume).elim
  ascending := fun _ hvolume => (List.not_mem_nil hvolume).elim
  fits := fun _ hvolume => (List.not_mem_nil hvolume).elim
  found := fun hne => absurd rfl hne
  kept := fun _ _ hvolume => (List.not_mem_nil hvolume).elim
  only := fun hleads label hlabel name content n hnode hn => by
    cases (h.node?_eq hleads label hlabel name n hn).symm.trans hnode

/-- A folder that cannot be made is an empty shelf as well. -/
theorem Shelf.of_unmade {disk : Disk} {base : Path}
    (h : ∀ made home, ¬ disk.Leads base made home) (order : KeyOrder) :
    Shelf disk base order [] where
  descending := .nil
  index_lt := fun _ hvolume => (List.not_mem_nil hvolume).elim
  ascending := fun _ hvolume => (List.not_mem_nil hvolume).elim
  fits := fun _ hvolume => (List.not_mem_nil hvolume).elim
  found := fun hne => absurd rfl hne
  kept := fun _ _ hvolume => (List.not_mem_nil hvolume).elim
  only := fun hleads => absurd hleads (h _ _)

/-- Where items were not recorded, and no file was begun, the shelf is as it was. -/
theorem Shelf.of_notRecorded {store : Store} {items : List Item} {sizing : Except Fault Footprint}
    {disk after : Disk} {fault : Fault} {order : KeyOrder} {volumes : List Volume}
    (h : Shelf disk store.base order volumes)
    (hreason : Store.NotRecorded store items sizing disk fault after)
    (hdirect : Generation.Direct store.base disk)
    (hfiles : ∀ place content, after.node? place = some (.file content) →
      disk.node? place = some (.file content)) : Shelf after store.base order volumes := by
  by_cases hmakes : ∃ made home, disk.Leads store.base made home
  · obtain ⟨made, home, hleads⟩ := hmakes
    have hmade := h.of_leads hleads
    rcases hreason.refused_or_touchesOnly hleads hdirect with ⟨_, rfl⟩ | rfl
      | ⟨index, hindex, htouched⟩
    · exact h
    · exact hmade
    · refine .of_folder (hleads.found.mono htouched.keepsWays) h.descending h.index_lt h.ascending
        h.fits (fun volume hvolume label hlabel => ?_)
        fun label hlabel name content n hnode hn => ?_
      · exact (htouched.adds hleads.found hindex).keepsFiles _ _
          (hmade.kept hleads.found.leads volume hvolume label hlabel)
      · have hthere := (Disk.adds_of_makeFolders hleads.made_eq).keepsFiles _ _
          (hfiles _ _ hnode)
        exact hmade.only hleads.found.leads label hlabel name content n hthere hn
  · -- a folder that cannot be made is not there, so there are no volumes
    obtain rfl : volumes = [] := by
      by_contra hne
      obtain ⟨home, hfolder⟩ := h.found hne
      exact hmakes ⟨disk, home, hfolder.leads⟩
    have hunmade : ∀ {made}, Disk.makeFolders store.base disk ≠ .ok () made := fun hmade =>
      hmakes ⟨_, Disk.leads_of_makeFolders hdirect.text_ne hmade⟩
    cases hreason with
    | refused => exact h
    | unmade hmade =>
      refine .of_unmade (fun made home hleads => ?_) order
      obtain ⟨_, _, hagain⟩ := Disk.makeFolders_error_again hmade
      cases hagain.symm.trans hleads.made_eq
    | unnumbered hmade _ => exact absurd hmade hunmade
    | unsized hmade _ => exact absurd hmade hunmade
    | unwritten hmade _ _ _ => exact absurd hmade hunmade

/-- On a shelf the next generation is that of the next volume. -/
theorem Shelf.direct {disk : Disk} {base : Path} {order : KeyOrder} {volumes : List Volume}
    (h : Shelf disk base order volumes)
    (hready : Generation.Ready base (Volume.next volumes) disk) : Generation.Direct base disk := by
  obtain ⟨_, _, hleads⟩ := hready.exists_leads
  refine ⟨hleads.found.text_ne, fun hleads hindex label hlabel target hlink => ?_⟩
  obtain ⟨rfl, _⟩ := (h.of_leads hleads).of_nextIndex_ok hleads.found hindex
  cases hready.free hleads label hlabel _ hlink

/-- Entries that were recorded under the next number are a volume in front of the others. -/
theorem Store.RecordedAt.shelf {home : Place} {store : Store} {entries : List Entry}
    {size : Footprint} {disk made after : Disk} {info : Generation.Info} {order : KeyOrder}
    {volumes : List Volume}
    (h : RecordedAt home store (entries.map .ok) size disk made info after)
    (hshelf : Shelf disk store.base order volumes) (hascending : order.Ascending (keysOf entries)) :
    info.index = Volume.next volumes
      ∧ Shelf after store.base order (⟨Volume.next volumes, entries⟩ :: volumes)
      ∧ (Generation.Clear store.base disk → Generation.Clear store.base after) := by
  have hmade := hshelf.of_leads h.leads
  obtain ⟨hfits, hshort, _, hwritten⟩ :=
    Generation.of_write_entries h.index_lt h.found h.unlinked h.write_eq
  obtain ⟨hindex, hlimit⟩ := hmade.of_nextIndex_ok h.found h.index_eq
  rw [hindex] at hfits hwritten hlimit
  exact ⟨hindex, hmade.cons h.found hlimit hascending hshort hfits.free hwritten,
    fun hclear => hclear.of_touchesOnly h.leads h.touchesOnly⟩

/-! ### Deleting what was superseded -/

/-- On a shelf the files of generations before the newest are those of the other volumes. -/
theorem Shelf.not_isOld_iff {disk : Disk} {base : Path} {home : Place} {order : KeyOrder}
    {volumes : List Volume} {newest : Volume} (h : Shelf disk base order (newest :: volumes))
    (hfolder : disk.HasFolder base home) {place : Place} {node : Node}
    (hnode : disk.node? place = some node) :
    (∀ label ∈ Generation.labels,
        ¬ (node.isFile = true ∧ Generation.IsOld home label newest.index place))
      ↔ ∀ volume ∈ volumes, ∀ label ∈ Generation.labels,
        place ≠ Generation.filePlace home label volume.index := by
  have hold := (List.pairwise_cons.mp h.descending).1
  constructor
  · intro hall volume hvolume label hlabel heq
    have hvolume' := List.mem_cons_of_mem newest hvolume
    rw [heq, h.kept hfolder.leads volume hvolume' label hlabel] at hnode
    cases hnode
    exact hall label hlabel ⟨rfl, _, _, heq,
      Generation.index?_fileName (h.index_lt volume hvolume'), hold volume hvolume⟩
  · rintro hall label hlabel ⟨hfile, name, n, rfl, hn, hlt⟩
    cases node with
    | folder => cases hfile
    | link target => cases hfile
    | file content =>
      -- the file is one of a volume, which is not the newest
      obtain ⟨volume, hvolume, rfl, rfl⟩ :=
        h.only hfolder.leads label hlabel name content n hnode hn
      rcases List.mem_cons.mp hvolume with rfl | hvolume
      · exact Nat.lt_irrefl _ hlt
      · exact hall volume hvolume label hlabel rfl

namespace Store

variable {disk : Disk} {home : Place} {order : KeyOrder} {volumes : List Volume} {newest : Volume}

/-- What the newest volume supersedes is deleted. -/
theorem sweep_eq (store : Store) (h : Shelf disk store.base order (newest :: volumes))
    (hfolder : disk.HasFolder store.base home) :
    ∃ after, sweep newest.index (store, disk) = .ok () (store, after)
      ∧ Shelf after store.base order [newest] ∧ Disk.KeepsWays disk after
      ∧ ∀ place node, after.node? place = some node ↔ disk.node? place = some node
        ∧ ∀ volume ∈ volumes, ∀ label ∈ Generation.labels,
          place ≠ Generation.filePlace home label volume.index := by
  obtain ⟨after, hsweep, hways, hnodes⟩ := sweep_spec store newest.index hfolder
  have hleftNodes : ∀ place node, after.node? place = some node ↔ disk.node? place = some node
      ∧ ∀ volume ∈ volumes, ∀ label ∈ Generation.labels,
        place ≠ Generation.filePlace home label volume.index := by
    intro place node
    rw [hnodes]
    exact and_congr_right fun hnode => h.not_isOld_iff hfolder hnode
  have hold : ∀ volume ∈ volumes, volume.index < newest.index :=
    (List.pairwise_cons.mp h.descending).1
  have hshelf : Shelf after store.base order _ :=
    h.filter hfolder (fun n => decide (n < newest.index)) hways (by
      intro place node
      rw [hleftNodes]
      refine and_congr_right fun _ => ⟨fun hall volume hvolume hgone => ?_,
        fun hall volume hvolume => ?_⟩
      · rcases List.mem_cons.mp hvolume with rfl | hvolume
        · exact absurd (of_decide_eq_true hgone) (Nat.lt_irrefl _)
        · exact hall volume hvolume
      · exact hall volume (List.mem_cons_of_mem _ hvolume) (decide_eq_true (hold volume hvolume)))
  -- of the volumes only the newest has no number below its own
  have hleft : (newest :: volumes).filter (fun volume => !decide (volume.index < newest.index))
      = [newest] := by
    rw [List.filter_cons_of_pos (by simp), List.filter_eq_nil_iff.mpr]
    intro volume hvolume
    simp [hold volume hvolume]
  rw [hleft] at hshelf
  exact ⟨after, hsweep, hshelf, hways, hleftNodes⟩

end Store

namespace Store.Backed

variable {volumes : List Volume} {store : Store} {disk : Disk} {entries : List Entry}
  {state : Store × Disk}

/-- A usable store has mapped what its folder holds. -/
theorem loadTables_eq {home : Place} (h : store.Backed volumes disk)
    (husable : store.ensureUsable = .ok ()) (hfolder : disk.HasFolder store.base home) :
    loadTables disk store.base store.order = .ok store.tables := by
  rw [h.tables_eq husable]
  exact h.shelf.loadTables_eq hfolder

/-! ### What a change leaves -/

/-- A flush of ascending entries puts a volume in front, unless there are no entries. -/
theorem of_flush_ok (h : store.Backed volumes disk) (hdirect : Generation.Direct store.base disk)
    (hascending : store.order.Ascending (keysOf entries)) {info : Option Generation.Info}
    (hflush : flush (.ofEntries entries) (store, disk) = .ok info state) :
    ∃ after, state = ({ store with tables := after.map (Volume.table store.order) }, state.2)
      ∧ Shelf state.2 store.base store.order after
      ∧ (after = if entries = [] then volumes else ⟨Volume.next volumes, entries⟩ :: volumes)
      ∧ (Generation.Clear store.base disk → Generation.Clear store.base state.2)
      ∧ (state.2 = disk ∨ ∃ home, state.2.HasFolder store.base home) := by
  obtain ⟨husable, hflushed⟩ := of_flush_ok_direct hflush hdirect
  have htables := h.tables_eq husable
  rcases hflushed with ⟨hempty, _, rfl⟩ | ⟨_, _, info, after, home, hempty, _, _, hrecorded, rfl⟩
  · obtain rfl : entries = [] := List.isEmpty_iff.mp hempty
    exact ⟨volumes, by rw [← htables], h.shelf, rfl, id, .inl rfl⟩
  · have hne : entries ≠ [] := by
      rintro rfl
      cases hempty
    obtain ⟨hindex, hshelf, hclear⟩ := hrecorded.shelf h.shelf hascending
    refine ⟨_, ?_, hshelf, (if_neg hne).symm, hclear, .inr ⟨home, hrecorded.hasFolder⟩⟩
    rw [List.map_cons, ← htables, hindex]

/-- The first step of a compaction puts a volume in front on the disk, and leaves the store
    as it is. -/
theorem of_writeMerged_ok (h : store.Backed volumes disk)
    (hdirect : Generation.Direct store.base disk)
    (hascending : store.order.Ascending (keysOf entries)) {count payload : Nat}
    {info : Generation.Info}
    (hwrite : writeMerged (entries.map .ok) count payload (store, disk) = .ok info state) :
    ∃ written home, state = (store, written) ∧ store.ensureUsable = .ok ()
      ∧ info.index = Volume.next volumes ∧ written.HasFolder store.base home
      ∧ Shelf written store.base store.order (⟨Volume.next volumes, entries⟩ :: volumes)
      ∧ (Generation.Clear store.base disk → Generation.Clear store.base written) := by
  obtain ⟨_, _, written, _, hrecorded, rfl⟩ := Store.of_writeMerged_ok hwrite
  obtain ⟨home, hrecorded⟩ := hrecorded.exists_home hdirect
  obtain ⟨hindex, hshelf, hclear⟩ := hrecorded.shelf h.shelf hascending
  exact ⟨written, home, rfl, hrecorded.usable, hindex, hrecorded.hasFolder, hshelf, hclear⟩

/-- A compaction into ascending entries leaves one volume, and a store that waits for a
    reload. -/
theorem of_compact_ok (h : store.Backed volumes disk) (hdirect : Generation.Direct store.base disk)
    (hascending : store.order.Ascending (keysOf entries)) {count payload : Nat}
    {info : Generation.Info}
    (hcompact : compact (entries.map .ok) count payload (store, disk) = .ok info state) :
    state.1 = { store with tables := [], stale := true }
      ∧ info.index = Volume.next volumes
      ∧ Shelf state.2 store.base store.order [⟨Volume.next volumes, entries⟩]
      ∧ (Generation.Clear store.base disk → Generation.Clear store.base state.2) := by
  obtain ⟨_, _, written, after, _, hrecorded, hsweep, rfl⟩ := Store.of_compact_ok hcompact
  obtain ⟨home, hrecorded⟩ := hrecorded.exists_home hdirect
  obtain ⟨hindex, hshelf, hclear⟩ := hrecorded.shelf h.shelf hascending
  -- on a shelf the sweep has one outcome
  obtain ⟨_, hswept, hleft, hways, hnodes⟩ :=
    sweep_eq { store with tables := [], stale := true } hshelf hrecorded.hasFolder
  rw [← hindex] at hswept
  cases hsweep.symm.trans hswept
  exact ⟨rfl, hindex, hleft, fun hbefore => (hclear hbefore).of_subset hrecorded.hasFolder hways
    fun place node hnode => ((hnodes place node).mp hnode).1⟩

/-- A reload maps the volumes that are there. -/
theorem of_reload_ok (h : Shelf disk store.base store.order volumes)
    (hreload : reload (store, disk) = .ok () state) :
    state = ({ store with
      tables := volumes.map (Volume.table store.order), closed := false, stale := false }, disk) := by
  obtain ⟨tables, htables, rfl⟩ := Store.of_reload_ok hreload
  rw [h.of_loadTables_ok htables]

end Store.Backed

end LayeredStore
