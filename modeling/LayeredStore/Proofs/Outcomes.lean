import LayeredStore.Proofs.Mapping

namespace LayeredStore

/-!
# How the changes of a store end

Flush and compaction both record a generation: the store is found usable, its folder is
made, the next number is picked, the files are measured and written. Each change is opened
here once, for any items and any disk, and told by how it has ended.

* `Store.Recorded` — the items were written as the next generation;
* `Store.RecordedAt` — and no link was in the way of its files;
* `Store.NotRecorded` — they were not, for one of five reasons;
* `Store.of_flush_ok`, `Store.of_flush_error`, `Store.of_writeMerged_ok`,
  `Store.of_writeMerged_error`, `Store.of_compact_ok`, `Store.of_compact_error`,
  `Store.of_reload_ok`, `Store.of_reload_error` — how each change has gone;
* `Store.of_flush_ok_direct`, `Store.of_flush_error_direct` — a flush with no link in the way;
* `Store.RecordedAt.openTable_eq` — what was recorded is mapped as it was written;
* `Store.NotRecorded.adds`, `Store.NotRecorded.touchesOnly` — what is new on the disk where items
  were not recorded;
* `Store.RecordedAt.of_sweep_ok`, `Store.RecordedAt.keeps_swept`,
  `Store.RecordedAt.loadTables_swept` — with all older files deleted, the recorded generation is
  left, and no other.
-/

namespace Store

variable {store : Store} {disk made after : Disk} {index count payload : Nat}
  {items : List Item} {fault : Fault} {size : Footprint} {sizing : Except Fault Footprint}
  {info : Generation.Info} {state : Store × Disk}

/-- A usable store is neither closed nor waits for a reload. -/
theorem ensureUsable_iff :
    store.ensureUsable = .ok () ↔ store.closed = false ∧ store.stale = false := by
  rw [ensureUsable]
  cases store.closed <;> cases store.stale <;> simp

/-- The folder is made and the next number picked, and the store is left as it is. -/
theorem prepare_eq (hmade : Disk.makeFolders store.base disk = .ok () made)
    (hindex : Generation.nextIndex made store.base = .ok index) :
    prepare (store, disk) = .ok index (store, made) := by
  have hfolder : onDisk (Disk.makeFolders store.base) (store, disk) = .ok () (store, made) :=
    Action.within_ok hmade
  have hlift : (Action.lift (Generation.nextIndex made store.base) : Action (Store × Disk) Nat)
      (store, made) = .ok index (store, made) := by
    rw [hindex]
    rfl
  exact (Action.bind_ok hfolder).trans hlift

theorem of_prepare_ok (h : prepare (store, disk) = .ok index state) :
    ∃ made, state = (store, made) ∧ Disk.makeFolders store.base disk = .ok () made
      ∧ Generation.nextIndex made store.base = .ok index := by
  obtain ⟨_, made, hmade, hrest⟩ := Action.of_within_bind_ok h
  obtain ⟨hindex, hstate⟩ := Action.of_lift_ok hrest
  exact ⟨made, hstate, hmade, hindex⟩

/-! ### Recording a generation -/

/-- The items were written as the next generation of a usable store's folder, in files of
    the given size. -/
structure Recorded (store : Store) (items : List Item) (size : Footprint) (disk made : Disk)
    (info : Generation.Info) (after : Disk) : Prop where
  usable : store.ensureUsable = .ok ()
  made_eq : Disk.makeFolders store.base disk = .ok () made
  index_eq : Generation.nextIndex made store.base = .ok info.index
  write_eq : Generation.write store.base info.index items size made = .ok info after

/-- The reason why items were not written as the next generation, and the disk that was left. -/
inductive NotRecorded (store : Store) (items : List Item) (sizing : Except Fault Footprint)
    (disk : Disk) (fault : Fault) : Disk → Prop
  | refused (h : store.ensureUsable = .error fault) :
    NotRecorded store items sizing disk fault disk
  | unmade {after : Disk} (h : Disk.makeFolders store.base disk = .error fault after) :
    NotRecorded store items sizing disk fault after
  | unnumbered {made : Disk} (hmade : Disk.makeFolders store.base disk = .ok () made)
    (h : Generation.nextIndex made store.base = .error fault) :
    NotRecorded store items sizing disk fault made
  | unsized {made : Disk} (hmade : Disk.makeFolders store.base disk = .ok () made)
    (h : sizing = .error fault) : NotRecorded store items sizing disk fault made
  | unwritten {made after : Disk} {index : Nat} {size : Footprint}
    (hmade : Disk.makeFolders store.base disk = .ok () made)
    (hindex : Generation.nextIndex made store.base = .ok index) (hsize : sizing = .ok size)
    (h : Generation.write store.base index items size made = .error fault after) :
    NotRecorded store items sizing disk fault after

namespace Recorded

theorem index_lt (h : Recorded store items size disk made info after) : info.index < Word.limit :=
  Generation.lt_limit_of_nextIndex h.index_eq

/-- What was recorded are entries. -/
theorem exists_entries (h : Recorded store items size disk made info after) :
    ∃ entries : List Entry, items = entries.map .ok :=
  Generation.entries_of_write h.write_eq

end Recorded

/-- The items were recorded in the folder that the path leads to, and no link was in the way. -/
structure RecordedAt (home : Place) (store : Store) (items : List Item) (size : Footprint)
    (disk made : Disk) (info : Generation.Info) (after : Disk) : Prop
    extends Recorded store items size disk made info after where
  found : made.HasFolder store.base home
  unlinked : Generation.Unlinked home info.index made

theorem Recorded.exists_home (h : Recorded store items size disk made info after)
    (hdirect : Generation.Direct store.base disk) :
    ∃ home, RecordedAt home store items size disk made info after := by
  obtain ⟨home, hleads⟩ := Disk.leads_of_makeFolders hdirect.text_ne h.made_eq
  exact ⟨home, h, hleads.found, hdirect.unlinked hleads h.index_eq⟩

namespace RecordedAt

variable {home : Place} {entries : List Entry}

section Items

variable (h : RecordedAt home store items size disk made info after)
include h

theorem leads : disk.Leads store.base made home := ⟨h.made_eq, h.found⟩

theorem touchesOnly : Generation.TouchesOnly home info.index made after :=
  Generation.touchesOnly_of_write_ok h.index_lt h.found h.unlinked h.write_eq

theorem fits : Generation.Fits store.base home info.index size made :=
  Generation.fits_of_write h.index_lt h.found h.unlinked h.write_eq

/-- The number was picked above all others, so what was written under it was put where nothing
    was. -/
theorem adds_made : made.Adds
    (fun place node => node.isFile = true ∧ Generation.IsFileOf home info.index place) after :=
  h.touchesOnly.adds h.found h.index_eq

/-- The folder of a recorded generation is found. -/
theorem hasFolder : after.HasFolder store.base home :=
  h.found.mono h.touchesOnly.keepsWays

end Items

variable (h : RecordedAt home store (entries.map .ok) size disk made info after)
include h

theorem written :
    Generation.Written home info.index made after (Generation.records entries)
      (Generation.slots entries) :=
  (Generation.of_write_entries h.index_lt h.found h.unlinked h.write_eq).2.2.2

/-- The counts that are told are those of the entries. -/
theorem info_eq :
    info = ⟨info.index, entries.length, (Generation.records entries).length,
      (Generation.slots entries).length⟩ :=
  (Generation.of_write_entries h.index_lt h.found h.unlinked h.write_eq).2.2.1

/-- Each of the two files holds what is a volume's there. -/
theorem node?_eq {label : String} (hlabel : label ∈ Generation.labels) :
    after.node? (Generation.filePlace home label info.index)
      = some (.file (Volume.content ⟨info.index, entries⟩ label)) := by
  rcases List.mem_pair.mp hlabel with rfl | rfl
  · exact h.written.values_eq
  · exact h.written.offsets_eq

/-- A recorded generation is mapped as it was written. -/
theorem openTable_eq (order : KeyOrder) :
    openTable after store.base order info.index
      = .ok (Volume.table order ⟨info.index, entries⟩) :=
  Store.openTable_eq ⟨info.index, entries⟩ h.hasFolder h.index_lt fun _ => h.node?_eq

/-- The table of a recorded generation holds its entries. -/
theorem holds (order : KeyOrder) : (Volume.table order ⟨info.index, entries⟩).Holds entries :=
  ⟨rfl, rfl, (Generation.of_write_entries h.index_lt h.found h.unlinked h.write_eq).2.1⟩

/-- A folder is loaded with the recorded generation in front of those that it was loaded
    with before. -/
theorem loadTables_eq {order : KeyOrder} {tables : List Table}
    (hmapped : loadTables made store.base order = .ok tables) :
    loadTables after store.base order
      = .ok (Volume.table order ⟨info.index, entries⟩ :: tables) :=
  loadTables_cons h.fits hmapped h.index_eq h.written (h.openTable_eq order)

end RecordedAt

/-- Where there is no next number, items are not written under it. -/
theorem NotRecorded.of_prepare_error (h : prepare (store, disk) = .error fault state) :
    ∃ made, state = (store, made) ∧ NotRecorded store items sizing disk fault made := by
  rcases Action.of_within_bind_error h with ⟨made, hmade, rfl⟩ | ⟨_, made, hmade, h⟩
  · exact ⟨made, rfl, .unmade hmade⟩
  · obtain ⟨hindex, rfl⟩ := Action.of_lift_error h
    exact ⟨made, rfl, .unnumbered hmade hindex⟩

/-- What may be new on the disk `after`, when items were not recorded: folders where the path to
    the store passes, and files of the generation that was to be the next. -/
def Leavings (store : Store) (disk after : Disk) (place : Place) (node : Node) : Prop :=
  (node = .folder ∧ after.Passes store.base place) ∨
    ∃ made home index, disk.Leads store.base made home
      ∧ Generation.nextIndex made store.base = .ok index
      ∧ node.isFile = true ∧ Generation.IsFileOf home index place

/-- Where the folder can be made, nothing was touched besides it but the files of the generation
    that was begun, unless the store was refused. -/
theorem NotRecorded.refused_or_touchesOnly {home : Place}
    (h : NotRecorded store items sizing disk fault after)
    (hleads : disk.Leads store.base made home) (hdirect : Generation.Direct store.base disk) :
    (store.ensureUsable = .error fault ∧ after = disk) ∨ after = made
      ∨ ∃ index, Generation.nextIndex made store.base = .ok index
        ∧ Generation.TouchesOnly home index made after := by
  have hmade := hleads.made_eq
  cases h with
  | refused h => exact .inl ⟨h, rfl⟩
  | unmade h => rw [hmade] at h; cases h
  | unnumbered hmade' h => rw [hmade] at hmade'; cases hmade'; exact .inr (.inl rfl)
  | unsized hmade' h => rw [hmade] at hmade'; cases hmade'; exact .inr (.inl rfl)
  | unwritten hmade' hindex hsize h =>
    rw [hmade] at hmade'
    cases hmade'
    exact .inr (.inr ⟨_, hindex, Generation.touchesOnly_of_write_error
      (Generation.lt_limit_of_nextIndex hindex) hleads.found (hdirect.unlinked hleads hindex) h⟩)

theorem NotRecorded.touchesOnly {home : Place}
    (h : NotRecorded store items sizing disk fault after)
    (husable : store.ensureUsable = .ok ()) (hleads : disk.Leads store.base made home)
    (hdirect : Generation.Direct store.base disk) :
    after = made ∨ ∃ index, Generation.nextIndex made store.base = .ok index
      ∧ Generation.TouchesOnly home index made after :=
  (h.refused_or_touchesOnly hleads hdirect).resolve_left fun hrefused => by
    cases husable.symm.trans hrefused.1

/-- Where the folder can be made, the path leads to it still. -/
theorem NotRecorded.exists_leads {home : Place}
    (h : NotRecorded store items sizing disk fault after)
    (hleads : disk.Leads store.base made home) (hdirect : Generation.Direct store.base disk) :
    ∃ again, after.Leads store.base again home := by
  rcases h.refused_or_touchesOnly hleads hdirect with ⟨_, rfl⟩ | rfl | ⟨_, _, htouched⟩
  · exact ⟨made, hleads⟩
  · exact ⟨_, hleads.found.leads⟩
  · exact ⟨_, (hleads.found.mono htouched.keepsWays).leads⟩

/-- Where items were not recorded nothing was changed on the disk, and little is new. -/
theorem NotRecorded.adds (h : NotRecorded store items sizing disk fault after)
    (hdirect : Generation.Direct store.base disk) :
    disk.Adds (store.Leavings disk after) after := by
  cases h with
  | refused h => exact .refl disk
  | unmade h => exact ((Disk.adds_makeFolders store.base).of_error h).mono fun _ _ => .inl
  | unnumbered hmade h => exact (Disk.adds_of_makeFolders hmade).mono fun _ _ => .inl
  | unsized hmade h => exact (Disk.adds_of_makeFolders hmade).mono fun _ _ => .inl
  | unwritten hmade hindex hsize h =>
    obtain ⟨home, hleads⟩ := Disk.leads_of_makeFolders hdirect.text_ne hmade
    have htouched := Generation.touchesOnly_of_write_error
      (Generation.lt_limit_of_nextIndex hindex) hleads.found (hdirect.unlinked hleads hindex) h
    have hwritten := htouched.adds hleads.found hindex
    refine Disk.Adds.trans ((Disk.adds_of_makeFolders hmade).mono ?_) (hwritten.mono ?_)
    · rintro place node ⟨hfolder, hpasses⟩
      exact .inl ⟨hfolder, hpasses.mono hwritten.keepsWays⟩
    · rintro place node ⟨hfile, hplace⟩
      exact .inr ⟨_, home, _, hleads, hindex, hfile, hplace⟩

/-- Where items were not recorded the files of before are kept all the same. -/
theorem NotRecorded.keepsFiles (h : NotRecorded store items sizing disk fault after)
    (hdirect : Generation.Direct store.base disk) : disk.KeepsFiles after :=
  (h.adds hdirect).keepsFiles

/-! ### Flushes -/

/-- Behind its first checks a flush writes the entries of the second pass, and maps what it has
    written. -/
theorem flush_eq {source : Source} (husable : store.ensureUsable = .ok ())
    (hempty : source.isEmpty = false) (hmade : Disk.makeFolders store.base disk = .ok () made)
    (hindex : Generation.nextIndex made store.base = .ok index)
    (hsize : Footprint.measure source.measured = .ok size) :
    flush source (store, disk)
      = (onDisk (Generation.write store.base index (source.written.map .ok) size) >>= fun info => do
          let (_, disk) ← get
          let table ← Action.lift (openTable disk store.base store.order index)
          update fun store => { store with tables := table :: store.tables }
          return some info) (store, made) := by
  refine (Action.lift_bind husable).trans ?_
  rw [hempty, if_neg Bool.false_ne_true]
  refine (Action.bind_ok (prepare_eq hmade hindex)).trans ?_
  exact Action.lift_bind hsize

/-- A flush that records the entries of its second pass maps them in front of the other
    generations. -/
theorem RecordedAt.flush_eq {source : Source} {home : Place}
    (h : RecordedAt home store (source.written.map .ok) size disk made info after)
    (hempty : source.isEmpty = false) (hsize : Footprint.measure source.measured = .ok size) :
    flush source (store, disk) = .ok (some info) ({ store with
      tables := Volume.table store.order ⟨info.index, source.written⟩ :: store.tables }, after) := by
  rw [Store.flush_eq h.usable hempty h.made_eq h.index_eq hsize]
  refine (Action.within_bind h.write_eq).trans ?_
  refine (Action.bind_ok rfl).trans ?_
  exact (Action.lift_bind (h.openTable_eq store.order)).trans rfl

/-- A flush that succeeds has nothing to do, or records the entries of its second pass and
    maps what it finds under their number in front of the other generations. -/
theorem of_flush_ok {source : Source} {flushed : Option Generation.Info}
    (h : flush source (store, disk) = .ok flushed state) :
    store.ensureUsable = .ok () ∧ ((source.isEmpty = true ∧ flushed = none ∧ state = (store, disk))
      ∨ ∃ size made info after table, source.isEmpty = false ∧ flushed = some info
        ∧ Footprint.measure source.measured = .ok size
        ∧ Recorded store (source.written.map .ok) size disk made info after
        ∧ openTable after store.base store.order info.index = .ok table
        ∧ state = ({ store with tables := table :: store.tables }, after)) := by
  obtain ⟨_, husable, h⟩ := Action.of_lift_bind_ok h
  refine ⟨husable, ?_⟩
  cases hempty : source.isEmpty with
  | true =>
    simp only [hempty, if_true] at h
    cases h
    exact .inl ⟨rfl, rfl, rfl⟩
  | false =>
    simp only [hempty, Bool.false_eq_true, if_false] at h
    obtain ⟨index, between, hprepare, h⟩ := Action.of_bind_ok h
    obtain ⟨made, rfl, hmade, hindex⟩ := of_prepare_ok hprepare
    obtain ⟨size, hsize, h⟩ := Action.of_lift_bind_ok h
    obtain ⟨info, written, hwrite, h⟩ := Action.of_within_bind_ok h
    obtain ⟨_, _, hget, h⟩ := Action.of_bind_ok h
    cases hget
    obtain ⟨table, htable, h⟩ := Action.of_lift_bind_ok h
    cases h
    obtain rfl := Generation.index_of_write hwrite
    exact .inr ⟨size, made, info, written, table, rfl, rfl, hsize, ⟨husable, hmade, hindex, hwrite⟩,
      htable, rfl⟩

/-- Where no link is in the way, what it maps are the entries. -/
theorem of_flush_ok_direct {source : Source} {flushed : Option Generation.Info}
    (h : flush source (store, disk) = .ok flushed state)
    (hdirect : Generation.Direct store.base disk) :
    store.ensureUsable = .ok () ∧ ((source.isEmpty = true ∧ flushed = none ∧ state = (store, disk))
      ∨ ∃ size made info after home, source.isEmpty = false ∧ flushed = some info
        ∧ Footprint.measure source.measured = .ok size
        ∧ RecordedAt home store (source.written.map .ok) size disk made info after
        ∧ state = ({ store with
            tables := Volume.table store.order ⟨info.index, source.written⟩ :: store.tables },
          after)) := by
  obtain ⟨husable, hidle | ⟨size, made, info, after, table, hempty, hinfo, hsize, hrecorded, htable,
    rfl⟩⟩ := of_flush_ok h
  · exact ⟨husable, .inl hidle⟩
  · obtain ⟨home, hrecorded⟩ := hrecorded.exists_home hdirect
    cases (hrecorded.openTable_eq store.order).symm.trans htable
    exact ⟨husable, .inr ⟨size, made, info, after, home, hempty, hinfo, hsize, hrecorded, rfl⟩⟩

/-- A flush that fails leaves the store as it is. If it has recorded its entries it could not
    map what it found under their number. -/
theorem of_flush_error {source : Source} (h : flush source (store, disk) = .error fault state) :
    ∃ after, state = (store, after) ∧ (NotRecorded store (source.written.map .ok)
        (Footprint.measure source.measured) disk fault after
      ∨ ∃ size made info, Recorded store (source.written.map .ok) size disk made info after
        ∧ openTable after store.base store.order info.index = .error fault) := by
  rcases Action.of_lift_bind_error h with ⟨hrefused, rfl⟩ | ⟨_, husable, h⟩
  · exact ⟨disk, rfl, .inl (.refused hrefused)⟩
  split at h
  · cases h
  rcases Action.of_bind_error h with h | ⟨index, _, hprepare, h⟩
  · obtain ⟨made, hstate, hreason⟩ := NotRecorded.of_prepare_error h
    exact ⟨made, hstate, .inl hreason⟩
  obtain ⟨made, rfl, hmade, hindex⟩ := of_prepare_ok hprepare
  rcases Action.of_lift_bind_error h with ⟨hsize, rfl⟩ | ⟨size, hsize, h⟩
  · exact ⟨made, rfl, .inl (.unsized hmade hsize)⟩
  rcases Action.of_within_bind_error h with ⟨after, hwrite, rfl⟩ | ⟨info, after, hwrite, h⟩
  · exact ⟨after, rfl, .inl (.unwritten hmade hindex hsize hwrite)⟩
  obtain h | ⟨_, _, hget, h⟩ := Action.of_bind_error h
  · cases h
  cases hget
  rcases Action.of_lift_bind_error h with ⟨htable, rfl⟩ | ⟨_, _, h⟩
  · obtain rfl := Generation.index_of_write hwrite
    exact ⟨after, rfl, .inr ⟨size, made, info, ⟨husable, hmade, hindex, hwrite⟩, htable⟩⟩
  · cases h

/-- Where no link is in the way, what was recorded can always be mapped. -/
theorem of_flush_error_direct {source : Source}
    (h : flush source (store, disk) = .error fault state)
    (hdirect : Generation.Direct store.base disk) :
    ∃ after, state = (store, after) ∧ NotRecorded store (source.written.map .ok)
      (Footprint.measure source.measured) disk fault after := by
  obtain ⟨after, hstate, hreason | ⟨size, made, info, hrecorded, htable⟩⟩ := of_flush_error h
  · exact ⟨after, hstate, hreason⟩
  · obtain ⟨home, hrecorded⟩ := hrecorded.exists_home hdirect
    cases (hrecorded.openTable_eq store.order).symm.trans htable

/-! ### Compactions -/

/-- The first step of a compaction records the items. -/
theorem of_writeMerged_ok (h : writeMerged items count payload (store, disk) = .ok info state) :
    ∃ size made after, capacity count payload store.tables = .ok size
      ∧ Recorded store items size disk made info after ∧ state = (store, after) := by
  obtain ⟨_, husable, h⟩ := Action.of_lift_bind_ok h
  obtain ⟨index, between, hprepare, h⟩ := Action.of_bind_ok h
  obtain ⟨made, rfl, hmade, hindex⟩ := of_prepare_ok hprepare
  obtain ⟨size, hsize, h⟩ := Action.of_lift_bind_ok h
  obtain ⟨after, hwrite, rfl⟩ := Action.of_within_ok h
  obtain rfl := Generation.index_of_write hwrite
  exact ⟨size, made, after, hsize, ⟨husable, hmade, hindex, hwrite⟩, rfl⟩

/-- A first step that fails leaves the store as it is. -/
theorem of_writeMerged_error
    (h : writeMerged items count payload (store, disk) = .error fault state) :
    ∃ after, state = (store, after)
      ∧ NotRecorded store items (capacity count payload store.tables) disk fault after := by
  rcases Action.of_lift_bind_error h with ⟨hrefused, rfl⟩ | ⟨_, _, h⟩
  · exact ⟨disk, rfl, .refused hrefused⟩
  rcases Action.of_bind_error h with h | ⟨index, _, hprepare, h⟩
  · exact NotRecorded.of_prepare_error h
  obtain ⟨made, rfl, hmade, hindex⟩ := of_prepare_ok hprepare
  rcases Action.of_lift_bind_error h with ⟨hsize, rfl⟩ | ⟨size, hsize, h⟩
  · exact ⟨made, rfl, .unsized hmade hsize⟩
  obtain ⟨after, hwrite, rfl⟩ := Action.of_within_error h
  exact ⟨after, rfl, .unwritten hmade hindex hsize hwrite⟩

/-- The files of old generations are deleted, under both labels, and nothing else. -/
theorem sweep_spec {home : Place} (store : Store) (keep : Nat)
    (hfolder : disk.HasFolder store.base home) :
    ∃ after, sweep keep (store, disk) = .ok () (store, after) ∧ Disk.KeepsWays disk after
      ∧ ∀ place node, after.node? place = some node ↔ disk.node? place = some node
        ∧ ∀ label ∈ Generation.labels,
          ¬ (node.isFile = true ∧ Generation.IsOld home label keep place) := by
  obtain ⟨_, between, hfirst, hfirstWays, hfirstNodes⟩ :=
    Generation.purge_spec hfolder Generation.values_mem_labels keep
  obtain ⟨_, after, hsecond, hsecondWays, hsecondNodes⟩ :=
    Generation.purge_spec (hfolder.mono hfirstWays) Generation.offsets_mem_labels keep
  refine ⟨after, ?_, hfirstWays.trans hsecondWays, fun place node => ?_⟩
  · exact (Action.within_bind (Action.ignoreFault_ok hfirst)).trans
      (Action.within_ok (Action.ignoreFault_ok hsecond))
  · rw [hsecondNodes, hfirstNodes, and_assoc]
    refine and_congr_right fun _ => ⟨fun ⟨hvalues, hoffsets⟩ label hlabel => ?_, fun hall => ?_⟩
    · rcases List.mem_pair.mp hlabel with rfl | rfl
      · exact hvalues
      · exact hoffsets
    · exact ⟨hall _ Generation.values_mem_labels, hall _ Generation.offsets_mem_labels⟩

/-- The deletion of superseded generations leaves the store as it is. -/
theorem of_sweep_ok {next : Store × Disk} (h : sweep index (store, disk) = .ok () next) :
    ∃ after, next = (store, after) := by
  obtain ⟨_, _, _, h⟩ := Action.of_within_bind_ok h
  obtain ⟨after, _, rfl⟩ := Action.of_within_ok h
  exact ⟨after, rfl⟩

/-- The deletion of superseded generations does not fail. -/
theorem not_sweep_error {after : Store × Disk} : sweep index state ≠ .error fault after := by
  intro h
  rcases Action.of_within_bind_error h with ⟨_, hpurge, _⟩ | ⟨_, _, _, h⟩
  · exact Action.not_ignoreFault_error hpurge
  · obtain ⟨_, hpurge, _⟩ := Action.of_within_error h
    exact Action.not_ignoreFault_error hpurge

/-- A compaction that succeeds records the items, lets go of all tables and deletes what is
    older than the new generation. -/
theorem of_compact_ok (h : compact items count payload (store, disk) = .ok info state) :
    ∃ size made written after, capacity count payload store.tables = .ok size
      ∧ Recorded store items size disk made info written
      ∧ sweep info.index ({ store with tables := [], stale := true }, written)
        = .ok () ({ store with tables := [], stale := true }, after)
      ∧ state = ({ store with tables := [], stale := true }, after) := by
  obtain ⟨_, _, hwrite, h⟩ := Action.of_bind_ok h
  obtain ⟨size, made, written, hsize, hrecorded, rfl⟩ := of_writeMerged_ok hwrite
  obtain ⟨_, _, hupdate, h⟩ := Action.of_bind_ok h
  cases hupdate
  obtain ⟨_, _, hswept, h⟩ := Action.of_bind_ok h
  cases h
  obtain ⟨after, rfl⟩ := of_sweep_ok hswept
  exact ⟨size, made, written, after, hsize, hrecorded, hswept, rfl⟩

/-- A compaction fails only in its first step, and so it leaves the store as it is. -/
theorem of_compact_error (h : compact items count payload (store, disk) = .error fault state) :
    ∃ after, state = (store, after)
      ∧ NotRecorded store items (capacity count payload store.tables) disk fault after := by
  rcases Action.of_bind_error h with h | ⟨_, _, _, h⟩
  · exact of_writeMerged_error h
  rcases Action.of_bind_error h with h | ⟨_, _, _, h⟩
  · cases h
  rcases Action.of_bind_error h with h | ⟨_, _, _, h⟩
  · exact absurd h not_sweep_error
  · cases h

namespace RecordedAt

variable {home : Place} {swept : Disk} {other : Store}

/-- Behind a recorded generation only files of older ones are deleted. -/
theorem of_sweep_ok (h : RecordedAt home store items size disk made info after)
    (hsweep : sweep info.index (other, after) = .ok () (other, swept))
    (hbase : other.base = store.base) :
    Disk.KeepsWays after swept ∧ ∀ place node, swept.node? place = some node ↔
      after.node? place = some node ∧ ∀ label ∈ Generation.labels,
        ¬ (node.isFile = true ∧ Generation.IsOld home label info.index place) := by
  obtain ⟨_, hspec, hways, hnodes⟩ := sweep_spec other info.index (hbase ▸ h.hasFolder)
  rw [hspec] at hsweep
  cases hsweep
  exact ⟨hways, hnodes⟩

/-- The deletion of superseded generations keeps the recorded one: it is not older than
    itself. -/
theorem keeps_swept (h : RecordedAt home store items size disk made info after)
    (hsweep : sweep info.index (other, after) = .ok () (other, swept))
    (hbase : other.base = store.base) :
    swept.HasFolder store.base home ∧ Generation.Keeps home info.index after swept := by
  obtain ⟨hways, hnodes⟩ := h.of_sweep_ok hsweep hbase
  refine ⟨h.hasFolder.mono hways, ?_⟩
  intro label hlabel content hfile
  refine (hnodes _ _).mpr ⟨hfile, ?_⟩
  rintro other hother ⟨_, name, n, hplace, hname, hlt⟩
  obtain rfl := (List.cons.inj hplace).1
  obtain ⟨_, rfl⟩ := Generation.of_index?_fileName hlabel hother hname
  exact Nat.lt_irrefl _ hlt

/-- Once everything older was deleted, the recorded generation is the only one, whatever the
    folder held before. -/
theorem loadTables_swept {entries : List Entry}
    (h : RecordedAt home store (entries.map .ok) size disk made info after)
    (hsweep : sweep info.index (other, after) = .ok () (other, swept))
    (hbase : other.base = store.base) (order : KeyOrder) :
    loadTables swept store.base order = .ok [Volume.table order ⟨info.index, entries⟩] := by
  obtain ⟨hfolder, hkeeps⟩ := h.keeps_swept hsweep hbase
  obtain ⟨_, hnodes⟩ := h.of_sweep_ok hsweep hbase
  have hrecords : ∀ label ∈ Generation.labels, ∀ n,
      n ∈ [info.index] ↔ Generation.Records swept home label n := by
    intro label hlabel n
    rw [List.mem_singleton]
    constructor
    · rintro rfl
      exact ⟨_, _, hkeeps label hlabel _ (h.node?_eq hlabel), Generation.index?_fileName h.index_lt⟩
    · -- what has a lower number was deleted, and there is no higher one
      rintro ⟨name, content, hfile, hname⟩
      obtain ⟨hafter, hleft⟩ := (hnodes _ _).mp hfile
      by_contra hne
      have hrecords := (h.written.records_iff h.index_lt hlabel).mp ⟨name, content, hafter, hname⟩
      have hlt := Generation.lt_of_nextIndex h.found h.index_eq hlabel (hrecords.resolve_left hne)
      exact hleft label hlabel ⟨rfl, name, n, rfl, hname, hlt⟩
  have hdiscover := Generation.discover_eq hfolder (List.pairwise_singleton _ _) hrecords
  have hopened : openTable swept store.base order info.index = _ :=
    Store.openTable_eq ⟨info.index, entries⟩ hfolder h.index_lt fun label hlabel =>
      hkeeps label hlabel _ (h.node?_eq hlabel)
  rw [loadTables, hdiscover]
  show openTables swept store.base order [info.index].reverse = _
  rw [List.reverse_singleton]
  exact openTables_cons_iff.mpr ⟨_, [], hopened, rfl, rfl⟩

end RecordedAt

/-! ### Reloads -/

theorem of_reload_ok (h : reload (store, disk) = .ok () state) :
    ∃ tables, loadTables disk store.base store.order = .ok tables
      ∧ state = ({ store with tables, closed := false, stale := false }, disk) := by
  obtain ⟨tables, htables, h⟩ := Action.of_lift_bind_ok h
  cases h
  exact ⟨tables, htables, rfl⟩

theorem of_reload_error (h : reload (store, disk) = .error fault state) :
    loadTables disk store.base store.order = .error fault ∧ state = (store, disk) := by
  rcases Action.of_lift_bind_error h with hload | ⟨_, _, h⟩
  · exact hload
  · cases h

end Store

end LayeredStore
