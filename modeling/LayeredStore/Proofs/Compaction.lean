import LayeredStore.Proofs.Room
import LayeredStore.Proofs.Runs

namespace LayeredStore

/-!
# Compaction keeps what a store answers

The generation that a compaction writes has every key of the generations that it
supersedes, with the entry that wins. So it hides them, and it does not matter which of
their files are still there when the folder is loaded again.

* `Shelf.withoutGenerations` — without the files of some volumes the others are left;
* `Volume.find?_front` — a volume that answers as all behind it do hides any of them;
* `Store.Backed.loaded_of_front` — what is loaded with a volume in front and some volumes gone;
* `Store.compact_keeps_reads` — a compaction succeeds, and whatever is left of the
  superseded generations, a store that is loaded then answers as before;
* `Store.compact_keeps_reads_fails` — where something else has the names of generations' files this
  is not so.
-/

namespace Shelf

variable {disk : Disk} {base : Path} {home : Place} {order : KeyOrder} {volumes : List Volume}
  {gone : List Nat}

/-- Without the files of some volumes the others are left. -/
theorem withoutGenerations (h : Shelf disk base order volumes) (hfolder : disk.HasFolder base home)
    (hgone : ∀ n ∈ gone, n ∈ volumes.map Volume.index) :
    Shelf (disk.withoutGenerations home gone) base order
      (volumes.filter fun volume => !decide (volume.index ∈ gone)) := by
  refine h.filter hfolder (fun n => decide (n ∈ gone)) (Disk.keepsWays_withoutGenerations _ _ _)
    fun place node => ?_
  rw [Disk.node?_withoutGenerations]
  refine and_congr_right fun hnode => ⟨fun hleft volume hvolume hn label hlabel heq => ?_,
    fun hleft _ n hn label hlabel heq => ?_⟩
  · have hfile := h.isFile_eq hfolder hvolume hlabel (heq ▸ hnode)
    exact hleft hfile volume.index (of_decide_eq_true hn) label hlabel heq
  · obtain ⟨volume, hvolume, rfl⟩ := List.mem_map.mp (hgone n hn)
    exact hleft volume hvolume (decide_eq_true hn) label hlabel heq

end Shelf

namespace Volume

variable {order : KeyOrder} {entries : List Entry} {volumes left : List Volume}

/-- Entries that answer as volumes do hide any of these volumes. -/
theorem find?_front
    (hanswers : ∀ key, order.find? key entries = order.find? key (layers volumes).flatten)
    (hleft : left ⊆ volumes) (key : Bytes) :
    order.find? key (entries :: layers left).flatten
      = order.find? key (layers volumes).flatten := by
  rw [List.flatten_cons, KeyOrder.find?_append, hanswers]
  cases hfound : order.find? key (layers volumes).flatten with
  | some e => rfl
  | none =>
    -- a key that no volume has is not in those that are left
    rw [Option.none_or, KeyOrder.find?_eq_none]
    intro e he
    obtain ⟨part, hpart, he⟩ := List.mem_flatten.mp he
    obtain ⟨volume, hvolume, rfl⟩ := List.mem_map.mp hpart
    exact KeyOrder.find?_eq_none.mp hfound e
      (List.mem_flatten.mpr ⟨_, List.mem_map_of_mem (hleft hvolume), he⟩)

end Volume

namespace Store.Backed

variable {volumes : List Volume} {store : Store} {disk : Disk}

/-- The numbers of the mapped generations are those of the volumes. -/
theorem generations_eq (h : store.Backed volumes disk) (husable : store.ensureUsable = .ok ()) :
    store.generations = volumes.map Volume.index := by
  rw [generations, h.tables_eq husable, List.map_map]
  rfl

/-- With a volume put in front of those of a store, and any of these gone, it is loaded
    together with those that are left, and so they are mapped by a reload. -/
theorem loaded_of_front {merged : List Entry} {written : Disk} {home : Place} {gone : List Nat}
    (h : store.Backed volumes disk) (husable : store.ensureUsable = .ok ())
    (hfolder : written.HasFolder store.base home)
    (hshelf : Shelf written store.base store.order (⟨Volume.next volumes, merged⟩ :: volumes))
    (hgone : gone ⊆ store.generations) :
    ∃ kept, kept = volumes.filter (fun volume => !decide (volume.index ∈ gone))
      ∧ (ofVolumes store.base store.order (⟨Volume.next volumes, merged⟩ :: kept)).Layered
        (merged :: Volume.layers kept)
      ∧ load (written.withoutGenerations home gone) store.base store.order
        = .ok (ofVolumes store.base store.order (⟨Volume.next volumes, merged⟩ :: kept))
      ∧ reload ({ store with tables := [], stale := true }, written.withoutGenerations home gone)
        = .ok () (ofVolumes store.base store.order (⟨Volume.next volumes, merged⟩ :: kept),
          written.withoutGenerations home gone) := by
  rw [h.generations_eq husable] at hgone
  -- the new volume has a number above all that may be gone
  have hnew : Volume.next volumes ∉ gone := by
    intro hmem
    obtain ⟨volume, hvolume, heq⟩ := List.mem_map.mp (hgone hmem)
    exact Nat.lt_irrefl _ (heq ▸ h.shelf.lt_next volume hvolume)
  have hleft := hshelf.withoutGenerations hfolder fun n hn =>
    List.mem_cons_of_mem (Volume.next volumes) (hgone hn)
  rw [List.filter_cons_of_pos (by simpa using hnew)] at hleft
  have hthere := hfolder.mono (Disk.keepsWays_withoutGenerations written home gone)
  exact ⟨_, rfl, hleft.layered_ofVolumes, hleft.load_eq (.inl hthere.find_eq),
    Action.lift_bind (hleft.loadTables_eq hthere)⟩

variable [Std.TransCmp store.order.compare]

/-- There is room for what all generations are merged into. -/
theorem merged_le (h : store.Backed volumes disk) (husable : store.ensureUsable = .ok ())
    {merged : List Entry} (hascending : store.order.Ascending (keysOf merged))
    (hmem : ∀ e, e ∈ merged ↔
      store.order.find? e.key (Volume.layers volumes).flatten = some e) :
    (Generation.records merged).length ≤ totalBytes Table.values store.tables
      ∧ 8 * merged.length ≤ totalBytes Table.offsets store.tables := by
  have hsome : merged.Subperm (Volume.layers volumes).flatten :=
    List.subperm_of_subset (nodup_of_ascending hascending)
      fun e he => KeyOrder.mem_of_find? ((hmem e).mp he)
  rw [h.tables_eq husable, totalBytes_values, totalBytes_offsets]
  exact ⟨Generation.records_le_of_subperm hsome, Nat.mul_le_mul_left 8 hsome.length_le⟩

/-- The store that is loaded from a folder with a volume in front that answers as all behind
    it, some of which are gone, reads as a store of those, while there are no more generations
    than priorities. -/
theorem reads_of_merged {merged : List Entry} {written : Disk} {home : Place} {gone : List Nat}
    (h : store.Backed volumes disk) (husable : store.ensureUsable = .ok ())
    (hfolder : written.HasFolder store.base home)
    (hshelf : Shelf written store.base store.order (⟨Volume.next volumes, merged⟩ :: volumes))
    (hfind : ∀ key, store.order.find? key merged
      = store.order.find? key (Volume.layers volumes).flatten)
    (hgone : gone ⊆ store.generations) :
    ∃ left, load (written.withoutGenerations home gone) store.base store.order = .ok left
      ∧ reload ({ store with tables := [], stale := true }, written.withoutGenerations home gone)
        = .ok () (left, written.withoutGenerations home gone)
      ∧ (∀ key, left.get? key = store.get? key)
      ∧ (store.generations.length < Word.halfLimit → left.generations.length < Word.halfLimit →
        ∀ bounds, left.scan bounds = store.scan bounds) := by
  obtain ⟨kept, hkept, hlayered, hload, hreload⟩ :=
    h.loaded_of_front husable hfolder hshelf hgone
  have hsubset : kept ⊆ volumes := fun _ hvolume => (List.mem_filter.mp (hkept ▸ hvolume)).1
  obtain ⟨hget, hscan⟩ := (h.shelf.layered (h.tables_eq husable)).reads_congr hlayered rfl husable
    rfl (Volume.find?_front hfind hsubset)
  refine ⟨_, hload, hreload, hget, fun hcount hleft => hscan ?_ ?_⟩
  · rwa [generations, List.length_map] at hcount
  · rwa [generations, List.length_map] at hleft

end Store.Backed

namespace Store

/-- **A compaction keeps what a store answers.** A usable store whose generations were all written
    from ascending entries, and in whose folder there is nothing else under their names, is
    compacted into the merge of all of them where neither a folder nor a link has the name of one
    of the new files; and then the superseded generations are gone. Whichever of these are still
    there when the folder is loaded instead, the store that is loaded reads as before, unless
    it has more generations than there are priorities. -/
theorem compact_keeps_reads {store : Store} {disk : Disk} {volumes : List Volume}
    [Std.TransCmp store.order.compare]
    (hbacked : store.Backed volumes disk) (husable : store.ensureUsable = .ok ())
    (hready : Generation.Ready store.base (Volume.next volumes) disk)
    (hnext : Volume.next volumes < Word.limit)
    (hsize : totalBytes Table.values store.tables < Word.signedLimit)
    (hcount : store.generations.length < Word.halfLimit) :
    ∃ items info written after home, store.scan .all = .ok items
      ∧ writeMerged items 0 0 (store, disk) = .ok info (store, written)
      ∧ written.HasFolder store.base home
      ∧ compact items 0 0 (store, disk)
        = .ok info ({ store with tables := [], stale := true }, after)
      ∧ Disk.SameNodes (written.withoutGenerations home store.generations) after
      ∧ ∀ gone, gone ⊆ store.generations →
        ∃ left, load (written.withoutGenerations home gone) store.base store.order = .ok left
          ∧ reload ({ store with tables := [], stale := true },
              written.withoutGenerations home gone)
            = .ok () (left, written.withoutGenerations home gone)
          ∧ (∀ key, left.get? key = store.get? key)
          ∧ (left.generations.length < Word.halfLimit →
            ∀ bounds, left.scan bounds = store.scan bounds) := by
  have htables := hbacked.tables_eq husable
  obtain ⟨merged, hscan, hascending, hmem, hfind⟩ :=
    (hbacked.shelf.layered htables).scan_all husable
      (by rwa [generations, List.length_map] at hcount)
  -- the merge takes each entry from some generation, so it fits where all of them do
  obtain ⟨hvalues, hoffsets⟩ := hbacked.merged_le husable hascending hmem
  have hslots : totalBytes Table.offsets store.tables < Word.signedLimit := by
    rw [htables] at hsize ⊢
    exact Nat.lt_of_le_of_lt (totalBytes_offsets_le volumes) hsize
  have hvaluesSum : 16 * 0 + 0 + totalBytes Table.values store.tables
      = totalBytes Table.values store.tables := by omega
  have hoffsetsSum : 8 * 0 + totalBytes Table.offsets store.tables
      = totalBytes Table.offsets store.tables := by omega
  have hcapacity : capacity 0 0 store.tables = _ :=
    capacity_eq (by rw [hvaluesSum]; exact Word.lt_limit hsize)
      (by rw [hoffsetsSum]; exact Word.lt_limit hslots)
  rw [hvaluesSum, hoffsetsSum] at hcapacity
  obtain ⟨info, written, hwrite⟩ :=
    hbacked.writeMerged_ok husable hready hcapacity hsize hslots hvalues hoffsets hnext
  have hdirect := hbacked.shelf.direct hready
  obtain ⟨_, _, hstate, _, _, _, hshelf, _⟩ := hbacked.of_writeMerged_ok hdirect hascending hwrite
  cases hstate
  obtain ⟨after, home, hcompact, hfolder, hnodes⟩ := hbacked.compact_ok hdirect hascending hwrite
  refine ⟨merged.map .ok, info, written, after, home, hscan, hwrite, hfolder, hcompact,
    fun place => ?_, fun gone hgone => ?_⟩
  · -- the sweep deletes exactly the files of the mapped generations
    refine Option.ext fun node => ?_
    rw [hnodes, Disk.node?_withoutGenerations, hbacked.generations_eq husable, List.forall_mem_map]
    refine and_congr_right fun hnode => ⟨fun hleft _ => hleft,
      fun hleft volume hvolume label hlabel heq => ?_⟩
    have hfile :=
      hshelf.isFile_eq hfolder (List.mem_cons_of_mem _ hvolume) hlabel (heq ▸ hnode)
    exact hleft hfile volume hvolume label hlabel heq
  · obtain ⟨left, hload, hreload, hget, hreads⟩ :=
      hbacked.reads_of_merged husable hfolder hshelf hfind hgone
    exact ⟨left, hload, hreload, hget, hreads hcount⟩

/-- Two generations that differ in the case of a letter: with the older one still there, the
    merged one answers with the newer entry under either spelling, and with the tombstone. -/
theorem compact_keeps_reads_caseless :
    ∃ store disk, [Op.flush [.live [0x61] [2], .tombstone [0x62]],
        .flush [.live [0x41] [4]]].forM Op.perform
          (⟨.ofText [] "/", .caseless, [], false, false⟩, Disk.empty) = .ok () (store, disk)
      ∧ ∃ items info written left, store.scan .all = .ok items
        ∧ writeMerged items 0 0 (store, disk) = .ok info (store, written)
        ∧ load (written.withoutGenerations [] [1]) store.base store.order = .ok left
        ∧ left.get? [0x61] = .ok (some (.live [0x41] [4]))
        ∧ left.get? [0x62] = .ok (some (.tombstone [0x62])) := by
  have htried : Action.okWith (fun _ state => decide (state.1.ensureUsable = .ok ()
        ∧ state.1.generations = [1, 0]
        ∧ totalBytes Table.values state.1.tables < Word.signedLimit
        ∧ state.1.get? [0x61] = .ok (some (.live [0x41] [4]))
        ∧ state.1.get? [0x62] = .ok (some (.tombstone [0x62]))))
      ([Op.flush [.live [0x61] [2], .tombstone [0x62]], .flush [.live [0x41] [4]]].forM Op.perform)
      (⟨.ofText [] "/", .caseless, [], false, false⟩, Disk.empty) = true := by decide +kernel
  obtain ⟨_, ⟨store, disk⟩, hrun, hfacts⟩ := Action.of_okWith htried
  obtain ⟨husable, hgenerations, hsize, hletter, htombstone⟩ := of_decide_eq_true hfacts
  have hreached := Reached.of_root (by decide +kernel) hrun
  obtain ⟨volumes, hbacked, hcount, _⟩ := hreached.backed
  have hnext : Volume.next volumes < Word.limit := Nat.lt_of_le_of_lt hcount (by decide)
  have hwritable := hreached.writable ⟨_, _, (Disk.hasFolder_root Disk.empty).leads⟩
  have hbase := hreached.base_eq
  dsimp only at hbase hwritable
  rw [← hbase] at hwritable
  have : Std.TransCmp store.order.compare := hreached.order_eq ▸ inferInstance
  obtain ⟨items, info, written, _, home, hscan, hwrite, hfolder, _, _, hreads⟩ :=
    compact_keeps_reads hbacked husable (hwritable.ready hnext) hnext hsize
      (by rw [hgenerations]; decide)
  obtain ⟨left, hleft, _, hget, _⟩ := hreads [1] (by rw [hgenerations]; decide)
  rw [hbase] at hfolder
  obtain rfl := hfolder.unique (Disk.hasFolder_root written)
  refine ⟨store, disk, hrun, items, info, written, left, hscan, hwrite, hleft, ?_, ?_⟩
  · rw [hget, hletter]
  · rw [hget, htombstone]

/-- A folder with the name of a file of the next generation is passed over when the number is
    picked, and then it is in the way of the compaction. And half a generation that a failed
    flush has left is loaded behind the merged one, with what was never flushed. -/
theorem compact_keeps_reads_fails :
    (∃ store disk items fault after, [Op.flush [.live [0x6B] [0x76]]].forM Op.perform
          (⟨.ofText [] "/", .lexicographic, [], false, false⟩, Disk.empty.put ["values1"] .folder)
            = .ok () (store, disk)
        ∧ store.ensureUsable = .ok () ∧ store.scan .all = .ok items
        ∧ compact items 0 0 (store, disk) = .error fault (store, after))
      ∧ ∃ store disk fault after items info written left,
        [Op.flush [.live [0x6B] [0x76]]].forM Op.perform
          (⟨.ofText [] "/", .lexicographic, [], false, false⟩, Disk.empty) = .ok () (store, disk)
        ∧ flush ⟨false, [.live [0x61] [0x31]], [.live [0x61] [0x31], .tombstone [0x62]]⟩
            (store, disk) = .error fault (store, after)
        ∧ store.ensureUsable = .ok () ∧ store.scan .all = .ok items
        ∧ writeMerged items 0 0 (store, after) = .ok info (store, written)
        ∧ load (written.withoutGenerations [] store.generations) store.base store.order = .ok left
        ∧ store.get? [0x61] = .ok none
        ∧ left.get? [0x61] = .ok (some (.live [0x61] [0x31])) := by
  let items : List Item := [.ok (.live [0x6B] [0x76])]
  constructor
  · have htried : Action.okWith (fun _ state => decide (state.1.ensureUsable = .ok ()
          ∧ state.1.scan .all = .ok items)
          && (compact items 0 0).errorWith (fun _ _ => true) state)
        ([Op.flush [.live [0x6B] [0x76]]].forM Op.perform)
        (⟨.ofText [] "/", .lexicographic, [], false, false⟩, Disk.empty.put ["values1"] .folder)
        = true := by decide +kernel
    obtain ⟨_, ⟨store, disk⟩, hrun, hchecked⟩ := Action.of_okWith htried
    obtain ⟨hfacts, hfails⟩ := Bool.and_eq_true_iff.mp hchecked
    obtain ⟨husable, hscan⟩ := of_decide_eq_true hfacts
    obtain ⟨fault, state, hfailed, _⟩ := Action.of_errorWith hfails
    obtain ⟨after, rfl, _⟩ := of_compact_error hfailed
    exact ⟨store, disk, items, fault, after, hrun, husable, hscan, hfailed⟩
  · let source : Source :=
      ⟨false, [.live [0x61] [0x31]], [.live [0x61] [0x31], .tombstone [0x62]]⟩
    have htried : Action.okWith (fun _ state => decide (state.1.ensureUsable = .ok ()
          ∧ state.1.scan .all = .ok items ∧ state.1.get? [0x61] = .ok none)
          && (flush source).errorWith (fun _ failed => (writeMerged items 0 0).okWith
            (fun _ both => (load (both.2.withoutGenerations [] both.1.generations) both.1.base
              both.1.order).toOption.any fun left =>
                decide (left.get? [0x61] = .ok (some (.live [0x61] [0x31])))) failed) state)
        ([Op.flush [.live [0x6B] [0x76]]].forM Op.perform)
        (⟨.ofText [] "/", .lexicographic, [], false, false⟩, Disk.empty) = true := by decide +kernel
    obtain ⟨_, ⟨store, disk⟩, hrun, hchecked⟩ := Action.of_okWith htried
    obtain ⟨hfacts, hfails⟩ := Bool.and_eq_true_iff.mp hchecked
    obtain ⟨husable, hscan, hget⟩ := of_decide_eq_true hfacts
    obtain ⟨fault, _, hfailed, hwrites⟩ := Action.of_errorWith hfails
    obtain ⟨after, rfl, _⟩ := of_flush_error hfailed
    obtain ⟨info, _, hwrite, hloads⟩ := Action.of_okWith hwrites
    obtain ⟨_, _, written, _, _, rfl⟩ := of_writeMerged_ok hwrite
    dsimp only at hloads
    cases hload : load (written.withoutGenerations [] store.generations) store.base store.order with
    | error missed =>
      rw [hload] at hloads
      cases hloads
    | ok left =>
      rw [hload] at hloads
      exact ⟨store, disk, fault, after, items, info, written, left, hrun, hfailed, husable, hscan,
        hwrite, hload, hget, of_decide_eq_true hloads⟩

end Store

end LayeredStore
