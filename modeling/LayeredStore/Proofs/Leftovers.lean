import LayeredStore.Proofs.Compaction
import LayeredStore.Proofs.Safekeeping
import Mathlib.Data.List.Infix

namespace LayeredStore

/-!
# Superseded generations that are left over

A compaction of an engine leaves the tombstones out, since nothing older is to be left that
they would have to hide. But the deletion of superseded generations may fail, and an engine
that starts on the folder then maps whatever is left of them. A key that had a value reads as
before, as the merged generation has it. A deleted key reads as those leftovers have it.

* `Engine.leftover` — what the leftovers would read as by themselves;
* `Engine.Layered.of_compact_some` — what a compaction leaves of the folder and the engine;
* `Engine.Alone` — the engines that there can be if nothing else touches their folders;
* `Engine.Ready.backed_of_done`, `Engine.Ready.backed_of_failed`, `Engine.Alone.backed` — each
  change, and so every run of them, keeps the folder in step with the store;
* `Engine.Layered.range_congr` — engines with the same look-ups have the same range reads;
* `Engine.restart_reads` — an engine that is started on the merged generation and leftovers;
* `Engine.reads_with_leftovers` — what is read after a compaction with leftovers, and where
  that is what was read before;
* `Engine.reads_with_leftovers_differ` — a deleted key is back.
-/

/-- The store without some of its generations. -/
def Store.withoutGenerations (store : Store) (gone : List Nat) : Store :=
  { store with tables := store.tables.filter fun table => !decide (table.generation ∈ gone) }

namespace Engine

/-- The engine as it would be without its buffer and without some of its generations. -/
def leftover (engine : Engine) (gone : List Nat) : Engine :=
  { engine with buffer := .empty, store := engine.store.withoutGenerations gone }

variable {here : Place} {config : Config} {engine done other : Engine} {disk after : Disk}
  {change : Change} {volumes : List Volume} {layers olayers : List (List Entry)}

/-! ### Folders in step with their stores -/

/-- A compaction that has written anything has written the live entries that are found under
    their key, under the next number, and that volume is all that the folder and the engine
    then have. -/
theorem Layered.of_compact_some {info : Generation.Info}
    (h : engine.Layered (Volume.layers volumes)) (hbacked : engine.store.Backed volumes disk)
    (hdirect : Generation.Direct engine.store.base disk)
    (hcompact : compact (engine, disk) = .ok (some info) (done, after)) :
    ∃ entries : List Entry, KeyOrder.lexicographic.Ascending (keysOf entries)
      ∧ (∀ e, e ∈ entries ↔ e.isTombstone = false ∧ KeyOrder.lexicographic.find? e.key
        (engine.buffer.entries :: Volume.layers volumes).flatten = some e)
      ∧ info = ⟨Volume.next volumes, entries.length, (Generation.records entries).length,
        (Generation.slots entries).length⟩
      ∧ done = { engine with
          buffer := .empty
          store := .ofVolumes engine.store.base engine.store.order [⟨info.index, entries⟩] }
      ∧ Shelf after engine.store.base engine.store.order [⟨info.index, entries⟩] := by
  rcases of_compact_ok hdirect h.ensureOpen_eq hcompact with ⟨_, _, hnone, _⟩
    | ⟨entries, _, _, _, recorded, _, home, hinfo, hitems, hstore, hrecorded, _, _, hdone⟩
  · cases hnone
  obtain rfl := Option.some.inj hinfo
  -- what the merge of the layers has left ascends
  obtain ⟨merged, hmerged, hascending, hmem⟩ :=
    h.compactionItems_eq (length_lt_of_compactionItems hitems)
  obtain rfl := List.map_injective_iff.mpr (fun _ _ => Except.ok.inj)
    (Except.ok.inj (hmerged.symm.trans hitems))
  have hstoreAscending : engine.store.order.Ascending (keysOf merged) := by
    rwa [h.store_order]
  obtain ⟨_, hindex, hshelf, _⟩ := hbacked.of_compact_ok hdirect hstoreAscending hstore
  rw [← hindex] at hshelf
  exact ⟨merged, hascending, hmem, hindex ▸ hrecorded.info_eq, hdone, hshelf⟩

namespace Ready

/-- An engine that starts on a shelf has mapped it. -/
theorem backed_of_start (hshelf : Shelf disk (folderOf here config) config.order volumes)
    (h : start disk here config = .ok engine) : engine.store.Backed volumes disk := by
  obtain ⟨_, store, hload, rfl⟩ := of_start_ok h
  obtain rfl := hshelf.of_load_ok hload
  exact ⟨hshelf, fun _ => rfl⟩

/-- An engine in front of a shelf has layers. -/
theorem layered (h : Ready here config engine) (horder : config.order = .lexicographic)
    (hopen : engine.ensureOpen = .ok ()) (hbacked : engine.store.Backed volumes disk) :
    engine.Layered (Volume.layers volumes) := by
  have hopened := ensureOpen_iff.mp hopen
  exact ⟨hopened, h.config_eq ▸ horder, h.sound, h.order_eq.trans horder, h.usable hopened,
    hbacked.shelf.layered (hbacked.tables_eq (h.usable hopened))⟩

/-- A flush of the buffer puts a volume in front, unless there is nothing to flush. -/
theorem backed_of_flushBuffer (h : Ready here config engine)
    (horder : config.order = .lexicographic) (hopen : engine.ensureOpen = .ok ())
    (hbacked : engine.store.Backed volumes disk)
    (hdirect : Generation.Direct engine.store.base disk) {info : Option Generation.Info}
    (hflush : flushBuffer (engine, disk) = .ok info (done, after)) :
    ∃ volumes', done.store.Backed volumes' after := by
  rcases of_flushBuffer_ok hdirect hflush with ⟨_, _, rfl, rfl⟩
    | ⟨_, _, recorded, _, _, _, _, hrecorded, rfl⟩
  · exact ⟨volumes, hbacked⟩
  · have hascending : engine.store.order.Ascending (keysOf engine.buffer.entries) := by
      rw [h.order_eq, horder]
      exact h.sound.ascending
    obtain ⟨hindex, hshelf, _⟩ := hrecorded.shelf hbacked.shelf hascending
    refine ⟨_, hshelf, fun _ => ?_⟩
    rw [List.map_cons, ← hbacked.tables_eq (h.usable (ensureOpen_iff.mp hopen)), hindex]

/-- A compaction leaves a single volume, unless there is nothing to compact. -/
theorem backed_of_compact (h : Ready here config engine) (horder : config.order = .lexicographic)
    (hopen : engine.ensureOpen = .ok ()) (hbacked : engine.store.Backed volumes disk)
    (hdirect : Generation.Direct engine.store.base disk)
    {info : Option Generation.Info} (hcompact : compact (engine, disk) = .ok info (done, after)) :
    ∃ volumes', done.store.Backed volumes' after := by
  cases info with
  | none =>
    rcases of_compact_ok hdirect hopen hcompact with ⟨_, _, _, rfl, rfl⟩
      | ⟨_, _, _, _, _, _, _, hinfo, _⟩
    · exact ⟨volumes, hbacked⟩
    · cases hinfo
  | some recorded =>
    obtain ⟨entries, _, _, _, rfl, hshelf⟩ :=
      (h.layered horder hopen hbacked).of_compact_some hbacked hdirect hcompact
    exact ⟨_, hshelf, fun _ => rfl⟩

/-- A change that succeeds leaves a folder that holds what the store has mapped. -/
theorem backed_of_done (h : Ready here config engine) (horder : config.order = .lexicographic)
    (hbacked : engine.store.Backed volumes disk)
    (hdirect : Generation.Direct engine.store.base disk)
    (hdone : change.perform (engine, disk) = .ok () (done, after)) :
    ∃ volumes', done.store.Backed volumes' after := by
  cases hclosed : engine.closed with
  | true =>
    rcases perform_of_closed hclosed with heq | heq <;> rw [heq] at hdone <;> cases hdone
    exact ⟨volumes, hbacked⟩
  | false =>
    have hopen := ensureOpen_iff.mpr hclosed
    by_cases hchange : change = .compact
    · subst hchange
      obtain ⟨info, hcompact⟩ := Action.of_discard_ok hdone
      exact h.backed_of_compact horder hopen hbacked hdirect hcompact
    · rcases of_perform_ok hopen hchange hdone with ⟨rfl, rfl⟩ | ⟨info, flushed, hflush, rfl⟩
      · exact ⟨volumes, hbacked⟩
      · obtain ⟨volumes', hflushed⟩ :=
          (h.buffered change).backed_of_flushBuffer horder hopen hbacked hdirect hflush
        refine ⟨volumes', ?_⟩
        cases change with
        | close =>
          refine ⟨hflushed.shelf, fun husable => ?_⟩
          cases (Store.ensureUsable_iff.mp husable).1
        | _ => exact hflushed

/-- A change that fails, and has begun no file, leaves a folder that holds what the store has
    mapped. -/
theorem backed_of_failed (hbacked : engine.store.Backed volumes disk)
    (hdirect : Generation.Direct engine.store.base disk) {fault : Fault}
    (hfailed : change.perform (engine, disk) = .error fault (done, after))
    (hfiles : ∀ place content, after.node? place = some (.file content) →
      disk.node? place = some (.file content)) : done.store.Backed volumes after := by
  cases hclosed : engine.closed with
  | true =>
    rcases perform_of_closed hclosed with heq | heq <;> rw [heq] at hfailed <;> cases hfailed
    exact hbacked
  | false =>
    obtain ⟨rfl, rfl | ⟨_, _, hreason⟩⟩ :=
      of_perform_error (ensureOpen_iff.mpr hclosed) hdirect hfailed
    · exact hbacked
    · exact ⟨hbacked.shelf.of_notRecorded hreason hdirect hfiles, hbacked.tables_eq⟩

end Ready

/-- The engine was started on a folder of written generations, which may be none, and nothing
    else has touched the folder since then. There was no link with the name of a file that a
    change was to make, and a change that failed has begun no file. -/
inductive Alone (here : Place) (config : Config) : Engine → Disk → Prop
  | start {engine : Engine} {disk : Disk} {volumes : List Volume}
    (hshelf : Shelf disk (folderOf here config) config.order volumes)
    (h : Engine.start disk here config = .ok engine) : Alone here config engine disk
  | done {engine done : Engine} {disk after : Disk} (change : Change)
    (h : Alone here config engine disk) (hdirect : Generation.Direct (folderOf here config) disk)
    (hdone : change.perform (engine, disk) = .ok () (done, after)) : Alone here config done after
  | failed {engine failed : Engine} {disk after : Disk} {fault : Fault} (change : Change)
    (h : Alone here config engine disk) (hdirect : Generation.Direct (folderOf here config) disk)
    (hfailed : change.perform (engine, disk) = .error fault (failed, after))
    (hfiles : ∀ place content, after.node? place = some (.file content) →
      disk.node? place = some (.file content)) : Alone here config failed after

namespace Alone

theorem reachable (h : Alone here config engine disk) : Reachable here config engine disk := by
  induction h with
  | start hshelf h => exact .start h
  | done change h hdirect hdone ih => exact .done change ih hdone
  | failed change h hdirect hfailed hfiles ih => exact .failed change ih hdirect hfailed

/-- The folder holds what the store has mapped. -/
theorem backed (h : Alone here config engine disk) (horder : config.order = .lexicographic) :
    ∃ volumes, engine.store.Backed volumes disk := by
  -- over the changes: each keeps the folder in step, or does not touch its files
  induction h with
  | start hshelf h => exact ⟨_, Ready.backed_of_start hshelf h⟩
  | done change h hdirect hdone ih =>
    obtain ⟨volumes, hbacked⟩ := ih
    have hready := h.reachable.ready
    exact hready.backed_of_done horder hbacked (hready.base_eq ▸ hdirect) hdone
  | failed change h hdirect hfailed hfiles ih =>
    obtain ⟨volumes, hbacked⟩ := ih
    exact ⟨volumes, Ready.backed_of_failed hbacked (h.reachable.ready.base_eq ▸ hdirect) hfailed
      hfiles⟩

/-- Changes that all succeed are changes of an engine that is alone. -/
theorem of_run {changes : List Change} (h : Alone here config engine disk)
    (hdirect : ∀ past, past <+: changes → ∀ state,
      past.forM Change.perform (engine, disk) = .ok () state →
        Generation.Direct (folderOf here config) state.2)
    (hrun : changes.forM Change.perform (engine, disk) = .ok () (done, after)) :
    Alone here config done after := by
  induction changes generalizing engine disk with
  | nil =>
    cases hrun
    exact h
  | cons change changes ih =>
    obtain ⟨_, ⟨next, between⟩, hfirst, hrest⟩ := Action.of_bind_ok hrun
    have hnow : Generation.Direct (folderOf here config) disk :=
      hdirect [] (List.nil_prefix) (engine, disk) rfl
    refine ih (.done change h hnow hfirst) (fun past hpast state hstate => ?_) hrest
    exact hdirect (change :: past) (List.cons_prefix_cons.mpr ⟨rfl, hpast⟩) state
      ((Action.bind_ok hfirst).trans hstate)

end Alone

/-! ### Look-ups and range reads -/

namespace Layered

/-- An engine answers with the value of the newest entry under the key. -/
theorem get?_eq (h : engine.Layered layers) (key : Bytes) :
    engine.get? key = .ok ((KeyOrder.lexicographic.find? key
      (engine.buffer.entries :: layers).flatten).bind Entry.value) := by
  rw [get?, h.find?_eq]
  rfl

/-- A live entry is found under its key if and only if its value is. -/
theorem find?_eq_some_iff {entries : List Entry} {e : Entry} (hlive : e.isTombstone = false) :
    KeyOrder.lexicographic.find? e.key entries = some e
      ↔ (KeyOrder.lexicographic.find? e.key entries).bind Entry.value = e.value := by
  constructor
  · intro hfound
    rw [hfound]
    rfl
  · intro hvalue
    cases hfound : KeyOrder.lexicographic.find? e.key entries with
    | none =>
      rw [hfound] at hvalue
      rw [Entry.isTombstone, ← hvalue] at hlive
      cases hlive
    | some found =>
      rw [hfound] at hvalue
      exact congrArg some
        (congrArg₂ Entry.mk (KeyOrder.key_of_lexicographic_find? hfound) hvalue)

/-- Engines with the same look-ups have the same range reads, if both can be read in ranges. -/
theorem range_congr (h : engine.Layered layers) (hother : other.Layered olayers)
    (hcount : engine.store.tables.length < Word.halfLimit)
    (hfew : other.store.tables.length < Word.halfLimit)
    (hget : ∀ key, other.get? key = engine.get? key) (bounds : Bounds) :
    other.range bounds = engine.range bounds := by
  obtain ⟨entries, hrange, hascending, hmem⟩ := h.range_eq hcount bounds
  obtain ⟨found, hfound, hasc, hfoundMem⟩ := hother.range_eq hfew bounds
  have heq : found = entries := by
    refine KeyOrder.eq_of_ascending hasc hascending fun e => ?_
    rw [hfoundMem, hmem]
    refine and_congr_left fun hlive => and_congr_right fun _ => ?_
    have hvalues := hget e.key
    rw [h.get?_eq, hother.get?_eq, Except.ok.injEq] at hvalues
    rw [find?_eq_some_iff hlive, find?_eq_some_iff hlive, hvalues]
  rw [hrange, hfound, heq]

end Layered

/-! ### Reads after a compaction with leftovers -/

/-- What is left of a store's volumes are layers. -/
theorem leftover_layered (h : engine.Layered (Volume.layers volumes))
    (hbacked : engine.store.Backed volumes disk) (gone : List Nat) :
    (engine.leftover gone).Layered
      (Volume.layers (volumes.filter fun volume => !decide (volume.index ∈ gone))) := by
  have htables : (engine.store.withoutGenerations gone).tables
      = (volumes.filter fun volume => !decide (volume.index ∈ gone)).map
        (Volume.table engine.store.order) := by
    rw [Store.withoutGenerations, hbacked.tables_eq h.usable, List.filter_map]
    rfl
  refine ⟨h.opened, h.order_eq, Buffer.sound_empty, h.store_order, h.usable, ?_⟩
  show List.Forall₂ (Table.IsLayer engine.store.order) _ _
  rw [leftover, htables, Volume.layers, List.forall₂_map_left_iff, List.forall₂_map_right_iff,
    List.forall₂_same]
  exact fun volume hvolume => hbacked.shelf.isLayer (List.mem_filter.mp hvolume).1

/-- Of a key that a compaction has kept the value is read, and of every other key what the
    leftovers have. -/
theorem get?_of_merged {fresh left : Engine} {merged : List Entry} {kept : List Volume}
    (h : engine.Layered layers) (hleft : left.Layered (Volume.layers kept))
    (hbuffered : left.buffer = .empty) (hfresh : fresh.Layered (merged :: Volume.layers kept))
    (hempty : fresh.buffer = .empty)
    (hascending : KeyOrder.lexicographic.Ascending (keysOf merged))
    (hmem : ∀ e, e ∈ merged ↔ e.isTombstone = false
      ∧ KeyOrder.lexicographic.find? e.key (engine.buffer.entries :: layers).flatten = some e)
    (key : Bytes) : ∃ value, engine.get? key = .ok value
      ∧ fresh.get? key = value.elim (left.get? key) fun found => .ok (some found) := by
  have hchosen : ∀ e, e ∈ merged ↔ (!e.isTombstone) = true ∧ KeyOrder.lexicographic.find? e.key
      (engine.buffer.entries :: layers).flatten = some e := by
    intro e
    rw [hmem, Bool.not_eq_true']
  refine ⟨_, h.get?_eq key, ?_⟩
  rw [hfresh.get?_eq, hleft.get?_eq, hempty, hbuffered]
  show Except.ok ((KeyOrder.lexicographic.find? key
      ([] ++ (merged ++ (Volume.layers kept).flatten))).bind Entry.value) = _
  rw [List.nil_append, KeyOrder.find?_append, Store.find?_chosen hascending hchosen key]
  cases hfound : KeyOrder.lexicographic.find? key (engine.buffer.entries :: layers).flatten with
  | none => rfl
  | some e =>
    obtain ⟨name, value⟩ := e
    cases value <;> rfl

/-- Without any of the generations that were mapped nothing is found. -/
theorem leftover_of_all {gone : List Nat} (h : engine.Layered layers)
    (hall : engine.store.generations ⊆ gone) (key : Bytes) :
    (engine.leftover gone).get? key = .ok none := by
  have htables : (engine.store.withoutGenerations gone).tables = [] := by
    refine List.filter_eq_nil_iff.mpr fun table htable => ?_
    have hgone : table.generation ∈ gone := hall (List.mem_map_of_mem htable)
    simp [hgone]
  have hlayered : (engine.leftover gone).Layered [] := by
    refine ⟨h.opened, h.order_eq, Buffer.sound_empty, h.store_order, h.usable, ?_⟩
    show List.Forall₂ _ (engine.store.withoutGenerations gone).tables []
    rw [htables]
    exact .nil
  rw [hlayered.get?_eq]
  rfl

/-- An engine that is started on what a compaction has left, its generation and any of those
    that it supersedes, reads a key that had a value as before, and every other key as the
    leftovers have it. -/
theorem restart_reads (halone : Alone here config engine disk)
    (hdirect : Generation.Direct (folderOf here config) disk)
    (hopen : engine.ensureOpen = .ok ()) (horder : config.order = .lexicographic)
    {items : List Item} {info : Generation.Info} {written : Disk}
    (hitems : engine.compactionItems = .ok items)
    (hwrite : Store.writeMerged items engine.buffer.count engine.buffer.size (engine.store, disk)
      = .ok info (engine.store, written))
    {gone : List Nat} (hgone : gone ⊆ engine.store.generations) :
    ∃ home fresh layers freshLayers, engine.Layered layers ∧ fresh.Layered freshLayers
      ∧ written.HasFolder engine.store.base home
      ∧ start (written.withoutGenerations home gone) here config = .ok fresh
      ∧ Store.reload ({ engine.store with tables := [], stale := true },
          written.withoutGenerations home gone)
        = .ok () (fresh.store, written.withoutGenerations home gone)
      ∧ fresh.store.generations
        = info.index :: engine.store.generations.filter (fun n => !decide (n ∈ gone))
      ∧ ∀ key, ∃ value, engine.get? key = .ok value ∧ fresh.get? key
        = value.elim ((engine.leftover gone).get? key) fun found => .ok (some found) := by
  have hready := halone.reachable.ready
  obtain ⟨volumes, hbacked⟩ := halone.backed horder
  have hlayered := hready.layered horder hopen hbacked
  obtain ⟨merged, hmerged, hascending, hmem⟩ :=
    hlayered.compactionItems_eq (length_lt_of_compactionItems hitems)
  cases hmerged.symm.trans hitems
  have hstoreAscending : engine.store.order.Ascending (keysOf merged) := by
    rwa [hready.order_eq, horder]
  obtain ⟨_, home, hstate, _, hindex, hfolder, hshelf, _⟩ :=
    hbacked.of_writeMerged_ok (hready.base_eq.symm ▸ hdirect) hstoreAscending hwrite
  cases hstate
  obtain ⟨kept, rfl, hfront, hload, hreload⟩ :=
    hbacked.loaded_of_front hlayered.usable hfolder hshelf hgone
  have hmapped : Store.load (written.withoutGenerations home gone)
      (folderOf here config) config.order = .ok (.ofVolumes engine.store.base engine.store.order
        (⟨Volume.next volumes, merged⟩
          :: volumes.filter fun volume => !decide (volume.index ∈ gone))) := by
    rw [← hready.base_eq, ← hready.order_eq]
    exact hload
  have hfresh : Layered
      ⟨config, .empty, .ofVolumes engine.store.base engine.store.order _, false⟩ _ :=
    ⟨rfl, horder, Buffer.sound_empty, hready.order_eq.trans horder, rfl, hfront⟩
  refine ⟨home, _, _, _, hlayered, hfresh, hfolder, start_of_load hready.path_ne hmapped, hreload,
    ?_, get?_of_merged hlayered (leftover_layered hlayered hbacked gone) rfl hfresh rfl hascending
      hmem⟩
  rw [hindex, hbacked.generations_eq hlayered.usable, List.filter_map]
  show List.map Table.generation (List.map _ _) = _
  rw [List.map_map]
  rfl

/-- A key is written, flushed and deleted again, and a compaction writes its generation. The
    older one by itself still has the key. -/
theorem exists_deleted_run :
    ∃ engine disk items info written, Alone [] ⟨"/", .lexicographic, 0⟩ engine disk
      ∧ Generation.Direct (folderOf [] ⟨"/", .lexicographic, 0⟩) disk
      ∧ engine.store.base = .ofText [] "/"
      ∧ engine.ensureOpen = .ok () ∧ engine.compactionItems = .ok items
      ∧ Store.writeMerged items engine.buffer.count engine.buffer.size (engine.store, disk)
        = .ok info (engine.store, written)
      ∧ engine.store.generations = [0] ∧ engine.get? [0x61] = .ok none
      ∧ (engine.leftover []).get? [0x61] = .ok (some [0x01]) := by
  let config : Config := ⟨"/", .lexicographic, 0⟩
  let changes : List Change := [.put [0x61] [0x01], .flush, .delete [0x61]]
  let first : Engine :=
    ⟨config, .empty, ⟨.ofText [] "/", .lexicographic, [], false, false⟩, false⟩
  have htried : (changes.forM Change.perform).okWith
      (fun _ state => decide (state.1.ensureOpen = .ok () ∧ state.1.store.generations = [0]
          ∧ state.1.get? [0x61] = .ok none
          ∧ (state.1.leftover []).get? [0x61] = .ok (some [0x01]))
        && (Action.lift state.1.compactionItems >>= fun items =>
          Store.writeMerged items state.1.buffer.count state.1.buffer.size).okWith
          (fun _ _ => true) (state.1.store, state.2)) (first, Disk.empty) = true := by
    decide +kernel
  have hlinks : ∀ past ∈ changes.inits, (past.forM Change.perform).okWith
      (fun _ state => !Generation.hasLink state.2) (first, Disk.empty) = true := by decide +kernel
  have hdirect : ∀ past, past <+: changes → ∀ state,
      past.forM Change.perform (first, Disk.empty) = .ok () state →
        Generation.Direct (folderOf [] config) state.2 := by
    intro past hpast state hstate
    obtain ⟨_, _, hrun, hnone⟩ := Action.of_okWith (hlinks past ((List.mem_inits _ _).mpr hpast))
    cases hstate.symm.trans hrun
    exact Generation.direct_of_hasLink (by decide) (by simpa using hnone)
  obtain ⟨_, ⟨engine, disk⟩, hrun, hchecked⟩ := Action.of_okWith htried
  obtain ⟨hfacts, hwrites⟩ := Bool.and_eq_true_iff.mp hchecked
  obtain ⟨hopen, hgenerations, hnone, hleft⟩ := of_decide_eq_true hfacts
  obtain ⟨info, _, hwrite, _⟩ := Action.of_okWith hwrites
  obtain ⟨items, hitems, hwrite⟩ := Action.of_lift_bind_ok hwrite
  obtain ⟨_, _, written, _, _, rfl⟩ := Store.of_writeMerged_ok hwrite
  have hroot := Disk.hasFolder_root Disk.empty
  have hvacant : Generation.Vacant (folderOf [] config) Disk.empty :=
    Generation.vacant_empty hroot.leads.made_eq hroot rfl
  have halone : Alone [] config engine disk :=
    (Alone.start (Shelf.of_vacant hvacant _) (start_root .lexicographic 0)).of_run hdirect hrun
  exact ⟨engine, disk, items, info, written, halone, hdirect changes List.prefix_rfl _ hrun,
    halone.reachable.ready.base_eq, hopen, hitems, hwrite, hgenerations, hnone, hleft⟩

/-- However an engine in lexicographic order was reached, a compaction writes its generation,
    where no link is in the way, and of the superseded ones any are deleted. An engine that is
    started on what is left has mapped the new generation and those that are left. It reads a
    key that had a value as before, and every other key as the leftovers have it by themselves.
    So all look-ups are as before if and only if the leftovers have no value for a key that had
    none, and this is so where nothing is left over. With the same look-ups ranges are read as
    before too, unless there are more generations now than there are priorities. -/
theorem reads_with_leftovers (halone : Alone here config engine disk)
    (hdirect : Generation.Direct (folderOf here config) disk)
    (hopen : engine.ensureOpen = .ok ()) (horder : config.order = .lexicographic)
    {items : List Item} {info : Generation.Info} {written : Disk}
    (hitems : engine.compactionItems = .ok items)
    (hwrite : Store.writeMerged items engine.buffer.count engine.buffer.size (engine.store, disk)
      = .ok info (engine.store, written))
    {gone : List Nat} (hgone : gone ⊆ engine.store.generations) :
    ∃ home fresh, written.HasFolder engine.store.base home
      ∧ start (written.withoutGenerations home gone) here config = .ok fresh
      ∧ Store.reload ({ engine.store with tables := [], stale := true },
          written.withoutGenerations home gone)
        = .ok () (fresh.store, written.withoutGenerations home gone)
      ∧ fresh.store.generations
        = info.index :: engine.store.generations.filter (fun n => !decide (n ∈ gone))
      ∧ (∀ key, ∃ value, engine.get? key = .ok value ∧ fresh.get? key
        = value.elim ((engine.leftover gone).get? key) fun found => .ok (some found))
      ∧ ((∀ key, fresh.get? key = engine.get? key)
        ↔ ∀ key, engine.get? key = .ok none → (engine.leftover gone).get? key = .ok none)
      ∧ ((∀ key, fresh.get? key = engine.get? key) →
        fresh.store.generations.length < Word.halfLimit →
          ∀ bounds, fresh.range bounds = engine.range bounds)
      ∧ (engine.store.generations ⊆ gone → (∀ key, fresh.get? key = engine.get? key)
        ∧ ∀ bounds, fresh.range bounds = engine.range bounds) := by
  obtain ⟨home, fresh, layers, freshLayers, hlayered, hfresh, hfolder, hstart, hreload,
    hgenerations, hreads⟩ := restart_reads halone hdirect hopen horder hitems hwrite hgone
  have hiff : (∀ key, fresh.get? key = engine.get? key)
      ↔ ∀ key, engine.get? key = .ok none → (engine.leftover gone).get? key = .ok none := by
    constructor
    · intro hget key hnone
      obtain ⟨value, hvalue, hread⟩ := hreads key
      rw [hnone] at hvalue
      cases hvalue
      rw [← hnone, ← hget, hread]
      rfl
    · intro hhidden key
      obtain ⟨value, hvalue, hread⟩ := hreads key
      rw [hread, hvalue]
      cases value with
      | none => exact hhidden key hvalue
      | some found => rfl
  have hranges : (∀ key, fresh.get? key = engine.get? key) →
      fresh.store.generations.length < Word.halfLimit →
        ∀ bounds, fresh.range bounds = engine.range bounds := by
    intro hget hcount
    rw [Store.generations, List.length_map] at hcount
    exact hlayered.range_congr hfresh (length_lt_of_compactionItems hitems) hcount hget
  refine ⟨home, fresh, hfolder, hstart, hreload, hgenerations, hreads, hiff, hranges,
    fun hall => ?_⟩
  have hget := hiff.mpr fun key _ => leftover_of_all hlayered hall key
  refine ⟨hget, hranges hget ?_⟩
  -- only the new generation is mapped
  have hnone : engine.store.generations.filter (fun n => !decide (n ∈ gone)) = [] := by
    refine List.filter_eq_nil_iff.mpr fun n hn => ?_
    simp [hall hn]
  rw [hgenerations, hnone, List.length_singleton]
  decide

/-- With nothing left over of the generation that a compaction supersedes, a key that was
    deleted stays so. -/
theorem reads_with_leftovers_none :
    ∃ engine disk items info written fresh, Alone [] ⟨"/", .lexicographic, 0⟩ engine disk
      ∧ engine.store.generations = [0] ∧ engine.compactionItems = .ok items
      ∧ Store.writeMerged items engine.buffer.count engine.buffer.size (engine.store, disk)
        = .ok info (engine.store, written)
      ∧ start (written.withoutGenerations [] [0]) [] ⟨"/", .lexicographic, 0⟩ = .ok fresh
      ∧ engine.get? [0x61] = .ok none ∧ fresh.get? [0x61] = .ok none := by
  obtain ⟨engine, disk, items, info, written, halone, hdirect, hbase, hopen, hitems, hwrite,
    hgenerations, hnone, _⟩ := exists_deleted_run
  have hgone : [0] ⊆ engine.store.generations := by
    rw [hgenerations]
    exact List.Subset.refl _
  obtain ⟨home, fresh, hfolder, hfresh, -, -, -, -, -, hall⟩ :=
    reads_with_leftovers halone hdirect hopen rfl hitems hwrite hgone
  obtain rfl := (hbase ▸ hfolder).unique (Disk.hasFolder_root written)
  obtain ⟨hget, _⟩ := hall (by rw [hgenerations]; exact List.Subset.refl _)
  exact ⟨engine, disk, items, info, written, fresh, halone, hgenerations, hitems, hwrite, hfresh,
    hnone, (hget [0x61]).trans hnone⟩

/-- With the older generation left over, the key has its value again. -/
theorem reads_with_leftovers_differ :
    ∃ engine disk items info written fresh, Alone [] ⟨"/", .lexicographic, 0⟩ engine disk
      ∧ engine.ensureOpen = .ok () ∧ engine.compactionItems = .ok items
      ∧ Store.writeMerged items engine.buffer.count engine.buffer.size (engine.store, disk)
        = .ok info (engine.store, written)
      ∧ start (written.withoutGenerations [] []) [] ⟨"/", .lexicographic, 0⟩ = .ok fresh
      ∧ engine.get? [0x61] = .ok none ∧ fresh.get? [0x61] = .ok (some [0x01]) := by
  obtain ⟨engine, disk, items, info, written, halone, hdirect, hbase, hopen, hitems, hwrite, _,
    hnone, hleft⟩ := exists_deleted_run
  obtain ⟨home, fresh, _, _, _, _, hfolder, hfresh, _, _, hreads⟩ :=
    restart_reads halone hdirect hopen rfl hitems hwrite (List.nil_subset _)
  obtain rfl := (hbase ▸ hfolder).unique (Disk.hasFolder_root written)
  obtain ⟨value, hvalue, hread⟩ := hreads [0x61]
  cases hnone.symm.trans hvalue
  exact ⟨engine, disk, items, info, written, fresh, halone, hopen, hitems, hwrite, hfresh, hnone,
    hread.trans hleft⟩

end Engine

end LayeredStore
