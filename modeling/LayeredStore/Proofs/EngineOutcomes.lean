import LayeredStore.Proofs.Outcomes
import LayeredStore.Proofs.Reading
import LayeredStore.Proofs.Yielding

namespace LayeredStore.Engine

/-!
# How the changes of an engine end

Every change of an engine is told by how the change of the store within it has ended. The
store's folder may hold anything, and the buffer any entries. Where a link has the name of a
file that is to be made, less can be told.

* `flushBuffer_eq`, `write_eq`, `flush_eq`, `compact_eq`, `close_eq` — a change of an open
  engine behind its first checks;
* `flushBuffer_of_store`, `write_of_over`, `compact_of_store`, `close_of_flush` and their
  like — how a change runs when the store answers;
* `of_flushBuffer_done`, `of_flushBuffer_failed`, `of_compact_done`, `of_compact_failed` — how a
  flush of the buffer and a compaction have gone;
* `of_flushBuffer_ok`, `of_flushBuffer_error`, `of_compact_ok`, `of_compact_error` — with no link
  in the way: then a compaction fails only before the store lets go of its tables;
* `of_write_ok`, `of_write_error`, `of_close_ok`, `of_close_error` — changes that flush the buffer.
-/

/-- The folder that the settings name. -/
def folderOf (here : Place) (config : Config) : Path := .ofText here config.basePath

variable {engine done : Engine} {disk between after : Disk} {store : Store} {new : Entry}
  {fault : Fault} {info : Option Generation.Info} {state : Engine × Disk} {items : List Item}

/-! ### Changes behind their first checks -/

/-- An engine that is closed refuses to be used. -/
theorem refuse_of_closed (hclosed : engine.closed = true) (disk : Disk) :
    (Action.lift engine.ensureOpen : Action (Engine × Disk) Unit) (engine, disk)
      = .error .closed (engine, disk) := by
  rw [ensureOpen, if_pos hclosed]
  rfl

theorem write_of_closed (hclosed : engine.closed = true) (new : Entry) (disk : Disk) :
    write new (engine, disk) = .error .closed (engine, disk) :=
  (Action.bind_ok rfl).trans (Action.bind_error (refuse_of_closed hclosed disk))

theorem compact_of_closed (hclosed : engine.closed = true) (disk : Disk) :
    compact (engine, disk) = .error .closed (engine, disk) :=
  (Action.bind_ok rfl).trans (Action.bind_error (refuse_of_closed hclosed disk))

theorem flushBuffer_of_empty (h : engine.buffer.isEmpty = true) (disk : Disk) :
    flushBuffer (engine, disk) = .ok none (engine, disk) := by
  rw [flushBuffer]
  show (ite (engine.buffer.isEmpty = true) _ _ : Action (Engine × Disk) _) _ = _
  rw [h]
  rfl

theorem flushBuffer_eq (h : engine.buffer.isEmpty = false) (disk : Disk) :
    flushBuffer (engine, disk) = (onStore (Store.flush (.ofBuffer engine.buffer)) >>= fun info =>
      update (fun engine => { engine with buffer := .empty }) >>= fun _ => pure info)
        (engine, disk) := by
  rw [flushBuffer]
  show (ite (engine.buffer.isEmpty = true) _ _ : Action (Engine × Disk) _) _ = _
  rw [h]
  rfl

/-- A write goes to the buffer. -/
theorem write_of_not_over (hopen : engine.ensureOpen = .ok ())
    (hover : (engine.buffer.insert new).isOver engine.config.flushThreshold = false) :
    write new (engine, disk)
      = .ok () ({ engine with buffer := engine.buffer.insert new }, disk) := by
  refine (Action.lift_bind hopen).trans ?_
  show (ite ((engine.buffer.insert new).isOver engine.config.flushThreshold = true) _ _
    : Action (Engine × Disk) Unit) _ = _
  rw [hover]
  rfl

/-- A buffer that a write has made too large is flushed. -/
theorem write_eq (hopen : engine.ensureOpen = .ok ())
    (hover : (engine.buffer.insert new).isOver engine.config.flushThreshold = true) :
    write new (engine, disk) = (discard flushBuffer : Action (Engine × Disk) Unit)
      ({ engine with buffer := engine.buffer.insert new }, disk) := by
  refine (Action.lift_bind hopen).trans ?_
  show (ite ((engine.buffer.insert new).isOver engine.config.flushThreshold = true) _ _
    : Action (Engine × Disk) Unit) _ = _
  rw [hover]
  rfl

theorem flush_eq (hopen : engine.ensureOpen = .ok ()) :
    flush (engine, disk) = flushBuffer (engine, disk) :=
  Action.lift_bind hopen

/-- A compaction of nothing does nothing. -/
theorem compact_of_empty (hopen : engine.ensureOpen = .ok ())
    (h : (engine.store.tables.isEmpty && engine.buffer.isEmpty) = true) :
    compact (engine, disk) = .ok none (engine, disk) := by
  refine (Action.lift_bind hopen).trans ?_
  show (ite ((engine.store.tables.isEmpty && engine.buffer.isEmpty) = true) _ _
    : Action (Engine × Disk) _) _ = _
  rw [h]
  rfl

theorem compact_eq (hopen : engine.ensureOpen = .ok ())
    (h : (engine.store.tables.isEmpty && engine.buffer.isEmpty) = false) :
    compact (engine, disk) = (Action.lift engine.compactionItems >>= fun items =>
      onStore (Store.compact items engine.buffer.count engine.buffer.size) >>= fun info =>
      onStore Store.reload >>= fun _ =>
      update (fun engine => { engine with buffer := .empty }) >>= fun _ => pure (some info))
        (engine, disk) := by
  refine (Action.lift_bind hopen).trans ?_
  show (ite ((engine.store.tables.isEmpty && engine.buffer.isEmpty) = true) _ _
    : Action (Engine × Disk) _) _ = _
  rw [h]
  rfl

theorem close_eq (hopen : engine.closed = false) :
    close (engine, disk) = ((discard flushBuffer : Action (Engine × Disk) Unit) >>= fun _ =>
      update fun engine => { engine with store := engine.store.close, closed := true })
        (engine, disk) := by
  rw [close]
  show (ite (engine.closed = true) _ _ : Action (Engine × Disk) Unit) _ = _
  rw [hopen]
  rfl

/-! ### How changes run -/

theorem onStore_ok {α : Type} {action : Action (Store × Disk) α} {answer : α}
    (h : action (engine.store, disk) = .ok answer (store, after)) :
    onStore action (engine, disk) = .ok answer ({ engine with store }, after) := by
  simp only [onStore, Action.within, h]

theorem flushBuffer_of_store (h : engine.buffer.isEmpty = false)
    (hflush : Store.flush (.ofBuffer engine.buffer) (engine.store, disk)
      = .ok info (store, after)) :
    flushBuffer (engine, disk) = .ok info ({ engine with buffer := .empty, store }, after) := by
  rw [flushBuffer_eq h, Action.bind_ok (onStore_ok hflush)]
  rfl

theorem write_of_over (hopen : engine.ensureOpen = .ok ())
    (hover : (engine.buffer.insert new).isOver engine.config.flushThreshold = true)
    (hflush : flushBuffer ({ engine with buffer := engine.buffer.insert new }, disk)
      = .ok info state) : write new (engine, disk) = .ok () state := by
  rw [write_eq hopen hover]
  exact Action.discard_ok hflush

/-- A compaction goes through the store, which is reloaded, and empties the buffer. -/
theorem compact_of_store (hopen : engine.ensureOpen = .ok ())
    (h : (engine.store.tables.isEmpty && engine.buffer.isEmpty) = false)
    (hitems : engine.compactionItems = .ok items) {stale : Store} {info : Generation.Info}
    (hcompact : Store.compact items engine.buffer.count engine.buffer.size (engine.store, disk)
      = .ok info (stale, between))
    (hreload : Store.reload (stale, between) = .ok () (store, after)) :
    compact (engine, disk) = .ok (some info) ({ engine with buffer := .empty, store }, after) := by
  have hmapped : onStore Store.reload ({ engine with store := stale }, between)
      = .ok () ({ engine with store }, after) := onStore_ok hreload
  rw [compact_eq hopen h, Action.lift_bind hitems, Action.bind_ok (onStore_ok hcompact),
    Action.bind_ok hmapped]
  rfl

/-- Closing flushes the buffer and lets go of the store. -/
theorem close_of_flush (hopen : engine.closed = false) {flushed : Engine}
    (hflush : flushBuffer (engine, disk) = .ok info (flushed, after)) :
    close (engine, disk)
      = .ok () ({ flushed with store := flushed.store.close, closed := true }, after) := by
  rw [close_eq hopen, Action.bind_ok (Action.discard_ok hflush)]
  rfl

theorem start_of_load {here : Place} {config : Config} (hpath : config.basePath ≠ "")
    (hload : Store.load disk (.ofText here config.basePath) config.order = .ok store) :
    start disk here config = .ok ⟨config, .empty, store, false⟩ := by
  rw [start, if_neg hpath, hload]
  rfl

theorem of_start_ok {here : Place} {config : Config} (h : start disk here config = .ok engine) :
    config.basePath ≠ "" ∧ ∃ store,
      Store.load disk (folderOf here config) config.order = .ok store
        ∧ engine = ⟨config, .empty, store, false⟩ := by
  by_cases hpath : config.basePath = ""
  · rw [start, if_pos hpath] at h
    cases h
  · refine ⟨hpath, ?_⟩
    rw [start, if_neg hpath] at h
    obtain ⟨store, hload, hengine⟩ := Answer.bind_eq_ok_iff.mp h
    exact ⟨store, hload, (Except.ok.inj hengine).symm⟩

/-! ### How changes have gone -/

/-- The reason why a buffer was not written, and the disk that this left. -/
def Unflushed (engine : Engine) (disk : Disk) (fault : Fault) (after : Disk) : Prop :=
  Store.NotRecorded engine.store (engine.buffer.entries.map .ok)
    (Footprint.measure engine.buffer.entries) disk fault after

/-- A flush of the buffer that succeeds has nothing to do, or records all of its entries as a
    generation, maps what it finds there in front of the others and empties the buffer. -/
theorem of_flushBuffer_done (h : flushBuffer (engine, disk) = .ok info (done, after)) :
    (engine.buffer.isEmpty = true ∧ info = none ∧ done = engine ∧ after = disk)
      ∨ ∃ size made recorded table, engine.buffer.isEmpty = false ∧ info = some recorded
        ∧ Footprint.measure engine.buffer.entries = .ok size
        ∧ Store.Recorded engine.store (engine.buffer.entries.map .ok) size disk made recorded after
        ∧ Store.openTable after engine.store.base engine.store.order recorded.index = .ok table
        ∧ done = { engine with
            buffer := .empty
            store.tables := table :: engine.store.tables } := by
  cases hempty : engine.buffer.isEmpty with
  | true =>
    rw [flushBuffer_of_empty hempty] at h
    cases h
    exact .inl ⟨rfl, rfl, rfl, rfl⟩
  | false =>
    rw [flushBuffer_eq hempty] at h
    obtain ⟨_, _, hflush, h⟩ := Action.of_within_bind_ok h
    cases h
    obtain ⟨_, ⟨hnone, _⟩ | ⟨size, made, recorded, _, table, _, hinfo, hmeasure, hrecorded, htable,
      hstate⟩⟩ := Store.of_flush_ok hflush
    · exact absurd (hnone.symm.trans hempty) (by decide)
    · cases hstate
      exact .inr ⟨size, made, recorded, table, rfl, hinfo, hmeasure, hrecorded, htable, rfl⟩

/-- With no link in the way what it maps are the entries. -/
theorem of_flushBuffer_ok (hdirect : Generation.Direct engine.store.base disk)
    (h : flushBuffer (engine, disk) = .ok info (done, after)) :
    (engine.buffer.isEmpty = true ∧ info = none ∧ done = engine ∧ after = disk)
      ∨ ∃ size made recorded home, engine.buffer.isEmpty = false ∧ info = some recorded
        ∧ Footprint.measure engine.buffer.entries = .ok size
        ∧ Store.RecordedAt home engine.store (engine.buffer.entries.map .ok) size disk made recorded
          after
        ∧ done = { engine with
            buffer := .empty
            store.tables := Volume.table engine.store.order ⟨recorded.index, engine.buffer.entries⟩
              :: engine.store.tables } := by
  rcases of_flushBuffer_done h with hidle
    | ⟨size, made, recorded, table, hempty, hinfo, hmeasure, hrecorded, htable, rfl⟩
  · exact .inl hidle
  · obtain ⟨home, hrecorded⟩ := hrecorded.exists_home hdirect
    cases (hrecorded.openTable_eq engine.store.order).symm.trans htable
    exact .inr ⟨size, made, recorded, home, hempty, hinfo, hmeasure, hrecorded, rfl⟩

/-- A flush of the buffer that fails leaves the engine as it is: the buffer was not written, or
    what was written cannot be mapped. -/
theorem of_flushBuffer_failed (h : flushBuffer (engine, disk) = .error fault (done, after)) :
    done = engine ∧ (Unflushed engine disk fault after ∨ ∃ size made recorded,
      Store.Recorded engine.store (engine.buffer.entries.map .ok) size disk made recorded after
      ∧ Store.openTable after engine.store.base engine.store.order recorded.index
        = .error fault) := by
  cases hempty : engine.buffer.isEmpty with
  | true =>
    rw [flushBuffer_of_empty hempty] at h
    cases h
  | false =>
    rw [flushBuffer_eq hempty] at h
    rcases Action.of_within_bind_error h with ⟨_, hflush, hstate⟩ | ⟨_, _, _, h⟩
    · obtain ⟨_, rfl, hreason⟩ := Store.of_flush_error hflush
      cases hstate
      exact ⟨rfl, hreason⟩
    · cases h

/-- With no link in the way what was written can be mapped. -/
theorem of_flushBuffer_error (hdirect : Generation.Direct engine.store.base disk)
    (h : flushBuffer (engine, disk) = .error fault (done, after)) :
    done = engine ∧ Unflushed engine disk fault after := by
  obtain ⟨rfl, hreason | ⟨_, _, _, hrecorded, hfault⟩⟩ := of_flushBuffer_failed h
  · exact ⟨rfl, hreason⟩
  · obtain ⟨home, hrecorded⟩ := hrecorded.exists_home hdirect
    cases (hrecorded.openTable_eq _).symm.trans hfault

/-- A write that succeeds is in the buffer, or has flushed the buffer with it. -/
theorem of_write_ok (hopen : engine.ensureOpen = .ok ())
    (h : write new (engine, disk) = .ok () (done, after)) :
    (done = { engine with buffer := engine.buffer.insert new } ∧ after = disk)
      ∨ ∃ info, flushBuffer ({ engine with buffer := engine.buffer.insert new }, disk)
        = .ok info (done, after) := by
  cases hover : (engine.buffer.insert new).isOver engine.config.flushThreshold with
  | false =>
    rw [write_of_not_over hopen hover] at h
    cases h
    exact .inl ⟨rfl, rfl⟩
  | true =>
    rw [write_eq hopen hover] at h
    exact .inr (Action.of_discard_ok h)

/-- A write that fails is in the buffer nevertheless. -/
theorem of_write_error (hdirect : Generation.Direct engine.store.base disk)
    (hopen : engine.ensureOpen = .ok ())
    (h : write new (engine, disk) = .error fault (done, after)) :
    done = { engine with buffer := engine.buffer.insert new }
      ∧ Unflushed { engine with buffer := engine.buffer.insert new } disk fault after := by
  cases hover : (engine.buffer.insert new).isOver engine.config.flushThreshold with
  | false =>
    rw [write_of_not_over hopen hover] at h
    cases h
  | true =>
    rw [write_eq hopen hover] at h
    exact of_flushBuffer_error (by exact hdirect) (Action.of_discard_error h)

theorem of_close_ok (hopen : engine.closed = false)
    (h : close (engine, disk) = .ok () (done, after)) : ∃ info flushed,
      flushBuffer (engine, disk) = .ok info (flushed, after)
        ∧ done = { flushed with store := flushed.store.close, closed := true } := by
  rw [close_eq hopen] at h
  obtain ⟨_, ⟨flushed, left⟩, hflush, h⟩ := Action.of_bind_ok h
  obtain ⟨info, hflush⟩ := Action.of_discard_ok hflush
  cases h
  exact ⟨info, flushed, hflush, rfl⟩

theorem of_close_error (hdirect : Generation.Direct engine.store.base disk)
    (hopen : engine.closed = false)
    (h : close (engine, disk) = .error fault (done, after)) :
    done = engine ∧ Unflushed engine disk fault after := by
  rw [close_eq hopen] at h
  rcases Action.of_bind_error h with h | ⟨_, _, _, h⟩
  · exact of_flushBuffer_error hdirect (Action.of_discard_error h)
  · cases h

/-- A compaction that succeeds has nothing to do, or compacts the store to its items, and maps
    what the folder holds then. -/
theorem of_compact_done (hopen : engine.ensureOpen = .ok ())
    (h : compact (engine, disk) = .ok info (done, after)) :
    (engine.store.tables = [] ∧ engine.buffer.isEmpty = true ∧ info = none ∧ done = engine
        ∧ after = disk)
      ∨ ∃ items recorded stale tables, info = some recorded
        ∧ engine.compactionItems = .ok items
        ∧ Store.compact items engine.buffer.count engine.buffer.size (engine.store, disk)
          = .ok recorded (stale, after)
        ∧ Store.loadTables after engine.store.base engine.store.order = .ok tables
        ∧ done = { engine with
            buffer := .empty
            store := ⟨engine.store.base, engine.store.order, tables, false, false⟩ } := by
  cases hempty : engine.store.tables.isEmpty && engine.buffer.isEmpty with
  | true =>
    rw [compact_of_empty hopen hempty] at h
    cases h
    obtain ⟨htables, hbuffer⟩ := Bool.and_eq_true_iff.mp hempty
    exact .inl ⟨List.isEmpty_iff.mp htables, hbuffer, rfl, rfl, rfl⟩
  | false =>
    rw [compact_eq hopen hempty] at h
    obtain ⟨items, hitems, h⟩ := Action.of_lift_bind_ok h
    obtain ⟨recorded, _, hcompact, h⟩ := Action.of_within_bind_ok h
    obtain ⟨_, _, _, _, _, _, _, rfl⟩ := Store.of_compact_ok hcompact
    obtain ⟨_, _, hreload, h⟩ := Action.of_within_bind_ok h
    cases h
    obtain ⟨tables, hloaded, rfl⟩ := Store.of_reload_ok hreload
    exact .inr ⟨items, recorded, _, tables, rfl, hitems, hcompact, hloaded, rfl⟩

/-- With no link in the way the items, which are entries then, are recorded and mapped as the
    only generation. -/
theorem of_compact_ok (hdirect : Generation.Direct engine.store.base disk)
    (hopen : engine.ensureOpen = .ok ())
    (h : compact (engine, disk) = .ok info (done, after)) :
    (engine.store.tables = [] ∧ engine.buffer.isEmpty = true ∧ info = none ∧ done = engine
        ∧ after = disk)
      ∨ ∃ (entries : List Entry) (size : Footprint) (made written : Disk)
          (recorded : Generation.Info) (stale : Store) (home : Place),
        info = some recorded ∧ engine.compactionItems = .ok (entries.map .ok)
        ∧ Store.compact (entries.map .ok) engine.buffer.count engine.buffer.size
            (engine.store, disk) = .ok recorded (stale, after)
        ∧ Store.RecordedAt home engine.store (entries.map .ok) size disk made recorded written
        ∧ after.HasFolder engine.store.base home
        ∧ Store.loadTables after engine.store.base engine.store.order
          = .ok [Volume.table engine.store.order ⟨recorded.index, entries⟩]
        ∧ done = { engine with
            buffer := .empty
            store := ⟨engine.store.base, engine.store.order,
              [Volume.table engine.store.order ⟨recorded.index, entries⟩], false, false⟩ } := by
  rcases of_compact_done hopen h with hidle
    | ⟨items, recorded, stale, tables, hinfo, hitems, hcompact, hloaded, rfl⟩
  · exact .inl hidle
  · obtain ⟨size, made, written, _, _, hrecorded, hsweep, hstate⟩ := Store.of_compact_ok hcompact
    cases hstate
    obtain ⟨entries, rfl⟩ := hrecorded.exists_entries
    obtain ⟨home, hrecorded⟩ := hrecorded.exists_home hdirect
    -- after the sweep there is one generation, so the reload maps that
    have htables := hrecorded.loadTables_swept hsweep rfl engine.store.order
    cases htables.symm.trans hloaded
    exact .inr ⟨entries, size, made, written, recorded, _, home, hinfo, hitems, hcompact, hrecorded,
      (hrecorded.keeps_swept hsweep rfl).1, htables, rfl⟩

/-- A compaction that fails has no items, or does not record them, or records them and cannot
    map what the folder holds then. -/
theorem of_compact_failed (hopen : engine.ensureOpen = .ok ())
    (h : compact (engine, disk) = .error fault (done, after)) :
    (engine.compactionItems = .error fault ∧ done = engine ∧ after = disk)
      ∨ ∃ items, engine.compactionItems = .ok items
        ∧ ((done = engine ∧ Store.NotRecorded engine.store items
            (Store.capacity engine.buffer.count engine.buffer.size engine.store.tables) disk fault
            after)
          ∨ ∃ recorded stale, Store.compact items engine.buffer.count engine.buffer.size
              (engine.store, disk) = .ok recorded (stale, after)
            ∧ Store.loadTables after engine.store.base engine.store.order = .error fault) := by
  cases hempty : engine.store.tables.isEmpty && engine.buffer.isEmpty with
  | true =>
    rw [compact_of_empty hopen hempty] at h
    cases h
  | false =>
    rw [compact_eq hopen hempty] at h
    rcases Action.of_lift_bind_error h with ⟨hitems, hstate⟩ | ⟨items, hitems, h⟩
    · cases hstate
      exact .inl ⟨hitems, rfl, rfl⟩
    refine .inr ⟨items, hitems, ?_⟩
    rcases Action.of_within_bind_error h with ⟨_, hcompact, hstate⟩ | ⟨recorded, _, hcompact, h⟩
    · obtain ⟨_, rfl, hreason⟩ := Store.of_compact_error hcompact
      cases hstate
      exact .inl ⟨rfl, hreason⟩
    obtain ⟨_, _, _, left, _, _, _, rfl⟩ := Store.of_compact_ok hcompact
    rcases Action.of_within_bind_error h with ⟨_, hreload, hstate⟩ | ⟨_, _, _, h⟩
    · obtain ⟨hfault, rfl⟩ := Store.of_reload_error hreload
      cases hstate
      exact .inr ⟨recorded, _, hcompact, hfault⟩
    · cases h

/-- Where no link is in the way, a compaction that fails leaves the engine as it is: once the
    items were written nothing can fail any more. -/
theorem of_compact_error (hdirect : Generation.Direct engine.store.base disk)
    (hopen : engine.ensureOpen = .ok ())
    (h : compact (engine, disk) = .error fault (done, after)) :
    done = engine ∧ ((engine.compactionItems = .error fault ∧ after = disk)
      ∨ ∃ items, engine.compactionItems = .ok items ∧ Store.NotRecorded engine.store items
        (Store.capacity engine.buffer.count engine.buffer.size engine.store.tables) disk fault
        after) := by
  obtain ⟨hitems, rfl, rfl⟩ | ⟨items, hitems, ⟨rfl, hreason⟩ | ⟨_, _, hcompact, hfault⟩⟩ :=
    of_compact_failed hopen h
  · exact ⟨rfl, .inl ⟨hitems, rfl⟩⟩
  · exact ⟨rfl, .inr ⟨items, hitems, hreason⟩⟩
  · -- what was recorded can be mapped
    obtain ⟨_, _, _, _, _, hrecorded, hsweep, hstate⟩ := Store.of_compact_ok hcompact
    cases hstate
    obtain ⟨entries, rfl⟩ := hrecorded.exists_entries
    obtain ⟨home, hrecorded⟩ := hrecorded.exists_home hdirect
    have htables := hrecorded.loadTables_swept hsweep rfl engine.store.order
    cases htables.symm.trans hfault

end LayeredStore.Engine
