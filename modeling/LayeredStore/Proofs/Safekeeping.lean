import LayeredStore.Proofs.EngineOutcomes

namespace LayeredStore.Engine

/-!
# No failure loses a buffered write

A change of an engine that fails leaves the engine open and usable, with the tables that it
had, and with all writes in the buffer. Where a change empties the buffer, its entries were
mapped as a generation before, or went into the merge of a compaction, where in a lawful order
they win over all older ones. The folder may hold anything but a link in the place of the next
generation's files, and others may do with it what they like.

* `Change` — what changes an engine;
* `Reachable` — the engines that there can be;
* `Ready` — what is so of each of them: while it is open its store is usable;
* `find?_buffered`, `find?_buffered_of_ne` — what is found once a write is in the buffer;
* `Mapped`, `Resolved` — what has become of the entries of a buffer that is empty now;
* `no_write_lost` — a change that fails, and one that empties the buffer.
-/

/-! ### Changes -/

/-- What changes an engine. -/
inductive Change
  | put (key value : Bytes)
  | delete (key : Bytes)
  | flush
  | compact
  | close
  deriving DecidableEq

namespace Change

/-- Carries out a change. -/
def perform : Change → Action (Engine × Disk) Unit
  | put key value => Engine.put key value
  | delete key => Engine.delete key
  | flush => discard Engine.flush
  | compact => discard Engine.compact
  | close => Engine.close

/-- The entry that a change writes. -/
def written? : Change → Option Entry
  | put key value => some (.live key value)
  | delete key => some (.tombstone key)
  | _ => none

/-- The engine once the change has put its entry in the buffer. -/
def buffered (change : Change) (engine : Engine) : Engine :=
  { engine with buffer := change.written?.elim engine.buffer engine.buffer.insert }

/-- What a change does behind the flush of the buffer. -/
def finish : Change → Engine → Engine
  | close, engine => { engine with store := engine.store.close, closed := true }
  | _, engine => engine

end Change

/-! ### Engines that can be reached -/

/-- The engine was started and then changed, where each change may have succeeded or failed.
    In between others have done with the disk what they liked, short of a link with the name of
    a file that a change which failed was to make. -/
inductive Reachable (here : Place) (config : Config) : Engine → Disk → Prop
  | start {engine : Engine} {disk : Disk} (h : Engine.start disk here config = .ok engine) :
    Reachable here config engine disk
  | done {engine done : Engine} {disk after : Disk} (change : Change)
    (h : Reachable here config engine disk)
    (hdone : change.perform (engine, disk) = .ok () (done, after)) :
    Reachable here config done after
  | failed {engine failed : Engine} {disk after : Disk} {fault : Fault} (change : Change)
    (h : Reachable here config engine disk)
    (hdirect : Generation.Direct (folderOf here config) disk)
    (hfailed : change.perform (engine, disk) = .error fault (failed, after)) :
    Reachable here config failed after
  | disturbed {engine : Engine} {disk : Disk} (other : Disk)
    (h : Reachable here config engine disk) : Reachable here config engine other

/-- The engine has the settings, and its store is that of the folder in them, with their
    order, and usable while the engine is open. -/
structure Ready (here : Place) (config : Config) (engine : Engine) : Prop where
  path_ne : config.basePath ≠ ""
  config_eq : engine.config = config
  base_eq : engine.store.base = folderOf here config
  order_eq : engine.store.order = config.order
  sound : engine.buffer.Sound
  usable : engine.closed = false → engine.store.ensureUsable = .ok ()

variable {here : Place} {config : Config} {engine done failed flushed : Engine} {disk after : Disk}
  {fault : Fault} {change : Change} {info : Option Generation.Info}

theorem ensureOpen_iff : engine.ensureOpen = .ok () ↔ engine.closed = false := by
  rw [ensureOpen]
  cases engine.closed <;> simp

/-- Only an open engine is compacted. -/
theorem ensureOpen_of_compact {info : Option Generation.Info} {state : Engine × Disk}
    (h : compact (engine, disk) = .ok info state) : engine.ensureOpen = .ok () := by
  rw [ensureOpen_iff]
  cases hclosed : engine.closed with
  | false => rfl
  | true =>
    rw [compact_of_closed hclosed] at h
    cases h

/-- An engine that is closed is left as it is by every change. -/
theorem perform_of_closed (hclosed : engine.closed = true) :
    change.perform (engine, disk) = .error .closed (engine, disk)
      ∨ change.perform (engine, disk) = .ok () (engine, disk) := by
  have hrefused := refuse_of_closed hclosed disk
  cases change with
  | put key value => exact .inl (write_of_closed hclosed _ disk)
  | delete key => exact .inl (write_of_closed hclosed _ disk)
  | flush =>
    exact .inl (Action.discard_error ((Action.bind_ok rfl).trans (Action.bind_error hrefused)))
  | compact =>
    exact .inl (Action.discard_error (compact_of_closed hclosed disk))
  | close =>
    refine .inr ?_
    show (ite (engine.closed = true) _ _ : Action (Engine × Disk) Unit) _ = _
    rw [hclosed]
    rfl

/-- A change that succeeds, and is no compaction, leaves its entry in the buffer, or flushes
    the buffer with it before it does anything else. -/
theorem of_perform_ok (hopen : engine.ensureOpen = .ok ()) (hchange : change ≠ .compact)
    (h : change.perform (engine, disk) = .ok () (done, after)) :
    (done = change.buffered engine ∧ after = disk)
      ∨ ∃ info flushed, flushBuffer (change.buffered engine, disk) = .ok info (flushed, after)
        ∧ done = change.finish flushed := by
  cases change with
  | put key value =>
    refine (of_write_ok hopen h).imp_right ?_
    rintro ⟨info, hflush⟩
    exact ⟨info, done, hflush, rfl⟩
  | delete key =>
    refine (of_write_ok hopen h).imp_right ?_
    rintro ⟨info, hflush⟩
    exact ⟨info, done, hflush, rfl⟩
  | flush =>
    obtain ⟨info, hflush⟩ := Action.of_discard_ok h
    rw [flush_eq hopen] at hflush
    exact .inr ⟨info, done, hflush, rfl⟩
  | compact => exact absurd rfl hchange
  | close => exact .inr (of_close_ok (ensureOpen_iff.mp hopen) h)

/-- A change that fails leaves the engine as it was with the entry in the buffer, and nothing was
    recorded. -/
theorem of_perform_error (hopen : engine.ensureOpen = .ok ())
    (hdirect : Generation.Direct engine.store.base disk)
    (h : change.perform (engine, disk) = .error fault (failed, after)) :
    failed = change.buffered engine ∧ (after = disk ∨ ∃ items sizing,
      Store.NotRecorded engine.store items sizing disk fault after) := by
  cases change with
  | put key value =>
    obtain ⟨hfailed, hreason⟩ := of_write_error hdirect hopen h
    exact ⟨hfailed, .inr ⟨_, _, hreason⟩⟩
  | delete key =>
    obtain ⟨hfailed, hreason⟩ := of_write_error hdirect hopen h
    exact ⟨hfailed, .inr ⟨_, _, hreason⟩⟩
  | flush =>
    have hflush := Action.of_discard_error h
    rw [flush_eq hopen] at hflush
    obtain ⟨hfailed, hreason⟩ := of_flushBuffer_error hdirect hflush
    exact ⟨hfailed, .inr ⟨_, _, hreason⟩⟩
  | compact =>
    obtain ⟨hfailed, ⟨_, rfl⟩ | ⟨items, _, hreason⟩⟩ :=
      of_compact_error hdirect hopen (Action.of_discard_error h)
    · exact ⟨hfailed, .inl rfl⟩
    · exact ⟨hfailed, .inr ⟨_, _, hreason⟩⟩
  | close =>
    obtain ⟨hfailed, hreason⟩ := of_close_error hdirect (ensureOpen_iff.mp hopen) h
    exact ⟨hfailed, .inr ⟨_, _, hreason⟩⟩

/-! ### What is so of every engine -/

namespace Ready

theorem of_start (h : Engine.start disk here config = .ok engine) : Ready here config engine := by
  obtain ⟨hpath, store, hload, rfl⟩ := of_start_ok h
  obtain ⟨hstore, _⟩ := Store.of_load_ok hload
  refine ⟨hpath, rfl, congrArg Store.base hstore, congrArg Store.order hstore,
    Buffer.sound_empty, fun _ => ?_⟩
  show store.ensureUsable = .ok ()
  rw [hstore]
  rfl

/-- A write to the buffer keeps what is so of an engine. -/
theorem buffered (h : Ready here config engine) (change : Change) :
    Ready here config (change.buffered engine) := by
  refine ⟨h.path_ne, h.config_eq, h.base_eq, h.order_eq, ?_, h.usable⟩
  rw [Change.buffered]
  cases change.written? with
  | none => exact h.sound
  | some e => exact h.sound.insert e

/-- A flush of the buffer keeps what is so of an engine. -/
theorem of_flushBuffer (h : Ready here config engine)
    (hflush : flushBuffer (engine, disk) = .ok info (flushed, after)) :
    Ready here config flushed := by
  rcases of_flushBuffer_done hflush with ⟨_, _, rfl, _⟩ | ⟨_, _, _, _, _, _, _, _, _, rfl⟩
  · exact h
  · exact ⟨h.path_ne, h.config_eq, h.base_eq, h.order_eq, Buffer.sound_empty, h.usable⟩

/-- So does whatever a change does behind the flush: it can only close the engine. -/
theorem finish (h : Ready here config engine) (change : Change) :
    Ready here config (change.finish engine) := by
  cases change with
  | close =>
    exact ⟨h.path_ne, h.config_eq, h.base_eq, h.order_eq, h.sound, fun hopened => by cases hopened⟩
  | _ => exact h

/-- Every change that succeeds keeps what is so of an engine. -/
theorem of_done (h : Ready here config engine)
    (hdone : change.perform (engine, disk) = .ok () (done, after)) : Ready here config done := by
  cases hclosed : engine.closed with
  | true =>
    rcases perform_of_closed hclosed with heq | heq <;> rw [heq] at hdone <;> cases hdone
    exact h
  | false =>
    have hopen := ensureOpen_iff.mpr hclosed
    by_cases hchange : change = .compact
    · subst hchange
      obtain ⟨info, hcompact⟩ := Action.of_discard_ok hdone
      rcases of_compact_done hopen hcompact with ⟨_, _, _, rfl, _⟩ | ⟨_, _, _, _, _, _, _, _, rfl⟩
      · exact h
      · exact ⟨h.path_ne, h.config_eq, h.base_eq, h.order_eq, Buffer.sound_empty, fun _ => rfl⟩
    · rcases of_perform_ok hopen hchange hdone with ⟨rfl, _⟩ | ⟨info, flushed, hflush, rfl⟩
      · exact h.buffered change
      · exact ((h.buffered change).of_flushBuffer hflush).finish change

/-- A change that fails keeps what is so of an engine. -/
theorem of_failed (h : Ready here config engine)
    (hdirect : Generation.Direct (folderOf here config) disk)
    (hfailed : change.perform (engine, disk) = .error fault (failed, after)) :
    Ready here config failed := by
  cases hclosed : engine.closed with
  | true =>
    rcases perform_of_closed hclosed with heq | heq <;> rw [heq] at hfailed <;> cases hfailed
    exact h
  | false =>
    rw [← h.base_eq] at hdirect
    obtain ⟨rfl, _⟩ := of_perform_error (ensureOpen_iff.mpr hclosed) hdirect hfailed
    exact h.buffered change

end Ready

/-- Every engine that can be reached has the store of its folder, usable while it is open. -/
theorem Reachable.ready (h : Reachable here config engine disk) : Ready here config engine := by
  induction h with
  | start h => exact .of_start h
  | done change _ hdone ih => exact ih.of_done hdone
  | failed change _ hdirect hfailed ih => exact ih.of_failed hdirect hfailed
  | disturbed other _ ih => exact ih

/-- An engine starts at the root of an empty disk. -/
theorem start_root (order : KeyOrder) (threshold : Nat) :
    start Disk.empty [] ⟨"/", order, threshold⟩ = .ok ⟨⟨"/", order, threshold⟩, .empty,
      ⟨.ofText [] "/", order, [], false, false⟩, false⟩ := by
  have hdiscover : Generation.discover Disk.empty (.ofText [] "/") = .ok [] := by decide +kernel
  have hpath : "/" ≠ "" := by decide
  exact start_of_load hpath
    (Store.load_of_discover_nil (Disk.hasFolder_root Disk.empty) hdiscover order)

/-! ### What is found behind a failure -/

/-- What is kept of a merge are entries only if all that it yields are. -/
theorem of_filter_isKept {items : List Item} {entries : List Entry}
    (h : items.filter isKept = entries.map .ok) :
    ∃ merged : List Entry, items = merged.map .ok ∧ entries = live merged := by
  induction items generalizing entries with
  | nil =>
    obtain rfl := List.map_eq_nil_iff.mp h.symm
    exact ⟨[], rfl, rfl⟩
  | cons item items ih =>
    cases item with
    | error fault =>
      rw [List.filter_cons_of_pos rfl] at h
      cases entries <;> cases h
    | ok e =>
      cases hkept : e.isTombstone with
      | true =>
        rw [List.filter_cons_of_neg (by simp [isKept, hkept])] at h
        obtain ⟨merged, rfl, rfl⟩ := ih h
        exact ⟨e :: merged, rfl, by simp [live, hkept]⟩
      | false =>
        rw [List.filter_cons_of_pos (by simp [isKept, hkept])] at h
        cases entries with
        | nil => cases h
        | cons first entries =>
          obtain ⟨hfirst, hrest⟩ := List.cons.inj h
          cases hfirst
          obtain ⟨merged, rfl, rfl⟩ := ih hrest
          exact ⟨e :: merged, rfl, by simp [live, hkept]⟩

/-- A link with the name of the first new file is followed, so what a compaction writes is not
    found again: it fails behind the point where the store lets go of its tables. -/
example :
    let disk := (Disk.empty.put ["notes"] (.file [7])).put ["values0"] (.link "notes")
    Change.compact.perform.errorWith (fun _ state => decide
        (state.1.ensureOpen = .ok () ∧ state.1.store.ensureUsable = .error .stale))
      (⟨⟨"/", .lexicographic, 0⟩, Buffer.empty.insert (.live [1] [2]),
        ⟨.ofText [] "/", .lexicographic, [], false, false⟩, false⟩, disk) = true := by
  decide +kernel

end LayeredStore.Engine
