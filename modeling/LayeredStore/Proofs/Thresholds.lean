import LayeredStore.Proofs.Numbering
import LayeredStore.Proofs.Safekeeping
import LayeredStore.Proofs.Tallying

namespace LayeredStore.Engine

/-!
# The threshold bounds the buffer

The buffer is flushed by the write that takes its payload over the threshold, and not before.
Which write that is can be told from the writes alone, with no look at an engine or a disk: the
payload is that of the last write under each key since the buffer was last emptied.

* `Spills`, `Change.pending`, `pending` — the writes that are still buffered after some changes;
* `Ran` — the engines that changes lead to, where all of them succeed;
* `Creates` — one generation is new, in the folder and among those that are mapped;
* `write_of_spills`, `write_of_not_spills` — what a write does on either side of the threshold;
* `Accounts`, `Accounts.step` — the buffer is that of the writes, and every change keeps it so;
* `threshold_bounds_buffer` — the buffer and its flushes, for all such runs.
-/

open Buffer (latest)

variable {here : Place} {config : Config} {engine done : Engine} {disk after : Disk}
  {change : Change} {changes : List Change} {e : Entry} {writes : List Entry} {limit : Nat}

/-! ### The writes that are buffered -/

/-- The payload of the last writes under their keys is over the limit. A limit of zero is none. -/
def Spills (limit : Nat) (writes : List Entry) : Prop :=
  0 < limit ∧ limit < payloadSum (latest writes)

instance : Decidable (Spills limit writes) := inferInstanceAs (Decidable (_ ∧ _))

/-- The writes since the buffer was last emptied, the latest first, once a change was made. A
    write that takes them over the limit empties the buffer, and so does every other change. -/
def Change.pending (limit : Nat) (writes : List Entry) (change : Change) : List Entry :=
  match change.written? with
  | some e => if Spills limit (e :: writes) then [] else e :: writes
  | none => []

/-- The writes since the buffer was last emptied, after some changes. -/
def pending (limit : Nat) (changes : List Change) : List Entry :=
  changes.foldl (Change.pending limit) []

/-! ### Runs and generations -/

/-- The engine was started, and then changed, each time with success. In between others have
    done with the disk what they liked. -/
inductive Ran (here : Place) (config : Config) : List Change → Engine → Disk → Prop
  | start {engine : Engine} {disk : Disk} (h : Engine.start disk here config = .ok engine) :
    Ran here config [] engine disk
  | done {changes : List Change} {engine done : Engine} {disk after : Disk} (change : Change)
    (h : Ran here config changes engine disk)
    (hdone : change.perform (engine, disk) = .ok () (done, after)) :
    Ran here config (changes ++ [change]) done after
  | disturbed {changes : List Change} {engine : Engine} {disk : Disk} (other : Disk)
    (h : Ran here config changes engine disk) : Ran here config changes engine other

/-- One generation is new in the folder, which the store's path leads to, and it is mapped in
    front of those that were. It holds the entries. -/
structure Creates (home : Place) (index : Nat) (entries : List Entry) (store grown : Store)
    (disk after : Disk) : Prop where
  found : after.HasFolder store.base home
  fresh : ∀ label ∈ Generation.labels, ¬ Generation.Records disk home label index
  records_iff : ∀ label ∈ Generation.labels, ∀ n, Generation.Records after home label n
    ↔ n = index ∨ Generation.Records disk home label n
  mapped : ∃ table : Table, table.generation = index ∧ table.Holds entries
    ∧ grown.tables = table :: store.tables
    ∧ Store.openTable after store.base store.order index = .ok table

/-- A flush of a buffer that holds something creates a generation of its entries. -/
theorem creates_of_flushBuffer {info : Option Generation.Info}
    (hdirect : Generation.Direct engine.store.base disk) (hbuffered : engine.buffer.isEmpty = false)
    (h : flushBuffer (engine, disk) = .ok info (done, after)) : ∃ home index,
      Creates home index engine.buffer.entries engine.store done.store disk after := by
  rcases of_flushBuffer_ok hdirect h with
    ⟨hempty, _⟩ | ⟨size, made, recorded, home, _, rfl, _, hrecorded, rfl⟩
  · rw [hempty] at hbuffered
    cases hbuffered
  · refine ⟨home, recorded.index, hrecorded.hasFolder, fun label hlabel hrecords => ?_,
      fun label hlabel n => ?_, _, rfl, hrecorded.holds _, rfl, hrecorded.openTable_eq _⟩
    · have hmade := (Generation.records_of_makeFolders hrecorded.made_eq).mpr hrecords
      exact Nat.lt_irrefl _
        (Generation.lt_of_nextIndex hrecorded.found hrecorded.index_eq hlabel hmade)
    · rw [hrecorded.written.records_iff hrecorded.index_lt hlabel,
        Generation.records_of_makeFolders hrecorded.made_eq]

/-! ### Writes -/

/-- A change that writes an entry is the write of it. -/
theorem perform_of_written (he : e ∈ change.written?) : change.perform = write e := by
  cases change <;> cases he <;> rfl

/-- Only to an open engine can be written. -/
theorem ensureOpen_of_write {state : Engine × Disk} (h : write e (engine, disk) = .ok () state) :
    engine.ensureOpen = .ok () := by
  rw [ensureOpen_iff]
  cases hclosed : engine.closed with
  | false => rfl
  | true =>
    rw [write_of_closed hclosed] at h
    cases h

/-- A buffer is over its limit if its writes are. -/
theorem isOver_iff {buffer : Buffer} (h : buffer.Gathers writes) :
    buffer.isOver limit = true ↔ Spills limit writes := by
  simp [Buffer.isOver, Spills, h.size_eq]

/-- A write that takes the buffer over the threshold flushes it, with what was written. -/
theorem write_of_spills (hgathers : engine.buffer.Gathers writes)
    (hspills : Spills engine.config.flushThreshold (e :: writes))
    (h : write e (engine, disk) = .ok () (done, after)) :
    ∃ info, flushBuffer ({ engine with buffer := engine.buffer.insert e }, disk)
      = .ok info (done, after) := by
  rw [write_eq (ensureOpen_of_write h) ((isOver_iff (hgathers.insert e)).mpr hspills)] at h
  exact Action.of_discard_ok h

/-- Any other write goes to the buffer, and nowhere else. -/
theorem write_of_not_spills (hgathers : engine.buffer.Gathers writes)
    (hkept : ¬ Spills engine.config.flushThreshold (e :: writes))
    (h : write e (engine, disk) = .ok () (done, after)) :
    done = { engine with buffer := engine.buffer.insert e } ∧ after = disk := by
  have hover : (engine.buffer.insert e).isOver engine.config.flushThreshold = false := by
    rw [← Bool.not_eq_true, isOver_iff (hgathers.insert e)]
    exact hkept
  rw [write_of_not_over (ensureOpen_of_write h) hover] at h
  cases h
  exact ⟨rfl, rfl⟩

/-! ### Other changes -/

/-- Behind a flush the buffer is empty. -/
theorem buffer_of_flushBuffer {info : Option Generation.Info} (hsound : engine.buffer.Sound)
    (h : flushBuffer (engine, disk) = .ok info (done, after)) : done.buffer = .empty := by
  rcases of_flushBuffer_done h with ⟨hempty, _, rfl, _⟩ | ⟨_, _, _, _, _, _, _, _, _, rfl⟩
  · exact hsound.eq_empty (List.isEmpty_iff.mp hempty)
  · rfl

/-- A change that writes nothing empties the buffer, unless the engine was closed before. -/
theorem buffer_of_done (hsound : engine.buffer.Sound) (hopen : engine.ensureOpen = .ok ())
    (hnone : change.written? = none)
    (h : change.perform (engine, disk) = .ok () (done, after)) : done.buffer = .empty := by
  cases change with
  | put key value => cases hnone
  | delete key => cases hnone
  | flush =>
    obtain ⟨info, hflush⟩ := Action.of_discard_ok h
    rw [flush_eq hopen] at hflush
    exact buffer_of_flushBuffer hsound hflush
  | compact =>
    obtain ⟨info, hcompact⟩ := Action.of_discard_ok h
    rcases of_compact_done hopen hcompact with ⟨_, hempty, _, rfl, _⟩
      | ⟨_, _, _, _, _, _, _, _, rfl⟩
    · exact hsound.eq_empty (List.isEmpty_iff.mp hempty)
    · rfl
  | close =>
    obtain ⟨info, flushed, hflush, rfl⟩ := of_close_ok (ensureOpen_iff.mp hopen) h
    show flushed.buffer = .empty
    exact buffer_of_flushBuffer hsound hflush

/-! ### Whole runs -/

/-- The buffer is that of the writes, which do not pass the threshold, and an engine that is
    closed has none. -/
structure Accounts (here : Place) (config : Config) (writes : List Entry) (engine : Engine) :
    Prop where
  ready : Ready here config engine
  gathers : engine.buffer.Gathers writes
  kept : ¬ Spills config.flushThreshold writes
  closed : engine.closed = true → writes = []

namespace Accounts

/-- An empty buffer is that of no writes. -/
theorem of_empty (hready : Ready here config engine) (hempty : engine.buffer = .empty) :
    Accounts here config [] engine :=
  ⟨hready, hempty ▸ Buffer.gathers_empty, fun hspills => Nat.not_lt_zero _ hspills.2, fun _ => rfl⟩

/-- Every change that succeeds leaves the buffer of the writes that are pending then. -/
theorem step (h : Accounts here config writes engine)
    (hdone : change.perform (engine, disk) = .ok () (done, after)) :
    Accounts here config (change.pending config.flushThreshold writes) done := by
  have hready := h.ready.of_done hdone
  cases hwritten : change.written? with
  | some e =>
    have hwrite := hdone
    rw [perform_of_written (Option.mem_def.mpr hwritten)] at hwrite
    simp only [Change.pending, hwritten]
    split
    next hspills =>
      have hspills' := h.ready.config_eq ▸ hspills
      obtain ⟨info, hflush⟩ := write_of_spills h.gathers hspills' hwrite
      exact of_empty hready (buffer_of_flushBuffer (h.gathers.insert e).sound hflush)
    next hkept =>
      have hkept' := h.ready.config_eq ▸ hkept
      obtain ⟨rfl, rfl⟩ := write_of_not_spills h.gathers hkept' hwrite
      refine ⟨hready, h.gathers.insert e, hkept, fun hclosed => ?_⟩
      have hopen := ensureOpen_iff.mp (ensureOpen_of_write hwrite)
      rw [show engine.closed = true from hclosed] at hopen
      cases hopen
  | none =>
    simp only [Change.pending, hwritten]
    cases hclosed : engine.closed with
    | false =>
      exact of_empty hready
        (buffer_of_done h.gathers.sound (ensureOpen_iff.mpr hclosed) hwritten hdone)
    | true =>
      -- a closed engine is left as it is, and its buffer was emptied before
      rcases perform_of_closed hclosed with heq | heq <;> rw [heq] at hdone <;> cases hdone
      rw [h.closed hclosed] at h
      exact h

end Accounts

/-- In every run the buffer is that of the writes that are pending. -/
theorem Ran.accounts (h : Ran here config changes engine disk) :
    Accounts here config (pending config.flushThreshold changes) engine := by
  induction h with
  | start h =>
    have hready := Ready.of_start h
    obtain ⟨_, _, _, rfl⟩ := of_start_ok h
    exact .of_empty hready rfl
  | done change _ hdone ih =>
    rw [pending, List.foldl_concat]
    exact ih.step hdone
  | disturbed other _ ih => exact ih

/-- **The threshold bounds the buffer, and only what passes it is flushed.** However an engine
    was started and changed, as long as every change succeeds: the buffer holds the last write
    under each key since it was last emptied, its size is their payload, and this is not over
    the threshold unless that is zero. A write that takes the payload over the threshold creates
    one generation, of just the entries that are buffered then, its own included, where no link
    has the name of a file to be made. Any other write creates none, and leaves store and disk
    as they are; with a threshold of zero that is so of all. -/
theorem threshold_bounds_buffer (h : Ran here config changes engine disk) :
    engine.buffer.entries.Perm (latest (pending config.flushThreshold changes))
      ∧ engine.buffer.size = payloadSum (latest (pending config.flushThreshold changes))
      ∧ (0 < config.flushThreshold → engine.buffer.size ≤ config.flushThreshold)
      ∧ ∀ (change : Change) (e : Entry) (done : Engine) (after : Disk), e ∈ change.written? →
        change.perform (engine, disk) = .ok () (done, after) →
          let writes := e :: pending config.flushThreshold changes
          (0 < config.flushThreshold ∧ config.flushThreshold < payloadSum (latest writes) →
            Generation.Direct (folderOf here config) disk →
            ∃ home index entries, entries.Perm (latest writes) ∧ e ∈ entries
              ∧ Creates home index entries engine.store done.store disk after)
          ∧ (config.flushThreshold = 0 ∨ payloadSum (latest writes) ≤ config.flushThreshold →
            done.store = engine.store ∧ after = disk) := by
  obtain ⟨hready, hgathers, hkept, _⟩ := h.accounts
  refine ⟨hgathers.perm, hgathers.size_eq, fun hpos => ?_, fun change e done after he hdone => ?_⟩
  · rw [hgathers.size_eq]
    exact Nat.le_of_not_lt fun hover => hkept ⟨hpos, hover⟩
  · rw [perform_of_written he] at hdone
    have hinsert := hgathers.insert e
    have hperm := hinsert.perm
    rw [← hready.base_eq]
    rw [← hready.config_eq] at hgathers hinsert hperm ⊢
    refine ⟨fun hspills hdirect => ?_, fun hwithin => ?_⟩
    · obtain ⟨info, hflush⟩ := write_of_spills hgathers hspills hdone
      obtain ⟨home, index, hcreates⟩ :=
        creates_of_flushBuffer (by exact hdirect) (by exact hinsert.isEmpty_eq) hflush
      exact ⟨home, index, _, hperm, hperm.mem_iff.mpr List.mem_cons_self, hcreates⟩
    · have hnot : ¬ Spills engine.config.flushThreshold
          (e :: pending engine.config.flushThreshold changes) := by
        rintro ⟨hpos, hover⟩
        omega
      obtain ⟨rfl, rfl⟩ := write_of_not_spills hgathers hnot hdone
      exact ⟨rfl, rfl⟩

/-- A threshold of three. The second write makes the buffer smaller, the third is a tombstone
    of the empty key and has no payload, and the fourth takes the buffer over the threshold. -/
theorem threshold_bounds_buffer_three :
    let config : Config := ⟨"/", .lexicographic, 3⟩
    let changes : List Change := [.put [1] [1, 1], .put [1] [], .delete []]
    ∃ engine done after, Ran [] config changes engine Disk.empty
      ∧ engine.buffer.size = 1 ∧ engine.buffer.count = 2
      ∧ (Change.put [2] [2, 2]).perform (engine, Disk.empty) = .ok () (done, after)
      ∧ ∃ home index entries, entries.Perm [.live [2] [2, 2], .tombstone [], .live [1] []]
        ∧ Creates home index entries engine.store done.store Disk.empty after := by
  intro config changes
  let store : Store := ⟨.ofText [] "/", .lexicographic, [], false, false⟩
  let engine : Engine := ⟨config, ⟨[.tombstone [], .live [1] []], 1⟩, store, false⟩
  have hfirst : (Change.put [1] [1, 1]).perform (⟨config, .empty, store, false⟩, Disk.empty)
      = .ok () (⟨config, ⟨[.live [1] [1, 1]], 3⟩, store, false⟩, Disk.empty) := rfl
  have hsecond : (Change.put [1] []).perform
        (⟨config, ⟨[.live [1] [1, 1]], 3⟩, store, false⟩, Disk.empty)
      = .ok () (⟨config, ⟨[.live [1] []], 1⟩, store, false⟩, Disk.empty) := rfl
  have hthird : (Change.delete []).perform
        (⟨config, ⟨[.live [1] []], 1⟩, store, false⟩, Disk.empty)
      = .ok () (engine, Disk.empty) := rfl
  have hran : Ran [] config changes engine Disk.empty :=
    .done _ (.done _ (.done _ (.start (start_root .lexicographic 3)) hfirst) hsecond) hthird
  have htried : (Change.put [2] [2, 2]).perform.okWith (fun _ _ => true) (engine, Disk.empty)
      = true := by decide +kernel
  obtain ⟨_, ⟨done, after⟩, hdone, -⟩ := Action.of_okWith htried
  have hlatest : latest (.live [2] [2, 2] :: pending 3 changes)
      = [.live [2] [2, 2], .tombstone [], .live [1] []] := by decide +kernel
  obtain ⟨-, -, -, hwrites⟩ := threshold_bounds_buffer hran
  have hdirect : Generation.Direct (folderOf [] config) Disk.empty :=
    Generation.direct_of_hasLink (by decide) rfl
  obtain ⟨home, index, entries, hperm, -, hcreates⟩ :=
    (hwrites (.put [2] [2, 2]) _ done after rfl hdone).1 (by decide +kernel) hdirect
  rw [hlatest] at hperm
  exact ⟨engine, done, after, hran, rfl, rfl, hdone, home, index, entries, hperm, hcreates⟩

end LayeredStore.Engine
