import LayeredStore.Proofs.Buffering
import LayeredStore.Proofs.Outcomes
import LayeredStore.Proofs.Robustness

namespace LayeredStore

/-!
# A flushed generation answers like the buffer

The buffer is an ascending list in memory, and a generation is looked up by bisection over
bytes. Whatever was done to a buffer, the generation that it is flushed to gives the same
answers, to look-ups and to walks between any bounds, and takes as many bytes as the
buffer's running count says.

* `Buffer.Edit`, `Buffer.ofEdits` — what can be done to a buffer, and a buffer by all that
  was done to it;
* `Buffer.sound_ofEdits` — each of these keeps the buffer sound;
* `Table.AnswersLike` — a table that gives a buffer's answers;
* `Table.Holds.answersLike` — a table that holds a sound buffer's entries does;
* `Buffer.answers_of_flush` — a flush puts such a table in front.
-/

namespace Buffer

/-! ### Edits -/

/-- What can be done to a buffer. -/
inductive Edit where
  /-- Records an entry, tombstones included. -/
  | upsert (entry : Entry)
  /-- Records a value under a key. -/
  | put (key value : Bytes)
  /-- Records that a key was deleted. -/
  | delete (key : Bytes)
  /-- Forgets everything. -/
  | clear
  deriving DecidableEq, Repr

/-- The buffer after an edit. -/
def edit (buffer : Buffer) : Edit → Buffer
  | .upsert entry => buffer.insert entry
  | .put key value => buffer.insert (.live key value)
  | .delete key => buffer.insert (.tombstone key)
  | .clear => empty

/-- The buffer after some edits, of which the first found it empty. -/
def ofEdits (edits : List Edit) : Buffer := edits.foldl edit empty

theorem Sound.edit {buffer : Buffer} (h : buffer.Sound) (change : Edit) :
    (buffer.edit change).Sound := by
  cases change with
  | upsert entry => exact h.insert entry
  | put key value => exact h.insert (.live key value)
  | delete key => exact h.insert (.tombstone key)
  | clear => exact sound_empty

theorem Sound.foldl_edit {buffer : Buffer} (h : buffer.Sound) (edits : List Edit) :
    (edits.foldl Buffer.edit buffer).Sound := by
  induction edits generalizing buffer with
  | nil => exact h
  | cons change edits ih => exact ih (h.edit change)

/-- Whatever was done to it, a buffer ascends and knows its payload. -/
theorem sound_ofEdits (edits : List Edit) : (ofEdits edits).Sound :=
  sound_empty.foldl_edit edits

end Buffer

/-! ### Answers -/

/-- The table gives the buffer's answers: the same entry under every key, and between any
    bounds the same entries, one for each request and none of them a fault. -/
structure Table.AnswersLike (table : Table) (buffer : Buffer) : Prop where
  get?_eq : ∀ key, table.get? key = .ok (buffer.get? key)
  walks : ∀ bounds, ∃ cursor, table.cursor bounds = .ok cursor
    ∧ ∀ n, (cursor.advance n).next.1 = ((buffer.range bounds).map .ok)[n]?

/-- A table in the lexicographic order answers like a sound buffer whose entries it holds. -/
theorem Table.Holds.answersLike {table : Table} {buffer : Buffer} (h : table.Holds buffer.entries)
    (horder : table.order = .lexicographic) (hbuffer : buffer.Sound) : table.AnswersLike buffer := by
  have : Std.TransCmp table.order.compare := by
    rw [horder]
    infer_instance
  have hkeys : table.order.Ascending (keysOf buffer.entries) := by
    rw [horder]
    exact hbuffer.ascending
  constructor
  · intro key
    rw [h.get?_eq hkeys, horder, Buffer.get?_eq]
  · intro bounds
    have hscan := h.scan_eq hkeys bounds
    rw [scan] at hscan
    obtain ⟨cursor, hcursor, hitems⟩ := Answer.map_eq_ok_iff.mp hscan
    refine ⟨cursor, hcursor, ?_⟩
    intro n
    rw [Cursor.answer_eq, hitems, horder, Buffer.range_eq]

namespace Buffer

/-- **A flushed generation answers like the buffer it came from.** Whatever was done to a
    buffer, if it holds anything and a store in the lexicographic order flushes it, with no
    link under the names of the files to be made, then a generation was written and is mapped
    in front of the others. It has the buffer's entry under every key, tombstones included,
    and between any bounds, open or turned round ones too, a walk over it yields just the
    entries of the buffer. Its files have the size that the buffer's count and running size
    tell. -/
theorem answers_of_flush (edits : List Edit) {store flushed : Store} {disk after : Disk}
    {written : Option Generation.Info} (horder : store.order = .lexicographic)
    (hdirect : Generation.Direct store.base disk) (hholds : (ofEdits edits).isEmpty = false)
    (h : Store.flush (.ofBuffer (ofEdits edits)) (store, disk) = .ok written (flushed, after)) :
    ∃ info table, written = some info ∧ flushed.tables = table :: store.tables
      ∧ table.generation = info.index
      ∧ table.AnswersLike (ofEdits edits)
      ∧ info.count = (ofEdits edits).count
      ∧ info.valuesBytes = 16 * (ofEdits edits).count + (ofEdits edits).size
      ∧ info.offsetsBytes = 8 * (ofEdits edits).count := by
  obtain ⟨-, ⟨hempty, -, -⟩ | ⟨size, made, info, left, home, -, rfl, -, hrecorded, hstate⟩⟩ :=
    Store.of_flush_ok_direct h hdirect
  · -- a buffer that holds something is no empty source
    have hnone : (ofEdits edits).isEmpty = true := hempty
    rw [hholds] at hnone
    cases hnone
  cases hstate
  have hsound := sound_ofEdits edits
  have hinfo := hrecorded.info_eq
  have htable : (Volume.table store.order ⟨info.index, (ofEdits edits).entries⟩).Holds
      (ofEdits edits).entries := hrecorded.holds store.order
  refine ⟨info, _, rfl, rfl, rfl, htable.answersLike horder hsound, ?_, ?_, ?_⟩
  · rw [hinfo]
    rfl
  · rw [hinfo]
    exact hsound.length_records
  · rw [hinfo]
    exact Generation.length_slots _

/-- A buffer that was cleared, filled, and in which one key was written over and one deleted,
    flushed to an empty disk. -/
theorem answers_of_flush_overwritten :
    let edits : List Edit := [.put [9] [9], .clear, .put [1] [10], .put [2] [20, 21],
      .upsert (.live [1] []), .delete [2], .put [3] [30]]
    let store : Store := ⟨.ofText [] "/d/s", .lexicographic, [], false, false⟩
    store.order = .lexicographic ∧ Generation.Direct store.base Disk.empty
      ∧ (ofEdits edits).isEmpty = false
      ∧ ∃ info table flushed after, Store.flush (.ofBuffer (ofEdits edits)) (store, Disk.empty)
          = .ok (some info) (flushed, after)
        ∧ flushed.tables = [table]
        ∧ table.get? [1] = .ok (some (.live [1] []))
        ∧ table.get? [2] = .ok (some (.tombstone [2]))
        ∧ table.get? [9] = .ok none
        ∧ (∃ cursor, table.cursor ⟨some [2], none⟩ = .ok cursor
          ∧ cursor.next.1 = some (.ok (.tombstone [2]))
          ∧ (cursor.advance 1).next.1 = some (.ok (.live [3] [30]))
          ∧ (cursor.advance 2).next.1 = none)
        ∧ info.count = 3 ∧ info.valuesBytes = 52 ∧ info.offsetsBytes = 24 := by
  intro edits store
  have hdirect : Generation.Direct store.base Disk.empty :=
    Generation.direct_of_hasLink (by decide) rfl
  have hholds : (ofEdits edits).isEmpty = false := by decide
  have htried : Action.okWith (fun _ _ => true) (Store.flush (.ofBuffer (ofEdits edits)))
      (store, Disk.empty) = true := by decide +kernel
  obtain ⟨written, ⟨flushed, after⟩, hflush, -⟩ := Action.of_okWith htried
  obtain ⟨info, table, rfl, htables, -, hanswers, hcount, hvalues, hoffsets⟩ :=
    answers_of_flush edits rfl hdirect hholds hflush
  have hget := hanswers.get?_eq
  obtain ⟨cursor, hcursor, hwalk⟩ := hanswers.walks ⟨some [2], none⟩
  refine ⟨rfl, hdirect, hholds, info, table, flushed, after, hflush, htables, ?_, ?_, ?_,
    ⟨cursor, hcursor, ?_, ?_, ?_⟩, hcount, hvalues, hoffsets⟩
  · rw [hget]
    rfl
  · rw [hget]
    rfl
  · rw [hget]
    rfl
  · exact hwalk 0
  · rw [hwalk]
    rfl
  · rw [hwalk]
    rfl

end Buffer

end LayeredStore
