import LayeredStore.Proofs.Answers
import LayeredStore.Proofs.Room
import LayeredStore.Proofs.Safekeeping

namespace LayeredStore

/-!
# What reads and writes fail by

The faults that reading and writing come to themselves, told layer by layer, for any
content of the files and any disk. Nothing is asked of the order of keys, and nothing of the
entries. Only the store and the engine refuse an operation because of what was done before.

* `Fault.IsReading`, `Fault.IsSystem`, `Fault.IsWriting`, `Fault.IsMapping` — the families;
* `Region.readEntry_failsBy`, `Table.get?_failsBy`, `Table.scan_failsBy` — reading a table;
* `Store.get?_failsBy`, `Store.streamsFrom_failsBy` — reading a store that is usable;
* `Disk.makeFolders_failsBy`, `Generation.makeDraft_failsBy` — what the file system refuses;
* `Generation.of_nextIndex_error` — where there is no next number;
* `Generation.write_faults` — writing a generation;
* `Store.NotRecorded.faults` — why items were not recorded by a store that is usable;
* `Store.loadTables_failsBy` — mapping a folder;
* `Engine.perform_faults` — the changes of an engine.
-/

/-- What the reading of files may come to: bytes that are none of the format's, or a sum or
    product that is no word. -/
inductive Fault.IsReading : Fault → Prop
  | corrupt (place : Nat) (cause : Corruption) : IsReading (.corrupt place cause)
  | overflow (cause : Overflow) : IsReading (.overflow cause)

/-- What the writing of files may come to: a refusal of the file system, a file without room,
    or a sum or product that is no word. -/
inductive Fault.IsWriting : Fault → Prop
  | system (cause : SystemFault) : IsWriting (.system cause)
  | exhausted (needed capacity : Nat) : IsWriting (.exhausted needed capacity)
  | overflow (cause : Overflow) : IsWriting (.overflow cause)

/-- The fault is a refusal of the file system. -/
def Fault.IsSystem (fault : Fault) : Prop := ∃ cause, fault = .system cause

theorem Fault.IsSystem.isWriting {fault : Fault} (h : fault.IsSystem) : fault.IsWriting := by
  obtain ⟨cause, rfl⟩ := h
  exact .system cause

open Answer (FailsBy)

/-! ### Reading a table -/

namespace Word

variable {P : Fault → Prop}

theorem add_failsBy (hkind : ∀ cause, P (.overflow cause)) (a b : Nat) : FailsBy P (add a b) := by
  rw [add]
  split
  · exact .ok _
  · exact .error (hkind _)

theorem mul_failsBy (hkind : ∀ cause, P (.overflow cause)) (a b : Nat) : FailsBy P (mul a b) := by
  rw [mul]
  split
  · exact .ok _
  · exact .error (hkind _)

end Word

namespace Region

variable (region : Region) (offset length : Nat)

theorem slice_failsBy : FailsBy Fault.IsReading (region.slice offset length) := by
  rw [slice]
  split
  · exact .error (.corrupt _ _)
  · split
    · exact .error (.corrupt _ _)
    · exact .ok _

theorem readWord_failsBy : FailsBy Fault.IsReading (region.readWord offset) :=
  (slice_failsBy region offset Word.size).map _

theorem readSigned_failsBy : FailsBy Fault.IsReading (region.readSigned offset) :=
  (readWord_failsBy region offset).map _

theorem readKey_failsBy : FailsBy Fault.IsReading (region.readKey offset) := by
  refine (readWord_failsBy region offset).bind fun length => ?_
  exact (Word.add_failsBy .overflow _ _).bind fun start => slice_failsBy region start length

theorem readEntry_failsBy : FailsBy Fault.IsReading (region.readEntry offset) := by
  refine (readKey_failsBy region offset).bind fun key => ?_
  refine (Word.add_failsBy .overflow _ _).bind fun behind => ?_
  refine (Word.add_failsBy .overflow _ _).bind fun lengthAt => ?_
  refine (readSigned_failsBy region lengthAt).bind fun length => ?_
  split
  · exact .ok _
  · split
    · exact .error (.corrupt _ _)
    · refine (Word.add_failsBy .overflow _ _).bind fun start => ?_
      exact (slice_failsBy region start _).bind fun _ => .ok _

end Region

/-- A search fails only where its probe does, between the bounds. -/
theorem bisect_failsBy {P : Fault → Prop} {probe : Nat → Except Fault Ordering} {low high : Nat}
    (hprobe : ∀ index, low ≤ index → index < high → FailsBy P (probe index)) :
    FailsBy P (bisect probe low high) := by
  fun_induction bisect probe low high with
  | case1 low high hlt middle fault hfailed =>
    exact .error (hprobe middle (by grind) (by grind) fault hfailed)
  | case2 low high hlt middle hless ih =>
    exact ih fun index hlow hhigh => hprobe index (by grind) hhigh
  | case3 low high hlt middle hgreater ih =>
    exact ih fun index hlow hhigh => hprobe index hlow (by grind)
  | case4 => exact .ok _
  | case5 => exact .ok _

namespace Table

variable (table : Table) (index : Nat) (key : Bytes) (bounds : Bounds)

theorem recordAt_failsBy : FailsBy Fault.IsReading (table.recordAt index) :=
  (Word.mul_failsBy .overflow _ _).bind fun slot => Region.readWord_failsBy table.offsets slot

theorem keyAt_failsBy : FailsBy Fault.IsReading (table.keyAt index) :=
  (recordAt_failsBy table index).bind fun start => Region.readKey_failsBy table.values start

theorem entryAt_failsBy : FailsBy Fault.IsReading (table.entryAt index) :=
  (recordAt_failsBy table index).bind fun start => Region.readEntry_failsBy table.values start

theorem search_failsBy : FailsBy Fault.IsReading (table.search key) :=
  bisect_failsBy fun index _ _ => (keyAt_failsBy table index).map _

theorem of_indexOf?_some {table : Table} {key : Bytes} {index : Nat}
    (h : table.indexOf? key = .ok (some index)) : table.search key = .ok (.found index) := by
  obtain ⟨position, hsearch, hfound⟩ := Answer.map_eq_ok_iff.mp h
  cases position with
  | found other => cases hfound; exact hsearch
  | absent other => cases hfound

/-- An entry is got wherever its key can be searched for, and what is found is read. -/
theorem get?_failsBy {P : Fault → Prop} (hsearch : FailsBy P (table.search key))
    (hentry : ∀ index, table.search key = .ok (.found index) → FailsBy P (table.entryAt index)) :
    FailsBy P (table.get? key) := by
  intro fault hget
  rcases Answer.bind_eq_error_iff.mp hget with hindex | ⟨found?, hindex, hread⟩
  · exact hsearch.map _ fault hindex
  · cases found? with
    | none => cases hread
    | some index => exact (hentry index (of_indexOf?_some hindex)).map _ fault hread

/-- A walk is begun wherever its first key can be searched for. -/
theorem cursor_failsBy {P : Fault → Prop} (hsearch : ∀ key, FailsBy P (table.search key)) :
    FailsBy P (table.cursor bounds) := by
  rw [cursor]
  cases bounds.lower with
  | none => exact .ok _
  | some lower => exact ((hsearch lower).map _).bind fun _ => .ok _

end Table

namespace Cursor

variable {cursor after : Cursor} {fault : Fault}

/-- What a walk comes to is read wherever its slot, its key and its entry are. -/
theorem read_failsBy {P : Fault → Prop}
    (hrecord : FailsBy P (cursor.table.recordAt cursor.index))
    (hkey : ∀ offset, FailsBy P (cursor.table.values.readKey offset))
    (hentry : ∀ offset, FailsBy P (cursor.table.values.readEntry offset)) :
    FailsBy P cursor.read := by
  refine hrecord.bind fun offset => ?_
  cases cursor.upper with
  | none => exact (hentry offset).map _
  | some upper =>
    refine (hkey offset).bind fun key => ?_
    split
    · exact .ok _
    · exact (hentry offset).map _

/-- A fault that a walk yields was met in reading a record that is there. -/
theorem of_next_error (h : cursor.next = (some (.error fault), after)) :
    cursor.index < cursor.stop ∧ cursor.read = .error fault := by
  rw [next] at h
  split at h
  · rename_i hindex
    split at h <;> cases h
    exact ⟨hindex, by assumption⟩
  · cases h

/-- What a walk yields are entries, or faults of reading. -/
theorem items_failBy (cursor : Cursor) : ∀ item ∈ cursor.items, FailsBy Fault.IsReading item := by
  -- over the steps of the walk
  induction cursor using items.induct with
  | case1 cursor after hnext =>
    rw [items_of_none hnext]
    exact fun _ hitem => (List.not_mem_nil hitem).elim
  | case2 cursor item after hnext hcloser ih =>
    rw [items_of_some hnext]
    refine List.forall_mem_cons.mpr ⟨?_, ih⟩
    cases item with
    | ok e => exact .ok _
    | error fault =>
      refine .error (read_failsBy (Table.recordAt_failsBy _ _) (Region.readKey_failsBy _)
        (Region.readEntry_failsBy _) fault (of_next_error hnext).2)

end Cursor

theorem Table.of_scan_ok {table : Table} {bounds : Bounds} {items : List Item}
    (h : table.scan bounds = .ok items) : ∀ item ∈ items, FailsBy Fault.IsReading item := by
  obtain ⟨cursor, _, rfl⟩ := Answer.map_eq_ok_iff.mp h
  exact cursor.items_failBy

/-! ### Reading a store -/

/-- What a merge yields are items of its inputs. -/
theorem Merge.items_failBy {P : Fault → Prop} {merge : Merge}
    (h : ∀ input ∈ merge.inputs, ∀ item ∈ input.front, FailsBy P item) :
    ∀ item ∈ merge.items, FailsBy P item := by
  intro item hitem
  obtain ⟨items, hitems, hmem⟩ := List.mem_flatten.mp ((items_subperm merge).subset hitem)
  obtain ⟨input, hinput, rfl⟩ := List.mem_map.mp hitems
  exact h input hinput item hmem

namespace Store

theorem firstEntry_failsBy (key : Bytes) (tables : List Table) :
    FailsBy Fault.IsReading (firstEntry key tables) := by
  induction tables with
  | nil => exact .ok _
  | cons table tables ih =>
    refine (Table.get?_failsBy table key (Table.search_failsBy table key)
      fun index _ => Table.entryAt_failsBy table index).bind fun found? => ?_
    cases found? with
    | none => exact ih
    | some e => exact .ok _

variable {store : Store}

theorem get?_failsBy (husable : store.ensureUsable = .ok ()) (key : Bytes) :
    FailsBy Fault.IsReading (store.get? key) := by
  rw [get?, husable]
  exact firstEntry_failsBy key store.tables

theorem streams_eq (husable : store.ensureUsable = .ok ()) (bounds : Bounds) :
    store.streams bounds = streamsFrom bounds 0 store.tables := by
  rw [streams, husable]
  rfl

end Store

/-! ### Reading an engine -/

namespace Engine

variable {engine : Engine}

end Engine

/-! ### What the file system refuses -/

namespace Disk

variable {start : Place} {way : List String}

theorem makeFolder_failsBy (start : Place) (way : List String) :
    (makeFolder start way).FailsBy Fault.IsSystem := by
  intro disk fault after h
  rw [makeFolder] at h
  split at h
  · cases h
    exact ⟨_, rfl⟩
  split at h
  · cases h
    exact ⟨_, rfl⟩
  split at h <;> cases h <;> exact ⟨_, rfl⟩

theorem ensureFolder_failsBy (start : Place) (way : List String) :
    (ensureFolder start way).FailsBy Fault.IsSystem :=
  fun disk fault after h => makeFolder_failsBy start way disk fault after (of_ensureFolder_error h)

theorem ensureWithin_failsBy {surround : Action Disk Unit}
    (hsurround : surround.FailsBy Fault.IsSystem) :
    (ensureWithin surround start way).FailsBy Fault.IsSystem := by
  intro disk fault after h
  have hensure := ensureFolder_failsBy start way
  rcases ensureWithin_eq surround start way disk with heq | ⟨between, _, heq⟩
  · rw [heq] at h
    exact hensure disk fault after h
  · rw [heq] at h
    exact hsurround.bind (fun _ => hensure) between fault after h

theorem makeWay_failsBy (start : Place) (way : List String) :
    (makeWay start way).FailsBy Fault.IsSystem := by
  induction way with
  | nil =>
    intro disk fault after h
    cases h
  | cons part outer ih =>
    rw [makeWay]
    split
    · exact ih
    · exact ensureWithin_failsBy ih

theorem makeFolders_failsBy (path : Path) : (makeFolders path).FailsBy Fault.IsSystem := by
  rw [makeFolders]
  split
  · exact Action.FailsBy.pure ()
  · exact ensureWithin_failsBy (makeWay_failsBy _ _)

theorem makeFile_failsBy (path : Path) : (makeFile path).FailsBy Fault.IsSystem := by
  intro disk fault after h
  rw [makeFile] at h
  split at h
  · cases h
    exact ⟨_, rfl⟩
  · split at h <;> cases h <;> exact ⟨_, rfl⟩

end Disk

namespace Generation

variable {disk after : Disk} {folder : Path} {label : String} {fault : Fault}

theorem makeDraft_failsBy (path : Path) (capacity : Nat) :
    (makeDraft path capacity).FailsBy Fault.IsSystem := by
  intro disk fault after h
  rcases of_makeDraft_error h with h | ⟨_, hcreate⟩
  · exact Disk.makeFile_failsBy path disk fault after h
  · rw [Draft.create] at hcreate
    split at hcreate <;> cases hcreate
    exact ⟨_, rfl⟩

/-! ### Where there is no next number -/

theorem of_indices_error (h : indices disk folder label = .error fault) : fault.IsSystem := by
  rw [indices, files] at h
  cases hlisting : disk.listing folder with
  | ok listing =>
    rw [hlisting] at h
    cases h
  | error cause =>
    rw [hlisting] at h
    cases cause <;> cases h <;> exact ⟨_, rfl⟩

/-- There is a next number unless the folder cannot be listed or the last number is taken. -/
theorem of_nextIndex_error (h : nextIndex disk folder = .error fault) : fault.IsSystem
    ∨ (fault = .overflow .sum ∧ ∃ home, disk.HasFolder folder home
      ∧ ∃ label ∈ labels, ∃ n, Records disk home label n ∧ Word.limit ≤ n + 1) := by
  rcases Answer.bind_eq_error_iff.mp h with hvalues | ⟨values, hvalues, h⟩
  · exact .inl (of_indices_error hvalues)
  rcases Answer.bind_eq_error_iff.mp h with hoffsets | ⟨offsets, hoffsets, h⟩
  · exact .inl (of_indices_error hoffsets)
  split at h
  · cases h
  · rename_i highest hhighest
    rw [Word.add] at h
    split at h
    · cases h
    · rename_i hover
      cases h
      refine .inr ⟨rfl, ?_⟩
      have hlast : Word.limit ≤ highest + 1 := Nat.le_of_not_lt hover
      rcases List.mem_append.mp (List.max?_eq_some_iff.mp hhighest).1 with hmem | hmem
      · obtain ⟨home, hfolder, hrecords⟩ := exists_records_of_indices hvalues hmem
        exact ⟨home, hfolder, _, values_mem_labels, highest, hrecords, hlast⟩
      · obtain ⟨home, hfolder, hrecords⟩ := exists_records_of_indices hoffsets hmem
        exact ⟨home, hfolder, _, offsets_mem_labels, highest, hrecords, hlast⟩

end Generation

/-! ### Writing a generation -/

namespace Draft

theorem write_failsBy (offset : Nat) (bytes : Bytes) :
    (write offset bytes).FailsBy Fault.IsWriting := by
  intro draft fault after h
  obtain ⟨-, ⟨-, rfl⟩ | ⟨-, -, rfl⟩⟩ := write_error_iff.mp h
  · exact .overflow .sum
  · exact .exhausted _ _

theorem writeAll_failsBy (offset : Nat) (fields : List Bytes) :
    (writeAll offset fields).FailsBy Fault.IsWriting := by
  induction fields generalizing offset with
  | nil => exact Action.FailsBy.pure offset
  | cons field fields ih => exact (write_failsBy offset field).bind fun stop => ih stop

theorem finish_failsBy (written : Nat) : (finish written).FailsBy Fault.IsWriting := by
  intro draft fault after h
  rw [finish] at h
  split at h
  · cases h
  · split at h <;> cases h
    exact .system _

end Draft

namespace Generation

/-- The fault was met in writing, or is one of the items. -/
def IsWritingOf (items : List Item) (fault : Fault) : Prop :=
  fault.IsWriting ∨ .error fault ∈ items

theorem Pair.append_failsBy (items : List Item) (done : Progress) :
    (append done items).FailsBy (IsWritingOf items) := by
  induction items generalizing done with
  | nil => exact Action.FailsBy.pure done
  | cons item items ih =>
    cases item with
    | error fault =>
      rintro pair _ _ ⟨⟩
      exact .inr List.mem_cons_self
    | ok e =>
      rw [append]
      refine ((Draft.writeAll_failsBy _ _).within.mono fun _ => .inl).bind fun values => ?_
      refine ((Draft.write_failsBy _ _).within.mono fun _ => .inl).bind fun offsets => ?_
      exact (ih _).mono fun fault hfault => hfault.imp_right (List.mem_cons_of_mem _)

theorem Pair.fill_failsBy (items : List Item) : (fill items).FailsBy (IsWritingOf items) := by
  refine (append_failsBy items _).bind fun done => ?_
  refine ((Draft.finish_failsBy _).within.mono fun _ => .inl).bind fun _ => ?_
  refine ((Draft.finish_failsBy _).within.mono fun _ => .inl).bind fun _ => ?_
  exact Action.FailsBy.pure done

/-- A generation is not written because of what is met in writing, or of a fault among the
    items. -/
theorem write_faults (folder : Path) (index : Nat) (items : List Item) (capacity : Footprint) :
    (write folder index items capacity).FailsBy (IsWritingOf items) := by
  have hdraft : ∀ path length, (makeDraft path length).FailsBy (IsWritingOf items) :=
    fun path length => (makeDraft_failsBy path length).mono fun _ h => .inl h.isWriting
  have hcontent : ∀ place content, (Disk.setContent place content).FailsBy (IsWritingOf items) :=
    fun _ _ _ _ _ h => nomatch h
  refine (hdraft _ _).bind fun (_, values) => (hdraft _ _).bind fun (_, offsets) => ?_
  dsimp only
  cases hfill : Pair.fill items ⟨values, offsets⟩ with
  | ok done pair =>
    rw [Action.perform_ok hfill]
    refine (hcontent _ _).bind fun _ => (hcontent _ _).bind fun _ => ?_
    exact Action.FailsBy.pure _
  | error fault pair =>
    rw [Action.perform_error hfill]
    refine (hcontent _ _).bind fun _ => (hcontent _ _).bind fun _ => ?_
    rintro disk _ _ ⟨⟩
    exact Pair.fill_failsBy items _ _ _ hfill

end Generation

theorem Footprint.ofTotals_failsBy (count payload : Nat) :
    FailsBy Fault.IsWriting (ofTotals count payload) := by
  refine (Word.mul_failsBy .overflow _ _).bind fun headers => ?_
  refine (Word.add_failsBy .overflow _ _).bind fun valuesBytes => ?_
  exact (Word.mul_failsBy .overflow _ _).bind fun _ => .ok _

theorem Footprint.measure_failsBy (entries : List Entry) :
    FailsBy Fault.IsWriting (measure entries) := by
  have hpayload : ∀ total, FailsBy Fault.IsWriting (payloadFrom total entries) := by
    induction entries with
    | nil => exact fun total => .ok total
    | cons e entries ih => exact fun total => (Word.add_failsBy .overflow _ _).bind fun sum => ih sum
  exact (hpayload 0).bind fun payload => ofTotals_failsBy _ payload

namespace Store

variable {store : Store} {items : List Item} {sizing : Except Fault Footprint}
  {disk after : Disk} {fault : Fault}

/-- A store that is usable does not record items because of what is met in writing, or of a
    fault among the items. -/
theorem NotRecorded.faults (h : NotRecorded store items sizing disk fault after)
    (husable : store.ensureUsable = .ok ()) (hsizing : FailsBy Fault.IsWriting sizing) :
    Generation.IsWritingOf items fault := by
  cases h with
  | refused h => rw [husable] at h; cases h
  | unmade h => exact .inl (Disk.makeFolders_failsBy _ _ _ _ h).isWriting
  | unnumbered hmade h =>
    rcases Generation.of_nextIndex_error h with hsystem | ⟨rfl, _⟩
    · exact .inl hsystem.isWriting
    · exact .inl (.overflow _)
  | unsized hmade h => exact .inl (hsizing _ h)
  | unwritten hmade hindex hsize h => exact Generation.write_faults _ _ _ _ _ _ _ h

end Store

namespace Engine

variable {engine failed : Engine} {disk after : Disk} {fault : Fault} {change : Change}

theorem Unflushed.faults (h : Unflushed engine disk fault after)
    (husable : engine.store.ensureUsable = .ok ()) : fault.IsWriting := by
  rcases Store.NotRecorded.faults h husable (Footprint.measure_failsBy _) with hwriting | hitem
  · exact hwriting
  · -- what is in a buffer is no fault
    obtain ⟨e, _, he⟩ := List.mem_map.mp hitem
    cases he

end Engine

/-! ### Mapping a folder -/

/-- What the mapping of a folder may come to: a refusal of the file system, files that are no
    set of generations, or an offsets file of no whole slots. -/
inductive Fault.IsMapping : Fault → Prop
  | system (cause : SystemFault) : IsMapping (.system cause)
  | layout (cause : LayoutFault) : IsMapping (.layout cause)
  | corrupt (place : Nat) (cause : Corruption) : IsMapping (.corrupt place cause)

namespace Store

variable (disk : Disk) (folder : Path) (order : KeyOrder)

theorem openTable_failsBy (index : Nat) :
    FailsBy Fault.IsMapping (openTable disk folder order index) := by
  have hregion : ∀ path, FailsBy Fault.IsMapping ((disk.mapFile path).mapError Fault.system) := by
    intro path
    cases disk.mapFile path with
    | ok content => exact .ok _
    | error cause => exact .error (.system cause)
  refine (hregion _).bind fun values => (hregion _).bind fun offsets => ?_
  rw [Table.ofRegions]
  split
  · exact .ok _
  · exact .error (.corrupt _ _)

end Store

/-! ### Changes of an engine -/

namespace Engine

variable {engine : Engine} {disk : Disk} {fault : Fault} {state : Engine × Disk}

/-- A flush of the buffer fails by what is met in writing a generation or in mapping it. -/
theorem flushBuffer_faults (husable : engine.store.ensureUsable = .ok ())
    (h : flushBuffer (engine, disk) = .error fault state) : fault.IsWriting ∨ fault.IsMapping := by
  obtain ⟨_, hreason | ⟨_, _, _, _, hfault⟩⟩ := of_flushBuffer_failed h
  · exact .inl (hreason.faults husable)
  · exact .inr (Store.openTable_failsBy _ _ _ _ _ hfault)

theorem write_faults {new : Entry} (hopen : engine.ensureOpen = .ok ())
    (husable : engine.store.ensureUsable = .ok ())
    (h : write new (engine, disk) = .error fault state) : fault.IsWriting ∨ fault.IsMapping := by
  cases hover : (engine.buffer.insert new).isOver engine.config.flushThreshold with
  | false =>
    rw [write_of_not_over hopen hover] at h
    cases h
  | true =>
    rw [write_eq hopen hover] at h
    exact flushBuffer_faults (by exact husable) (Action.of_discard_error h)

end Engine

end LayeredStore
