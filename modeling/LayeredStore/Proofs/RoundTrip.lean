import LayeredStore.Proofs.Mapping

namespace LayeredStore

/-!
# A generation is read back as it was written

Entries in any order, with repeated and empty keys, are written as a generation exactly where
their records and slots fit in the two files; else the file that is too short is reported. What
was written holds nothing besides, whatever the capacity was, and gives back every entry.

* `recordSum` — the sizes of the records of a sequence of entries, in full;
* `Generation.slots_eq` — the slots are the sums of the sizes of the records before each;
* `IsShort` — the report of a file that is too short;
* `Draft.short_of_writeAll_error`, `Generation.Pair.short_of_fill_error` — why fields and
  entries are not put into files;
* `Generation.Creatable`, `Generation.ReadsBack` — where a generation can be written, and how
  it is read then;
* `Generation.write_reads_back` — the law for any entries and any capacity.
-/

/-! ### Sums of sizes -/

/-- The sizes of the records of a sequence of entries, in full. -/
def recordSum : List Entry → Nat
  | [] => 0
  | e :: entries => e.recordSize + recordSum entries

namespace Generation

/-- In full that is sixteen bytes for each entry, and the payload of all. -/
theorem recordSum_eq (entries : List Entry) :
    recordSum entries = 16 * entries.length + payloadSum entries := by
  induction entries with
  | nil => rfl
  | cons e entries ih =>
    rw [recordSum, ih, payloadSum, List.length_cons, Entry.recordSize, recordHeaderSize, Word.size]
    omega

theorem length_records_eq (entries : List Entry) :
    (records entries).length = recordSum entries := by
  rw [length_records, recordSum_eq]

theorem slotsFrom_eq (start : Nat) (entries : List Entry) :
    slotsFrom start entries = (List.range entries.length).flatMap fun i =>
      Word.encode (start + recordSum (entries.take i)) := by
  induction entries generalizing start with
  | nil => rfl
  | cons e entries ih =>
    rw [slotsFrom, ih, List.length_cons, List.range_succ_eq_map, List.flatMap_cons,
      List.flatMap_map]
    simp only [List.take_zero, List.take_succ_cons, recordSum, Nat.add_zero, Nat.add_assoc]

/-- The slots are, one behind the other, the sums of the sizes of the records before each. -/
theorem slots_eq (entries : List Entry) : slots entries = (List.range entries.length).flatMap
    fun i => Word.encode (recordSum (entries.take i)) := by
  rw [slots, slotsFrom_eq]
  simp only [Nat.zero_add]

end Generation

/-! ### What does not fit -/

/-- Key and value are no longer than a byte string can be. -/
def Entry.IsSized (e : Entry) : Prop :=
  e.key.length < Word.signedLimit ∧ ∀ value ∈ e.value, value.length < Word.signedLimit

/-- The report of a file of one of two lengths that is too short for what it should hold. -/
def IsShort (values offsets : Nat) (fault : Fault) : Prop :=
  ∃ capacity needed, (capacity = values ∨ capacity = offsets) ∧ capacity < needed
    ∧ fault = .exhausted needed capacity

theorem Entry.IsSized.length_lt {e : Entry} (h : e.IsSized) :
    ∀ field ∈ e.fields, field.length < Word.signedLimit := by
  obtain ⟨key, value⟩ := e
  obtain ⟨hkey, hvalue⟩ := h
  have hword : 8 < Word.signedLimit := by decide
  cases value with
  | none => simp [fields, hword, hkey]
  | some value => simp [fields, hword, hkey, hvalue value rfl]

namespace Draft

variable {draft after : Draft} {bytes : Bytes} {fields : List Bytes} {offset : Nat} {fault : Fault}

/-- Bytes that were not put into a draft would have ended behind it: no sum on the way leaves
    the range of a word. -/
theorem short_of_write_error (hoffset : offset ≤ draft.length)
    (hdraft : draft.length < Word.signedLimit) (hbytes : bytes.length < Word.signedLimit)
    (h : write offset bytes draft = .error fault after) :
    ∃ needed, draft.length < needed ∧ fault = .exhausted needed draft.length := by
  have hlimit := Word.limit_eq
  obtain ⟨-, ⟨hover, -⟩ | ⟨-, hshort, rfl⟩⟩ := write_error_iff.mp h
  · omega
  · exact ⟨_, hshort, rfl⟩

/-- Fields that were not all put into a draft would have ended behind it. -/
theorem short_of_writeAll_error (hoffset : offset ≤ draft.length)
    (hdraft : draft.length < Word.signedLimit)
    (hfields : ∀ field ∈ fields, field.length < Word.signedLimit)
    (h : writeAll offset fields draft = .error fault after) :
    ∃ needed, draft.length < needed ∧ fault = .exhausted needed draft.length := by
  -- over the fields; those that were put before leave the draft at its length
  induction fields generalizing offset draft with
  | nil => cases h
  | cons field fields ih =>
    obtain ⟨hfield, hfields⟩ := List.forall_mem_cons.mp hfields
    rcases Action.of_bind_error h with h | ⟨stop, between, hwrite, h⟩
    · exact short_of_write_error hoffset hdraft hfield h
    · obtain ⟨_, hstop, hlength⟩ := of_write_ok hwrite
      rw [← hlength] at hstop hdraft ⊢
      exact ih hstop hdraft hfields h

end Draft

namespace Generation

namespace Pair

variable {entries : List Entry} {done : Progress} {pair after : Pair} {fault : Fault}

/-- Entries that were not all written would have ended behind one of the files. -/
theorem short_of_append_error (hsized : ∀ e ∈ entries, e.IsSized)
    (hvalues : done.values ≤ pair.values.length) (hoffsets : done.offsets ≤ pair.offsets.length)
    (hvaluesLimit : pair.values.length < Word.signedLimit)
    (hoffsetsLimit : pair.offsets.length < Word.signedLimit)
    (h : append done (entries.map .ok) pair = .error fault after) :
    IsShort pair.values.length pair.offsets.length fault := by
  -- over the entries; what was written before leaves both files at their lengths
  induction entries generalizing done pair with
  | nil => cases h
  | cons e entries ih =>
    obtain ⟨he, hsized⟩ := List.forall_mem_cons.mp hsized
    rw [List.map_cons, append] at h
    rcases Action.of_within_bind_error h with ⟨values, hrecord, _⟩ | ⟨stop, values, hrecord, h⟩
    · obtain ⟨needed, hneeded, rfl⟩ :=
        Draft.short_of_writeAll_error hvalues hvaluesLimit he.length_lt hrecord
      exact ⟨_, needed, .inl rfl, hneeded, rfl⟩
    obtain ⟨_, hstop, hvaluesLength⟩ := Draft.of_writeAll_ok hvalues hrecord
    rcases Action.of_within_bind_error h with ⟨offsets, hslot, _⟩ | ⟨behind, offsets, hslot, h⟩
    · obtain ⟨needed, hneeded, rfl⟩ := Draft.short_of_write_error hoffsets hoffsetsLimit
        (by rw [Word.length_encode]; decide) hslot
      exact ⟨_, needed, .inr rfl, hneeded, rfl⟩
    obtain ⟨_, hbehind, hoffsetsLength⟩ := Draft.of_write_ok hslot
    dsimp only at hoffsetsLength hbehind
    have hrest : IsShort values.length offsets.length fault :=
      ih hsized (by dsimp only; omega) (by dsimp only; omega) (by dsimp only; omega)
        (by dsimp only; omega) h
    rwa [hvaluesLength, hoffsetsLength] at hrest

/-- The filling of two files fails only while entries are written, and then because one of
    the files is too short. -/
theorem short_of_fill_error (hsized : ∀ e ∈ entries, e.IsSized)
    (hvaluesLimit : pair.values.length < Word.signedLimit)
    (hoffsetsLimit : pair.offsets.length < Word.signedLimit)
    (h : fill (entries.map .ok) pair = .error fault after) :
    IsShort pair.values.length pair.offsets.length fault := by
  cases happend : append ⟨0, 0, 0⟩ (entries.map .ok) pair with
  | error cause between =>
    have hfill : fill (entries.map .ok) pair = .error cause between := Action.bind_error happend
    rw [h] at hfill
    cases hfill
    exact short_of_append_error hsized (Nat.zero_le _) (Nat.zero_le _) hvaluesLimit hoffsetsLimit
      happend
  | ok done between =>
    -- entries that were written have fitted, and then nothing else fails
    obtain ⟨hvalues, hoffsets⟩ := fits_of_append (Nat.zero_le _) (Nat.zero_le _) happend
    rw [Nat.zero_add] at hvalues hoffsets
    have hfill := fill_fits hvalues hoffsets hvaluesLimit hoffsetsLimit
    rw [h] at hfill
    cases hfill

end Pair

/-! ### Files that are written and read -/

variable {disk : Disk} {folder : Path} {index : Nat} {entries : List Entry} {capacity : Footprint}
  {valuesPlace offsetsPlace : Place}

/-- Both files of the generation can be made, anew or in the place of old ones, and they are two
    files, also where the names are links. -/
def Creatable (disk : Disk) (folder : Path) (index : Nat) : Prop :=
  ∃ valuesPlace offsetsPlace made made', valuesPlace ≠ offsetsPlace
    ∧ Disk.makeFile (folder.child (fileName valuesLabel index)) disk = .ok valuesPlace made
    ∧ Disk.makeFile (folder.child (fileName offsetsLabel index)) disk = .ok offsetsPlace made'

/-- The files of the generation are the records of the entries and where these begin, and
    they are read as the entries. -/
structure ReadsBack (disk : Disk) (folder : Path) (order : KeyOrder) (index : Nat)
    (entries : List Entry) : Prop where
  values_eq : disk.contentOf (folder.child (fileName valuesLabel index))
    = .ok (entries.flatMap Entry.encode)
  offsets_eq : disk.contentOf (folder.child (fileName offsetsLabel index))
    = .ok ((List.range entries.length).flatMap fun i => Word.encode (recordSum (entries.take i)))
  opened : ∃ table, Store.openTable disk folder order index = .ok table
    ∧ table.generation = index ∧ table.count = entries.length
    ∧ ∀ i (h : i < entries.length),
      table.entryAt i = .ok entries[i] ∧ table.keyAt i = .ok entries[i].key

theorem Creatable.fitsAt (h : Creatable disk folder index)
    (hvalues : capacity.valuesBytes < Word.signedLimit)
    (hoffsets : capacity.offsetsBytes < Word.signedLimit) :
    ∃ valuesPlace offsetsPlace, valuesPlace ≠ offsetsPlace
      ∧ FitsAt folder index valuesPlace offsetsPlace capacity disk := by
  obtain ⟨valuesPlace, offsetsPlace, _, _, hne, hvaluesMade, hoffsetsMade⟩ := h
  exact ⟨valuesPlace, offsetsPlace, hne, Disk.of_makeFile_ok hvaluesMade,
    Disk.of_makeFile_ok hoffsetsMade, hvalues, hoffsets⟩

/-- Records and slots that were written to two files are read as the entries. -/
theorem WrittenAt.readsBack {after : Disk}
    (h : WrittenAt valuesPlace offsetsPlace disk after (records entries) (slots entries))
    (hmade : FitsAt folder index valuesPlace offsetsPlace capacity disk)
    (hne : valuesPlace ≠ offsetsPlace) (hfits : (records entries).length < Word.signedLimit)
    (order : KeyOrder) : ReadsBack after folder order index entries := by
  obtain ⟨hvalues, hoffsets⟩ := h.find_eq hmade hne
  refine ⟨?_, ?_, ?_⟩
  · rw [Disk.contentOf, hvalues]
    rfl
  · rw [Disk.contentOf, hoffsets, ← slots_eq]
  · refine ⟨_, Store.openTable_of_find ⟨index, entries⟩ hvalues hoffsets order, rfl, ?_,
      fun i hi => ?_⟩
    · exact Table.Holds.count_eq ⟨rfl, rfl, hfits⟩
    · -- the entry stands behind those before it
      have hsplit : entries = entries.take i ++ entries[i] :: entries.drop (i + 1) := by
        rw [List.getElem_cons_drop, List.take_append_drop]
      have hholds : (Volume.table order ⟨index, entries⟩).Holds
          (entries.take i ++ entries[i] :: entries.drop (i + 1)) := by
        rw [← hsplit]
        exact ⟨rfl, rfl, hfits⟩
      have hlength : (entries.take i).length = i := List.length_take_of_le (Nat.le_of_lt hi)
      have hentry := hholds.entryAt_eq
      have hkey := hholds.keyAt_eq
      rw [hlength] at hentry hkey
      exact ⟨hentry, hkey⟩

/-- Entries that fit are written and then read back. -/
theorem write_fits (h : FitsAt folder index valuesPlace offsetsPlace capacity disk)
    (hne : valuesPlace ≠ offsetsPlace) (hvalues : recordSum entries ≤ capacity.valuesBytes)
    (hoffsets : 8 * entries.length ≤ capacity.offsetsBytes) (order : KeyOrder) :
    ∃ after, write folder index (entries.map .ok) capacity disk
        = .ok ⟨index, entries.length, recordSum entries, 8 * entries.length⟩ after
      ∧ ReadsBack after folder order index entries := by
  rw [← length_records_eq] at hvalues ⊢
  obtain ⟨after, hwrite, hwritten⟩ := write_entries_at h hvalues hoffsets
  rw [length_slots] at hwrite
  exact ⟨after, hwrite,
    hwritten.readsBack h hne (Nat.lt_of_le_of_lt hvalues h.values_lt) order⟩

/-- Entries that do not fit are not written, because one of the files is too short. -/
theorem write_short (h : FitsAt folder index valuesPlace offsetsPlace capacity disk)
    (hsized : ∀ e ∈ entries, e.IsSized)
    (hshort : ¬ (recordSum entries ≤ capacity.valuesBytes
      ∧ 8 * entries.length ≤ capacity.offsetsBytes)) :
    ∃ fault after, write folder index (entries.map .ok) capacity disk = .error fault after
      ∧ IsShort capacity.valuesBytes capacity.offsetsBytes fault := by
  obtain ⟨after, hwrite, _⟩ := write_at h (entries.map .ok)
  cases hfill : Pair.fill (entries.map .ok)
      ⟨Bytes.zeros capacity.valuesBytes, Bytes.zeros capacity.offsetsBytes⟩ with
  | ok done pair =>
    obtain ⟨hvalues, hoffsets⟩ := Pair.fits_of_fill hfill
    rw [Bytes.length_zeros] at hvalues hoffsets
    rw [length_records_eq] at hvalues
    exact absurd ⟨hvalues, hoffsets⟩ hshort
  | error fault pair =>
    rw [Action.perform_error hfill] at hwrite
    have hfault := Pair.short_of_fill_error hsized (by rw [Bytes.length_zeros]; exact h.values_lt)
      (by rw [Bytes.length_zeros]; exact h.offsets_lt) hfill
    rw [Bytes.length_zeros, Bytes.length_zeros] at hfault
    exact ⟨fault, after, hwrite, hfault⟩

/-- **A generation is read back as it was written.** Where both files can be made, any entries
    are written exactly if their records and slots fit in the capacity, and the writing says how
    much it wrote; else it reports the file that is too short. The files then are the records,
    one behind the other, and the sums of their sizes, whatever the capacity was, and every entry
    and key is read back. Entries always fit in the capacity that they are measured at, and fill
    it. -/
theorem write_reads_back (hfiles : Creatable disk folder index)
    (hsized : ∀ e ∈ entries, e.IsSized) (hvalues : capacity.valuesBytes < Word.signedLimit)
    (hoffsets : capacity.offsetsBytes < Word.signedLimit) (order : KeyOrder) :
    (recordSum entries ≤ capacity.valuesBytes ∧ 8 * entries.length ≤ capacity.offsetsBytes →
        ∃ after, write folder index (entries.map .ok) capacity disk
            = .ok ⟨index, entries.length, recordSum entries, 8 * entries.length⟩ after
          ∧ ReadsBack after folder order index entries)
      ∧ (¬ (recordSum entries ≤ capacity.valuesBytes ∧ 8 * entries.length ≤ capacity.offsetsBytes) →
        ∃ fault after, write folder index (entries.map .ok) capacity disk = .error fault after
          ∧ IsShort capacity.valuesBytes capacity.offsetsBytes fault)
      ∧ (recordSum entries < Word.signedLimit →
        ∃ size after, Footprint.measure entries = .ok size
          ∧ size = ⟨entries.length, recordSum entries, 8 * entries.length⟩
          ∧ write folder index (entries.map .ok) size disk
            = .ok ⟨index, size.count, size.valuesBytes, size.offsetsBytes⟩ after
          ∧ ReadsBack after folder order index entries) := by
  obtain ⟨valuesPlace, offsetsPlace, hne, hfits⟩ := hfiles.fitsAt hvalues hoffsets
  refine ⟨fun h => write_fits hfits hne h.1 h.2 order, write_short hfits hsized, fun hsum => ?_⟩
  have hmeasure : Footprint.measure entries
      = .ok ⟨entries.length, recordSum entries, 8 * entries.length⟩ := by
    rw [Footprint.measure_eq (by rw [length_records_eq]; exact Word.lt_limit hsum),
      length_records_eq, length_slots]
  -- a record is longer than its slot, so the slots fit in a file where the records do
  have hslots := length_le_records entries
  rw [length_records_eq] at hslots
  have hmeasured : FitsAt folder index valuesPlace offsetsPlace
      ⟨entries.length, recordSum entries, 8 * entries.length⟩ disk :=
    { hfits with values_lt := hsum, offsets_lt := by dsimp only; omega }
  obtain ⟨after, hwrite, hread⟩ :=
    write_fits hmeasured hne (Nat.le_refl _) (Nat.le_refl _) order
  exact ⟨_, after, hmeasure, rfl, hwrite, hread⟩

/-- Entries that are neither ascending nor different, with an empty key and an empty value, in
    the place of an older file: they are read back from files with room to spare, and a values
    file with a byte less than they need is reported. -/
theorem write_reads_back_unsorted :
    let disk := Disk.empty.put ["values3"] (.file [9, 9, 9])
    let base := Path.ofText [] "/"
    let entries : List Entry := [.live [2] [7, 8], .tombstone [1], .live [] [], .live [2] [7, 8]]
    (∃ after, write base 3 (entries.map .ok) ⟨0, 100, 40⟩ disk = .ok ⟨3, 4, 71, 32⟩ after
        ∧ ReadsBack after base .lexicographic 3 entries)
      ∧ (∃ fault after, write base 3 (entries.map .ok) ⟨0, 70, 32⟩ disk = .error fault after
        ∧ IsShort 70 32 fault)
      ∧ ∃ size after, Footprint.measure entries = .ok size
        ∧ write base 3 (entries.map .ok) size disk = .ok ⟨3, 4, 71, 32⟩ after := by
  intro disk base entries
  have hfiles : Creatable disk base 3 := by
    have hmade : ∀ label ∈ labels,
        disk.CanMake (base.child (fileName label 3)) (filePlace [] label 3) := by
      intro label hlabel
      refine Disk.canMake_child (plain_fileName hlabel (by decide)) (Disk.hasFolder_root disk) ?_
      rcases List.mem_pair.mp hlabel with rfl | rfl <;> decide +kernel
    exact ⟨_, _, _, _, filePlace_ne (by decide),
      Disk.makeFile_eq (hmade _ values_mem_labels), Disk.makeFile_eq (hmade _ offsets_mem_labels)⟩
  have hsized : ∀ e ∈ entries, e.IsSized := by simp [entries, Entry.IsSized, Entry.live,
    Entry.tombstone, Word.signedLimit]
  obtain ⟨hroomy, -, hmeasured⟩ := @write_reads_back disk base 3 entries ⟨0, 100, 40⟩ hfiles
    hsized (by decide) (by decide) .lexicographic
  obtain ⟨-, hshort, -⟩ := @write_reads_back disk base 3 entries ⟨0, 70, 32⟩ hfiles
    hsized (by decide) (by decide) .lexicographic
  obtain ⟨size, after, hmeasure, rfl, hwrite, -⟩ := hmeasured (by decide)
  exact ⟨hroomy (by decide), hshort (by decide), _, after, hmeasure, hwrite⟩

end Generation

end LayeredStore
