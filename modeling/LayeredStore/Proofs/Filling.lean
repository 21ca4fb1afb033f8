import LayeredStore.Generation.Writing
import LayeredStore.Proofs.Layout

namespace LayeredStore

/-!
# What the writing of a generation leaves in its files

Records and slots are put one behind the other into files of a given capacity. Where
both fit, the files end up holding exactly the records and the slots; and the writing
only succeeds where both fit.

* `payloadSum` — the payload of a sequence of entries, in full;
* `Footprint.measure_eq` — entries are measured exactly;
* `Draft.writeAll_fits`, `Draft.of_writeAll_ok` — fields that are put into a draft;
* `Generation.Pair.fill_fits`, `Generation.Pair.fits_of_fill` — the two files of a
  generation.
-/

/-! ### The size of entries -/

/-- The bytes of keys and values of a sequence of entries. -/
def payloadSum : List Entry → Nat
  | [] => 0
  | e :: entries => e.payload + payloadSum entries

/-- Each record takes sixteen bytes besides its payload. -/
theorem Generation.length_records (entries : List Entry) :
    (records entries).length = 16 * entries.length + payloadSum entries := by
  induction entries with
  | nil => rfl
  | cons e entries ih =>
    rw [records_cons, List.length_append, Entry.length_encode, ih, payloadSum, List.length_cons,
      Entry.recordSize, recordHeaderSize, Word.size]
    omega

namespace Footprint

/-- The room for a number of records with a given payload, unless it is no word. -/
theorem ofTotals_cases (count payload : Nat) :
    ofTotals count payload = .ok ⟨count, 16 * count + payload, 8 * count⟩
      ∨ (∃ cause, ofTotals count payload = .error (.overflow cause))
        ∧ Word.limit ≤ 16 * count + payload := by
  rw [ofTotals, recordHeaderSize, slotSize, Word.size, Word.mul, Word.mul]
  by_cases hheaders : 16 * count < Word.limit
  · rw [if_pos hheaders, if_pos (by omega)]
    by_cases hvalues : 16 * count + payload < Word.limit
    · have hadd : Word.add (16 * count) payload = .ok (16 * count + payload) :=
        Word.add_of_lt hvalues
      refine .inl ?_
      show (Word.add (16 * count) payload >>= fun values => _) = _
      rw [hadd]
      rfl
    · have hadd : Word.add (16 * count) payload = .error (.overflow .sum) := if_neg hvalues
      refine .inr ⟨⟨.sum, ?_⟩, by omega⟩
      show (Word.add (16 * count) payload >>= fun values => _) = _
      rw [hadd]
      rfl
  · rw [if_neg hheaders]
    exact .inr ⟨⟨.product, rfl⟩, by omega⟩

theorem ofTotals_eq {count payload : Nat} (h : 16 * count + payload < Word.limit) :
    ofTotals count payload = .ok ⟨count, 16 * count + payload, 8 * count⟩ :=
  (ofTotals_cases count payload).resolve_right fun hover => by omega

theorem payloadFrom_eq {total : Nat} {entries : List Entry}
    (h : total + payloadSum entries < Word.limit) :
    payloadFrom total entries = .ok (total + payloadSum entries) := by
  induction entries generalizing total with
  | nil => rfl
  | cons e entries ih =>
    rw [payloadSum] at h
    have hadd : Word.add total e.payload = .ok (total + e.payload) := Word.add_of_lt (by omega)
    rw [payloadFrom, hadd]
    show payloadFrom (total + e.payload) entries = _
    rw [ih (by omega), payloadSum, Nat.add_assoc]

/-- Entries are measured exactly. -/
theorem measure_eq {entries : List Entry}
    (h : (Generation.records entries).length < Word.limit) :
    measure entries = .ok ⟨entries.length, (Generation.records entries).length,
      (Generation.slots entries).length⟩ := by
  rw [Generation.length_records] at h ⊢
  rw [measure, payloadFrom_eq (by omega), Nat.zero_add, Generation.length_slots]
  exact ofTotals_eq h

end Footprint

/-! ### Fields in a draft -/

namespace Draft

variable {written room bytes : Bytes} {fields : List Bytes} {draft after : Draft}

/-- Bytes that fit are put behind what was written. -/
theorem write_fits (hfits : bytes.length ≤ room.length)
    (hlimit : (written ++ room).length < Word.limit) :
    write written.length bytes (written ++ room)
      = .ok (written ++ bytes).length (written ++ bytes ++ room.drop bytes.length) := by
  rw [List.length_append] at hlimit
  refine write_ok_iff.mpr ⟨by omega, by rw [List.length_append]; omega, List.length_append, ?_⟩
  rw [Bytes.overwrite, List.take_left, ← List.drop_drop, List.drop_left]

/-- Fields that fit are put one behind the other behind what was written. -/
theorem writeAll_fits (hfits : fields.flatten.length ≤ room.length)
    (hlimit : (written ++ room).length < Word.limit) :
    writeAll written.length fields (written ++ room)
      = .ok (written ++ fields.flatten).length
        (written ++ fields.flatten ++ room.drop fields.flatten.length) := by
  -- over the fields; each is written behind those before it
  induction fields generalizing written room with
  | nil =>
    rw [List.flatten_nil, List.append_nil, List.length_nil, List.drop_zero]
    rfl
  | cons field fields ih =>
    rw [List.flatten_cons, List.length_append] at hfits
    have hfield : field.length ≤ room.length := by omega
    have hwrite := write_fits hfield hlimit
    rw [writeAll, Action.bind_ok hwrite, ih]
    · simp only [List.flatten_cons, List.drop_drop, List.length_append, List.append_assoc]
    · rw [List.length_drop]
      omega
    · simp only [List.length_append, List.length_drop] at hlimit ⊢
      omega

/-- A write that succeeds has fitted. -/
theorem of_write_ok {offset stop : Nat} (h : write offset bytes draft = .ok stop after) :
    stop = offset + bytes.length ∧ stop ≤ draft.length ∧ after.length = draft.length := by
  obtain ⟨-, hfits, rfl, rfl⟩ := write_ok_iff.mp h
  exact ⟨rfl, hfits, Bytes.length_overwrite hfits⟩

/-- Fields that were put into a draft have fitted. -/
theorem of_writeAll_ok {offset stop : Nat} (hoffset : offset ≤ draft.length)
    (h : writeAll offset fields draft = .ok stop after) :
    stop = offset + fields.flatten.length ∧ stop ≤ draft.length
      ∧ after.length = draft.length := by
  induction fields generalizing offset draft with
  | nil => cases h; exact ⟨rfl, hoffset, rfl⟩
  | cons field fields ih =>
    obtain ⟨middle, between, hwrite, hrest⟩ := Action.of_bind_ok h
    obtain ⟨rfl, hmiddle, hbetween⟩ := of_write_ok hwrite
    obtain ⟨rfl, hstop, hafter⟩ := ih (by omega) hrest
    rw [List.flatten_cons, List.length_append]
    exact ⟨by omega, by omega, by omega⟩

end Draft

/-! ### The two files of a generation -/

namespace Generation.Pair

variable {values offsets room space : Draft} {count : Nat} {e : Entry} {entries : List Entry}

/-- An entry that fits is put behind what was written, and the rest goes behind it. -/
theorem append_cons_fits {items : List Item} (hvalues : e.encode.length ≤ room.length)
    (hoffsets : 8 ≤ space.length) (hvaluesLimit : (values ++ room).length < Word.limit)
    (hoffsetsLimit : (offsets ++ space).length < Word.limit) :
    append ⟨count, values.length, offsets.length⟩ (.ok e :: items)
        ⟨values ++ room, offsets ++ space⟩
      = append ⟨count + 1, (values ++ e.encode).length,
          (offsets ++ Word.encode values.length).length⟩ items
        ⟨values ++ e.encode ++ room.drop e.encode.length,
          offsets ++ Word.encode values.length ++ space.drop 8⟩ := by
  have hrecord : Draft.writeEntry values.length e (values ++ room)
      = .ok (values ++ e.encode).length (values ++ e.encode ++ room.drop e.encode.length) :=
    Draft.writeAll_fits hvalues hvaluesLimit
  have hslot : Draft.writeSlot offsets.length values.length (offsets ++ space)
      = .ok (offsets ++ Word.encode values.length).length
        (offsets ++ Word.encode values.length ++ space.drop 8) := by
    have hroom : (Word.encode values.length).length ≤ space.length := by
      rwa [Word.length_encode]
    exact Draft.write_fits hroom hoffsetsLimit
  have hfirst : onValues (Draft.writeEntry values.length e) ⟨values ++ room, offsets ++ space⟩ = _ :=
    Action.within_ok hrecord
  have hsecond : onOffsets (Draft.writeSlot offsets.length values.length)
      ⟨values ++ e.encode ++ room.drop e.encode.length, offsets ++ space⟩ = _ :=
    Action.within_ok hslot
  rw [append, Action.bind_ok hfirst, Action.bind_ok hsecond]

/-- Entries that fit are put behind what was written. -/
theorem append_fits (hvalues : (records entries).length ≤ room.length)
    (hoffsets : 8 * entries.length ≤ space.length)
    (hvaluesLimit : (values ++ room).length < Word.limit)
    (hoffsetsLimit : (offsets ++ space).length < Word.limit) :
    append ⟨count, values.length, offsets.length⟩ (entries.map .ok)
        ⟨values ++ room, offsets ++ space⟩
      = .ok ⟨count + entries.length, (values ++ records entries).length,
          (offsets ++ slotsFrom values.length entries).length⟩
        ⟨values ++ records entries ++ room.drop (records entries).length,
          offsets ++ slotsFrom values.length entries ++ space.drop (8 * entries.length)⟩ := by
  -- over the entries, for whatever was written before and whatever room is left
  induction entries generalizing values offsets room space count with
  | nil =>
    simp only [records_nil, slotsFrom, List.append_nil, List.length_nil, List.drop_zero,
      Nat.mul_zero, Nat.add_zero]
    rfl
  | cons e entries ih =>
    rw [records_cons, List.length_append] at hvalues
    rw [List.length_cons] at hoffsets
    rw [List.map_cons, append_cons_fits (by omega) (by omega) hvaluesLimit hoffsetsLimit]
    rw [List.length_append] at hvaluesLimit hoffsetsLimit
    rw [ih]
    · have hstart : (values ++ e.encode).length = values.length + e.recordSize := by
        rw [List.length_append, Entry.length_encode]
      rw [hstart, records_cons, slotsFrom, List.length_cons, List.drop_drop, List.drop_drop]
      simp only [Word.length_encode, List.length_append, List.append_assoc, Nat.mul_add, Nat.mul_one,
        Nat.add_comm, Nat.add_left_comm]
    · rw [List.length_drop]
      omega
    · rw [List.length_drop]
      omega
    · simp only [List.length_append, List.length_drop]
      omega
    · simp only [List.length_append, List.length_drop, Word.length_encode]
      omega

/-- Entries that were written have fitted. -/
theorem fits_of_append {done result : Progress} {pair after : Pair}
    (hvalues : done.values ≤ pair.values.length) (hoffsets : done.offsets ≤ pair.offsets.length)
    (h : append done (entries.map .ok) pair = .ok result after) :
    done.values + (records entries).length ≤ pair.values.length
      ∧ done.offsets + 8 * entries.length ≤ pair.offsets.length := by
  -- over the entries: the offsets that were reached never pass the ends of the drafts
  induction entries generalizing done pair with
  | nil => exact ⟨hvalues, hoffsets⟩
  | cons e entries ih =>
    rw [List.map_cons, append] at h
    obtain ⟨valuesStop, middle, hfirst, h⟩ := Action.of_bind_ok h
    obtain ⟨offsetsStop, between, hsecond, hrest⟩ := Action.of_bind_ok h
    obtain ⟨values, hrecord, rfl⟩ := Action.of_within_ok hfirst
    obtain ⟨offsets, hslot, rfl⟩ := Action.of_within_ok hsecond
    obtain ⟨rfl, hvaluesStop, hvaluesLength⟩ := Draft.of_writeAll_ok hvalues hrecord
    obtain ⟨rfl, hoffsetsStop, hoffsetsLength⟩ := Draft.of_write_ok hslot
    dsimp only at hoffsetsStop hoffsetsLength
    rw [Word.length_encode] at hoffsetsStop
    have hnext := ih (by dsimp only; omega) (by dsimp only; rw [Word.length_encode]; omega) hrest
    dsimp only at hnext
    rw [Word.length_encode] at hnext
    rw [records_cons, Entry.encode, List.length_append, List.length_cons]
    exact ⟨by omega, by omega⟩

/-- Items that were written are entries: at a fault the writing stops. -/
theorem entries_of_append {done result : Progress} {pair after : Pair} {items : List Item}
    (h : append done items pair = .ok result after) : ∃ entries : List Entry, items = entries.map .ok := by
  induction items generalizing done pair with
  | nil => exact ⟨[], rfl⟩
  | cons item items ih =>
    cases item with
    | error fault => cases h
    | ok e =>
      rw [append] at h
      obtain ⟨_, _, _, h⟩ := Action.of_bind_ok h
      obtain ⟨_, _, _, h⟩ := Action.of_bind_ok h
      obtain ⟨entries, rfl⟩ := ih h
      exact ⟨e :: entries, rfl⟩

/-- A draft is cut to what was written to it. -/
theorem finish_append {written rest : Bytes} (h : (written ++ rest).length < Word.signedLimit) :
    Draft.finish written.length (written ++ rest) = .ok () written := by
  rw [List.length_append] at h
  rw [Draft.finish]
  by_cases hlength : written.length = (written ++ rest).length
  · rw [if_pos hlength]
    rw [List.length_append] at hlength
    rw [List.eq_nil_of_length_eq_zero (l := rest) (by omega), List.append_nil]
  · -- the rest, which is not empty, is cut off
    have hcut : Bytes.resize (written ++ rest) written.length = written := by
      rw [Bytes.resize, List.take_left, List.length_append, Nat.sub_eq_zero_of_le (by omega)]
      exact List.append_nil written
    rw [if_neg hlength, if_pos (by omega), hcut]

/-- Where records and slots fit, the files end up holding exactly them. -/
theorem fill_fits (hvalues : (records entries).length ≤ values.length)
    (hoffsets : 8 * entries.length ≤ offsets.length)
    (hvaluesLimit : values.length < Word.signedLimit)
    (hoffsetsLimit : offsets.length < Word.signedLimit) :
    fill (entries.map .ok) ⟨values, offsets⟩
      = .ok ⟨entries.length, (records entries).length, (slots entries).length⟩
        ⟨records entries, slots entries⟩ := by
  -- nothing was written yet, and all of the drafts is room
  have happend := @append_fits [] [] values offsets 0 entries hvalues hoffsets
    (Word.lt_limit hvaluesLimit) (Word.lt_limit hoffsetsLimit)
  simp only [List.nil_append, List.length_nil, Nat.zero_add] at happend
  have hfirst : onValues (Draft.finish (records entries).length)
      ⟨records entries ++ values.drop (records entries).length,
        slots entries ++ offsets.drop (8 * entries.length)⟩ = _ :=
    Action.within_ok (finish_append (by rw [List.length_append, List.length_drop]; omega))
  have hsecond : onOffsets (Draft.finish (slots entries).length)
      ⟨records entries, slots entries ++ offsets.drop (8 * entries.length)⟩ = _ :=
    Action.within_ok
      (finish_append (by rw [List.length_append, List.length_drop, length_slots]; omega))
  rw [fill, Action.bind_ok happend]
  exact (Action.bind_ok hfirst).trans (Action.bind_ok hsecond)

/-- The files are only filled with records and slots that fit. -/
theorem fits_of_fill {done : Progress} {after : Pair}
    (h : fill (entries.map .ok) ⟨values, offsets⟩ = .ok done after) :
    (records entries).length ≤ values.length ∧ 8 * entries.length ≤ offsets.length := by
  obtain ⟨_, _, happend, _⟩ := Action.of_bind_ok h
  have hfits := fits_of_append (Nat.zero_le _) (Nat.zero_le _) happend
  dsimp only at hfits
  exact ⟨by omega, by omega⟩

end Generation.Pair

end LayeredStore
