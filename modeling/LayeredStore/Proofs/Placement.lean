import LayeredStore.Proofs.RoundTrip

namespace LayeredStore

/-!
# A record is written in its place and nowhere else

Fields are put one behind the other into a draft, and each is checked against the end of the
draft. Those that fit stand at their place, the first that does not fit is reported, and every
other byte is what it was before. So records that are written one behind the other leave those
before them alone, however the writing ends.

* `Draft.KeepsBelow` — a draft that was changed from an offset on at most;
* `Draft.Places` — a draft into which bytes were put, and nothing else;
* `Draft.FirstShort` — the first of several fields that does not fit;
* `Draft.places_of_writeAll_ok`, `Draft.places_of_writeAll_error` — what fields leave in a
  draft;
* `Draft.writeEntries`, `Draft.standsAt_of_writeEntries` — records one behind the other;
* `Draft.writeEntry_exact` — the law for every draft, every offset and every entry.
-/

/-! ### Bytes and where they are -/

namespace Bytes

variable {bytes new : Bytes} {offset i : Nat}

theorem getElem?_overwrite_of_lt (h : offset + new.length ≤ bytes.length) (hi : i < offset) :
    (bytes.overwrite offset new)[i]? = bytes[i]? := by
  have hlength : (bytes.take offset).length = offset := List.length_take_of_le (by omega)
  unfold overwrite
  rw [List.append_assoc, List.getElem?_append_left (by omega), List.getElem?_take_of_lt hi]

theorem getElem?_overwrite_of_le (h : offset + new.length ≤ bytes.length)
    (hi : offset + new.length ≤ i) : (bytes.overwrite offset new)[i]? = bytes[i]? := by
  have hlength : (bytes.take offset ++ new).length = offset + new.length := by
    rw [List.length_append, List.length_take_of_le (by omega)]
  unfold overwrite
  rw [List.getElem?_append_right (by omega), List.getElem?_drop, hlength]
  congr 1
  omega

end Bytes

namespace Region

variable {region : Region} {offset : Nat} {bytes : Bytes}

theorem standsAt_iff_getElem? : region.StandsAt offset bytes ↔
    ∀ i (h : i < bytes.length), region[offset + i]? = some bytes[i] := by
  simp only [StandsAt, List.prefix_iff_getElem?, List.getElem?_drop]

theorem standsAt_overwrite (h : offset ≤ region.length) :
    Region.StandsAt (Bytes.overwrite region offset bytes) offset bytes :=
  standsAt_middle rfl (List.length_take_of_le h).symm

end Region

namespace Draft

variable {draft between after : Draft} {offset stop place : Nat} {bytes left right : Bytes}
  {fields : List Bytes} {fault : Fault} {e : Entry}

/-! ### What is changed and what is kept -/

/-- From `offset` on the draft may have changed, and before it nothing has. -/
structure KeepsBelow (offset : Nat) (draft after : Draft) : Prop where
  length_eq : after.length = draft.length
  below : ∀ i < offset, after[i]? = draft[i]?

namespace KeepsBelow

theorem refl (offset : Nat) (draft : Draft) : KeepsBelow offset draft draft := ⟨rfl, fun _ _ => rfl⟩

theorem trans (h : KeepsBelow offset draft between) (hrest : KeepsBelow offset between after) :
    KeepsBelow offset draft after := by
  refine ⟨hrest.length_eq.trans h.length_eq, fun i hi => ?_⟩
  rw [hrest.below i hi, h.below i hi]

theorem mono (h : KeepsBelow stop draft after) (hle : offset ≤ stop) :
    KeepsBelow offset draft after :=
  ⟨h.length_eq, fun i hi => h.below i (by omega)⟩

/-- What ends before the offset still stands. -/
theorem standsAt (h : KeepsBelow stop draft after) (hstands : Region.StandsAt draft place bytes)
    (hend : place + bytes.length ≤ stop) : Region.StandsAt after place bytes := by
  rw [Region.standsAt_iff_getElem?] at hstands ⊢
  intro i hi
  rw [h.below (place + i) (by omega)]
  exact hstands i hi

end KeepsBelow

/-- The bytes were put at the offset, and nothing else was changed. -/
structure Places (draft after : Draft) (offset : Nat) (bytes : Bytes) : Prop where
  length_eq : after.length = draft.length
  stands : Region.StandsAt after offset bytes
  outside : ∀ i, i < offset ∨ offset + bytes.length ≤ i → after[i]? = draft[i]?

namespace Places

theorem nil (draft : Draft) (offset : Nat) : Places draft draft offset [] :=
  ⟨rfl, List.nil_prefix, fun _ _ => rfl⟩

theorem keepsBelow (h : Places draft after offset bytes) : KeepsBelow offset draft after :=
  ⟨h.length_eq, fun i hi => h.outside i (.inl hi)⟩

/-- Bytes that are put behind others are put together with them. -/
theorem append (h : Places draft between offset left)
    (hrest : Places between after (offset + left.length) right) :
    Places draft after offset (left ++ right) := by
  refine ⟨hrest.length_eq.trans h.length_eq, ?_, fun i hi => ?_⟩
  · exact Region.standsAt_append.mpr
      ⟨hrest.keepsBelow.standsAt h.stands (Nat.le_refl _), hrest.stands⟩
  · rw [List.length_append] at hi
    rw [hrest.outside i (by omega), h.outside i (by omega)]

end Places

/-! ### Fields -/

theorem places_of_write_ok (h : write offset bytes draft = .ok stop after) :
    stop = offset + bytes.length ∧ Places draft after offset bytes := by
  obtain ⟨-, hfits, rfl, rfl⟩ := write_ok_iff.mp h
  refine ⟨rfl, Bytes.length_overwrite hfits, Region.standsAt_overwrite (by omega), ?_⟩
  rintro i (hi | hi)
  · exact Bytes.getElem?_overwrite_of_lt hfits hi
  · exact Bytes.getElem?_overwrite_of_le hfits hi

/-- Fields that were put into a draft stand one behind the other. -/
theorem places_of_writeAll_ok (h : writeAll offset fields draft = .ok stop after) :
    stop = offset + fields.flatten.length ∧ Places draft after offset fields.flatten := by
  induction fields generalizing offset draft with
  | nil =>
    cases h
    exact ⟨rfl, .nil _ _⟩
  | cons field fields ih =>
    obtain ⟨middle, between, hwrite, hrest⟩ := Action.of_bind_ok h
    obtain ⟨rfl, hfield⟩ := places_of_write_ok hwrite
    obtain ⟨rfl, hfields⟩ := ih hrest
    rw [List.flatten_cons, List.length_append, Nat.add_assoc]
    exact ⟨rfl, hfield.append hfields⟩

/-- Of fields that are to be put one behind the other from `offset` on, the first that would
    end behind the capacity: those before it end inside, and it would end at `needed`. -/
structure FirstShort (capacity offset : Nat) (fields before : List Bytes) (needed : Nat) : Prop where
  exists_field : ∃ field rest, fields = before ++ field :: rest
    ∧ needed = offset + before.flatten.length + field.length
  short : capacity < needed
  fits : before = [] ∨ offset + before.flatten.length ≤ capacity

theorem FirstShort.cons {capacity : Nat} {field : Bytes} {before : List Bytes} {needed : Nat}
    (h : FirstShort capacity (offset + field.length) fields before needed)
    (hfits : offset + field.length ≤ capacity) :
    FirstShort capacity offset (field :: fields) (field :: before) needed := by
  obtain ⟨⟨missing, rest, rfl, rfl⟩, hshort, hbefore⟩ := h
  have hlength : (field :: before).flatten.length = field.length + before.flatten.length := by
    rw [List.flatten_cons, List.length_append]
  refine ⟨⟨missing, rest, rfl, by omega⟩, hshort, .inr ?_⟩
  rcases hbefore with rfl | hbefore
  · simpa using hfits
  · omega

/-- What does not fit ends where all fields end at the latest. -/
theorem FirstShort.needed_le {capacity needed : Nat} {before : List Bytes}
    (h : FirstShort capacity offset fields before needed) :
    needed ≤ offset + fields.flatten.length := by
  obtain ⟨field, rest, rfl, rfl⟩ := h.exists_field
  simp only [List.flatten_append, List.flatten_cons, List.length_append]
  omega

/-- Fields that were not all put into a draft: the first that does not fit is reported, and
    those before it were put. -/
theorem places_of_writeAll_error (hlimit : offset + fields.flatten.length < Word.limit)
    (h : writeAll offset fields draft = .error fault after) :
    ∃ before needed, FirstShort draft.length offset fields before needed
      ∧ fault = .exhausted needed draft.length ∧ Places draft after offset before.flatten := by
  -- over the fields; each that fits leaves the draft at its length
  induction fields generalizing offset draft with
  | nil => cases h
  | cons field fields ih =>
    rw [List.flatten_cons, List.length_append] at hlimit
    rcases Action.of_bind_error h with hwrite | ⟨middle, between, hwrite, hrest⟩
    · obtain ⟨rfl, ⟨hover, -⟩ | ⟨-, hshort, rfl⟩⟩ := write_error_iff.mp hwrite
      · omega
      · exact ⟨[], _, ⟨⟨field, fields, rfl, rfl⟩, hshort, .inl rfl⟩, rfl, .nil _ offset⟩
    · obtain ⟨rfl, hfits, hlength⟩ := of_write_ok hwrite
      obtain ⟨-, hfield⟩ := places_of_write_ok hwrite
      obtain ⟨before, needed, hfirst, rfl, hbefore⟩ := ih (by omega) hrest
      rw [hlength] at hfirst ⊢
      exact ⟨field :: before, needed, hfirst.cons hfits, rfl, hfield.append hbefore⟩

/-- However the writing of fields ends, nothing before them is changed. -/
theorem moves_writeAll (offset : Nat) (fields : List Bytes) :
    Action.Moves (KeepsBelow offset) (writeAll offset fields) := by
  induction fields generalizing offset with
  | nil => exact fun draft => .refl offset draft
  | cons field fields ih =>
    apply Action.Moves.of_outcomes
    · intro draft after stop h
      exact (places_of_writeAll_ok h).2.keepsBelow
    · intro draft after fault h
      rcases Action.of_bind_error h with hwrite | ⟨middle, between, hwrite, hrest⟩
      · obtain ⟨rfl, -⟩ := write_error_iff.mp hwrite
        exact .refl offset _
      · obtain ⟨rfl, hfield⟩ := places_of_write_ok hwrite
        exact hfield.keepsBelow.trans (((ih _).of_error hrest).mono (by omega))

/-! ### A record -/

/-- A record that was put into a draft ends inside it. -/
theorem places_of_writeEntry_ok (h : writeEntry offset e draft = .ok stop after) :
    stop = offset + e.recordSize ∧ offset + e.recordSize ≤ draft.length
      ∧ Places draft after offset e.encode := by
  obtain ⟨hstop, hplaces⟩ := places_of_writeAll_ok h
  have hencode : e.fields.flatten = e.encode := rfl
  rw [hencode] at hstop hplaces
  rw [Entry.length_encode] at hstop
  refine ⟨hstop, ?_, hplaces⟩
  -- the record is not empty, so it could not stand behind the end
  have hlength := hplaces.stands.length_le
  have hsize : recordHeaderSize ≤ e.recordSize := Nat.le_add_right _ _
  rw [Entry.length_encode, List.length_drop, hplaces.length_eq] at hlength
  rw [recordHeaderSize, Word.size] at hsize
  omega

/-- A record that ends inside a draft is put into it. -/
theorem exists_writeEntry_ok (hlimit : offset + e.recordSize < Word.limit)
    (hfits : offset + e.recordSize ≤ draft.length) :
    ∃ after, writeEntry offset e draft = .ok (offset + e.recordSize) after
      ∧ Places draft after offset e.encode := by
  cases h : writeEntry offset e draft with
  | ok stop after =>
    obtain ⟨rfl, -, hplaces⟩ := places_of_writeEntry_ok h
    exact ⟨after, rfl, hplaces⟩
  | error fault after =>
    rw [← Entry.length_encode] at hlimit hfits
    obtain ⟨before, needed, hfirst, -, -⟩ := places_of_writeAll_error hlimit h
    have hneeded : needed ≤ offset + e.encode.length := hfirst.needed_le
    have hshort := hfirst.short
    omega

/-! ### Records one behind the other -/

/-- The records of entries, each from where the one before it ends. -/
def writeEntries (offset : Nat) (entries : List Entry) : Action Draft Nat :=
  entries.foldlM writeEntry offset

theorem writeEntries_cons (e : Entry) (entries : List Entry) :
    writeEntries offset (e :: entries)
      = writeEntry offset e >>= fun stop => writeEntries stop entries :=
  List.foldlM_cons

theorem writeEntries_append (before entries : List Entry) :
    writeEntries offset (before ++ entries)
      = writeEntries offset before >>= fun stop => writeEntries stop entries :=
  List.foldlM_append

/-- However the writing of records ends, nothing before them is changed. -/
theorem moves_writeEntries (offset : Nat) (entries : List Entry) :
    Action.Moves (KeepsBelow offset) (writeEntries offset entries) := by
  induction entries generalizing offset with
  | nil => exact fun draft => .refl offset draft
  | cons e entries ih =>
    intro draft
    rw [writeEntries_cons]
    cases hfirst : writeEntry offset e draft with
    | ok stop between =>
      obtain ⟨rfl, -, hplaces⟩ := places_of_writeEntry_ok hfirst
      rw [Action.perform, Action.bind_ok hfirst]
      exact hplaces.keepsBelow.trans ((ih _ between).mono (by omega))
    | error fault between =>
      rw [Action.perform, Action.bind_error hfirst]
      exact (moves_writeAll offset e.fields).of_error hfirst

/-- Records that end inside a draft are put into it. -/
theorem exists_writeEntries_ok {entries : List Entry}
    (hlimit : offset + recordSum entries < Word.limit)
    (hfits : offset + recordSum entries ≤ draft.length) :
    ∃ after, writeEntries offset entries draft = .ok (offset + recordSum entries) after
      ∧ Places draft after offset (Generation.records entries) := by
  induction entries generalizing offset draft with
  | nil => exact ⟨draft, rfl, .nil draft offset⟩
  | cons e entries ih =>
    rw [recordSum] at hlimit hfits
    have hend : offset + e.recordSize ≤ draft.length := by omega
    obtain ⟨between, hfirst, hplaces⟩ := exists_writeEntry_ok (by omega) hend
    have hrestLimit : offset + e.recordSize + recordSum entries < Word.limit := by omega
    have hrestFits : offset + e.recordSize + recordSum entries ≤ between.length := by
      rw [hplaces.length_eq]
      omega
    obtain ⟨after, hrest, hothers⟩ := ih hrestLimit hrestFits
    refine ⟨after, ?_, ?_⟩
    · rw [writeEntries_cons, Action.bind_ok hfirst, hrest, recordSum, Nat.add_assoc]
    · rw [← Entry.length_encode] at hothers
      exact hplaces.append hothers

/-- Records that end inside a draft stand, however the writing of those behind them ends. -/
theorem standsAt_of_writeEntries {before : List Entry}
    (hlimit : offset + recordSum before < Word.limit)
    (hfits : offset + recordSum before ≤ draft.length) (entries : List Entry) :
    let after := ((writeEntries offset (before ++ entries)).perform draft).2
    KeepsBelow offset draft after ∧ Region.StandsAt after offset (Generation.records before) := by
  intro after
  obtain ⟨between, hbefore, hplaces⟩ := exists_writeEntries_ok hlimit hfits
  have hafter : after = ((writeEntries (offset + recordSum before) entries).perform between).2 := by
    show ((writeEntries offset (before ++ entries)).perform draft).2 = _
    rw [writeEntries_append, Action.perform, Action.bind_ok hbefore]
    rfl
  have hkeeps : KeepsBelow (offset + recordSum before) between after := by
    rw [hafter]
    exact moves_writeEntries _ entries between
  refine ⟨hplaces.keepsBelow.trans (hkeeps.mono (by omega)), hkeeps.standsAt hplaces.stands ?_⟩
  rw [Generation.length_records_eq]

/-- **A record is written in its place and nowhere else.** In every draft, at every offset and
    for every entry, where the end of the record is a word: the writing answers exactly if the
    record ends inside the draft. Then it answers with that end, the record stands at the offset,
    every other byte is what it was, and the entry is read back. Else it reports the capacity and
    the end of the first field that does not fit; the fields before that one stand, and every
    other byte is what it was. So among records that are written one behind the other, each stands
    where it was written and is read back, however the writing of those behind it ends. -/
theorem writeEntry_exact (hcapacity : draft.length < Word.limit) (hsized : e.IsSized)
    (hlimit : offset + e.recordSize < Word.limit) :
    ((∃ stop after, writeEntry offset e draft = .ok stop after)
        ↔ offset + e.recordSize ≤ draft.length)
      ∧ (∀ stop after, writeEntry offset e draft = .ok stop after →
        stop = offset + e.recordSize ∧ Places draft after offset e.encode
          ∧ Region.readEntry after offset = .ok e)
      ∧ (∀ fault after, writeEntry offset e draft = .error fault after →
        ∃ before needed, FirstShort draft.length offset e.fields before needed
          ∧ fault = .exhausted needed draft.length ∧ Places draft after offset before.flatten)
      ∧ ∀ (start : Nat) (before entries : List Entry), offset = start + recordSum before →
        offset + e.recordSize ≤ draft.length →
          let after := ((writeEntries start (before ++ e :: entries)).perform draft).2
          KeepsBelow start draft after ∧ Region.StandsAt after offset e.encode
            ∧ Region.readEntry after offset = .ok e := by
  have hread : ∀ after : Draft, after.length = draft.length →
      Region.StandsAt after offset e.encode → Region.readEntry after offset = .ok e := by
    intro after hlength hstands
    exact (Region.readEntry_ok_iff (hlength ▸ hcapacity)).mpr ⟨hstands, hsized.2⟩
  refine ⟨⟨?_, ?_⟩, ?_, ?_, ?_⟩
  · rintro ⟨stop, after, h⟩
    exact (places_of_writeEntry_ok h).2.1
  · intro hfits
    obtain ⟨after, h, -⟩ := exists_writeEntry_ok hlimit hfits
    exact ⟨_, after, h⟩
  · intro stop after h
    obtain ⟨hstop, -, hplaces⟩ := places_of_writeEntry_ok h
    exact ⟨hstop, hplaces, hread after hplaces.length_eq hplaces.stands⟩
  · intro fault after h
    rw [← Entry.length_encode] at hlimit
    exact places_of_writeAll_error hlimit h
  · intro start before entries hoffset hfits
    have hsum : start + recordSum (before ++ [e]) = offset + e.recordSize := by
      rw [← Generation.length_records_eq, Generation.records_append, List.length_append,
        Generation.length_records_eq, Generation.length_records_eq, hoffset]
      simp only [recordSum]
      omega
    have hend : start + recordSum (before ++ [e]) ≤ draft.length := by omega
    have hchain := standsAt_of_writeEntries (by omega) hend entries
    rw [List.append_assoc, List.singleton_append] at hchain
    obtain ⟨hkeeps, hstands⟩ := hchain
    rw [Generation.records_append, Region.standsAt_append, Generation.length_records_eq,
      ← hoffset] at hstands
    have hrecord : Generation.records [e] = e.encode := List.append_nil _
    rw [hrecord] at hstands
    exact ⟨hkeeps, hstands.2, hread _ hkeeps.length_eq hstands.2⟩

/-- Forty bytes: a record in their middle; a record whose key fits, and the length of its value
    does not; and a record that stands although the writing of those behind it fails. -/
theorem writeEntry_exact_forty :
    let draft : Draft := List.replicate 40 7
    let e := Entry.live [1, 2] [3]
    (∃ after, writeEntry 5 e draft = .ok 24 after ∧ Places draft after 5 e.encode
        ∧ Region.readEntry after 5 = .ok e)
      ∧ (∃ before after, writeEntry 25 e draft = .error (.exhausted 43 40) after
        ∧ FirstShort 40 25 e.fields before 43 ∧ Places draft after 25 before.flatten)
      ∧ Region.readEntry ((writeEntries 5 [e, e]).perform draft).2 5 = .ok e := by
  intro draft e
  have hcapacity : draft.length < Word.limit := by decide
  have hsized : e.IsSized := by simp [e, Entry.IsSized, Entry.live, Word.signedLimit]
  obtain ⟨hfits, hok, -, hchain⟩ := @writeEntry_exact draft 5 e hcapacity hsized (by decide)
  obtain ⟨-, -, hshort, -⟩ := @writeEntry_exact draft 25 e hcapacity hsized (by decide)
  obtain ⟨stop, after, h⟩ := hfits.mpr (by decide)
  obtain ⟨rfl, hplaces, hread⟩ := hok stop after h
  obtain ⟨left, htried⟩ : ∃ left, writeEntry 25 e draft = .error (.exhausted 43 40) left := ⟨_, rfl⟩
  obtain ⟨before, needed, hfirst, hneeded, hleft⟩ := hshort _ left htried
  cases hneeded
  obtain ⟨-, -, hrest⟩ := hchain 5 [] [e] rfl (by decide)
  exact ⟨⟨after, h, hplaces, hread⟩, ⟨before, left, htried, hfirst, hleft⟩, hrest⟩

end Draft

end LayeredStore
