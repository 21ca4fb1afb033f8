import LayeredStore.Proofs.Faults

namespace LayeredStore

/-!
# Any bytes can be read

Two files of any bytes can be bound to a table if the offsets consist of whole slots, and then
be looked up and walked over under any comparison, one that contradicts itself included. What
is asked answers or reports a corruption; no sum or product leaves the range of a word, and
what is found is what was looked for, as far as the comparison says so.

* `Fault.IsCorrupt`, `Table.IsAddressable` — the only fault, and regions that fit in memory;
* `Table.search_corrupt`, `Table.get?_corrupt`, `Table.cursor_corrupt` — what look-ups fail by;
* `Table.of_search_found`, `Table.of_search_absent`, `Table.of_get?_some` — what they answer;
* `Cursor.advance`, `Cursor.answer_eq` — request after request, a walk yields its items and
  then nothing for ever;
* `Cursor.items_spec` — the items are entries, and at most one fault behind them;
* `Table.any_bytes_can_be_read` — all of it, for any regions and any comparison.
-/

open Answer (FailsBy)

/-- The report of bytes that break the format. -/
def Fault.IsCorrupt (fault : Fault) : Prop :=
  ∃ place cause, fault = .corrupt place cause

/-! ### Records -/

namespace Region

variable {region : Region} (hregion : region.length < Word.limit) (offset : Nat)
include hregion

theorem readWord_corrupt : FailsBy Fault.IsCorrupt (region.readWord offset) := by
  intro fault h
  obtain ⟨_, rfl⟩ := (readWord_error_iff hregion).mp h
  exact ⟨_, _, rfl⟩

theorem readKey_corrupt : FailsBy Fault.IsCorrupt (region.readKey offset) :=
  fun _ h => ((readKey_error_iff hregion).mp h).exists_corrupt

theorem readEntry_corrupt : FailsBy Fault.IsCorrupt (region.readEntry offset) := by
  intro fault h
  rcases (readEntry_error_iff hregion).mp h with hkey | ⟨_, _, htail⟩
  · exact hkey.exists_corrupt
  · exact htail.exists_corrupt

omit hregion in
/-- The key of an entry is the key that is read at its place. -/
theorem readKey_of_readEntry {e : Entry} (h : region.readEntry offset = .ok e) :
    region.readKey offset = .ok e.key := by
  unfold readEntry at h
  obtain ⟨key, hkey, h⟩ := Answer.bind_eq_ok_iff.mp h
  obtain ⟨middle, -, h⟩ := Answer.bind_eq_ok_iff.mp h
  obtain ⟨lengthAt, -, h⟩ := Answer.bind_eq_ok_iff.mp h
  obtain ⟨length, -, h⟩ := Answer.bind_eq_ok_iff.mp h
  suffices hsame : e.key = key by rw [hsame, hkey]
  split at h
  · cases h
    rfl
  · split at h
    · cases h
    · obtain ⟨valueAt, -, h⟩ := Answer.bind_eq_ok_iff.mp h
      obtain ⟨value, -, h⟩ := Answer.bind_eq_ok_iff.mp h
      cases h
      rfl

end Region

/-! ### Look-ups -/

/-- The regions fit in memory: every place in them has a word for its number. -/
structure Table.IsAddressable (table : Table) : Prop where
  values_lt : table.values.length < Word.limit
  offsets_lt : table.offsets.length < Word.limit

namespace Table

variable {table : Table} {key : Bytes} {index : Nat} {bounds : Bounds} {e : Entry}

/-- The place of a slot that is there is a word. -/
theorem IsAddressable.recordAt_corrupt (h : table.IsAddressable) (hindex : index < table.count) :
    FailsBy Fault.IsCorrupt (table.recordAt index) := by
  have hoffsets := h.offsets_lt
  rw [count, Region.slotCount, slotSize, Word.size] at hindex
  have hslot : Word.mul index slotSize = .ok (index * slotSize) :=
    Word.mul_of_lt (by rw [slotSize, Word.size]; omega)
  rw [recordAt, Region.readSlot, hslot]
  exact Region.readWord_corrupt hoffsets _

theorem IsAddressable.keyAt_corrupt (h : table.IsAddressable) (hindex : index < table.count) :
    FailsBy Fault.IsCorrupt (table.keyAt index) :=
  (h.recordAt_corrupt hindex).bind fun start => Region.readKey_corrupt h.values_lt start

theorem IsAddressable.entryAt_corrupt (h : table.IsAddressable) (hindex : index < table.count) :
    FailsBy Fault.IsCorrupt (table.entryAt index) :=
  (h.recordAt_corrupt hindex).bind fun start => Region.readEntry_corrupt h.values_lt start

theorem IsAddressable.search_corrupt (h : table.IsAddressable) (key : Bytes) :
    FailsBy Fault.IsCorrupt (table.search key) :=
  bisect_failsBy fun _ _ hindex => (h.keyAt_corrupt hindex).map _

/-- What is found is a record whose key compares equal. -/
theorem of_search_found (h : table.search key = .ok (.found index)) :
    index < table.count
      ∧ ∃ found, table.keyAt index = .ok found ∧ table.order.compare found key = .eq := by
  obtain ⟨_, hindex, hprobe⟩ := bisect_found h
  exact ⟨hindex, Answer.map_eq_ok_iff.mp hprobe⟩

/-- What is not found would be put between records, or at an end. -/
theorem of_search_absent (h : table.search key = .ok (.absent index)) : index ≤ table.count :=
  (bisect_between (Nat.zero_le _) h).2

/-- The record that is read was found, so its slot is there. -/
theorem IsAddressable.get?_corrupt (h : table.IsAddressable) (key : Bytes) :
    FailsBy Fault.IsCorrupt (table.get? key) :=
  get?_failsBy table key (h.search_corrupt key) fun _ hfound =>
    h.entryAt_corrupt (of_search_found hfound).1

/-- The key of an entry is that of its record. -/
theorem keyAt_of_entryAt (hentry : table.entryAt index = .ok e) : table.keyAt index = .ok e.key := by
  obtain ⟨start, hstart, hread⟩ := Answer.bind_eq_ok_iff.mp hentry
  exact Answer.bind_eq_ok_iff.mpr ⟨start, hstart, Region.readKey_of_readEntry start hread⟩

/-- An entry is got only under a key that compares equal. -/
theorem of_get?_some (hget : table.get? key = .ok (some e)) :
    table.order.compare e.key key = .eq := by
  obtain ⟨index?, hindex, hentry⟩ := Answer.bind_eq_ok_iff.mp hget
  cases index? with
  | none => cases hentry
  | some index =>
    obtain ⟨_, found, hfound, hequal⟩ := of_search_found (of_indexOf?_some hindex)
    obtain ⟨entry, hread, hsame⟩ := Answer.map_eq_ok_iff.mp hentry
    cases hsame
    rw [keyAt_of_entryAt hread] at hfound
    cases hfound
    exact hequal

theorem IsAddressable.cursor_corrupt (h : table.IsAddressable) (bounds : Bounds) :
    FailsBy Fault.IsCorrupt (table.cursor bounds) :=
  cursor_failsBy table bounds h.search_corrupt

/-- A walk ends at the last record at the latest, or at the upper bound. -/
theorem of_cursor_ok {cursor : Cursor} (h : table.cursor bounds = .ok cursor) :
    cursor.table = table ∧ cursor.stop = table.count ∧ cursor.upper = bounds.upper := by
  rw [Table.cursor] at h
  cases hlower : bounds.lower with
  | none =>
    rw [hlower] at h
    cases h
    exact ⟨rfl, rfl, rfl⟩
  | some lower =>
    rw [hlower] at h
    obtain ⟨_, _, hcursor⟩ := Answer.bind_eq_ok_iff.mp h
    cases hcursor
    exact ⟨rfl, rfl, rfl⟩

end Table

/-! ### Walks -/

namespace Cursor

variable {cursor after : Cursor} {fault : Fault}

/-- The cursor behind a number of requests, whatever they were answered with. -/
def advance : Nat → Cursor → Cursor
  | 0, cursor => cursor
  | n + 1, cursor => advance n cursor.next.2

theorem next_at_end (h : cursor.stop ≤ cursor.index) : cursor.next = (none, cursor) :=
  if_neg (Nat.not_lt.mpr h)

/-- Once a request was answered with nothing, so is every other. -/
theorem next_of_none (h : cursor.next = (none, after)) : after.next = (none, after) := by
  rw [next] at h
  split at h
  · split at h <;> cases h
    exact next_at_end (Nat.le_refl _)
  · rename_i hend
    cases h
    exact next_at_end (Nat.not_lt.mp hend)

/-- Behind a fault there is nothing. -/
theorem next_of_error (h : cursor.next = (some (.error fault), after)) :
    after.next = (none, after) := by
  rw [next] at h
  split at h
  · split at h <;> cases h
    exact next_at_end (Nat.le_refl _)
  · cases h

/-- Request after request, a walk yields its items, and then nothing for ever. -/
theorem answer_eq (n : Nat) (cursor : Cursor) :
    (cursor.advance n).next.1 = cursor.items[n]? := by
  induction n generalizing cursor with
  | zero =>
    rw [advance]
    rcases hnext : cursor.next with ⟨answer, after⟩
    cases answer with
    | none => rw [items_of_none hnext]; rfl
    | some item => rw [items_of_some hnext]; rfl
  | succ n ih =>
    rw [advance, ih]
    rcases hnext : cursor.next with ⟨answer, after⟩
    cases answer with
    | none =>
      rw [items_of_none hnext, items_of_none (next_of_none hnext)]
      simp only [List.getElem?_nil]
    | some item => rw [items_of_some hnext, List.getElem?_cons_succ]

/-- A record that a walk comes to is read, or its bytes are reported. -/
theorem read_corrupt (h : cursor.table.IsAddressable) (hindex : cursor.index < cursor.table.count) :
    FailsBy Fault.IsCorrupt cursor.read :=
  read_failsBy (h.recordAt_corrupt hindex) (Region.readKey_corrupt h.values_lt)
    (Region.readEntry_corrupt h.values_lt)

/-- Behind an entry the walk goes on over the same table, to the same end. -/
theorem of_next_ok {e : Entry} (h : cursor.next = (some (.ok e), after)) :
    after.table = cursor.table ∧ after.stop = cursor.stop := by
  rw [next] at h
  split at h
  · split at h <;> cases h
    exact ⟨rfl, rfl⟩
  · cases h

/-- A walk yields entries and, behind them, at most one fault, and in all no more items than
    there are records before its end. -/
theorem items_spec (h : cursor.table.IsAddressable) (hstop : cursor.stop ≤ cursor.table.count) :
    cursor.items.length ≤ cursor.stop - cursor.index
      ∧ ∃ (entries : List Entry) (rest : List Item), cursor.items = entries.map .ok ++ rest
        ∧ (rest = [] ∨ ∃ fault, fault.IsCorrupt ∧ rest = [.error fault]) := by
  -- over the steps of the walk, each of which comes closer to the end
  induction cursor using items.induct with
  | case1 cursor after hnext =>
    rw [items_of_none hnext]
    exact ⟨Nat.zero_le _, [], [], rfl, .inl rfl⟩
  | case2 cursor item after hnext hcloser ih =>
    rw [items_of_some hnext]
    cases item with
    | error fault =>
      obtain ⟨hindex, hread⟩ := of_next_error hnext
      have hcorrupt := read_corrupt h (Nat.lt_of_lt_of_le hindex hstop) fault hread
      rw [items_of_none (next_of_error hnext)]
      exact ⟨by rw [List.length_singleton]; omega, [], _, rfl, .inr ⟨fault, hcorrupt, rfl⟩⟩
    | ok e =>
      obtain ⟨htable, hend⟩ := of_next_ok hnext
      rw [← htable] at h hstop
      obtain ⟨hlength, entries, rest, hitems, hrest⟩ := ih h (hend ▸ hstop)
      refine ⟨by rw [List.length_cons]; omega, e :: entries, rest, ?_, hrest⟩
      rw [hitems, List.map_cons, List.cons_append]

end Cursor

/-! ### The law -/

namespace Table

/-- Whatever is asked of the table, it answers or reports a corruption, and what it finds is
    what was looked for, as far as its order says so. -/
structure ReadsSafely (table : Table) : Prop where
  search_corrupt : ∀ key, FailsBy Fault.IsCorrupt (table.search key)
  indexOf?_corrupt : ∀ key, FailsBy Fault.IsCorrupt (table.indexOf? key)
  get?_corrupt : ∀ key, FailsBy Fault.IsCorrupt (table.get? key)
  cursor_corrupt : ∀ bounds, FailsBy Fault.IsCorrupt (table.cursor bounds)
  of_found : ∀ key index, table.search key = .ok (.found index) → index < table.count
    ∧ ∃ found, table.keyAt index = .ok found ∧ table.order.compare found key = .eq
  of_absent : ∀ key index, table.search key = .ok (.absent index) → index ≤ table.count
  of_got : ∀ key e, table.get? key = .ok (some e) → table.order.compare e.key key = .eq
  walks : ∀ bounds cursor, table.cursor bounds = .ok cursor →
    cursor.items.length ≤ table.count
      ∧ (∃ (entries : List Entry) (rest : List Item), cursor.items = entries.map .ok ++ rest
        ∧ (rest = [] ∨ ∃ fault, fault.IsCorrupt ∧ rest = [.error fault]))
      ∧ ∀ n, (cursor.advance n).next.1 = cursor.items[n]?

theorem IsAddressable.readsSafely {table : Table} (h : table.IsAddressable) : table.ReadsSafely where
  search_corrupt := h.search_corrupt
  indexOf?_corrupt key := (h.search_corrupt key).map _
  get?_corrupt := h.get?_corrupt
  cursor_corrupt := h.cursor_corrupt
  of_found _ _ := of_search_found
  of_absent _ _ := of_search_absent
  of_got _ _ := of_get?_some
  walks bounds cursor hcursor := by
    obtain ⟨rfl, hstop, -⟩ := of_cursor_ok hcursor
    obtain ⟨hlength, hitems⟩ := Cursor.items_spec h (Nat.le_of_eq hstop)
    exact ⟨by omega, hitems, fun n => Cursor.answer_eq n cursor⟩

/-- **Any bytes can be read.** Two regions, whatever their bytes are, make a table exactly if
    the offsets consist of whole slots, and else that is reported. Under any comparison, also
    one that contradicts itself, every look-up and every walk over the table answers or reports
    a corruption. A look-up finds only what compares equal, at a place in the table. A walk
    yields no more items than there are records, all of them entries but at most the last, and
    then nothing for ever. -/
theorem any_bytes_can_be_read (generation : Nat) (values offsets : Region) (order : KeyOrder)
    (hvalues : values.length < Word.limit) (hoffsets : offsets.length < Word.limit) :
    (offsets.length % slotSize = 0 →
        ofRegions generation values offsets order = .ok ⟨generation, values, offsets, order⟩
          ∧ ReadsSafely ⟨generation, values, offsets, order⟩)
      ∧ (offsets.length % slotSize ≠ 0 → ofRegions generation values offsets order
        = .error (.corrupt offsets.length (.raggedOffsets offsets.length))) :=
  ⟨fun hslots => ⟨if_pos hslots, IsAddressable.readsSafely ⟨hvalues, hoffsets⟩⟩,
    fun hragged => if_neg hragged⟩

/-- Three slots, of which two point at one record and the last behind all memory, under an
    order that finds everything equal to `[1]` and puts it before everything else: the record
    is found, another key is reported, and a walk yields the record twice, then the report of
    the last slot, and then nothing. -/
theorem any_bytes_can_be_read_overlapping :
    let order : KeyOrder := ⟨"Contradictory", fun _ key => if key = [1] then .eq else .lt⟩
    let values : Region := (Entry.live [7] [2]).encode
    let offsets : Region := Word.encode 0 ++ Word.encode 0 ++ Word.encode (Word.limit - 1)
    let unreadable : Fault := .corrupt (Word.limit - 1) .unaddressable
    ∃ table cursor, ofRegions 0 values offsets order = .ok table
      ∧ table.get? [1] = .ok (some (.live [7] [2]))
      ∧ order.compare [7] [1] = .eq
      ∧ table.get? [5] = .error unreadable ∧ unreadable.IsCorrupt
      ∧ table.cursor .all = .ok cursor
      ∧ cursor.items.length ≤ 3
      ∧ cursor.items[0]? = some (.ok (.live [7] [2]))
      ∧ cursor.items[2]? = some (.error unreadable)
      ∧ ∀ n, 3 ≤ n → (cursor.advance n).next.1 = none := by
  intro order values offsets unreadable
  obtain ⟨hbound, -⟩ := any_bytes_can_be_read 0 values offsets order (by decide) (by decide)
  obtain ⟨hregions, hsafe⟩ := hbound (by decide)
  have hget : Table.get? ⟨0, values, offsets, order⟩ [1] = .ok (some (.live [7] [2])) := by
    decide +kernel
  have hmissed : Table.get? ⟨0, values, offsets, order⟩ [5] = .error unreadable := by
    decide +kernel
  have hcursor : Table.cursor ⟨0, values, offsets, order⟩ .all
      = .ok ⟨⟨0, values, offsets, order⟩, 0, offsets.slotCount, none⟩ := rfl
  have hcount : Table.count ⟨0, values, offsets, order⟩ = 3 := by decide
  obtain ⟨hlength, -, hanswers⟩ := hsafe.walks _ _ hcursor
  rw [hcount] at hlength
  refine ⟨_, _, hregions, hget, hsafe.of_got _ _ hget, hmissed, hsafe.get?_corrupt _ _ hmissed,
    hcursor, hlength, ?_, ?_, fun n hn => ?_⟩
  · rw [← hanswers]
    decide +kernel
  · rw [← hanswers]
    decide +kernel
  · rw [hanswers, List.getElem?_eq_none (by omega)]

end Table

end LayeredStore
