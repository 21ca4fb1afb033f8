import LayeredStore.Proofs.Flushing
import Mathlib.Data.Finset.Card

namespace LayeredStore.Buffer

/-!
# A buffer is the sorted map of its writes

The buffer counts its payload write by write, and never looks at all of its entries to do so.
Still it holds exactly the last write under each key, in order, and the count is exact.

* `latest` — of some writes, the last one under each key;
* `Gathers` — the buffer that some writes lead to: their map, with its payload counted;
* `Gathers.insert` — one more write;
* `Gathers.perm`, `Gathers.count_eq`, `Gathers.isEmpty_eq`, `Gathers.size_eq` — what is held,
  and how much it is;
* `Sound.mem_range`, `Sound.payloadUnder_le` — ranges, and the payload that a write replaces;
* `recent`, `gathers_ofEdits` — the writes since the last clearing, and the buffer that edits
  lead to;
* `sorted_map_of_edits` — all of it, for any edits.
-/

variable {buffer : Buffer} {writes older entries : List Entry} {e new : Entry} {key : Bytes}

/-! ### The last write under each key -/

/-- Of writes, the latest first, the last one under each key. -/
def latest : List Entry → List Entry
  | [] => []
  | e :: older => e :: (latest older).filter fun old => old.key != e.key

/-- What is left of the writes is what a search for its key finds among them. -/
theorem mem_latest : e ∈ latest writes ↔ writes.find? (·.key == e.key) = some e := by
  induction writes with
  | nil => simp [latest]
  | cons new older ih =>
    by_cases hkey : new.key = e.key
    · simp [latest, hkey, eq_comm]
    · have hne : e ≠ new := fun heq => hkey (by rw [heq])
      simp [latest, hkey, hne, Ne.symm hkey, ih]

theorem nodup_keysOf_latest (writes : List Entry) : (keysOf (latest writes)).Nodup := by
  induction writes with
  | nil => simp [latest]
  | cons new older ih =>
    rw [latest, keysOf_cons, List.nodup_cons]
    refine ⟨?_, ih.sublist (List.filter_sublist.map Entry.key)⟩
    simp [keysOf]

/-- The keys that were written are those of the last writes. -/
theorem mem_keysOf_latest : key ∈ keysOf (latest writes) ↔ key ∈ keysOf writes := by
  induction writes with
  | nil => simp [latest]
  | cons new older ih =>
    simp only [latest, keysOf, List.map_cons, List.mem_cons] at ih ⊢
    rw [← ih]
    by_cases hkey : key = new.key
    · simp [hkey]
    · simp only [hkey, false_or, List.mem_map, List.mem_filter]
      constructor
      · rintro ⟨e, ⟨he, -⟩, rfl⟩
        exact ⟨e, he, rfl⟩
      · rintro ⟨e, he, rfl⟩
        exact ⟨e, ⟨he, by simpa using hkey⟩, rfl⟩

theorem length_latest (writes : List Entry) :
    (latest writes).length = (keysOf writes).toFinset.card := by
  have hkeys : (keysOf (latest writes)).toFinset = (keysOf writes).toFinset := by
    ext key
    simp [mem_keysOf_latest]
  rw [← hkeys, List.toFinset_card_of_nodup (nodup_keysOf_latest writes), keysOf, List.length_map]

/-! ### Payloads -/

theorem payloadSum_perm {left right : List Entry} (h : left.Perm right) :
    payloadSum left = payloadSum right := by
  induction h with
  | nil => rfl
  | cons e _ ih => simp [payloadSum, ih]
  | swap a b entries =>
    simp only [payloadSum]
    omega
  | trans _ _ ih ih' => exact ih.trans ih'

theorem payload_le_payloadSum (h : e ∈ entries) : e.payload ≤ payloadSum entries := by
  induction entries with
  | nil => cases h
  | cons first entries ih =>
    rw [payloadSum]
    rcases List.mem_cons.mp h with rfl | h
    · omega
    · have := ih h
      omega

/-- The payload of the entry under a key, and zero where there is none. A write under the key
    takes it off the size. -/
def payloadUnder (buffer : Buffer) (key : Bytes) : Nat :=
  ((buffer.get? key).map Entry.payload).getD 0

theorem size_insert (buffer : Buffer) (new : Entry) :
    (buffer.insert new).size = buffer.size + new.payload - buffer.payloadUnder new.key := rfl

/-! ### Sound buffers -/

namespace Sound

/-- The entries that are held are those that are found under their key. -/
theorem mem_entries (h : buffer.Sound) : e ∈ buffer.entries ↔ buffer.get? e.key = some e := by
  rw [get?_eq, KeyOrder.find?_eq_some_iff_mem h.ascending]

/-- What a write takes off the size was counted before. -/
theorem payloadUnder_le (h : buffer.Sound) (key : Bytes) :
    buffer.payloadUnder key ≤ buffer.size := by
  rw [payloadUnder, get?_eq]
  cases hfound : KeyOrder.lexicographic.find? key buffer.entries with
  | none => simp
  | some e =>
    rw [h.size_eq]
    simpa using payload_le_payloadSum (KeyOrder.mem_of_find? hfound)

/-- A read of a range has the entries that are held and lie within the bounds. -/
theorem mem_range (h : buffer.Sound) (bounds : Bounds) : e ∈ buffer.range bounds ↔
    buffer.get? e.key = some e
      ∧ (∀ lower ∈ bounds.lower, KeyOrder.byBytes lower e.key ≠ .gt)
      ∧ ∀ upper ∈ bounds.upper, KeyOrder.byBytes e.key upper = .lt := by
  rw [range_eq, List.mem_filter, Bounds.admits_iff, h.mem_entries]
  rfl

theorem ascending_range (h : buffer.Sound) (bounds : Bounds) :
    KeyOrder.lexicographic.Ascending (keysOf (buffer.range bounds)) := by
  rw [range_eq]
  exact h.ascending.sublist (List.filter_sublist.map Entry.key)

end Sound

theorem isEmpty_iff : buffer.isEmpty = true ↔ buffer.count = 0 := by
  simp [isEmpty, count]

/-! ### Buffers and the writes that lead to them -/

/-- The buffer is the map of some writes, the latest first, and its size is exact. -/
structure Gathers (buffer : Buffer) (writes : List Entry) : Prop where
  sound : buffer.Sound
  get?_eq : ∀ key, buffer.get? key = writes.find? (·.key == key)

theorem gathers_empty : empty.Gathers [] := ⟨sound_empty, fun _ => rfl⟩

namespace Gathers

/-- One more write is the last one under its key. -/
theorem insert (h : buffer.Gathers writes) (new : Entry) :
    (buffer.insert new).Gathers (new :: writes) := by
  refine ⟨h.sound.insert new, fun key => ?_⟩
  rw [Buffer.get?_eq, find?_insert, ← Buffer.get?_eq, h.get?_eq, List.find?_cons]
  by_cases hkey : key = new.key
  · simp [hkey]
  · have hne : (new.key == key) = false := beq_false_of_ne (Ne.symm hkey)
    simp [hkey, hne]

/-- The buffer holds the last write under each key, and nothing else. -/
theorem perm (h : buffer.Gathers writes) : buffer.entries.Perm (latest writes) := by
  have hentries : buffer.entries.Nodup := nodup_of_ascending h.sound.ascending
  have hlatest : (latest writes).Nodup := (nodup_keysOf_latest writes).of_map
  refine (List.perm_ext_iff_of_nodup hentries hlatest).mpr fun e => ?_
  rw [h.sound.mem_entries, h.get?_eq, mem_latest]

/-- It has one entry for each key that was written. -/
theorem count_eq (h : buffer.Gathers writes) : buffer.count = (keysOf writes).toFinset.card := by
  rw [count, h.perm.length_eq, length_latest]

theorem isEmpty_eq (h : buffer.Gathers writes) : buffer.isEmpty = writes.isEmpty := by
  rw [isEmpty, h.perm.isEmpty_eq]
  cases writes <;> rfl

theorem size_eq (h : buffer.Gathers writes) : buffer.size = payloadSum (latest writes) := by
  rw [h.sound.size_eq, payloadSum_perm h.perm]

end Gathers

/-! ### Edits -/

/-- The entry that an edit writes. A clearing writes none. -/
def Edit.written? : Edit → Option Entry
  | .upsert entry => some entry
  | .put key value => some (.live key value)
  | .delete key => some (.tombstone key)
  | .clear => none

/-- The writes since the last clearing, the latest first. -/
def recent (edits : List Edit) : List Entry :=
  (edits.reverse.takeWhile fun change => decide (change ≠ .clear)).filterMap Edit.written?

theorem recent_concat (edits : List Edit) (change : Edit) :
    recent (edits ++ [change]) = change.written?.elim [] (· :: recent edits) := by
  cases change <;> simp [recent, Edit.written?]

/-- One more edit is one more write, or starts anew. -/
theorem Gathers.edit (h : buffer.Gathers writes) (change : Edit) :
    (buffer.edit change).Gathers (change.written?.elim [] (· :: writes)) := by
  cases change with
  | upsert entry => exact h.insert entry
  | put key value => exact h.insert (.live key value)
  | delete key => exact h.insert (.tombstone key)
  | clear => exact gathers_empty

/-- Edits lead to the buffer of the writes since the last clearing. -/
theorem gathers_ofEdits (edits : List Edit) : (ofEdits edits).Gathers (recent edits) := by
  induction edits using List.reverseRecOn with
  | nil => exact gathers_empty
  | append_singleton edits change ih =>
    rw [ofEdits, List.foldl_concat, recent_concat]
    exact ih.edit change

/-- **A buffer is a sorted map with an exact count of its payload.** Whatever was done to a
    buffer: it answers with the last write under a key since it was last cleared, tombstones
    included; it has one entry for each key that was written since; and its size is the payload
    of its entries. What the next write takes off the size was counted before, so the size
    does not fall below zero. A read of a range has, ascending, just the entries that are held
    and lie within the bounds; where the lower bound has reached the upper one it is empty, and
    no stretch of the entries is asked for between bounds of which one has passed the other.
    The buffer is empty when it has no entry, and then its size is zero. -/
theorem sorted_map_of_edits (edits : List Edit) :
    (∀ key, (ofEdits edits).get? key = (recent edits).find? (·.key == key))
      ∧ (ofEdits edits).count = (keysOf (recent edits)).toFinset.card
      ∧ (ofEdits edits).size = payloadSum (ofEdits edits).entries
      ∧ (∀ new : Entry, (ofEdits edits).payloadUnder new.key ≤ (ofEdits edits).size + new.payload
        ∧ ((ofEdits edits).insert new).size + (ofEdits edits).payloadUnder new.key
          = (ofEdits edits).size + new.payload)
      ∧ (∀ bounds, KeyOrder.lexicographic.Ascending (keysOf ((ofEdits edits).range bounds))
        ∧ (∀ e, e ∈ (ofEdits edits).range bounds ↔ (ofEdits edits).get? e.key = some e
          ∧ (∀ lower ∈ bounds.lower, KeyOrder.byBytes lower e.key ≠ .gt)
          ∧ ∀ upper ∈ bounds.upper, KeyOrder.byBytes e.key upper = .lt)
        ∧ (bounds.isVoid .lexicographic = true ∧ (ofEdits edits).range bounds = []
          ∨ ∃ hupright, (ofEdits edits).range bounds
            = between (ofEdits edits).entries bounds hupright))
      ∧ ((ofEdits edits).isEmpty = true ↔ (ofEdits edits).count = 0)
      ∧ ((ofEdits edits).count = 0 → (ofEdits edits).size = 0) := by
  have hgathers := gathers_ofEdits edits
  have hsound := hgathers.sound
  refine ⟨hgathers.get?_eq, hgathers.count_eq, hsound.size_eq, fun new => ?_, fun bounds => ?_,
    isEmpty_iff, fun hcount => ?_⟩
  · have hcounted := hsound.payloadUnder_le new.key
    rw [size_insert]
    omega
  · refine ⟨hsound.ascending_range bounds, fun e => hsound.mem_range bounds, ?_⟩
    by_cases hvoid : bounds.isVoid .lexicographic = true
    · exact .inl ⟨hvoid, dif_pos hvoid⟩
    · exact .inr ⟨Bounds.isUpright_of_not_isVoid hvoid, dif_neg hvoid⟩
  · rw [hsound.eq_empty (List.length_eq_zero_iff.mp hcount)]
    rfl

end LayeredStore.Buffer
