import LayeredStore.Proofs.Containment

namespace LayeredStore

/-!
# A search is exact

In a table whose keys can be read and ascend, bisection answers for every key. It finds the
record whose key compares equal, or tells how many keys come before. So a look-up reads that
one record and no other: what it reports is wrong with just the record that was asked for.

* `KeyOrder.rank` — how many keys come before a key;
* `KeyOrder.isCut_rank`, `KeyOrder.eq_rank` — ascending keys are cut there, and only there a
  key can compare equal;
* `Table.HasKeys.search_cases` — the two answers of a search;
* `Region.readEntry_corrupt_of_readKey` — what may be wrong behind a key that was read;
* `Table.HasKeys.search_exact` — searches and look-ups, for every key.
-/

open Answer (FailsBy)

/-! ### Ranks -/

namespace KeyOrder

variable {order : KeyOrder} {key k : Bytes} {keys front back : List Bytes} {i : Nat}

/-- How many of the keys come before `key`. -/
def rank (order : KeyOrder) (key : Bytes) (keys : List Bytes) : Nat :=
  keys.countP (order.precedes · key)

theorem rank_append (hfront : ∀ k ∈ front, order.precedes k key = true)
    (hback : ∀ k ∈ back, order.precedes k key = false) :
    order.rank key (front ++ back) = front.length := by
  have hnone : back.countP (order.precedes · key) = 0 :=
    List.countP_eq_zero.mpr fun k hk => Bool.eq_false_iff.mp (hback k hk)
  rw [rank, List.countP_append, List.countP_eq_length.mpr hfront, hnone, Nat.add_zero]

variable [Std.TransCmp order.compare]

/-- Ascending keys are cut behind those that come before. -/
theorem isCut_rank (hkeys : order.Ascending keys) (key : Bytes) :
    IsCut (fun i => order.compare (keys.getD i []) key) keys.length (order.rank key keys) := by
  obtain ⟨front, back, rfl, hfront, hback⟩ : ∃ front back, keys = front ++ back
      ∧ (∀ k ∈ front, order.precedes k key = true)
      ∧ ∀ k ∈ back, order.precedes k key = false :=
    ⟨_, _, List.takeWhile_append_dropWhile.symm, eq_true_of_mem_takeWhile,
      eq_false_of_mem_dropWhile (List.Pairwise.imp precedes_of_lt hkeys)⟩
  rw [rank_append hfront hback]
  exact Table.HasKeys.isCut_of_append hkeys hfront hback

/-- A key that compares equal stands where those that come before end, so there is one at
    most. -/
theorem eq_rank (hkeys : order.Ascending keys) (hk : keys[i]? = some k)
    (hequal : order.compare k key = .eq) : i = order.rank key keys := by
  obtain ⟨hi, rfl⟩ := List.getElem?_eq_some_iff.mp hk
  refine (isCut_rank hkeys key).eq_of_eq hi ?_
  rw [List.getD_eq_getElem _ _ hi]
  exact hequal

end KeyOrder

/-! ### Searches -/

namespace Table.HasKeys

variable {table : Table} {keys : List Bytes} [Std.TransCmp table.order.compare]

/-- A search finds the key that compares equal, or there is none and it tells how many come
    before. -/
theorem search_cases (h : table.HasKeys keys) (hkeys : table.order.Ascending keys) (key : Bytes) :
    (∃ k, keys[table.order.rank key keys]? = some k ∧ table.order.compare k key = .eq
        ∧ table.search key = .ok (.found (table.order.rank key keys)))
      ∨ (∀ k ∈ keys, table.order.compare k key ≠ .eq)
        ∧ table.search key = .ok (.absent (table.order.rank key keys)) := by
  have hsearch := bisect_exact (fun i _ hi => h.compareAt_eq key hi)
    (Nat.zero_le (table.order.rank key keys)) List.countP_le_length
    (KeyOrder.isCut_rank hkeys key)
  rw [← h.count_eq] at hsearch
  by_cases hequal : ∃ k ∈ keys, table.order.compare k key = .eq
  · obtain ⟨k, hk, hequal⟩ := hequal
    obtain ⟨i, hi⟩ := List.mem_iff_getElem?.mp hk
    obtain rfl := KeyOrder.eq_rank hkeys hi hequal
    obtain ⟨hlength, rfl⟩ := List.getElem?_eq_some_iff.mp hi
    refine .inl ⟨_, hi, hequal, ?_⟩
    rw [search, hsearch, if_pos]
    rw [h.count_eq, List.getD_eq_getElem _ _ hlength]
    exact ⟨hlength, hequal⟩
  · refine .inr ⟨fun k hk heq => hequal ⟨k, hk, heq⟩, ?_⟩
    rw [search, hsearch, if_neg]
    rintro ⟨hlength, heq⟩
    rw [h.count_eq] at hlength
    rw [List.getD_eq_getElem _ _ hlength] at heq
    exact hequal ⟨_, List.getElem_mem hlength, heq⟩

/-- What is found is where a key compares equal. -/
theorem search_found_iff (h : table.HasKeys keys) (hkeys : table.order.Ascending keys)
    {key : Bytes} {i : Nat} :
    table.search key = .ok (.found i)
      ↔ ∃ k, keys[i]? = some k ∧ table.order.compare k key = .eq := by
  constructor
  · intro hfound
    rcases h.search_cases hkeys key with ⟨k, hk, hequal, hsearch⟩ | ⟨-, hsearch⟩
    · rw [hsearch] at hfound
      cases hfound
      exact ⟨k, hk, hequal⟩
    · rw [hsearch] at hfound
      cases hfound
  · rintro ⟨k, hk, hequal⟩
    rcases h.search_cases hkeys key with ⟨-, -, -, hsearch⟩ | ⟨hnone, -⟩
    · rw [hsearch, KeyOrder.eq_rank hkeys hk hequal]
    · exact absurd hequal (hnone k (List.mem_of_getElem? hk))

/-- Where no key compares equal, the answer is how many come before. -/
theorem search_absent_iff (h : table.HasKeys keys) (hkeys : table.order.Ascending keys)
    {key : Bytes} {i : Nat} :
    table.search key = .ok (.absent i)
      ↔ (∀ k ∈ keys, table.order.compare k key ≠ .eq) ∧ i = table.order.rank key keys := by
  constructor
  · intro habsent
    rcases h.search_cases hkeys key with ⟨-, -, -, hsearch⟩ | ⟨hnone, hsearch⟩
    · rw [hsearch] at habsent
      cases habsent
    · rw [hsearch] at habsent
      cases habsent
      exact ⟨hnone, rfl⟩
  · rintro ⟨hnone, rfl⟩
    rcases h.search_cases hkeys key with ⟨k, hk, hequal, -⟩ | ⟨-, hsearch⟩
    · exact absurd hequal (hnone k (List.mem_of_getElem? hk))
    · exact hsearch

end Table.HasKeys

/-! ### Records behind a key -/

namespace Region

variable {region : Region} {offset length : Nat} {bytes key : Bytes}

/-- A stretch that cannot be read is reported as a corruption. -/
theorem slice_corrupt (region : Region) (offset length : Nat) :
    FailsBy Fault.IsCorrupt (region.slice offset length) := by
  rw [slice]
  split
  · exact .error ⟨_, _, rfl⟩
  · split
    · exact .error ⟨_, _, rfl⟩
    · exact .ok _

/-- Where a word was read, the place behind it is a word. -/
theorem add_of_readWord {n : Nat} (h : region.readWord offset = .ok n) :
    Word.add offset Word.size = .ok (offset + Word.size) := by
  obtain ⟨_, hslice, -⟩ := Answer.map_eq_ok_iff.mp h
  exact Word.add_of_lt (slice_eq_ok_iff.mp hslice).1

/-- Where a key was read, the place behind it is a word. -/
theorem add_of_readKey (h : region.readKey offset = .ok key) :
    Word.add offset Word.size = .ok (offset + Word.size)
      ∧ Word.add (offset + Word.size) key.length = .ok (offset + Word.size + key.length) := by
  obtain ⟨length, hword, h⟩ := Answer.bind_eq_ok_iff.mp h
  have hsize := add_of_readWord hword
  rw [hsize] at h
  obtain ⟨hlimit, hfits, rfl⟩ := slice_eq_ok_iff.mp h
  refine ⟨hsize, Word.add_of_lt ?_⟩
  rw [Bytes.length_slice]
  omega

/-- What is wrong behind a key that was read is reported as a corruption. -/
theorem readEntry_corrupt_of_readKey (h : region.readKey offset = .ok key) :
    FailsBy Fault.IsCorrupt (region.readEntry offset) := by
  obtain ⟨hsize, hbehind⟩ := add_of_readKey h
  rw [readEntry, h]
  refine (FailsBy.ok key).bind_of_ok ?_
  rintro _ ⟨⟩
  rw [hsize]
  refine (FailsBy.ok _).bind_of_ok ?_
  rintro _ ⟨⟩
  rw [hbehind]
  refine (FailsBy.ok _).bind_of_ok ?_
  rintro _ ⟨⟩
  refine (((slice_corrupt _ _ _).map _).map _).bind_of_ok fun length hlength => ?_
  split
  · exact .ok _
  · split
    · exact .error ⟨_, _, rfl⟩
    · obtain ⟨_, hword, -⟩ := Answer.map_eq_ok_iff.mp hlength
      rw [add_of_readWord hword]
      exact (FailsBy.ok _).bind fun start => (slice_corrupt _ _ _).bind fun _ => .ok _

end Region

/-! ### Look-ups -/

namespace Table

variable {table : Table} {keys : List Bytes} {i : Nat} {key k : Bytes}

theorem get?_of_found (hsearch : table.search key = .ok (.found i)) :
    table.get? key = (table.entryAt i).map some := by
  rw [get?, indexOf?, hsearch]
  rfl

theorem get?_of_absent (hsearch : table.search key = .ok (.absent i)) :
    table.get? key = .ok none := by
  rw [get?, indexOf?, hsearch]
  rfl

namespace HasKeys

/-- A record whose key can be read has that key, or what is wrong with it is reported as a
    corruption. -/
theorem entryAt_spec (h : table.HasKeys keys) (hk : keys[i]? = some k) :
    (∀ e, table.entryAt i = .ok e → e.key = k)
      ∧ FailsBy Fault.IsCorrupt (table.entryAt i) := by
  obtain ⟨hi, rfl⟩ := List.getElem?_eq_some_iff.mp hk
  have hkey := h.keyAt_getElem hi
  constructor
  · intro e he
    rw [keyAt_of_entryAt he] at hkey
    exact Except.ok.inj hkey
  · obtain ⟨start, hstart, hread⟩ := Answer.bind_eq_ok_iff.mp hkey
    rw [entryAt, hstart]
    refine (FailsBy.ok start).bind_of_ok ?_
    rintro _ ⟨⟩
    exact Region.readEntry_corrupt_of_readKey hread

/-- **A search is exact.** In a table whose keys can be read and ascend, whatever the values
    are, a search answers for every key. What it finds is where a key compares equal, and if
    none does, it tells how many keys come before. So a look-up gives the entry of the one
    record whose key compares equal, or the corruption of that very record, and nothing where
    there is no such record. -/
theorem search_exact [Std.TransCmp table.order.compare] (h : table.HasKeys keys)
    (hkeys : table.order.Ascending keys) (key : Bytes) :
    (∃ position, table.search key = .ok position)
      ∧ (∀ i, table.search key = .ok (.found i)
        ↔ ∃ k, keys[i]? = some k ∧ table.order.compare k key = .eq)
      ∧ (∀ i, table.search key = .ok (.absent i)
        ↔ (∀ k ∈ keys, table.order.compare k key ≠ .eq) ∧ i = table.order.rank key keys)
      ∧ (∀ i k, keys[i]? = some k → table.order.compare k key = .eq →
        table.get? key = (table.entryAt i).map some
          ∧ (∀ e, table.entryAt i = .ok e → e.key = k)
          ∧ ∀ fault, table.entryAt i = .error fault → fault.IsCorrupt)
      ∧ ((∀ k ∈ keys, table.order.compare k key ≠ .eq) → table.get? key = .ok none) := by
  refine ⟨?_, fun i => h.search_found_iff hkeys, fun i => h.search_absent_iff hkeys, ?_, ?_⟩
  · rcases h.search_cases hkeys key with ⟨-, -, -, hsearch⟩ | ⟨-, hsearch⟩
    · exact ⟨_, hsearch⟩
    · exact ⟨_, hsearch⟩
  · intro i k hk hequal
    have hfound := (h.search_found_iff hkeys).mpr ⟨k, hk, hequal⟩
    exact ⟨get?_of_found hfound, h.entryAt_spec hk⟩
  · intro hnone
    exact get?_of_absent ((h.search_absent_iff hkeys).mpr ⟨hnone, rfl⟩)

/-- Three records, and the value of the middle one has a negative length. A look-up of its key
    reports that, the keys around it are found all the same, and a key in between is missed
    behind the one record that comes before it. -/
theorem search_exact_broken_middle :
    let values : Region := (Entry.live [1] [10]).encode
      ++ (Word.encode 1 ++ [3] ++ Word.encode (Word.ofInt (-2))) ++ (Entry.live [5] [50]).encode
    let offsets : Region := Word.encode 0 ++ Word.encode 18 ++ Word.encode 35
    let table : Table := ⟨0, values, offsets, .lexicographic⟩
    let keys : List Bytes := [[1], [3], [5]]
    table.HasKeys keys ∧ table.order.Ascending keys
      ∧ table.search [5] = .ok (.found 2) ∧ table.get? [5] = .ok (some (.live [5] [50]))
      ∧ table.get? [3] = .error (.corrupt 27 (.negativeLength (-2)))
      ∧ table.search [2] = .ok (.absent 1) ∧ table.get? [2] = .ok none := by
  intro values offsets table keys
  have hkeys : table.HasKeys keys := hasKeys_iff.mpr (by decide +kernel)
  have hascending : table.order.Ascending keys := by decide
  have : Std.TransCmp table.order.compare := inferInstanceAs (Std.TransCmp KeyOrder.byBytes)
  have hexact := hkeys.search_exact hascending
  have hlast : table.entryAt 2 = .ok (.live [5] [50]) := by decide +kernel
  have hmiddle : table.entryAt 1 = .error (.corrupt 27 (.negativeLength (-2))) := by
    decide +kernel
  have hnone : ∀ k ∈ keys, table.order.compare k [2] ≠ .eq := by decide
  refine ⟨hkeys, hascending, ?_, ?_, ?_, ?_, ?_⟩
  · exact ((hexact [5]).2.1 2).mpr ⟨[5], rfl, by decide⟩
  · rw [((hexact [5]).2.2.2.1 2 [5] rfl (by decide)).1, hlast]
    rfl
  · rw [((hexact [3]).2.2.2.1 1 [3] rfl (by decide)).1, hmiddle]
    rfl
  · exact ((hexact [2]).2.2.1 1).mpr ⟨hnone, by decide⟩
  · exact (hexact [2]).2.2.2.2 hnone

end HasKeys

end Table

end LayeredStore
