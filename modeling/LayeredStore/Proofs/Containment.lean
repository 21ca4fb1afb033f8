import LayeredStore.Proofs.Iteration
import LayeredStore.Proofs.Robustness
import Mathlib.Data.Set.List

namespace LayeredStore

/-!
# A value that cannot be read stays where it is

Between two bounds a walk looks at keys to find its start and its end, and it reads the
values within the bounds alone. So a value that is broken ends the walks that come to it
and harms no other, whatever the records around it are.

* `Table.hasKeys_iff` — the keys of a table, one for each index;
* `mem_of_mem_upToFault` — what is yielded up to a fault is among the items;
* `Table.HasKeys.keysOf_of_map_entryAt` — entries that are read have the keys listed for
  them;
* `Table.HasKeys.walk_exact` — what a walk answers, request after request.
-/

theorem mem_of_mem_upToFault {item : Item} {items : List Item} (h : item ∈ upToFault items) :
    item ∈ items := by
  induction items with
  | nil => exact h
  | cons first items ih =>
    cases first with
    | error fault => exact List.mem_cons.mpr (.inl (List.mem_singleton.mp h))
    | ok e =>
      rw [upToFault] at h
      rcases List.mem_cons.mp h with rfl | h
      · exact List.mem_cons_self
      · exact List.mem_cons_of_mem _ (ih h)

namespace Table

variable {table : Table} {keys : List Bytes} {bounds : Bounds}

/-- The keys of a table are given by index. -/
theorem hasKeys_iff :
    table.HasKeys keys ↔ table.count = keys.length
      ∧ ∀ i, i < keys.length → table.keyAt i = .ok (keys.getD i []) := by
  constructor
  · intro h
    refine ⟨h.count_eq, fun i hi => ?_⟩
    rw [h.keyAt_getElem hi, List.getD_eq_getElem _ _ hi]
  · rintro ⟨hcount, hkeys⟩
    refine ⟨hcount, fun before key after heq => ?_⟩
    rw [hkeys before.length (by simp [heq]), heq,
      List.getD_append_right _ _ _ _ (Nat.le_refl _), Nat.sub_self, List.getD_cons_zero]

namespace HasKeys

/-- Entries that are read at some of the indices have the keys that are listed there. -/
theorem keysOf_of_map_entryAt (h : table.HasKeys keys) {p : Bytes → Bool} {entries : List Entry}
    (hentries : (keys.findIdxs p).map table.entryAt = entries.map .ok) :
    keysOf entries = keys.filter p := by
  have hread : ∀ i ∈ keys.findIdxs p, table.keyAt i = (table.entryAt i).map Entry.key := by
    intro i hi
    have hmem : table.entryAt i ∈ entries.map .ok := hentries ▸ List.mem_map_of_mem hi
    obtain ⟨e, -, he⟩ := List.mem_map.mp hmem
    rw [keyAt_of_entryAt he.symm, ← he]
    rfl
  -- the keys that are read, once over the entries and once over the list
  have hkeys : (keysOf entries).map (Except.ok : Bytes → Except Fault Bytes)
      = (keys.filter p).map .ok :=
    calc (keysOf entries).map Except.ok
        = ((keys.findIdxs p).map table.entryAt).map (Except.map Entry.key) := by
          rw [hentries, keysOf, List.map_map, List.map_map]
          rfl
      _ = (keys.findIdxs p).map table.keyAt := by
          rw [List.map_map]
          exact (List.map_congr_left hread).symm
      _ = (keys.filter p).map Except.ok := map_findIdxs p fun _ hi => h.keyAt_getElem hi
  exact List.map_injective_iff.mpr (fun _ _ => Except.ok.inj) hkeys

/-- **A walk is exact, and a broken value harms it only within the bounds.** In a table whose
    keys can be read and ascend, whatever the values are, a walk can be made between any two
    bounds. Request after request it answers with the records whose keys lie within the
    bounds, in the order of their indices, up to the first that cannot be read, and then with
    nothing for ever. So what it reports is always the fault of a record within the bounds,
    and if all of these can be read, it yields just their entries. -/
theorem walk_exact [Std.TransCmp table.order.compare] (h : table.HasKeys keys)
    (hkeys : table.order.Ascending keys) (bounds : Bounds) :
    ∃ cursor, table.cursor bounds = .ok cursor
      ∧ (∀ n, (cursor.advance n).next.1
        = (upToFault ((keys.findIdxs (bounds.admits table.order)).map table.entryAt))[n]?)
      ∧ (∀ n fault, (cursor.advance n).next.1 = some (.error fault) →
        ∃ i key, keys[i]? = some key ∧ bounds.admits table.order key = true
          ∧ table.entryAt i = .error fault)
      ∧ ((∀ i key, keys[i]? = some key → bounds.admits table.order key = true →
          ∃ e, table.entryAt i = .ok e) →
        ∃ entries : List Entry, keysOf entries = keys.filter (bounds.admits table.order)
          ∧ (keys.findIdxs (bounds.admits table.order)).map table.entryAt = entries.map .ok
          ∧ ∀ n, (cursor.advance n).next.1 = (entries.map .ok)[n]?) := by
  obtain ⟨cursor, hcursor, hitems⟩ := h.cursor_spec hkeys bounds
  have hanswers : ∀ n, (cursor.advance n).next.1 = _ := fun n =>
    (Cursor.answer_eq n cursor).trans (by rw [hitems])
  have hwithin : ∀ i ∈ keys.findIdxs (bounds.admits table.order),
      ∃ key, keys[i]? = some key ∧ bounds.admits table.order key = true := by
    intro i hi
    obtain ⟨hlength, hadmits⟩ := List.mem_findIdxs_iff_exists_getElem_pos.mp hi
    exact ⟨keys[i], List.getElem?_eq_getElem hlength, hadmits⟩
  refine ⟨cursor, hcursor, hanswers, ?_, ?_⟩
  · intro n fault hfault
    rw [hanswers] at hfault
    have hmem := mem_of_mem_upToFault (List.mem_of_getElem? hfault)
    obtain ⟨i, hi, hentry⟩ := List.mem_map.mp hmem
    obtain ⟨key, hkey, hadmits⟩ := hwithin i hi
    exact ⟨i, key, hkey, hadmits, hentry⟩
  · intro hread
    have hall : (keys.findIdxs (bounds.admits table.order)).map table.entryAt
        ∈ Set.range (List.map Except.ok) := by
      rw [Set.range_list_map]
      intro item hitem
      obtain ⟨i, hi, rfl⟩ := List.mem_map.mp hitem
      obtain ⟨key, hkey, hadmits⟩ := hwithin i hi
      obtain ⟨e, he⟩ := hread i key hkey hadmits
      exact ⟨e, he.symm⟩
    obtain ⟨entries, hentries⟩ := hall
    refine ⟨entries, h.keysOf_of_map_entryAt hentries.symm, hentries.symm, fun n => ?_⟩
    rw [hanswers, ← hentries, upToFault_map_ok]

/-- Three records, and the value of the middle one has a negative length. The walk behind it
    does not come to it, the walk up to behind it reports it once, and between bounds that
    are turned round there is nothing. -/
theorem walk_exact_broken_middle :
    let values : Region := (Entry.live [1] [10]).encode
      ++ (Word.encode 1 ++ [3] ++ Word.encode (Word.ofInt (-2))) ++ (Entry.live [5] [50]).encode
    let offsets : Region := Word.encode 0 ++ Word.encode 18 ++ Word.encode 35
    let table : Table := ⟨0, values, offsets, .lexicographic⟩
    let keys : List Bytes := [[1], [3], [5]]
    table.HasKeys keys ∧ table.order.Ascending keys
      ∧ (∃ cursor, table.cursor ⟨some [4], none⟩ = .ok cursor
        ∧ cursor.next.1 = some (.ok (.live [5] [50]))
        ∧ ∀ n, (cursor.advance (n + 1)).next.1 = none)
      ∧ (∃ cursor, table.cursor ⟨none, some [4]⟩ = .ok cursor
        ∧ cursor.next.1 = some (.ok (.live [1] [10]))
        ∧ (cursor.advance 1).next.1 = some (.error (.corrupt 27 (.negativeLength (-2))))
        ∧ ∀ n, (cursor.advance (n + 2)).next.1 = none)
      ∧ (∃ cursor, table.cursor ⟨some [5], some [1]⟩ = .ok cursor
        ∧ ∀ n, (cursor.advance n).next.1 = none) := by
  intro values offsets table keys
  have hkeys : table.HasKeys keys := hasKeys_iff.mpr (by decide +kernel)
  have hascending : table.order.Ascending keys := by decide
  have : Std.TransCmp table.order.compare := inferInstanceAs (Std.TransCmp KeyOrder.byBytes)
  have hwalk := hkeys.walk_exact hascending
  refine ⟨hkeys, hascending, ?_, ?_, ?_⟩
  · obtain ⟨cursor, hcursor, hanswers, -, -⟩ := hwalk ⟨some [4], none⟩
    have hitems : upToFault ((keys.findIdxs
        (Bounds.admits ⟨some [4], none⟩ table.order)).map table.entryAt)
        = [.ok (.live [5] [50])] := by decide +kernel
    rw [hitems] at hanswers
    exact ⟨cursor, hcursor, hanswers 0, fun n => hanswers (n + 1)⟩
  · obtain ⟨cursor, hcursor, hanswers, -, -⟩ := hwalk ⟨none, some [4]⟩
    have hitems : upToFault ((keys.findIdxs
        (Bounds.admits ⟨none, some [4]⟩ table.order)).map table.entryAt)
        = [.ok (.live [1] [10]), .error (.corrupt 27 (.negativeLength (-2)))] := by
      decide +kernel
    rw [hitems] at hanswers
    exact ⟨cursor, hcursor, hanswers 0, hanswers 1, fun n => hanswers (n + 2)⟩
  · obtain ⟨cursor, hcursor, hanswers, -, -⟩ := hwalk ⟨some [5], some [1]⟩
    have hitems : upToFault ((keys.findIdxs
        (Bounds.admits ⟨some [5], some [1]⟩ table.order)).map table.entryAt) = [] := by
      decide +kernel
    rw [hitems] at hanswers
    exact ⟨cursor, hcursor, fun n => hanswers n⟩

end HasKeys

end Table

end LayeredStore
