import LayeredStore.Proofs.Iteration
import LayeredStore.Proofs.Merging
import LayeredStore.Store
import Mathlib.Data.List.Sort

namespace LayeredStore

/-!
# Reading a store

A store whose tables hold layers of ascending entries answers with the entry of the
newest layer that has the key, and it scans to exactly those entries. So its reads are
told by the look-ups in the layers alone.

* `Table.IsLayer` — a table that holds ascending entries;
* `Store.Layered` — a store whose tables hold layers, the newest first;
* `Store.Layered.get?_eq`, `Store.Layered.scan_eq` — the two ways to read such a store;
* `Store.Layered.reads_congr` — stores whose layers answer alike read alike.
-/

/-! ### Entries within bounds -/

namespace KeyOrder

variable {order : KeyOrder} [Std.TransCmp order.compare] {entries left right : List Entry}

/-- Keys that compare equal are admitted alike. -/
theorem admits_congr {bounds : Bounds} {a b : Bytes} (h : order.same a b = true) :
    bounds.admits order a = bounds.admits order b := by
  obtain ⟨lower, upper⟩ := bounds
  have heq := same_iff.mp h
  cases lower <;> cases upper <;>
    simp only [Bounds.admits, Option.all_none, Option.all_some, Std.TransCmp.congr_left heq,
      Std.TransCmp.congr_right heq]

/-- Among the entries within bounds a key finds what it finds among all, if it is within
    the bounds itself. -/
theorem find?_filter_admits {bounds : Bounds} {key : Bytes} :
    order.find? key (entries.filter fun e => bounds.admits order e.key)
      = if bounds.admits order key then order.find? key entries else none := by
  rw [find?, List.find?_filter]
  by_cases hkey : bounds.admits order key = true
  · rw [if_pos hkey, find?]
    congr 1
    funext e
    -- only entries under the key matter, and these are admitted as it is
    by_cases hsame : order.same e.key key = true
    · rw [admits_congr hsame, hkey, hsame]
      rfl
    · rw [Bool.eq_false_iff.mpr hsame]
      exact decide_eq_false fun h => Bool.false_ne_true h.2
  · rw [if_neg hkey, List.find?_eq_none]
    intro e _ hboth
    have hboth := of_decide_eq_true hboth
    rw [admits_congr hboth.2] at hboth
    exact hkey hboth.1

/-- Ascending entries are told by which they are. -/
theorem eq_of_ascending (hleft : order.Ascending (keysOf left))
    (hright : order.Ascending (keysOf right)) (h : ∀ e, e ∈ left ↔ e ∈ right) : left = right := by
  have : Std.Irrefl fun a b : Entry => order.compare a.key b.key = .lt :=
    ⟨fun a hlt => by rw [same_iff.mp (same_refl a.key)] at hlt; cases hlt⟩
  have : Std.Asymm fun a b : Entry => order.compare a.key b.key = .lt :=
    ⟨fun a b hab hba => by rw [Std.OrientedCmp.gt_of_lt hab] at hba; cases hba⟩
  exact List.Pairwise.eq_of_mem_iff (List.pairwise_map.mp hleft) (List.pairwise_map.mp hright) h

/-- Ascending entries are each found under their key. -/
theorem find?_eq_some_iff_mem (h : order.Ascending (keysOf entries)) {e : Entry} :
    order.find? e.key entries = some e ↔ e ∈ entries := by
  refine ⟨mem_of_find?, fun he => ?_⟩
  induction entries with
  | nil => cases he
  | cons first entries ih =>
    obtain ⟨hfirst, hrest⟩ := ascending_cons.mp h
    rcases List.mem_cons.mp he with rfl | he
    · exact find?_cons_of_same (same_refl e.key)
    · have hsame := same_eq_false_of_lt (hfirst e.key (List.mem_map_of_mem he))
      rw [find?_cons_of_not_same hsame, ih hrest he]

/-- Among ascending entries the one with a key is the one that is found. -/
theorem find?_eq_some_iff (h : order.Ascending (keysOf entries)) {key : Bytes} {e : Entry} :
    order.find? key entries = some e ↔ e ∈ entries ∧ order.same e.key key = true := by
  constructor
  · exact fun hfound => ⟨mem_of_find? hfound, same_of_find? hfound⟩
  · rintro ⟨he, hsame⟩
    rw [← find?_congr hsame]
    exact (find?_eq_some_iff_mem h).mpr he

end KeyOrder

/-! ### Tables that are layers -/

/-- The table is ordered by `order` and holds the given entries, which ascend. -/
structure Table.IsLayer (order : KeyOrder) (table : Table) (entries : List Entry) : Prop where
  order_eq : table.order = order
  holds : table.Holds entries
  ascending : order.Ascending (keysOf entries)

namespace Table.IsLayer

variable {order : KeyOrder} [Std.TransCmp order.compare] {table : Table} {entries : List Entry}

theorem get?_eq (h : table.IsLayer order entries) (key : Bytes) :
    table.get? key = .ok (order.find? key entries) := by
  obtain ⟨rfl, hholds, hascending⟩ := h
  exact hholds.get?_eq hascending key

theorem scan_eq (h : table.IsLayer order entries) (bounds : Bounds) :
    table.scan bounds = .ok ((entries.filter fun e => bounds.admits order e.key).map .ok) := by
  obtain ⟨rfl, hholds, hascending⟩ := h
  exact hholds.scan_eq hascending bounds

end Table.IsLayer

/-! ### Stores of layers -/

namespace Store

/-- The store's tables hold the given layers, the newest first. -/
def Layered (store : Store) (layers : List (List Entry)) : Prop :=
  List.Forall₂ (Table.IsLayer store.order) store.tables layers

/-- The parts of the layers that lie within bounds. -/
def layersWithin (order : KeyOrder) (bounds : Bounds) (layers : List (List Entry)) :
    List (List Entry) :=
  layers.map fun entries => entries.filter fun e => bounds.admits order e.key

variable {order : KeyOrder} {tables : List Table} {layers : List (List Entry)}

section Tables

variable [Std.TransCmp order.compare]

/-- Look-up goes through the tables until one has the key. -/
theorem firstEntry_eq (h : List.Forall₂ (Table.IsLayer order) tables layers) (key : Bytes) :
    firstEntry key tables = .ok (order.find? key layers.flatten) := by
  induction h with
  | nil => rfl
  | @cons table entries tables layers hlayer _ ih =>
    rw [firstEntry, hlayer.get?_eq, List.flatten_cons, KeyOrder.find?_append]
    cases order.find? key entries with
    | none => exact ih
    | some e => rfl

/-- The streams of the tables show the layers within the bounds, ranked by age, where all
    ranks have a priority. -/
theorem streamsFrom_eq (h : List.Forall₂ (Table.IsLayer order) tables layers) (bounds : Bounds)
    (rank : Nat) (hranks : rank + tables.length < Word.halfLimit) :
    ∃ inputs, streamsFrom bounds rank tables = .ok inputs
      ∧ List.Forall₂ Merge.Shows (Merge.ranked (rank + 1) (layersWithin order bounds layers))
        inputs := by
  induction h generalizing rank with
  | nil => exact ⟨[], rfl, .nil⟩
  | @cons table entries tables layers hlayer _ ih =>
    rw [List.length_cons] at hranks
    obtain ⟨inputs, hinputs, hshows⟩ := ih (rank + 1) (by omega)
    let within := entries.filter fun e => bounds.admits order e.key
    refine ⟨.ofItems (rank + 1) (within.map .ok) :: inputs, ?_, .cons ⟨rfl, ?_⟩ hshows⟩
    · have hpriority : priorityOf rank = .ok (rank + 1) := priorityOf_of_lt (by omega)
      rw [streamsFrom, hlayer.scan_eq, hpriority]
      show (streamsFrom bounds (rank + 1) tables >>= fun rest => pure (_ :: rest)) = _
      rw [hinputs]
      rfl
    · exact Lookahead.front_ofItems _ _

end Tables

/-- A run of layers within bounds ascends if the layers do. -/
theorem sorted_ranked (hlayers : ∀ entries ∈ layers, order.Ascending (keysOf entries))
    (priority : Nat) : ∀ run ∈ Merge.ranked priority layers, Merge.Sorted order run.entries := by
  induction layers generalizing priority with
  | nil => intro run hrun; cases hrun
  | cons entries layers ih =>
    intro run hrun
    rcases List.mem_cons.mp hrun with rfl | hrun
    · exact Merge.sorted_of_ascending (hlayers entries List.mem_cons_self)
    · exact ih (fun other hother => hlayers other (List.mem_cons_of_mem _ hother)) _ run hrun

variable [Std.TransCmp order.compare]

/-- The merge of layers within bounds yields, ascending, the entries within the bounds that
    are found under their key. -/
theorem merge_layers {inputs : List Lookahead} {bounds : Bounds} {priority : Nat}
    (hinputs : List.Forall₂ Merge.Shows (Merge.ranked priority (layersWithin order bounds layers))
      inputs)
    (hlayers : ∀ entries ∈ layers, order.Ascending (keysOf entries)) :
    ∃ merged : List Entry, (Merge.ofInputs order inputs).items = merged.map .ok
      ∧ order.Ascending (keysOf merged) ∧ ∀ e, e ∈ merged ↔
        bounds.admits order e.key = true ∧ order.find? e.key layers.flatten = some e := by
  have hwithin : ∀ entries ∈ layersWithin order bounds layers,
      order.Ascending (keysOf entries) := by
    intro part hpart
    obtain ⟨entries, hentries, rfl⟩ := List.mem_map.mp hpart
    exact List.Pairwise.sublist (List.Sublist.map _ List.filter_sublist) (hlayers entries hentries)
  obtain ⟨merged, hitems, hascending, hmem⟩ :=
    Merge.items_ofInputs hinputs (sorted_ranked hwithin priority)
  refine ⟨merged, hitems, hascending, fun e => ?_⟩
  -- of runs that are ranked by age the first one with the key wins
  rw [hmem, Merge.wins_ranked_iff, layersWithin, ← List.filter_flatten, KeyOrder.find?_filter_admits]
  by_cases hadmits : bounds.admits order e.key = true
  · rw [if_pos hadmits]
    exact ⟨fun h => ⟨hadmits, h⟩, fun h => h.2⟩
  · rw [if_neg hadmits]
    exact ⟨fun h => (Option.some_ne_none e h.symm).elim, fun h => absurd h.1 hadmits⟩

/-- Where there are streams, each rank has a priority. -/
theorem length_lt_of_streamsFrom {bounds : Bounds} {rank : Nat} {inputs : List Lookahead}
    (hrank : rank < Word.halfLimit) (h : streamsFrom bounds rank tables = .ok inputs) :
    rank + tables.length < Word.halfLimit := by
  induction tables generalizing rank inputs with
  | nil => exact hrank
  | cons table tables ih =>
    obtain ⟨items, _, h⟩ := Answer.bind_eq_ok_iff.mp h
    obtain ⟨priority, hpriority, h⟩ := Answer.bind_eq_ok_iff.mp h
    obtain ⟨rest, hrest, _⟩ := Answer.bind_eq_ok_iff.mp h
    rw [priorityOf, Nat.mod_eq_of_lt hrank, Word.addHalf] at hpriority
    split at hpriority
    · rw [List.length_cons, Nat.add_comm tables.length, ← Nat.add_assoc]
      exact ih (by assumption) hrest
    · cases hpriority

/-- Only a usable store with fewer tables than there are priorities can be scanned. -/
theorem of_scan_ok {store : Store} {bounds : Bounds} {items : List Item}
    (h : store.scan bounds = .ok items) :
    store.ensureUsable = .ok () ∧ store.tables.length < Word.halfLimit := by
  cases husable : store.ensureUsable with
  | ok _ =>
    obtain ⟨inputs, hinputs, _⟩ := Answer.bind_eq_ok_iff.mp h
    rw [streams, husable] at hinputs
    have hlt := length_lt_of_streamsFrom (by decide) hinputs
    exact ⟨rfl, by rwa [Nat.zero_add] at hlt⟩
  | error fault =>
    rw [scan, streams, husable] at h
    cases h

/-- Ascending entries that are those which all layers answer with and which pass a test
    answer as the layers do, where the answer passes the test. -/
theorem find?_chosen {chosen : List Entry} {p : Entry → Bool}
    (hascending : order.Ascending (keysOf chosen))
    (hmem : ∀ e, e ∈ chosen ↔ p e = true ∧ order.find? e.key layers.flatten = some e)
    (key : Bytes) : order.find? key chosen = (order.find? key layers.flatten).filter p := by
  refine Option.ext fun e => ?_
  rw [KeyOrder.find?_eq_some_iff hascending, hmem, Option.filter_eq_some_iff]
  constructor
  · rintro ⟨⟨hp, hfound⟩, hsame⟩
    exact ⟨by rw [← KeyOrder.find?_congr hsame, hfound], hp⟩
  · rintro ⟨hfound, hp⟩
    have hsame := KeyOrder.same_of_find? hfound
    exact ⟨⟨hp, by rw [KeyOrder.find?_congr hsame, hfound]⟩, hsame⟩

end Store

namespace Store.Layered

variable {store other : Store} {layers olayers : List (List Entry)}

theorem ascending (h : store.Layered layers) :
    ∀ entries ∈ layers, store.order.Ascending (keysOf entries) := by
  intro entries hentries
  obtain ⟨i, hi, rfl⟩ := List.getElem_of_mem hentries
  have htable : i < store.tables.length := by rw [List.Forall₂.length_eq h]; exact hi
  exact (List.Forall₂.get h htable hi).ascending

variable [Std.TransCmp store.order.compare]

/-- A store answers with the entry of the newest layer that has the key. -/
theorem get?_eq (h : store.Layered layers) (husable : store.ensureUsable = .ok ())
    (key : Bytes) : store.get? key = .ok (store.order.find? key layers.flatten) := by
  rw [get?, husable]
  exact firstEntry_eq h key

/-- A store scans to the entries within the bounds that it answers with, ascending. -/
theorem scan_eq (h : store.Layered layers) (husable : store.ensureUsable = .ok ())
    (hcount : store.tables.length < Word.halfLimit) (bounds : Bounds) :
    ∃ merged : List Entry, store.scan bounds = .ok (merged.map .ok)
      ∧ store.order.Ascending (keysOf merged)
      ∧ ∀ e, e ∈ merged ↔ bounds.admits store.order e.key = true
        ∧ store.order.find? e.key layers.flatten = some e := by
  obtain ⟨inputs, hinputs, hshows⟩ := streamsFrom_eq h bounds 0 (by rwa [Nat.zero_add])
  obtain ⟨merged, hitems, hascending, hmem⟩ :=
    merge_layers hshows h.ascending
  refine ⟨merged, ?_, hascending, hmem⟩
  rw [scan, streams, husable]
  show (streamsFrom bounds 0 store.tables >>= fun inputs => _) = _
  rw [hinputs, ← hitems]
  rfl

/-- The scan of everything is one layer that answers as all layers do. -/
theorem scan_all (h : store.Layered layers) (husable : store.ensureUsable = .ok ())
    (hcount : store.tables.length < Word.halfLimit) :
    ∃ merged : List Entry, store.scan .all = .ok (merged.map .ok)
      ∧ store.order.Ascending (keysOf merged)
      ∧ (∀ e, e ∈ merged ↔ store.order.find? e.key layers.flatten = some e)
      ∧ ∀ key, store.order.find? key merged = store.order.find? key layers.flatten := by
  obtain ⟨merged, hscan, hascending, hmem⟩ := h.scan_eq husable hcount .all
  refine ⟨merged, hscan, hascending, fun e => ?_, fun key => ?_⟩
  · rw [hmem, Bounds.admits_all]
    exact ⟨fun h => h.2, fun h => ⟨rfl, h⟩⟩
  · have hall : ∀ e, e ∈ merged ↔ (fun _ => true) e = true
        ∧ store.order.find? e.key layers.flatten = some e := hmem
    rw [find?_chosen hascending hall]
    cases store.order.find? key layers.flatten <;> rfl

/-- Stores whose layers answer alike read alike, and they scan alike if both can. -/
theorem reads_congr (h : store.Layered layers) (hother : other.Layered olayers)
    (horder : other.order = store.order) (husable : store.ensureUsable = .ok ())
    (hready : other.ensureUsable = .ok ())
    (hsame : ∀ key, store.order.find? key olayers.flatten
      = store.order.find? key layers.flatten) :
    (∀ key, other.get? key = store.get? key)
      ∧ (store.tables.length < Word.halfLimit → other.tables.length < Word.halfLimit →
        ∀ bounds, other.scan bounds = store.scan bounds) := by
  have : Std.TransCmp other.order.compare := horder ▸ inferInstance
  refine ⟨fun key => ?_, fun hcount hfew bounds => ?_⟩
  · rw [h.get?_eq husable, hother.get?_eq hready, horder, hsame]
  · obtain ⟨merged, hscan, hascending, hmem⟩ := h.scan_eq husable hcount bounds
    obtain ⟨found, hfound, hasc, hfoundMem⟩ := hother.scan_eq hready hfew bounds
    rw [horder] at hasc hfoundMem
    -- ascending lists with the same elements are the same list
    have heq : found = merged :=
      KeyOrder.eq_of_ascending hasc hascending fun e => by rw [hfoundMem, hmem, hsame]
    rw [hscan, hfound, heq]

end Store.Layered

end LayeredStore
