import LayeredStore.Proofs.Lookup
import Mathlib.Data.List.Basic
import Mathlib.Data.List.TakeWhile

namespace LayeredStore

/-!
# Bounded iteration is exact

A walk over a table of ascending keys visits the records within its bounds, in order,
and no other: it starts where bisection finds the lower bound and ends before the first
key that has reached the upper one.

* `upToFault` — items up to the first fault;
* `Cursor.items_eq_of_append` — the walk from any record on, whatever the values are;
* `Table.HasKeys.cursor_spec` — over ascending keys a walk visits the records within the bounds;
* `Table.Holds.scan_all` — without bounds a table yields all of its entries;
* `Table.Holds.scan_eq` — a table of ascending entries yields those within the bounds.
-/

/-- The items up to the first fault, and that. -/
def upToFault : List Item → List Item
  | [] => []
  | .ok entry :: items => .ok entry :: upToFault items
  | .error fault :: _ => [.error fault]

@[simp] theorem upToFault_map_ok (entries : List Entry) :
    upToFault (entries.map .ok) = entries.map .ok := by
  induction entries with
  | nil => rfl
  | cons e entries ih => rw [List.map_cons, upToFault, ih]

/-! ### Indices -/

section Indices

variable {α β : Type} {p q : α → Bool} {l : List α} {start : Nat}

theorem findIdxs_congr (h : ∀ a ∈ l, p a = q a) : l.findIdxs p start = l.findIdxs q start := by
  induction l generalizing start with
  | nil => rfl
  | cons a l ih =>
    obtain ⟨ha, hl⟩ := List.forall_mem_cons.mp h
    rw [List.findIdxs_cons, List.findIdxs_cons, ha, ih hl]

/-- Where a property passes from each element to those before it, the indices of the
    elements that have it are the first ones. -/
theorem findIdxs_eq_range' (hl : l.Pairwise fun a b => p b = true → p a = true) :
    l.findIdxs p start = List.range' start (l.takeWhile p).length := by
  induction l generalizing start with
  | nil => rfl
  | cons a l ih =>
    obtain ⟨ha, hl⟩ := List.pairwise_cons.mp hl
    rw [List.findIdxs_cons]
    by_cases h : p a = true
    · rw [if_pos h, List.takeWhile_cons_of_pos h, List.length_cons, List.range'_succ, ih hl]
    · rw [if_neg h, List.takeWhile_cons_of_neg h]
      -- the first element has not got it, and with it everything behind
      exact List.findIdxs_eq_nil_iff.mpr fun b hb => Bool.eq_false_iff.mpr fun hpb => h (ha b hb hpb)

/-- What a function of the indices gives for the elements that have a property. -/
theorem map_findIdxs {f : Nat → β} {g : α → β} (p : α → Bool)
    (h : ∀ i (hi : i < l.length), f i = g l[i]) :
    (l.findIdxs p).map f = (l.filter p).map g := by
  refine List.ext_getElem ?_ fun n hn _ => ?_
  · rw [List.length_map, List.length_map, List.length_findIdxs, List.countP_eq_length_filter]
  · rw [List.length_map] at hn
    rw [List.getElem_map, List.getElem_map, List.getElem_filter_eq_getElem_getElem_findIdxs]
    exact h _ (by simpa using List.getElem_findIdxs_lt hn)

end Indices

/-! ### The two bounds -/

namespace Bounds

/-- Whether a key lies before the upper bound. -/
def admitsUpper (bounds : Bounds) (order : KeyOrder) (key : Bytes) : Bool :=
  bounds.upper.all (order.compare key · == .lt)

/-- Whether a key lies before the lower bound. -/
def isBelow (bounds : Bounds) (order : KeyOrder) (key : Bytes) : Bool :=
  bounds.lower.any (order.precedes key)

variable {bounds : Bounds} {order : KeyOrder} [Std.TransCmp order.compare]

/-- A key is within the bounds if it lies before the upper one and not before the lower
    one. -/
theorem admits_eq (key : Bytes) :
    bounds.admits order key = (!bounds.isBelow order key && bounds.admitsUpper order key) := by
  rw [admits, admitsUpper]
  congr 1
  rw [isBelow]
  cases bounds.lower with
  | none => rfl
  | some lower =>
    show (order.compare lower key != .gt) = !order.precedes key lower
    have hswap : order.compare key lower = (order.compare lower key).swap :=
      Std.OrientedCmp.eq_swap
    rw [KeyOrder.precedes, hswap]
    cases order.compare lower key <;> rfl

/-- Below an admitted key all keys lie before the upper bound. -/
theorem admitsUpper_front {keys : List Bytes} (hkeys : order.Ascending keys) :
    keys.Pairwise fun a b => bounds.admitsUpper order b = true →
      bounds.admitsUpper order a = true := by
  refine List.Pairwise.imp (fun {a b} hab hb => ?_) hkeys
  rw [admitsUpper] at hb ⊢
  cases hupper : bounds.upper with
  | none => rfl
  | some upper =>
    rw [hupper] at hb
    exact KeyOrder.precedes_of_lt hab hb

/-- Below a key that lies before the lower bound all keys do. -/
theorem isBelow_front {keys : List Bytes} (hkeys : order.Ascending keys) :
    keys.Pairwise fun a b => bounds.isBelow order b = true → bounds.isBelow order a = true := by
  refine List.Pairwise.imp (fun {a b} hab hb => ?_) hkeys
  rw [isBelow] at hb ⊢
  cases hlower : bounds.lower with
  | none => rw [hlower] at hb; cases hb
  | some lower =>
    rw [hlower] at hb
    exact KeyOrder.precedes_of_lt hab hb

/-- Of ascending keys that are cut at the lower bound, those within the bounds are the ones
    behind the cut, up to the first that has reached the upper bound. -/
theorem findIdxs_admits_of_cut {front back : List Bytes} (hkeys : order.Ascending (front ++ back))
    (hfront : ∀ key ∈ front, bounds.isBelow order key = true)
    (hback : ∀ key ∈ back, bounds.isBelow order key = false) :
    (front ++ back).findIdxs (bounds.admits order)
      = List.range' front.length (back.takeWhile (bounds.admitsUpper order)).length := by
  have hnone : front.findIdxs (bounds.admits order) = [] := by
    refine List.findIdxs_eq_nil_iff.mpr fun key hkey => ?_
    rw [admits_eq, hfront key hkey]
    rfl
  have hall : ∀ key ∈ back, bounds.admits order key = bounds.admitsUpper order key := by
    intro key hkey
    rw [admits_eq, hback key hkey]
    rfl
  rw [List.findIdxs_append, hnone, List.nil_append, Nat.zero_add, findIdxs_congr hall,
    findIdxs_eq_range' (admitsUpper_front (KeyOrder.ascending_append.mp hkeys).2.1)]

end Bounds

/-! ### The walk -/

namespace Cursor

variable {table : Table} {bounds : Bounds}

/-- A step reads the record unless its key has reached the upper bound. -/
theorem read_eq {i stop : Nat} {key : Bytes} (hkey : table.keyAt i = .ok key) :
    read ⟨table, i, stop, bounds.upper⟩
      = if bounds.admitsUpper table.order key = true then some <$> table.entryAt i
        else .ok none := by
  rw [Table.keyAt] at hkey
  rw [read, Table.entryAt, Bounds.admitsUpper]
  cases hoffset : table.recordAt i with
  | error fault => rw [hoffset] at hkey; cases hkey
  | ok offset =>
    rw [hoffset] at hkey
    have hread : table.values.readKey offset = .ok key := hkey
    cases bounds.upper with
    | none => rfl
    | some upper =>
      simp only [bind, Except.bind, hread, Option.all_some, beq_iff_eq]
      by_cases hlt : table.order.compare key upper = .lt
      · rw [if_neg (not_not_intro hlt), if_pos hlt]
      · rw [if_pos hlt, if_neg hlt]
        rfl

/-- A walk that has come to its end yields nothing. -/
theorem items_at_end {cursor : Cursor} (h : cursor.stop ≤ cursor.index) : cursor.items = [] := by
  have hnext : cursor.next = (none, cursor) := by
    rw [next, if_neg (Nat.not_lt.mpr h)]
  exact items_of_none hnext

/-- The walk from the record behind `front` on: it yields the records up to the first
    key that has reached the upper bound, or up to the first fault. -/
theorem items_eq_of_append {front back : List Bytes} (h : table.HasKeys (front ++ back)) :
    items ⟨table, front.length, table.count, bounds.upper⟩
      = upToFault ((List.range' front.length
          (back.takeWhile (bounds.admitsUpper table.order)).length).map table.entryAt) := by
  -- over the records that are still to come; those behind the walk only count for its index
  induction back generalizing front with
  | nil =>
    have hcount : table.count = front.length := by rw [h.count_eq, List.append_nil]
    rw [items_at_end (Nat.le_of_eq hcount)]
    rfl
  | cons key back ih =>
    have hstop : front.length < table.count := by
      rw [h.count_eq, List.length_append, List.length_cons]
      omega
    have hread : read ⟨table, front.length, table.count, bounds.upper⟩ = _ :=
      read_eq (h.keyAt_eq front key back rfl)
    have hrest : table.HasKeys ((front ++ [key]) ++ back) := by
      rwa [List.append_assoc, List.singleton_append]
    have hnext := ih hrest
    rw [List.length_append, List.length_singleton] at hnext
    by_cases hupper : bounds.admitsUpper table.order key = true
    · rw [if_pos hupper] at hread
      rw [List.takeWhile_cons_of_pos hupper, List.length_cons, List.range'_succ, List.map_cons]
      cases hentry : table.entryAt front.length with
      | ok entry =>
        have hstep : next ⟨table, front.length, table.count, bounds.upper⟩
            = (some (.ok entry), ⟨table, front.length + 1, table.count, bounds.upper⟩) := by
          rw [hentry] at hread
          rw [next, if_pos hstop, hread]
          rfl
        rw [items_of_some hstep, hnext]
        rfl
      | error fault =>
        have hstep : next ⟨table, front.length, table.count, bounds.upper⟩
            = (some (.error fault), ⟨table, table.count, table.count, bounds.upper⟩) := by
          rw [hentry] at hread
          rw [next, if_pos hstop, hread]
          rfl
        -- after a fault the walk stands at its end
        rw [items_of_some hstep, items_at_end (Nat.le_refl _)]
        rfl
    · rw [if_neg hupper] at hread
      have hstep : next ⟨table, front.length, table.count, bounds.upper⟩
          = (none, ⟨table, table.count, table.count, bounds.upper⟩) := by
        rw [next, if_pos hstop, hread]
      rw [items_of_none hstep, List.takeWhile_cons_of_neg hupper]
      rfl

end Cursor

/-! ### Tables of ascending keys -/

namespace Table.HasKeys

variable {table : Table} {keys front back : List Bytes} {bounds : Bounds}
  [Std.TransCmp table.order.compare]

/-- The walk starts behind the keys that lie before the lower bound. -/
theorem cursor_eq (h : table.HasKeys (front ++ back))
    (hkeys : table.order.Ascending (front ++ back))
    (hfront : ∀ key ∈ front, bounds.isBelow table.order key = true)
    (hback : ∀ key ∈ back, bounds.isBelow table.order key = false) :
    table.cursor bounds = .ok ⟨table, front.length, table.count, bounds.upper⟩ := by
  rw [cursor]
  cases hlower : bounds.lower with
  | none =>
    -- no key lies before a bound that is open
    have hnil : front = [] := by
      refine List.eq_nil_iff_forall_not_mem.mpr fun key hkey => ?_
      have hbelow := hfront key hkey
      rw [Bounds.isBelow, hlower] at hbelow
      cases hbelow
    subst hnil
    rfl
  | some lower =>
    simp only [Bounds.isBelow, hlower, Option.any_some] at hfront hback
    have hsearch := h.search_eq_of_append hkeys hfront hback
    have hindex : (Position.index <$> table.search lower) = .ok front.length := by
      rw [hsearch]
      show Except.ok (Position.index (ite _ _ _)) = _
      rw [apply_ite Position.index]
      simp [Position.index]
    show ((Position.index <$> table.search lower) >>= fun start => _) = _
    rw [hindex]
    rfl

/-- Over ascending keys a walk visits the records within the bounds, up to the first of them
    whose value cannot be read. -/
theorem cursor_spec (h : table.HasKeys keys) (hkeys : table.order.Ascending keys)
    (bounds : Bounds) :
    ∃ cursor, table.cursor bounds = .ok cursor
      ∧ cursor.items
        = upToFault ((keys.findIdxs (bounds.admits table.order)).map table.entryAt) := by
  have hcut : keys.takeWhile (bounds.isBelow table.order)
      ++ keys.dropWhile (bounds.isBelow table.order) = keys := List.takeWhile_append_dropWhile
  have hfront : ∀ key ∈ keys.takeWhile (bounds.isBelow table.order),
      bounds.isBelow table.order key = true := eq_true_of_mem_takeWhile
  have hback : ∀ key ∈ keys.dropWhile (bounds.isBelow table.order),
      bounds.isBelow table.order key = false := eq_false_of_mem_dropWhile (Bounds.isBelow_front hkeys)
  rw [← hcut] at h hkeys
  have hindices := Bounds.findIdxs_admits_of_cut hkeys hfront hback
  rw [hcut] at hindices
  exact ⟨_, h.cursor_eq hkeys hfront hback, by rw [Cursor.items_eq_of_append h, hindices]⟩

end Table.HasKeys

/-! ### Tables of ascending entries -/

namespace Table.Holds

variable {table : Table} {entries : List Entry}

/-- The records of some of the entries give these back. -/
theorem map_entryAt (h : table.Holds entries) (p : Entry → Bool) :
    (entries.findIdxs p).map table.entryAt = (entries.filter p).map .ok :=
  map_findIdxs p fun _ hi => h.entryAt_getElem hi

/-- Without bounds a table yields all of its entries, whatever the order is. -/
theorem scan_all (h : table.Holds entries) : table.scan .all = .ok (entries.map .ok) := by
  have hitems : Cursor.items ⟨table, ([] : List Bytes).length, table.count, Bounds.all.upper⟩ = _ :=
    Cursor.items_eq_of_append (show table.HasKeys ([] ++ keysOf entries) from h.hasKeys)
  have hfront : (keysOf entries).Pairwise fun a b =>
      Bounds.all.admitsUpper table.order b = true → Bounds.all.admitsUpper table.order a = true :=
    List.pairwise_of_forall fun _ _ _ => rfl
  have hall : entries.filter (Bounds.all.admitsUpper table.order ∘ Entry.key) = entries :=
    List.filter_eq_self.mpr fun _ _ => rfl
  rw [← findIdxs_eq_range' hfront, keysOf, List.findIdxs_map, List.length_nil, h.map_entryAt,
    hall, upToFault_map_ok] at hitems
  exact congrArg Except.ok hitems

/-- A table of ascending entries yields the entries within the bounds. -/
theorem scan_eq [Std.TransCmp table.order.compare] (h : table.Holds entries)
    (hkeys : table.order.Ascending (keysOf entries)) (bounds : Bounds) :
    table.scan bounds
      = .ok ((entries.filter fun e => bounds.admits table.order e.key).map .ok) := by
  obtain ⟨cursor, hcursor, hitems⟩ := h.hasKeys.cursor_spec hkeys bounds
  rw [keysOf, List.findIdxs_map, h.map_entryAt, upToFault_map_ok] at hitems
  rw [scan, hcursor]
  exact congrArg Except.ok hitems

end Table.Holds

end LayeredStore
