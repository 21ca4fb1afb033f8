import LayeredStore.Bounds
import LayeredStore.Table

namespace LayeredStore

/-!
# Cursors

A cursor walks over the entries of a table whose keys lie between two bounds.

* `Item` — what a stream of entries yields: an entry, or the fault that ends it;
* `Cursor`, `Table.cursor` — the walk, and where it starts;
* `Cursor.next` — one step;
* `Cursor.items` — all that the walk yields.
-/

/-- An item of a stream of entries. -/
abbrev Item := Except Fault Entry

/-- A walk over the records of a table. -/
structure Cursor where
  /-- The table. -/
  table : Table
  /-- The index of the next record. -/
  index : Nat
  /-- The index at which the walk ends. -/
  stop : Nat
  /-- The key at which the walk ends, if any. -/
  upper : Option Bytes

/-- The walk over the records with keys within the bounds. -/
def Table.cursor (table : Table) (bounds : Bounds) : Except Fault Cursor := do
  let start ← match bounds.lower with
    | none => pure 0
    | some key => Position.index <$> table.search key
  return ⟨table, start, table.count, bounds.upper⟩

namespace Cursor

/-- The next entry, unless its key has reached the upper bound. Only the key is
    read to find that out. -/
def read (cursor : Cursor) : Except Fault (Option Entry) := do
  let offset ← cursor.table.recordAt cursor.index
  if let some upper := cursor.upper then
    let key ← cursor.table.values.readKey offset
    if cursor.table.order.compare key upper ≠ .lt then
      return none
  some <$> cursor.table.values.readEntry offset

/-- One step. After the upper bound or a fault the walk is at its end. -/
def next (cursor : Cursor) : Option Item × Cursor :=
  if cursor.index < cursor.stop then
    match cursor.read with
    | .ok (some entry) => (some (.ok entry), { cursor with index := cursor.index + 1 })
    | .ok none => (none, { cursor with index := cursor.stop })
    | .error fault => (some (.error fault), { cursor with index := cursor.stop })
  else (none, cursor)

/-- A step that yields something comes closer to the end. -/
theorem next_closer {cursor after : Cursor} {item : Item}
    (h : cursor.next = (some item, after)) :
    after.stop - after.index < cursor.stop - cursor.index := by
  unfold next at h
  split at h
  · split at h <;> cases h <;> simp only <;> omega
  · cases h

/-- All that the walk yields. -/
def items (cursor : Cursor) : List Item :=
  match h : cursor.next with
  | (none, _) => []
  | (some item, after) =>
    have := next_closer h
    item :: after.items
termination_by cursor.stop - cursor.index

/-- A walk at its end yields nothing. -/
theorem items_of_none {cursor after : Cursor} (h : cursor.next = (none, after)) :
    cursor.items = [] := by
  rw [items]
  split
  · rfl
  · rename_i hsome
    rw [h] at hsome
    cases hsome

/-- A walk yields the item of its first step and then those of the walk from there. -/
theorem items_of_some {cursor after : Cursor} {item : Item}
    (h : cursor.next = (some item, after)) : cursor.items = item :: after.items := by
  rw [items]
  split
  · rename_i hnone
    rw [h] at hnone
    cases hnone
  · rename_i hsome
    rw [h] at hsome
    cases hsome
    rfl

end Cursor

/-- The entries of a table with keys within the bounds; the last item may be a
    fault. -/
def Table.scan (table : Table) (bounds : Bounds) : Except Fault (List Item) :=
  Cursor.items <$> table.cursor bounds

end LayeredStore
