import LayeredStore.Bounds
import LayeredStore.Entry

namespace LayeredStore

/-!
# The write buffer

New writes are gathered in memory, one entry for each key, in lexicographic order.
A tombstone is an entry like any other.

* `Buffer` — the entries, with a running count of their payload;
* `Buffer.insert` — records a write;
* `Buffer.get?`, `Buffer.range` — reads;
* `Buffer.isOver` — whether the payload has passed a limit;
* `Buffer.range_eq` — a read of a range picks the entries within the bounds.
-/

/-- The writes that were not stored yet. -/
structure Buffer where
  /-- The entries, ascending by key. -/
  entries : List Entry
  /-- The bytes of keys and values. -/
  size : Nat
  deriving DecidableEq, Repr

namespace Buffer

/-- The buffer that holds nothing. -/
def empty : Buffer := ⟨[], 0⟩

/-- Puts an entry in its place, where it takes that of an entry with its key. -/
def place (new : Entry) : List Entry → List Entry
  | [] => [new]
  | e :: entries =>
    match KeyOrder.byBytes new.key e.key with
    | .lt => new :: e :: entries
    | .eq => new :: entries
    | .gt => e :: place new entries

variable (buffer : Buffer)

/-- The entry under `key`, tombstones included. -/
def get? (key : Bytes) : Option Entry :=
  buffer.entries.find? (·.key == key)

/-- Records a write. The size grows by the new entry's payload and shrinks by that of the
    entry that it replaces. A natural number stands for the counter of the size, which is a
    word: this is exact as long as the payloads together stay below `2 ^ 64`. -/
def insert (new : Entry) : Buffer where
  entries := place new buffer.entries
  size := buffer.size + new.payload - ((buffer.get? new.key).map Entry.payload).getD 0

/-- The number of entries. -/
def count : Nat := buffer.entries.length

/-- Whether there is no entry. -/
def isEmpty : Bool := buffer.entries.isEmpty

/-- Whether the size has passed `limit`. A limit of zero is never passed. -/
def isOver (limit : Nat) : Bool :=
  decide (0 < limit) && decide (limit < buffer.size)

/-- The stretch of ascending entries between two bounds. There is none between bounds of
    which the lower one has passed the upper one, so these must not be asked for. -/
def between (entries : List Entry) (bounds : Bounds)
    (_ : bounds.isUpright .lexicographic = true) : List Entry :=
  entries.filter fun e => bounds.admits .lexicographic e.key

/-- The entries whose keys lie within the bounds, ascending. -/
def range (bounds : Bounds) : List Entry :=
  if h : bounds.isVoid .lexicographic = true then []
  else between buffer.entries bounds (Bounds.isUpright_of_not_isVoid h)

@[simp] theorem isEmpty_empty : empty.isEmpty = true := rfl

/-- A read of a range picks the entries within the bounds, whichever way round these are. -/
theorem range_eq (bounds : Bounds) :
    buffer.range bounds = buffer.entries.filter fun e => bounds.admits .lexicographic e.key := by
  unfold range
  split
  next h => simp [Bounds.admits_of_isVoid h]
  next => rfl

end Buffer

end LayeredStore
