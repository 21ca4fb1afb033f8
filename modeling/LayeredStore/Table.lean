import LayeredStore.Bisection
import LayeredStore.Footprint
import LayeredStore.KeyOrder

namespace LayeredStore

/-!
# Tables

A table is one generation, mapped for reading. Its values region holds records
one behind the other, its offsets region one slot for each record, with the place
where the record begins. Records are addressed by their index among the slots.

* `Region.slotCount`, `Region.readSlot` — the slots of an offsets region;
* `Table` — the two regions, with the generation's number and the order of keys;
* `Table.ofRegions` — binds two regions, if the offsets consist of whole slots;
* `Table.keyAt`, `Table.entryAt` — key and entry of a record;
* `Table.search`, `Table.get?` — look-up by bisection.
-/

/-- The number of slots of an offsets region. -/
def Region.slotCount (offsets : Region) : Nat := offsets.length / slotSize

/-- The word in slot `index` of an offsets region. -/
def Region.readSlot (offsets : Region) (index : Nat) : Except Fault Nat := do
  offsets.readWord (← Word.mul index slotSize)

/-- A generation that is mapped for reading. -/
structure Table where
  /-- The number of the generation. -/
  generation : Nat
  /-- The records. -/
  values : Region
  /-- The slots. -/
  offsets : Region
  /-- The order by which the records are taken to ascend. -/
  order : KeyOrder

namespace Table

/-- Binds the two regions of a generation. -/
def ofRegions (generation : Nat) (values offsets : Region) (order : KeyOrder) :
    Except Fault Table :=
  if offsets.length % slotSize = 0 then .ok ⟨generation, values, offsets, order⟩
  else .error (.corrupt offsets.length (.raggedOffsets offsets.length))

variable (table : Table)

/-- The number of records. -/
def count : Nat := table.offsets.slotCount

/-- The place where record `index` begins. -/
def recordAt (index : Nat) : Except Fault Nat := table.offsets.readSlot index

/-- The key of record `index`. The value is not looked at. -/
def keyAt (index : Nat) : Except Fault Bytes := do
  table.values.readKey (← table.recordAt index)

/-- The entry of record `index`. -/
def entryAt (index : Nat) : Except Fault Entry := do
  table.values.readEntry (← table.recordAt index)

/-- How the key of record `index` compares with `key`. -/
def compareAt (key : Bytes) (index : Nat) : Except Fault Ordering :=
  (table.keyAt index).map (table.order.compare · key)

/-- Where `key` is, or where it would be put. -/
def search (key : Bytes) : Except Fault Position :=
  bisect (table.compareAt key) 0 table.count

/-- The index of the record with `key`. -/
def indexOf? (key : Bytes) : Except Fault (Option Nat) :=
  (table.search key).map Position.found?

/-- The entry stored under `key`, tombstones included. -/
def get? (key : Bytes) : Except Fault (Option Entry) := do
  match ← table.indexOf? key with
  | some index => some <$> table.entryAt index
  | none => return none

end Table

end LayeredStore
