import LayeredStore.Record

namespace LayeredStore

/-!
# Footprints

Before a generation is written its two files are sized, so that they can be
created at full length.

* `Footprint` — the number of records and the lengths of the two files;
* `Footprint.ofTotals` — the footprint of a number of records with a given payload;
* `Footprint.measure` — the footprint of a sequence of entries.
-/

/-- The number of bytes of one slot of an offsets file. -/
def slotSize : Nat := Word.size

/-- The size of a generation. -/
structure Footprint where
  /-- The number of records. -/
  count : Nat
  /-- The length of the values file. -/
  valuesBytes : Nat
  /-- The length of the offsets file. -/
  offsetsBytes : Nat
  deriving DecidableEq, Repr

namespace Footprint

/-- The footprint of `count` records that carry `payload` bytes of keys and
    values. -/
def ofTotals (count payload : Nat) : Except Fault Footprint := do
  let headers ← Word.mul recordHeaderSize count
  let valuesBytes ← Word.add headers payload
  let offsetsBytes ← Word.mul slotSize count
  return ⟨count, valuesBytes, offsetsBytes⟩

/-- The payload of a sequence of entries, added up from `total` on. -/
def payloadFrom : (total : Nat) → List Entry → Except Fault Nat
  | total, [] => .ok total
  | total, e :: entries => do payloadFrom (← Word.add total e.payload) entries

/-- The footprint of a sequence of entries. -/
def measure (entries : List Entry) : Except Fault Footprint := do
  ofTotals entries.length (← payloadFrom 0 entries)

end Footprint

end LayeredStore
