import LayeredStore.Entry
import LayeredStore.Region

namespace LayeredStore

/-!
# Records

A record is the stored form of an entry: the length of the key in eight bytes,
the key, the length of the value in eight bytes and the value. In a tombstone's
record the length of the value is `-1` and no value follows.

* `Entry.fields`, `Entry.encode` — the record of an entry;
* `Region.readKey` — the key of the record at an offset;
* `Region.readEntry` — the entry of the record at an offset.
-/

/-- The bytes of a record besides key and value. -/
def recordHeaderSize : Nat := 2 * Word.size

/-- The length of the value in a tombstone's record. -/
def tombstoneLength : Int := -1

/-! ### Writing -/

namespace Entry

/-- The fields of an entry's record, in the order in which they are written. -/
def fields (e : Entry) : List Bytes :=
  [Word.encode e.key.length, e.key] ++
    match e.value with
    | none => [Word.encode (Word.ofInt tombstoneLength)]
    | some value => [Word.encode (Word.ofInt value.length), value]

/-- The record of an entry. -/
def encode (e : Entry) : Bytes := e.fields.flatten

/-- The number of bytes of an entry's record. -/
def recordSize (e : Entry) : Nat := recordHeaderSize + e.payload

theorem length_encode (e : Entry) : e.encode.length = e.recordSize := by
  obtain ⟨key, value⟩ := e
  cases value <;>
    simp [encode, fields, recordSize, recordHeaderSize, Word.size, payload] <;> omega

end Entry

/-! ### Reading -/

namespace Region

/-- The key of the record at `offset`. The value is not looked at. -/
def readKey (region : Region) (offset : Nat) : Except Fault Bytes := do
  let length ← region.readWord offset
  region.slice (← Word.add offset Word.size) length

/-- The entry of the record at `offset`. -/
def readEntry (region : Region) (offset : Nat) : Except Fault Entry := do
  let key ← region.readKey offset
  let lengthAt ← Word.add (← Word.add offset Word.size) key.length
  let length ← region.readSigned lengthAt
  if length = tombstoneLength then
    return .tombstone key
  else if length < 0 then
    throw (.corrupt lengthAt (.negativeLength length))
  else
    return .live key (← region.slice (← Word.add lengthAt Word.size) length.toNat)

end Region

end LayeredStore
