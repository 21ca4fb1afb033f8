import LayeredStore.Text.Quoted

namespace LayeredStore

/-!
# Entries

* `Entry` — a key with a value, or with the mark that the key was deleted;
* `Entry.payload` — the bytes that an entry carries;
* `Entry.inspect` — an entry shown as a value, for diagnostics.
-/

/-- A key with a value. An entry without a value is a tombstone: the key was
    deleted, which is not the same as never having been written. -/
structure Entry where
  key : Bytes
  value : Option Bytes
  deriving DecidableEq, Repr

namespace Entry

/-- A key that has a value. -/
def live (key value : Bytes) : Entry := ⟨key, some value⟩

/-- The mark that a key was deleted. -/
def tombstone (key : Bytes) : Entry := ⟨key, none⟩

/-- Whether the entry marks a deletion. -/
def isTombstone (e : Entry) : Bool := e.value.isNone

/-- The bytes of key and value together; a tombstone has only those of its key. -/
def payload (e : Entry) : Nat :=
  e.key.length + (e.value.map List.length).getD 0

@[simp] theorem payload_live (key value : Bytes) :
    (live key value).payload = key.length + value.length := rfl

@[simp] theorem payload_tombstone (key : Bytes) : (tombstone key).payload = key.length := rfl

/-- The entry shown as a value, for diagnostics. -/
def inspect (e : Entry) : String :=
  Text.group "Entry"
    [("key", Text.quoteBytes e.key), ("value", Text.option (e.value.map Text.quoteBytes))]

end Entry

end LayeredStore
