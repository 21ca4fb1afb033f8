import LayeredStore.Buffer

namespace LayeredStore

/-!
# Sources

A flush takes its entries from a source. It goes through it twice, once to measure
and once to write, so a good source yields the same entries both times.

* `Source` — what both passes yield;
* `Source.ofEntries`, `Source.ofBuffer` — the sources that yield the same twice.
-/

/-- What a flush takes its entries from. -/
structure Source where
  /-- Whether the source says that it holds nothing. -/
  isEmpty : Bool
  /-- The entries of the first pass. -/
  measured : List Entry
  /-- The entries of the second pass. -/
  written : List Entry
  deriving DecidableEq, Repr

namespace Source

/-- The source of the given entries, in the given order. -/
def ofEntries (entries : List Entry) : Source := ⟨entries.isEmpty, entries, entries⟩

/-- The source of a buffer's entries, ascending. -/
def ofBuffer (buffer : Buffer) : Source := ofEntries buffer.entries

end Source

end LayeredStore
