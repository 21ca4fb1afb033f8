import LayeredStore.Disk
import LayeredStore.Draft
import LayeredStore.Footprint
import LayeredStore.Generation.Name
import LayeredStore.Table.Cursor

namespace LayeredStore.Generation

/-!
# Writing a generation

Both files are made at full capacity. Then each entry's record is put into the
values file and the place of the record into the offsets file. At the end both
files are cut to what was written. A fault leaves them as they are at that point.

* `Info` — what was written;
* `Pair` — the two drafts;
* `Pair.append` — writes a sequence of items;
* `write` — writes a generation to the disk.
-/

/-- What was written as a generation. -/
structure Info where
  /-- The number of the generation. -/
  index : Nat
  /-- The number of entries. -/
  count : Nat
  /-- The length of the values file. -/
  valuesBytes : Nat
  /-- The length of the offsets file. -/
  offsetsBytes : Nat
  deriving DecidableEq, Repr

/-- The two files of a generation that is being written. -/
structure Pair where
  values : Draft
  offsets : Draft
  deriving DecidableEq, Repr

/-- How far the writing has come. -/
structure Progress where
  /-- The number of entries. -/
  count : Nat
  /-- The length of what was written to the values file. -/
  values : Nat
  /-- The length of what was written to the offsets file. -/
  offsets : Nat
  deriving DecidableEq, Repr

namespace Pair

/-- An action on the values file. -/
def onValues {α : Type} (action : Action Draft α) : Action Pair α :=
  Action.within Pair.values (fun values pair => { pair with values }) action

/-- An action on the offsets file. -/
def onOffsets {α : Type} (action : Action Draft α) : Action Pair α :=
  Action.within Pair.offsets (fun offsets pair => { pair with offsets }) action

/-- Writes entries behind those that were written, up to the first fault. -/
def append (done : Progress) : List Item → Action Pair Progress
  | [] => pure done
  | .error fault :: _ => throw fault
  | .ok entry :: items => do
    let values ← onValues (Draft.writeEntry done.values entry)
    let offsets ← onOffsets (Draft.writeSlot done.offsets done.values)
    append ⟨done.count + 1, values, offsets⟩ items

/-- Writes all items and cuts both files to what was written. -/
def fill (items : List Item) : Action Pair Progress := do
  let done ← append ⟨0, 0, 0⟩ items
  onValues (Draft.finish done.values)
  onOffsets (Draft.finish done.offsets)
  return done

end Pair

/-- Makes a file of the given length, filled with zeros, and answers where it is. -/
def makeDraft (path : Path) (capacity : Nat) : Action Disk (Place × Draft) := do
  let place ← Disk.makeFile path
  let draft ← Action.lift (Draft.create capacity)
  Disk.setContent place draft
  return (place, draft)

/-- Writes generation `index` of a folder, in files of the given capacity. -/
def write (folder : Path) (index : Nat) (items : List Item) (capacity : Footprint) :
    Action Disk Info := do
  let (valuesPlace, values) ←
    makeDraft (folder.child (fileName valuesLabel index)) capacity.valuesBytes
  let (offsetsPlace, offsets) ←
    makeDraft (folder.child (fileName offsetsLabel index)) capacity.offsetsBytes
  let (result, pair) := (Pair.fill items).perform ⟨values, offsets⟩
  Disk.setContent valuesPlace pair.values
  Disk.setContent offsetsPlace pair.offsets
  let done ← Action.lift result
  return ⟨index, done.count, done.values, done.offsets⟩

end LayeredStore.Generation
