import LayeredStore.Ascending
import LayeredStore.Disk
import LayeredStore.Generation.Name
import LayeredStore.Word

namespace LayeredStore.Generation

/-!
# The generations of a folder

Which generations a folder holds is told by its file names alone. Sub-folders and
files with other names count for nothing, and so do times and sizes.

* `indices` — the numbers of the files with a label;
* `discover` — the generations of a folder, if its files pair up;
* `nextIndex` — a number above every file's;
* `purge` — deletes the files of old generations.
-/

/-- The files of a folder that belong to a generation, with its number. -/
def numbered (label : String) (listing : List (String × Node)) : List (String × Nat) :=
  listing.filterMap fun (name, node) =>
    if node.isFile then (index? label name).map (name, ·) else none

/-- The files of a folder with the given label. A missing folder has none. -/
def files (disk : Disk) (folder : Path) (label : String) : Except Fault (List (String × Nat)) :=
  match disk.listing folder with
  | .ok listing => .ok (numbered label listing)
  | .error .notFound => .ok []
  | .error fault => .error (.system fault)

/-- The numbers of the files with the given label, ascending and each once. -/
def indices (disk : Disk) (folder : Path) (label : String) : Except Fault (List Nat) := do
  let found ← files disk folder label
  return Ascending.ofList (found.map Prod.snd)

/-- The generations of a folder, ascending. Each must have a file of either kind. -/
def discover (disk : Disk) (folder : Path) : Except Fault (List Nat) := do
  let values ← indices disk folder valuesLabel
  let offsets ← indices disk folder offsetsLabel
  if values.length ≠ offsets.length then
    throw (.layout (.unequal folder.text values.length offsets.length))
  if values ≠ offsets then
    throw (.layout (.unpaired folder.text (Ascending.difference values offsets)))
  return values

/-- A number above that of every generation file, paired or not. -/
def nextIndex (disk : Disk) (folder : Path) : Except Fault Nat := do
  let values ← indices disk folder valuesLabel
  let offsets ← indices disk folder offsetsLabel
  match (values ++ offsets).max? with
  | none => return 0
  | some highest => Word.add highest 1

/-- Deletes the named files of a folder, one after the other, and counts them. -/
def deleteAll (folder : Path) : List String → Action Disk Nat
  | [] => pure 0
  | name :: names => do
    Disk.delete (folder.child name)
    let count ← deleteAll folder names
    return count + 1

/-- Deletes every file with the given label whose number is below `keep`, however
    the number is spelled, and counts them. -/
def purge (folder : Path) (label : String) (keep : Nat) : Action Disk Nat := do
  let found ← Action.lift (files (← get) folder label)
  deleteAll folder ((found.filter fun file => decide (file.2 < keep)).map Prod.fst)

end LayeredStore.Generation
