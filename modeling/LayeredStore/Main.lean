import LayeredStore.Command.Run

namespace LayeredStore.Main

/-!
# The program

The program runs a command line on the real file system. It copies the store's
folder and the way to it into a `Disk`, with what links there lead to, runs the command
there, and then makes the changes that the run has made.

* `fetch` — copies the way to a folder and what lies in the folder;
* `apply` — makes the changes between two disks.
-/

/-- The absolute path of a place. -/
def pathTo (place : Place) : String :=
  "/" ++ "/".intercalate place.reverse

/-- What is at a place, if anything is. A link is taken to stand for the place that it
    leads to in the end. -/
def nodeAt (place : Place) : IO (Option Node) := do
  let path := (← IO.currentDir) / pathTo place
  match ← path.symlinkMetadata.toBaseIO with
  | .error _ => return none
  | .ok found =>
    match found.type with
    | .dir => return some .folder
    | .symlink => return some (.link (← IO.FS.realPath path).toString)
    | _ => return some (.file (← IO.FS.readBinFile path).data.toList)

/-- Copies what is at a place that no link leads to, and around it. -/
def fetchPlace (disk : Disk) : Place → IO Disk
  | [] => return disk
  | name :: parent => do
    let disk ← fetchPlace disk parent
    return match ← nodeAt (name :: parent) with
      | some node => disk.put (name :: parent) node
      | none => disk

/-- The place of a path without links and dots. -/
def placeOf (text : String) : Place :=
  (Path.parts text).reverse.filter (· != "")

/-- Copies what is at a place, and what it leads to where it is that of a link. Answers
    where it leads. -/
def fetchNode (disk : Disk) (place : Place) : IO (Disk × Place) := do
  let disk ← fetchPlace disk place
  match disk.node? place with
  | some (.link target) => return (← fetchPlace disk (placeOf target), placeOf target)
  | _ => return (disk, place)

/-- Copies what a way passes, and what is at its end. Answers where it leads. -/
def fetchWay (disk : Disk) (start : Place) : List String → IO (Disk × Place)
  | [] => return (disk, start)
  | part :: outer => do
    let (disk, here) ← fetchWay disk start outer
    fetchNode disk (Path.step here part)

/-- Copies the way to a folder and what lies in the folder. -/
def fetch (folder : Path) : IO Disk := do
  let (disk, home) ← fetchWay (← fetchPlace .empty folder.start) folder.start folder.way
  match disk.find folder with
  | .ok .folder =>
    let names ← ((← IO.currentDir) / pathTo home).readDir
    names.foldlM (fun disk found => Prod.fst <$> fetchNode disk (found.fileName :: home)) disk
  | _ => return disk

/-- Makes the changes that lead from one disk to another: new folders from the
    outside in, then new content of files, then deletions. -/
def apply (before after : Disk) : IO Unit := do
  let changed := after.nodes.filter fun (place, node) => before.node? place != some node
  for (place, node) in changed.mergeSort fun a b => decide (a.1.length ≤ b.1.length) do
    match node with
    | .folder => IO.FS.createDirAll (pathTo place)
    | .file content => IO.FS.writeBinFile (pathTo place) ⟨content.toArray⟩
    | .link _ => continue -- no run makes a link
  for (place, _) in before.nodes do
    if (after.node? place).isNone then
      IO.FS.removeFile (pathTo place)

/-- Runs a command on the real file system. -/
def runInvocation (invocation : Command.Invocation) : IO Command.Outcome := do
  let here := placeOf (← IO.currentDir).toString
  let before ← fetch (Path.ofText here invocation.config.basePath)
  match (invocation.run here).perform before with
  | (.error fault, _) => throw (IO.userError fault.message)
  | (.ok outcome, after) =>
    apply before after
    return outcome

/-- Runs a command line on the real file system. -/
def run (words : List String) : IO Command.Outcome :=
  match Command.Invocation.parse words with
  | .error notice => return notice.outcome
  | .ok invocation => runInvocation invocation

end LayeredStore.Main

/-- The entry point: prints what the command prints and returns its status. A
    refusal of the real file system is a failure like any other. -/
def main (words : List String) : IO UInt32 := do
  try
    let outcome ← LayeredStore.Main.run words
    IO.print outcome.output
    return UInt32.ofNat outcome.status
  catch refusal =>
    IO.eprintln (toString refusal)
    return 1
