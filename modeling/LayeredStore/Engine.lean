import LayeredStore.Config
import LayeredStore.Store

namespace LayeredStore

/-!
# The engine

The engine puts a write buffer in front of a store. Writes go to the buffer, which
is flushed when it grows too large. Reads see the buffer first and then the store.

* `Engine` — settings, buffer and store;
* `Engine.start` — starts on a folder;
* `Engine.find?`, `Engine.get?`, `Engine.range` — reads;
* `Engine.put`, `Engine.delete` — writes;
* `Engine.flush`, `Engine.compact`, `Engine.close` — what moves entries to the disk.
-/

/-- A store with a write buffer in front. -/
structure Engine where
  config : Config
  /-- The writes that were not flushed yet. -/
  buffer : Buffer
  store : Store
  /-- Whether the engine was closed. -/
  closed : Bool

namespace Engine

/-- The priority of the buffer in merges: it is newer than any generation. -/
def bufferPriority : Nat := 0

/-- Starts on the folder that the settings name; a relative path starts at `here`.
    The folder is not made before the first flush. -/
def start (disk : Disk) (here : Place) (config : Config) : Except Fault Engine := do
  if config.basePath = "" then
    throw (.config .emptyPath)
  let store ← Store.load disk (Path.ofText here config.basePath) config.order
  return ⟨config, .empty, store, false⟩

/-! ### Reading -/

/-- Refuses an engine that was closed. -/
def ensureOpen (engine : Engine) : Except Fault Unit :=
  if engine.closed then .error .closed else .ok ()

/-- The newest entry under `key`, tombstones included. -/
def find? (engine : Engine) (key : Bytes) : Except Fault (Option Entry) := do
  engine.ensureOpen
  match engine.buffer.get? key with
  | some entry => return some entry
  | none => engine.store.get? key

/-- The value of `key`; a tombstone reads as no value. -/
def get? (engine : Engine) (key : Bytes) : Except Fault (Option Bytes) := do
  return (← engine.find? key).bind Entry.value

/-- The merge of the buffer with all generations, within the bounds. -/
def merged (engine : Engine) (bounds : Bounds) : Except Fault Merge := do
  let buffered := Lookahead.ofEntries bufferPriority (engine.buffer.range bounds)
  return .ofInputs engine.config.order (buffered :: (← engine.store.streams bounds))

/-- The live entries of a sequence of items, unless one of them is a fault. -/
def liveEntries : List Item → Except Fault (List Entry)
  | [] => .ok []
  | .error fault :: _ => .error fault
  | .ok entry :: items => do
    let entries ← liveEntries items
    return if entry.isTombstone then entries else entry :: entries

/-- The live entries within the bounds, ascending. -/
def range (engine : Engine) (bounds : Bounds) : Except Fault (List Entry) := do
  engine.ensureOpen
  liveEntries (← engine.merged bounds).items

/-! ### Changing -/

/-- An action on the store that leaves settings and buffer as they are. -/
def onStore {α : Type} (action : Action (Store × Disk) α) : Action (Engine × Disk) α :=
  Action.within (fun (engine, disk) => (engine.store, disk))
    (fun (store, disk) (engine, _) => ({ engine with store }, disk)) action

/-- Changes the engine itself. -/
def update (change : Engine → Engine) : Action (Engine × Disk) Unit :=
  modify fun both => (change both.1, both.2)

/-- Flushes the buffer into a new generation, unless it is empty. -/
def flushBuffer : Action (Engine × Disk) (Option Generation.Info) := do
  let (engine, _) ← get
  if engine.buffer.isEmpty then
    return none
  let info ← onStore (Store.flush (.ofBuffer engine.buffer))
  update fun engine => { engine with buffer := .empty }
  return info

/-- Records a write, and flushes the buffer if it has grown too large. -/
def write (entry : Entry) : Action (Engine × Disk) Unit := do
  let (engine, _) ← get
  Action.lift engine.ensureOpen
  update fun engine => { engine with buffer := engine.buffer.insert entry }
  let (engine, _) ← get
  if engine.buffer.isOver engine.config.flushThreshold then
    discard flushBuffer

/-- Gives `key` a value. -/
def put (key value : Bytes) : Action (Engine × Disk) Unit := write (.live key value)

/-- Deletes `key`. -/
def delete (key : Bytes) : Action (Engine × Disk) Unit := write (.tombstone key)

/-- Flushes the buffer, whatever its size. -/
def flush : Action (Engine × Disk) (Option Generation.Info) := do
  let (engine, _) ← get
  Action.lift engine.ensureOpen
  flushBuffer

/-- Whether an item stays in a compaction. Tombstones do not: nothing older is
    left that they would have to hide. -/
def isKept : Item → Bool
  | .ok entry => !entry.isTombstone
  | .error _ => true

/-- The items of a compaction: the merge of buffer and generations. -/
def compactionItems (engine : Engine) : Except Fault (List Item) := do
  return (← engine.merged .all).items.filter isKept

/-- Merges buffer and generations into one generation, which is mapped at once.
    There may be nothing to merge. -/
def compact : Action (Engine × Disk) (Option Generation.Info) := do
  let (engine, _) ← get
  Action.lift engine.ensureOpen
  if engine.store.tables.isEmpty && engine.buffer.isEmpty then
    return none
  let items ← Action.lift engine.compactionItems
  let info ← onStore (Store.compact items engine.buffer.count engine.buffer.size)
  onStore Store.reload
  update fun engine => { engine with buffer := .empty }
  return some info

/-- Flushes the buffer and lets go of every table. Closing again does nothing. -/
def close : Action (Engine × Disk) Unit := do
  let (engine, _) ← get
  if engine.closed then
    return
  discard flushBuffer
  update fun engine => { engine with store := engine.store.close, closed := true }

end Engine

end LayeredStore
