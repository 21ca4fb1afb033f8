import LayeredStore.Generation.Catalogue
import LayeredStore.Generation.Writing
import LayeredStore.Merge
import LayeredStore.Source

namespace LayeredStore

/-!
# Stores

A store is a folder of generations, all of them mapped, the newest first. It is
read from the newest to the oldest. A flush adds a generation in front; a
compaction puts one in the place of all. Generations are never changed once they
are written.

* `Store` — the mapped generations and the state of the store;
* `Store.load` — maps the generations of a folder;
* `Store.get?`, `Store.streams` — reads;
* `Store.flush`, `Store.reload`, `Store.close` — changes;
* `Store.compact` — a change in two steps, `Store.writeMerged` and `Store.sweep`.

After `close` reads and writes are refused, and after `compact` too, since the new
generation is not mapped yet. `reload` maps what the folder holds and ends both.
-/

/-- A folder of generations that is in use. -/
structure Store where
  /-- The folder. -/
  base : Path
  /-- The order of keys, shared by all tables. -/
  order : KeyOrder
  /-- The mapped generations, the newest first. -/
  tables : List Table
  /-- Whether the store was closed. -/
  closed : Bool
  /-- Whether a compaction is waiting for a reload. -/
  stale : Bool

namespace Store

/-! ### Mapping -/

/-- Maps one generation of a folder. -/
def openTable (disk : Disk) (folder : Path) (order : KeyOrder) (index : Nat) :
    Except Fault Table := do
  let region (label : String) : Except Fault Region :=
    (disk.mapFile (folder.child (Generation.fileName label index))).mapError .system
  let values ← region Generation.valuesLabel
  let offsets ← region Generation.offsetsLabel
  Table.ofRegions index values offsets order

/-- Maps generations one after the other, up to the first fault. -/
def openTables (disk : Disk) (folder : Path) (order : KeyOrder) :
    List Nat → Except Fault (List Table)
  | [] => .ok []
  | index :: indices => do
    let table ← openTable disk folder order index
    return table :: (← openTables disk folder order indices)

/-- Maps every generation of a folder, the newest first. -/
def loadTables (disk : Disk) (folder : Path) (order : KeyOrder) :
    Except Fault (List Table) := do
  openTables disk folder order (← Generation.discover disk folder).reverse

/-- The store in a folder. Where there is no such folder the store is empty; the
    first flush makes the folder. -/
def load (disk : Disk) (folder : Path) (order : KeyOrder) : Except Fault Store := do
  let tables ← if disk.exists? folder then loadTables disk folder order else pure []
  return ⟨folder, order, tables, false, false⟩

/-! ### Reading -/

/-- The numbers of the mapped generations, the newest first. -/
def generations (store : Store) : List Nat :=
  store.tables.map Table.generation

/-- Refuses a store that was closed or waits for a reload. -/
def ensureUsable (store : Store) : Except Fault Unit :=
  if store.closed then .error .closed
  else if store.stale then .error .stale
  else .ok ()

/-- The entry under `key` in the first of the tables that holds one. -/
def firstEntry (key : Bytes) : List Table → Except Fault (Option Entry)
  | [] => .ok none
  | table :: tables => do
    match ← table.get? key with
    | some entry => return some entry
    | none => firstEntry key tables

/-- The newest entry under `key`, tombstones included. -/
def get? (store : Store) (key : Bytes) : Except Fault (Option Entry) := do
  store.ensureUsable
  firstEntry key store.tables

/-- The priority of the stream of a table that has `rank` newer ones: one above the
    rank. Ranks are words and priorities half words, so the rank is cut to its lower half
    first. -/
def priorityOf (rank : Nat) : Except Fault Nat :=
  Word.addHalf (rank % Word.halfLimit) 1

/-- One stream for each table, of which the first has `rank` newer ones. -/
def streamsFrom (bounds : Bounds) (rank : Nat) : List Table → Except Fault (List Lookahead)
  | [] => .ok []
  | table :: tables => do
    let items ← table.scan bounds
    let priority ← priorityOf rank
    return .ofItems priority items :: (← streamsFrom bounds (rank + 1) tables)

/-- One stream of entries within the bounds for each generation, the newest first,
    with priorities from `1` on. -/
def streams (store : Store) (bounds : Bounds) : Except Fault (List Lookahead) := do
  store.ensureUsable
  streamsFrom bounds 0 store.tables

/-- The entries within the bounds, ascending, the newest for each key. -/
def scan (store : Store) (bounds : Bounds) : Except Fault (List Item) := do
  return (Merge.ofInputs store.order (← store.streams bounds)).items

theorem priorityOf_of_lt {rank : Nat} (h : rank + 1 < Word.halfLimit) :
    priorityOf rank = .ok (rank + 1) := by
  rw [priorityOf, Nat.mod_eq_of_lt (Nat.lt_of_succ_lt h), Word.addHalf_of_lt h]

/-! ### Changing -/

/-- An action on the disk that leaves the store as it is. -/
def onDisk {α : Type} (action : Action Disk α) : Action (Store × Disk) α :=
  Action.within Prod.snd (fun disk both => (both.1, disk)) action

/-- Changes the store itself. -/
def update (change : Store → Store) : Action (Store × Disk) Unit :=
  modify fun both => (change both.1, both.2)

/-- Makes the store's folder and picks the number of the next generation. -/
def prepare : Action (Store × Disk) Nat := do
  let (store, _) ← get
  onDisk (Disk.makeFolders store.base)
  let (_, disk) ← get
  Action.lift (Generation.nextIndex disk store.base)

/-- Writes the entries of a source as a new generation, which becomes the newest.
    An empty source changes nothing. -/
def flush (source : Source) : Action (Store × Disk) (Option Generation.Info) := do
  let (store, _) ← get
  Action.lift store.ensureUsable
  if source.isEmpty then
    return none
  let index ← prepare
  let size ← Action.lift (Footprint.measure source.measured)
  let info ← onDisk (Generation.write store.base index (source.written.map .ok) size)
  let (_, disk) ← get
  let table ← Action.lift (openTable disk store.base store.order index)
  update fun store => { store with tables := table :: store.tables }
  return some info

/-- The capacity for a compaction: room for a part that is not stored yet, of
    `count` entries with the given payload, and for all of the tables. -/
def capacity (count payload : Nat) (tables : List Table) : Except Fault Footprint := do
  tables.foldlM (fun size table => do
      let valuesBytes ← Word.add size.valuesBytes table.values.length
      let offsetsBytes ← Word.add size.offsetsBytes table.offsets.length
      return { size with valuesBytes, offsetsBytes })
    (← Footprint.ofTotals count payload)

/-- Writes `items` as a new generation, with room for all of the tables and for a
    part that is not stored yet, of `count` entries with the given payload. The
    tables stay mapped. -/
def writeMerged (items : List Item) (count payload : Nat) :
    Action (Store × Disk) Generation.Info := do
  let (store, _) ← get
  Action.lift store.ensureUsable
  let index ← prepare
  let size ← Action.lift (capacity count payload store.tables)
  onDisk (Generation.write store.base index items size)

/-- Deletes the files of all generations before `index`, as far as possible. -/
def sweep (index : Nat) : Action (Store × Disk) Unit := do
  let (store, _) ← get
  onDisk (Action.ignoreFault (Generation.purge store.base Generation.valuesLabel index))
  onDisk (Action.ignoreFault (Generation.purge store.base Generation.offsetsLabel index))

/-- Puts one generation, of `items`, in the place of all, and deletes the files of the
    others. The store then waits for a reload. The part of the items that is not
    stored yet has `count` entries with the given payload. -/
def compact (items : List Item) (count payload : Nat) :
    Action (Store × Disk) Generation.Info := do
  let info ← writeMerged items count payload
  update fun store => { store with tables := [], stale := true }
  sweep info.index
  return info

/-- Maps what the folder holds now, and makes the store usable. -/
def reload : Action (Store × Disk) Unit := do
  let (store, disk) ← get
  let tables ← Action.lift (loadTables disk store.base store.order)
  update fun store => { store with tables, closed := false, stale := false }

/-- Lets go of every table. -/
def close (store : Store) : Store :=
  { store with tables := [], closed := true }

/-! ### Diagnostics -/

/-- The store shown as a value. -/
def inspect (store : Store) : String :=
  Text.group "StorageManager"
    [("base_path", Text.quote store.base.text),
      ("generations", Text.list (store.generations.map Text.number)),
      ("closed", Text.truth store.closed), ("pending_reload", Text.truth store.stale)]

end Store

end LayeredStore
