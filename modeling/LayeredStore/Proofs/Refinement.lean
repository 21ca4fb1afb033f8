import LayeredStore.Proofs.EngineOutcomes
import LayeredStore.Proofs.Room
import Mathlib.Logic.Function.Basic

namespace LayeredStore.Engine

/-!
# An engine is a map

An engine that is used from a folder without generations on, in any way, behaves as a map
from keys to values that remembers which keys were deleted: no operation fails as long as
there is room, for the records in files and for the generations in the counting of their
priorities, and every read is one of the map.

* `Contents` — maps;
* `Op` — operations, on an engine (`Op.perform`) and on a map (`Op.apply`);
* `HasRoom` — there is room for every operation of a run;
* `Reflects` — the engine's buffer and generations together are the map;
* `Reflects.flushBuffer_ok`, `Reflects.write_ok`, `Reflects.compact_some`, `Reflects.reopen_ok`
  — what each operation leaves of buffer and volumes;
* `Reflects.perform_ok`, `Reflects.run_ok` — operations succeed and keep this;
* `Reflects.hasRoom_of_weights` — there is room for records that are short enough together;
* `refines_map` — the reads at every point of a run.
-/

/-! ### Maps and operations -/

/-- A map from keys to values, in which a key may also be marked as deleted. -/
abbrev Contents := Bytes → Option (Option Bytes)

/-- What can be done with an engine. -/
inductive Op
  | put (key value : Bytes)
  | delete (key : Bytes)
  | flush
  | compact
  /-- Closes the engine and starts it again, with another threshold for flushes. -/
  | reopen (threshold : Nat)
  deriving DecidableEq

namespace Op

/-- Carries out an operation. -/
def perform (here : Place) : Op → Action (Engine × Disk) Unit
  | put key value => Engine.put key value
  | delete key => Engine.delete key
  | flush => discard Engine.flush
  | compact => discard Engine.compact
  | reopen threshold => do
    Engine.close
    let (engine, disk) ← get
    let fresh ← Action.lift (start disk here { engine.config with flushThreshold := threshold })
    set (fresh, disk)

/-- What an operation does to a map. Only a compaction forgets the deleted keys. -/
def apply (contents : Contents) : Op → Contents
  | put key value => Function.update contents key (some (some value))
  | delete key => Function.update contents key (some none)
  | compact => fun key => (contents key).filter Option.isSome
  | flush => contents
  | reopen _ => contents

@[simp] theorem apply_compact (contents : Contents) (key : Bytes) :
    apply contents compact key = (contents key).filter Option.isSome := rfl

/-- A compaction keeps every value. -/
theorem join_apply_compact (contents : Contents) (key : Bytes) :
    (apply contents compact key).join = (contents key).join := by
  rw [apply_compact]
  rcases contents key with _ | _ | value <;> rfl

/-- The map after operations that began with the empty map. -/
def contents (ops : List Op) : Contents := ops.foldl apply fun _ => none

/-- The bytes of the record that an operation adds. -/
def weight : Op → Nat
  | put key value => 16 + (Entry.live key value).payload
  | delete key => 16 + (Entry.tombstone key).payload
  | _ => 0

/-- The bytes of the records that operations add. -/
def totalWeight : List Op → Nat
  | [] => 0
  | op :: ops => op.weight + totalWeight ops

end Op

/-- The bytes of all records, in the buffer and in the store. -/
def footprint (engine : Engine) : Nat :=
  16 * engine.buffer.count + engine.buffer.size
    + Store.totalBytes Table.values engine.store.tables

/-- There are fewer generations than priorities at every point of the run. And whenever an
    operation begins, all records and the one that it adds take less than half of the
    addressable bytes, which is what a file can hold. -/
def HasRoom (here : Place) (state : Engine × Disk) : List Op → Prop
  | [] => state.1.store.tables.length < Word.halfLimit
  | op :: ops => state.1.store.tables.length < Word.halfLimit
    ∧ state.1.footprint + op.weight < Word.signedLimit
    ∧ ∀ after, op.perform here state = .ok () after → HasRoom here after ops

/-- Room is told by carrying out the operations. -/
def HasRoom.decide (here : Place) :
    (state : Engine × Disk) → (ops : List Op) → Decidable (HasRoom here state ops)
  | state, [] => inferInstanceAs (Decidable (state.1.store.tables.length < Word.halfLimit))
  | state, op :: ops =>
    match h : op.perform here state with
    | .ok () after =>
      have := HasRoom.decide here after ops
      decidable_of_iff (state.1.store.tables.length < Word.halfLimit
          ∧ state.1.footprint + op.weight < Word.signedLimit ∧ HasRoom here after ops) (by
        refine and_congr_right fun _ => and_congr_right fun _ =>
          ⟨fun hroom other hother => ?_, fun hroom => hroom after h⟩
        rw [h] at hother
        cases hother
        exact hroom)
    | .error _ _ =>
      decidable_of_iff (state.1.store.tables.length < Word.halfLimit
          ∧ state.1.footprint + op.weight < Word.signedLimit) (by
        refine and_congr_right fun _ =>
          ⟨fun hroom => ⟨hroom, fun other hother => ?_⟩, fun hroom => hroom.1⟩
        rw [h] at hother
        cases hother)

instance (here : Place) (state : Engine × Disk) (ops : List Op) :
    Decidable (HasRoom here state ops) :=
  HasRoom.decide here state ops

theorem HasRoom.length_lt {here : Place} {state : Engine × Disk} {ops : List Op}
    (h : HasRoom here state ops) : state.1.store.tables.length < Word.halfLimit := by
  cases ops with
  | nil => exact h
  | cons op ops => exact h.1

/-- There is room for the first operations of a run that there is room for. -/
theorem HasRoom.of_append {here : Place} {state : Engine × Disk} {ops rest : List Op}
    (h : HasRoom here state (ops ++ rest)) : HasRoom here state ops := by
  induction ops generalizing state with
  | nil => exact h.length_lt
  | cons op ops ih => exact ⟨h.1, h.2.1, fun after hafter => ih (h.2.2 after hafter)⟩

/-- There is room for the rest of a run once its first operations were carried out. -/
theorem HasRoom.of_run {here : Place} {state after : Engine × Disk} {ops rest : List Op}
    (h : HasRoom here state (ops ++ rest)) (hrun : ops.forM (Op.perform here) state = .ok () after) :
    HasRoom here after rest := by
  induction ops generalizing state with
  | nil =>
    cases hrun
    exact h
  | cons op ops ih =>
    obtain ⟨_, between, hfirst, hrest⟩ := Action.of_bind_ok hrun
    exact ih (h.2.2 between hfirst) hrest

/-! ### What a run keeps -/

/-- The open engine that has mapped the given volumes. -/
def onVolumes (here : Place) (config : Config) (buffer : Buffer) (volumes : List Volume) : Engine :=
  ⟨config, buffer, .ofVolumes (folderOf here config) .lexicographic volumes, false⟩

/-- The volumes once the buffer was flushed in front of them. -/
def flushed (buffer : Buffer) (volumes : List Volume) : List Volume :=
  if buffer.entries = [] then volumes else ⟨Volume.next volumes, buffer.entries⟩ :: volumes

theorem flushed_of_ne {buffer : Buffer} {volumes : List Volume} (h : buffer.entries ≠ []) :
    flushed buffer volumes = ⟨Volume.next volumes, buffer.entries⟩ :: volumes :=
  if_neg h

/-- The engine has mapped the volumes of its folder, which can be written to, and the buffer
    in front of them answers as the map does. There is at most one volume's number for each
    operation. -/
structure Reflects (here : Place) (contents : Contents) (steps : Nat) (config : Config)
    (buffer : Buffer) (volumes : List Volume) (disk : Disk) : Prop where
  order_eq : config.order = .lexicographic
  path_ne : config.basePath ≠ ""
  sound : buffer.Sound
  shelf : Shelf disk (folderOf here config) .lexicographic volumes
  next_le : Volume.next volumes ≤ steps
  writable : Generation.Writable (folderOf here config) disk
  there : disk.find (folderOf here config) = .ok .folder
    ∨ disk.exists? (folderOf here config) = false
  answers : ∀ key, KeyOrder.lexicographic.find? key
    (buffer.entries :: Volume.layers volumes).flatten = (contents key).map (Entry.mk key)

namespace Reflects

variable {here : Place} {contents : Contents} {steps : Nat} {config : Config} {buffer : Buffer}
  {volumes : List Volume} {disk : Disk}

theorem layered (h : Reflects here contents steps config buffer volumes disk) :
    (onVolumes here config buffer volumes).Layered (Volume.layers volumes) :=
  ⟨rfl, h.order_eq, h.sound, rfl, rfl, h.shelf.layered_ofVolumes⟩

theorem backed (h : Reflects here contents steps config buffer volumes disk) :
    (onVolumes here config buffer volumes).store.Backed volumes disk :=
  ⟨h.shelf, fun _ => rfl⟩

/-- A shelf of some volumes, where nothing has the name of a generation's file but files, can
    be written to. -/
theorem writable_of_shelf {after : Disk}
    (hshelf : Shelf after (folderOf here config) .lexicographic volumes) (hne : volumes ≠ [])
    (hclear : Generation.Clear (folderOf here config) after) :
    Generation.Writable (folderOf here config) after := by
  obtain ⟨home, hfolder⟩ := hshelf.found hne
  exact Generation.writable_of_folder hfolder hclear

theorem there_of_shelf {after : Disk}
    (hshelf : Shelf after (folderOf here config) .lexicographic volumes) (hne : volumes ≠ []) :
    after.find (folderOf here config) = .ok .folder := by
  obtain ⟨home, hfolder⟩ := hshelf.found hne
  exact hfolder.find_eq

/-- More operations leave more numbers. -/
theorem mono (h : Reflects here contents steps config buffer volumes disk) :
    Reflects here contents (steps + 1) config buffer volumes disk :=
  { h with next_le := Nat.le_succ_of_le h.next_le }

/-- There are no more generations than operations. -/
theorem length_lt {limit : Nat} (h : Reflects here contents steps config buffer volumes disk)
    (hsteps : steps < limit) :
    (onVolumes here config buffer volumes).store.tables.length < limit := by
  show (volumes.map (Volume.table .lexicographic)).length < limit
  rw [List.length_map]
  exact Nat.lt_of_le_of_lt (Nat.le_trans h.shelf.length_le_next h.next_le) hsteps

/-- The bytes of all records are those of the buffer's and the volumes' entries. -/
theorem footprint_eq (h : Reflects here contents steps config buffer volumes disk) :
    (onVolumes here config buffer volumes).footprint
      = (Generation.records (buffer.entries :: Volume.layers volumes).flatten).length := by
  have htables : Store.totalBytes Table.values (onVolumes here config buffer volumes).store.tables
      = (Generation.records (Volume.layers volumes).flatten).length :=
    Store.totalBytes_values volumes
  rw [footprint, htables, List.flatten_cons, Generation.records_append, List.length_append,
    h.sound.length_records]
  rfl

/-- What is found is what the map has under the key. -/
theorem find?_eq_some_iff (h : Reflects here contents steps config buffer volumes disk)
    (e : Entry) : KeyOrder.lexicographic.find? e.key
      (buffer.entries :: Volume.layers volumes).flatten = some e
        ↔ contents e.key = some e.value := by
  rw [h.answers, Option.map_eq_some_iff]
  constructor
  · rintro ⟨value, hvalue, he⟩
    rw [hvalue, ← he]
  · intro hvalue
    exact ⟨e.value, hvalue, rfl⟩

/-! ### Flushes and writes -/

/-- A flush of the buffer succeeds and empties it, and no entry is lost or gained. -/
theorem flushBuffer_ok (h : Reflects here contents steps config buffer volumes disk)
    (hroom : (onVolumes here config buffer volumes).footprint < Word.signedLimit)
    (hsteps : steps < Word.limit) :
    ∃ info after, flushBuffer (onVolumes here config buffer volumes, disk)
        = .ok info (onVolumes here config .empty (flushed buffer volumes), after)
      ∧ Reflects here contents (steps + 1) config .empty (flushed buffer volumes) after
      ∧ (onVolumes here config .empty (flushed buffer volumes)).footprint
        = (onVolumes here config buffer volumes).footprint := by
  cases hempty : buffer.isEmpty with
  | true =>
    obtain rfl := h.sound.eq_empty (List.isEmpty_iff.mp hempty)
    exact ⟨none, disk, flushBuffer_of_empty hempty disk, h.mono, rfl⟩
  | false =>
    have hfits : (Generation.records buffer.entries).length < Word.signedLimit := by
      rw [footprint] at hroom
      rw [h.sound.length_records]
      exact Nat.lt_of_le_of_lt (Nat.le_add_right _ _) hroom
    have hnext := Nat.lt_of_le_of_lt h.next_le hsteps
    obtain ⟨info, state, hflush⟩ := h.backed.flush_ok rfl (h.writable.ready hnext) hfits hnext
    obtain ⟨volumes', hstate, hshelf, hvolumes, hclear, _⟩ :=
      h.backed.of_flush_ok h.writable.direct h.sound.ascending hflush
    rw [hstate] at hflush
    have hne : buffer.entries ≠ [] := fun hnil => by
      rw [Buffer.isEmpty, hnil] at hempty
      cases hempty
    rw [if_neg hne] at hvolumes
    subst hvolumes
    -- the entries go from the buffer into the volume in front, so they answer as before
    have hafter : Reflects here contents (steps + 1) config .empty
        (⟨Volume.next volumes, buffer.entries⟩ :: volumes) state.2 :=
      ⟨h.order_eq, h.path_ne, Buffer.sound_empty, hshelf, Nat.succ_le_succ h.next_le,
        writable_of_shelf hshelf (List.cons_ne_nil _ _) (hclear h.writable.clear),
        .inl (there_of_shelf hshelf (List.cons_ne_nil _ _)), h.answers⟩
    rw [flushed_of_ne hne]
    refine ⟨info, state.2, flushBuffer_of_store hempty hflush, hafter, ?_⟩
    rw [hafter.footprint_eq, h.footprint_eq]
    rfl

/-- A write to the buffer is one to the map. -/
theorem insert (h : Reflects here contents steps config buffer volumes disk) (new : Entry) :
    Reflects here (Function.update contents new.key (some new.value)) steps config
      (buffer.insert new) volumes disk := by
  refine { h with sound := h.sound.insert new, answers := fun key => ?_ }
  rw [List.flatten_cons, KeyOrder.find?_append, Buffer.find?_insert]
  by_cases hkey : key = new.key
  · subst hkey
    rw [if_pos rfl, Function.update_self]
    rfl
  · rw [if_neg hkey, Function.update_of_ne hkey, ← h.answers, List.flatten_cons,
      KeyOrder.find?_append]

/-- A write succeeds, and adds one record at most. It is in the buffer, or has flushed the
    buffer with it. -/
theorem write_ok (h : Reflects here contents steps config buffer volumes disk) (new : Entry)
    (hroom : (onVolumes here config buffer volumes).footprint + (16 + new.payload)
      < Word.signedLimit) (hsteps : steps < Word.limit) :
    ∃ buffer' volumes' after, write new (onVolumes here config buffer volumes, disk)
        = .ok () (onVolumes here config buffer' volumes', after)
      ∧ Reflects here (Function.update contents new.key (some new.value)) (steps + 1) config
        buffer' volumes' after
      ∧ ((buffer' = buffer.insert new ∧ volumes' = volumes ∧ after = disk)
        ∨ (buffer' = .empty ∧ volumes' = flushed (buffer.insert new) volumes))
      ∧ (onVolumes here config buffer' volumes').footprint
        ≤ (onVolumes here config buffer volumes).footprint + (16 + new.payload) := by
  have hinserted := h.insert new
  have hweight := Buffer.weight_insert_le buffer new
  have hgrown : (onVolumes here config (buffer.insert new) volumes).footprint
      ≤ (onVolumes here config buffer volumes).footprint + (16 + new.payload) := by
    simp only [footprint, onVolumes] at hweight ⊢
    omega
  have hopen := h.layered.ensureOpen_eq
  -- the buffer takes the entry, or is flushed with it
  cases hover : (buffer.insert new).isOver config.flushThreshold with
  | false =>
    exact ⟨buffer.insert new, volumes, disk, write_of_not_over hopen hover, hinserted.mono,
      .inl ⟨rfl, rfl, rfl⟩, hgrown⟩
  | true =>
    obtain ⟨info, after, hflush, hreflects, hkept⟩ :=
      hinserted.flushBuffer_ok (Nat.lt_of_le_of_lt hgrown hroom) hsteps
    exact ⟨.empty, _, after, write_of_over hopen hover hflush, hreflects, .inr ⟨rfl, rfl⟩,
      hkept ▸ hgrown⟩

/-! ### Compactions -/

/-- Where there is nothing the map is empty. -/
theorem eq_none_of_empty (h : Reflects here contents steps config buffer volumes disk)
    (hempty : ((onVolumes here config buffer volumes).store.tables.isEmpty
      && buffer.isEmpty) = true) (key : Bytes) : contents key = none := by
  obtain ⟨htables, hbuffer⟩ := Bool.and_eq_true_iff.mp hempty
  have hvolumes : volumes = [] := List.map_eq_nil_iff.mp (List.isEmpty_iff.mp htables)
  have hentries : buffer.entries = [] := List.isEmpty_iff.mp hbuffer
  have hanswer := h.answers key
  rw [hvolumes, hentries] at hanswer
  exact Option.map_eq_none_iff.mp hanswer.symm

/-- There is room for entries that are some of those in the buffer and the volumes. -/
theorem capacity_ok (h : Reflects here contents steps config buffer volumes disk)
    (hroom : (onVolumes here config buffer volumes).footprint < Word.signedLimit)
    {entries : List Entry}
    (hsome : entries.Subperm (buffer.entries :: Volume.layers volumes).flatten) :
    ∃ size, Store.capacity buffer.count buffer.size (volumes.map (Volume.table .lexicographic))
        = .ok size
      ∧ size.valuesBytes < Word.signedLimit ∧ size.offsetsBytes < Word.signedLimit
      ∧ (Generation.records entries).length ≤ size.valuesBytes
      ∧ 8 * entries.length ≤ size.offsetsBytes := by
  have hvalues := Generation.records_le_of_subperm hsome
  have hcount := hsome.length_le
  have hslots : Store.totalBytes Table.offsets (volumes.map (Volume.table .lexicographic)) ≤ _ :=
    Store.totalBytes_offsets_le volumes
  have htotal : Store.totalBytes Table.offsets (volumes.map (Volume.table .lexicographic)) = _ :=
    Store.totalBytes_offsets volumes
  have hfootprint : (onVolumes here config buffer volumes).footprint = 16 * buffer.entries.length
      + buffer.size + Store.totalBytes Table.values (volumes.map (Volume.table .lexicographic)) :=
    rfl
  rw [← h.footprint_eq, hfootprint] at hvalues
  rw [List.flatten_cons, List.length_append] at hcount
  rw [hfootprint] at hroom
  have hlimit := Word.lt_limit hroom
  refine ⟨_, Store.capacity_eq hlimit (by rw [Buffer.count]; omega), hroom, ?_, hvalues, ?_⟩
  · dsimp only [Buffer.count]
    omega
  · dsimp only [Buffer.count]
    omega

/-- The live entries that are answered with are those of the map once the deleted keys are
    forgotten. -/
theorem find?_merged (h : Reflects here contents steps config buffer volumes disk)
    {entries : List Entry} (hascending : KeyOrder.lexicographic.Ascending (keysOf entries))
    (hmem : ∀ e, e ∈ entries ↔ e.isTombstone = false ∧ KeyOrder.lexicographic.find? e.key
      (buffer.entries :: Volume.layers volumes).flatten = some e) (key : Bytes) :
    KeyOrder.lexicographic.find? key entries
      = (Op.apply contents .compact key).map (Entry.mk key) := by
  have hchosen : ∀ e, e ∈ entries ↔ (!e.isTombstone) = true ∧ KeyOrder.lexicographic.find? e.key
      (buffer.entries :: Volume.layers volumes).flatten = some e := by
    intro e
    rw [hmem, Bool.not_eq_true']
  rw [Store.find?_chosen hascending hchosen key, h.answers, Op.apply_compact]
  cases contents key with
  | none => rfl
  | some value => cases value <;> rfl

/-- Where there is anything to compact, a compaction succeeds and leaves a single volume, of
    the live keys with their values, and no record gets longer. -/
theorem compact_some (h : Reflects here contents steps config buffer volumes disk)
    (hsome : ((onVolumes here config buffer volumes).store.tables.isEmpty
      && buffer.isEmpty) = false)
    (hcount : (onVolumes here config buffer volumes).store.tables.length < Word.halfLimit)
    (hroom : (onVolumes here config buffer volumes).footprint < Word.signedLimit)
    (hsteps : steps < Word.limit) :
    ∃ (entries : List Entry) (info : Generation.Info) (after : Disk),
      compact (onVolumes here config buffer volumes, disk) = .ok (some info)
        (onVolumes here config .empty [⟨Volume.next volumes, entries⟩], after)
      ∧ Reflects here (Op.apply contents .compact) (steps + 1) config .empty
        [⟨Volume.next volumes, entries⟩] after
      ∧ KeyOrder.lexicographic.Ascending (keysOf entries)
      ∧ (∀ e, e ∈ entries ↔ e.isTombstone = false ∧ contents e.key = some e.value)
      ∧ info = ⟨Volume.next volumes, entries.length, (Generation.records entries).length,
        (Generation.slots entries).length⟩
      ∧ (onVolumes here config .empty [⟨Volume.next volumes, entries⟩]).footprint
        ≤ (onVolumes here config buffer volumes).footprint := by
  have hopen := h.layered.ensureOpen_eq
  obtain ⟨entries, hitems, hascending, hmem⟩ := h.layered.compactionItems_eq hcount
  -- entries that differ from one another are taken from the buffer and the volumes
  have hsubperm : entries.Subperm (buffer.entries :: Volume.layers volumes).flatten :=
    List.subperm_of_subset (nodup_of_ascending hascending)
      fun e he => KeyOrder.mem_of_find? ((hmem e).mp he).2
  obtain ⟨size, hsize, hvaluesLimit, hoffsetsLimit, hvalues, hoffsets⟩ :=
    h.capacity_ok hroom hsubperm
  have hnext := Nat.lt_of_le_of_lt h.next_le hsteps
  have hdirect : Generation.Direct (folderOf here config) disk := h.writable.direct
  obtain ⟨info, written, hwrite⟩ := h.backed.writeMerged_ok rfl (h.writable.ready hnext) hsize
    hvaluesLimit hoffsetsLimit hvalues hoffsets hnext
  obtain ⟨after, _, hcompact, _⟩ := h.backed.compact_ok hdirect hascending hwrite
  obtain ⟨_, hindex, hshelf, hclear⟩ := h.backed.of_compact_ok hdirect hascending hcompact
  obtain ⟨home, hfolder⟩ := hshelf.found (List.cons_ne_nil _ _)
  have hreload : Store.reload (⟨folderOf here config, .lexicographic, [], false, true⟩, after)
      = .ok () (.ofVolumes _ _ [⟨Volume.next volumes, entries⟩], after) :=
    Action.lift_bind (hshelf.loadTables_eq hfolder)
  have hafter : Reflects here (Op.apply contents .compact) (steps + 1) config .empty
      [⟨Volume.next volumes, entries⟩] after := by
    refine ⟨h.order_eq, h.path_ne, Buffer.sound_empty, hshelf, Nat.succ_le_succ h.next_le,
      writable_of_shelf hshelf (List.cons_ne_nil _ _) (hclear h.writable.clear),
      .inl hfolder.find_eq, fun key => ?_⟩
    show KeyOrder.lexicographic.find? key ([] ++ (entries ++ [])) = _
    rw [List.nil_append, List.append_nil, h.find?_merged hascending hmem]
  refine ⟨entries, info, after, compact_of_store hopen hsome hitems hcompact hreload, hafter,
    hascending, ?_, ?_, ?_⟩
  · intro e
    rw [hmem]
    exact and_congr_right fun _ => h.find?_eq_some_iff e
  · obtain ⟨_, _, _, _, hrecorded, _⟩ := Store.of_writeMerged_ok hwrite
    obtain ⟨_, hrecorded⟩ := hrecorded.exists_home hdirect
    rw [hrecorded.info_eq, hindex]
  · rw [hafter.footprint_eq, h.footprint_eq]
    show (Generation.records ([] ++ (entries ++ []))).length ≤ _
    rw [List.nil_append, List.append_nil]
    exact Generation.records_le_of_subperm hsubperm

/-- A compaction succeeds and forgets the deleted keys, and no record gets longer. -/
theorem compact_ok (h : Reflects here contents steps config buffer volumes disk)
    (hcount : (onVolumes here config buffer volumes).store.tables.length < Word.halfLimit)
    (hroom : (onVolumes here config buffer volumes).footprint < Word.signedLimit)
    (hsteps : steps < Word.limit) :
    ∃ info buffer' volumes' after, compact (onVolumes here config buffer volumes, disk)
        = .ok info (onVolumes here config buffer' volumes', after)
      ∧ Reflects here (Op.apply contents .compact) (steps + 1) config buffer' volumes' after
      ∧ (onVolumes here config buffer' volumes').footprint
        ≤ (onVolumes here config buffer volumes).footprint := by
  cases hempty : ((onVolumes here config buffer volumes).store.tables.isEmpty
      && buffer.isEmpty) with
  | true =>
    refine ⟨none, buffer, volumes, disk, compact_of_empty h.layered.ensureOpen_eq hempty, ?_,
      Nat.le_refl _⟩
    refine { h.mono with answers := fun key => ?_ }
    rw [h.answers, Op.apply_compact, h.eq_none_of_empty hempty]
    rfl
  | false =>
    obtain ⟨entries, info, after, hcompact, hreflects, _, _, _, hshorter⟩ :=
      h.compact_some hempty hcount hroom hsteps
    exact ⟨_, _, _, after, hcompact, hreflects, hshorter⟩

/-! ### Closing and starting again -/

/-- Started on its folder, with any threshold, an engine has the volumes and no buffer. -/
theorem start_eq (h : Reflects here contents steps config buffer volumes disk) (threshold : Nat) :
    start disk here { config with flushThreshold := threshold }
      = .ok (onVolumes here { config with flushThreshold := threshold } .empty volumes) := by
  have hload : Store.load disk (folderOf here config) config.order
      = .ok (.ofVolumes (folderOf here config) .lexicographic volumes) := by
    rw [h.order_eq]
    exact h.shelf.load_eq h.there
  exact start_of_load h.path_ne hload

/-- An engine that is closed and started again is as it was. -/
theorem reopen_ok (h : Reflects here contents steps config buffer volumes disk) (threshold : Nat)
    (hroom : (onVolumes here config buffer volumes).footprint < Word.signedLimit)
    (hsteps : steps < Word.limit) :
    ∃ after, Op.perform here (.reopen threshold) (onVolumes here config buffer volumes, disk)
        = .ok () (onVolumes here { config with flushThreshold := threshold } .empty
          (flushed buffer volumes), after)
      ∧ Reflects here contents (steps + 1) { config with flushThreshold := threshold } .empty
        (flushed buffer volumes) after
      ∧ (onVolumes here { config with flushThreshold := threshold } .empty
          (flushed buffer volumes)).footprint
        = (onVolumes here config buffer volumes).footprint := by
  -- closing flushes the buffer, so the folder has all that the engine had
  obtain ⟨info, after, hflush, hreflects, hkept⟩ := h.flushBuffer_ok hroom hsteps
  refine ⟨after, ?_, ?_, hkept⟩
  · refine (Action.bind_ok (close_of_flush rfl hflush)).trans ?_
    exact (Action.lift_bind (hreflects.start_eq threshold)).trans rfl
  · exact ⟨h.order_eq, h.path_ne, Buffer.sound_empty, hreflects.shelf, hreflects.next_le,
      hreflects.writable, hreflects.there, hreflects.answers⟩

/-! ### Every operation and every run -/

/-- An operation that there is room for succeeds, does to the engine what it does to the
    map, and adds no more than its record. -/
theorem perform_ok (h : Reflects here contents steps config buffer volumes disk) (op : Op)
    (hcount : (onVolumes here config buffer volumes).store.tables.length < Word.halfLimit)
    (hroom : (onVolumes here config buffer volumes).footprint + op.weight < Word.signedLimit)
    (hsteps : steps < Word.limit) :
    ∃ config' buffer' volumes' after,
      op.perform here (onVolumes here config buffer volumes, disk)
        = .ok () (onVolumes here config' buffer' volumes', after)
      ∧ Reflects here (op.apply contents) (steps + 1) config' buffer' volumes' after
      ∧ (onVolumes here config' buffer' volumes').footprint
        ≤ (onVolumes here config buffer volumes).footprint + op.weight := by
  have hnow := Nat.lt_of_le_of_lt (Nat.le_add_right _ _) hroom
  cases op with
  | put key value =>
    obtain ⟨buffer', volumes', after, hwrite, hreflects, _, hgrown⟩ :=
      h.write_ok (.live key value) hroom hsteps
    exact ⟨config, buffer', volumes', after, hwrite, hreflects, hgrown⟩
  | delete key =>
    obtain ⟨buffer', volumes', after, hwrite, hreflects, _, hgrown⟩ :=
      h.write_ok (.tombstone key) hroom hsteps
    exact ⟨config, buffer', volumes', after, hwrite, hreflects, hgrown⟩
  | flush =>
    obtain ⟨info, after, hflush, hreflects, hkept⟩ := h.flushBuffer_ok hnow hsteps
    rw [← flush_eq h.layered.ensureOpen_eq] at hflush
    exact ⟨config, .empty, _, after, Action.discard_ok hflush, hreflects, Nat.le_of_eq hkept⟩
  | compact =>
    obtain ⟨info, buffer', volumes', after, hcompact, hreflects, hgrown⟩ :=
      h.compact_ok hcount hnow hsteps
    exact ⟨config, buffer', volumes', after, Action.discard_ok hcompact, hreflects, hgrown⟩
  | reopen threshold =>
    obtain ⟨after, hreopen, hreflects, hkept⟩ := h.reopen_ok threshold hnow hsteps
    exact ⟨_, .empty, _, after, hreopen, hreflects, Nat.le_of_eq hkept⟩

/-- A run that there is room for succeeds. -/
theorem run_ok (h : Reflects here contents steps config buffer volumes disk) (ops : List Op)
    (hroom : HasRoom here (onVolumes here config buffer volumes, disk) ops)
    (hsteps : steps + ops.length ≤ Word.limit) :
    ∃ config' buffer' volumes' after,
      ops.forM (Op.perform here) (onVolumes here config buffer volumes, disk)
        = .ok () (onVolumes here config' buffer' volumes', after)
      ∧ Reflects here (ops.foldl Op.apply contents) (steps + ops.length) config' buffer' volumes'
        after := by
  -- over the operations: each one leaves an engine that reflects the next map
  induction ops generalizing contents steps config buffer volumes disk with
  | nil => exact ⟨config, buffer, volumes, disk, rfl, h⟩
  | cons op ops ih =>
    rw [List.length_cons] at hsteps
    obtain ⟨config', buffer', volumes', between, hfirst, hnext, _⟩ :=
      h.perform_ok op hroom.1 hroom.2.1 (by omega)
    obtain ⟨config'', buffer'', volumes'', after, hrest, hlast⟩ :=
      ih hnext (hroom.2.2 _ hfirst) (by omega)
    refine ⟨config'', buffer'', volumes'', after, (Action.bind_ok hfirst).trans hrest, ?_⟩
    rw [List.foldl_cons, List.length_cons, Nat.add_comm ops.length, ← Nat.add_assoc]
    exact hlast

/-- Where all records of a run together take less than half of the addressable bytes, and there
    are fewer operations than priorities, there is room for every one of them. -/
theorem hasRoom_of_weights (h : Reflects here contents steps config buffer volumes disk)
    (ops : List Op)
    (hweights : (onVolumes here config buffer volumes).footprint + Op.totalWeight ops
      < Word.signedLimit) (hsteps : steps + ops.length < Word.halfLimit) :
    HasRoom here (onVolumes here config buffer volumes, disk) ops := by
  -- what an operation adds is its weight at most, and one generation, so the sums bound all
  -- that is to come
  induction ops generalizing contents steps config buffer volumes disk with
  | nil => exact h.length_lt hsteps
  | cons op ops ih =>
    rw [Op.totalWeight] at hweights
    rw [List.length_cons] at hsteps
    have hcount := h.length_lt (by omega : steps < Word.halfLimit)
    have hroom : (onVolumes here config buffer volumes).footprint + op.weight < Word.signedLimit := by
      omega
    have hlimit : Word.halfLimit < Word.limit := by decide
    obtain ⟨config', buffer', volumes', between, hfirst, hnext, hgrown⟩ :=
      h.perform_ok op hcount hroom (by omega)
    refine ⟨hcount, hroom, fun after hafter => ?_⟩
    rw [hfirst] at hafter
    cases hafter
    exact ih hnext (by omega) (by omega)

/-! ### Reads -/

/-- A read is one of the map. -/
theorem find?_eq (h : Reflects here contents steps config buffer volumes disk) (key : Bytes) :
    (onVolumes here config buffer volumes).find? key
      = .ok ((contents key).map (Entry.mk key)) := by
  rw [h.layered.find?_eq, ← h.answers]
  rfl

/-- Only live keys have a value. -/
theorem get?_eq (h : Reflects here contents steps config buffer volumes disk) (key : Bytes) :
    (onVolumes here config buffer volumes).get? key = .ok (contents key).join := by
  rw [get?, h.find?_eq]
  cases contents key <;> rfl

/-- A range read is the ascending list of the live keys within the bounds. -/
theorem range_eq (h : Reflects here contents steps config buffer volumes disk)
    (hcount : (onVolumes here config buffer volumes).store.tables.length < Word.halfLimit)
    (bounds : Bounds) :
    ∃ entries, (onVolumes here config buffer volumes).range bounds = .ok entries
      ∧ KeyOrder.lexicographic.Ascending (keysOf entries)
      ∧ ∀ e, e ∈ entries ↔ bounds.admits .lexicographic e.key = true
        ∧ e.isTombstone = false ∧ contents e.key = some e.value := by
  obtain ⟨entries, hrange, hascending, hmem⟩ := h.layered.range_eq hcount bounds
  refine ⟨entries, hrange, hascending, fun e => ?_⟩
  have hfound : KeyOrder.lexicographic.find? e.key
      ((onVolumes here config buffer volumes).buffer.entries :: Volume.layers volumes).flatten
        = some e ↔ contents e.key = some e.value := h.find?_eq_some_iff e
  rw [hmem, hfound, and_assoc, and_comm (b := e.isTombstone = false)]

end Reflects

/-- An engine that starts on a folder without generations reflects the empty map. -/
theorem start_ok {disk made : Disk} {here : Place} {config : Config}
    (horder : config.order = .lexicographic)
    (hvacant : Generation.Vacant (folderOf here config) disk)
    (hmade : Disk.makeFolders (folderOf here config) disk = .ok () made) :
    start disk here config = .ok (onVolumes here config .empty [])
      ∧ Reflects here (fun _ => none) 0 config .empty [] disk := by
  have hpath : config.basePath ≠ "" := hvacant.text_ne
  have hshelf := Shelf.of_vacant hvacant .lexicographic
  have hthere : disk.find (folderOf here config) = .ok .folder
      ∨ disk.exists? (folderOf here config) = false := by
    rcases Disk.folder_or_missing_of_makeFolders hvacant.text_ne hmade with ⟨_, hfolder⟩ | hmissing
    · exact .inl hfolder.find_eq
    · exact .inr (Disk.exists?_of_missing hmissing)
  have hleads := Disk.leads_of_makeFolders hvacant.text_ne hmade
  refine ⟨start_of_load hpath ?_, horder, hpath, Buffer.sound_empty, hshelf, Nat.le_refl _,
    ⟨⟨made, hleads⟩, hvacant.clear⟩, hthere, fun _ => rfl⟩
  rw [horder]
  exact hshelf.load_eq hthere

/-- An engine that starts on a folder without generations, which can be made and has nothing
    else under the names of generations' files, is a map at every point of every run that there
    is room for: no operation fails, every look-up is one of the map, and every range read is
    the ascending list of the map's live keys within the bounds. -/
theorem refines_map {disk made : Disk} {here : Place} {config : Config} {ops : List Op}
    (horder : config.order = .lexicographic)
    (hvacant : Generation.Vacant (folderOf here config) disk)
    (hmade : Disk.makeFolders (folderOf here config) disk = .ok () made)
    (hcount : ops.length ≤ Word.limit)
    (hroom : ∀ first, start disk here config = .ok first → HasRoom here (first, disk) ops) :
    ∃ first, start disk here config = .ok first ∧ ∀ done, done <+: ops →
      ∃ engine after, done.forM (Op.perform here) (first, disk) = .ok () (engine, after)
        ∧ (∀ key, engine.find? key = .ok ((Op.contents done key).map (Entry.mk key)))
        ∧ (∀ key, engine.get? key = .ok (Op.contents done key).join)
        ∧ ∀ bounds, ∃ entries, engine.range bounds = .ok entries
          ∧ KeyOrder.lexicographic.Ascending (keysOf entries)
          ∧ ∀ e, e ∈ entries ↔ bounds.admits .lexicographic e.key = true
            ∧ e.isTombstone = false ∧ Op.contents done e.key = some e.value := by
  obtain ⟨hstart, hreflects⟩ := start_ok horder hvacant hmade
  refine ⟨_, hstart, ?_⟩
  rintro done ⟨rest, rfl⟩
  rw [List.length_append] at hcount
  -- a point of a run is where the run of the operations up to it ends
  obtain ⟨config', buffer', volumes', after, hrun, hlast⟩ :=
    hreflects.run_ok done (hroom _ hstart).of_append (by omega)
  have hfew := ((hroom _ hstart).of_run hrun).length_lt
  exact ⟨_, after, hrun, hlast.find?_eq, hlast.get?_eq, hlast.range_eq hfew⟩

/-- Two writes, the second of which is flushed, a deletion, a compaction and a restart: the
    deleted key is gone for good, and the other has its value. -/
theorem refines_map_small :
    ∃ first engine after, start Disk.empty [] ⟨"/", .lexicographic, 3⟩ = .ok first
      ∧ [Op.put [1] [10], .put [2] [20], .delete [1], .compact, .reopen 0].forM (Op.perform [])
        (first, Disk.empty) = .ok () (engine, after)
      ∧ engine.find? [1] = .ok none ∧ engine.get? [2] = .ok (some [20]) := by
  have hroot := Disk.hasFolder_root Disk.empty
  have hvacant : Generation.Vacant (folderOf [] ⟨"/", .lexicographic, 3⟩) Disk.empty :=
    Generation.vacant_empty hroot.leads.made_eq hroot rfl
  have hmade : Disk.makeFolders (folderOf [] ⟨"/", .lexicographic, 3⟩) Disk.empty
      = .ok () Disk.empty := hroot.leads.made_eq
  have hroom : ∀ first, start Disk.empty [] ⟨"/", .lexicographic, 3⟩ = .ok first →
      HasRoom [] (first, Disk.empty)
        [.put [1] [10], .put [2] [20], .delete [1], .compact, .reopen 0] := by
    intro first hfirst
    obtain ⟨hstart, hreflects⟩ := start_ok rfl hvacant hmade
    rw [hstart] at hfirst
    cases hfirst
    exact hreflects.hasRoom_of_weights _ (by decide +kernel) (by decide)
  obtain ⟨first, hstart, hpoints⟩ := refines_map rfl hvacant hmade (by decide) hroom
  obtain ⟨engine, after, hrun, hfind, hget, _⟩ := hpoints _ (List.prefix_refl _)
  refine ⟨first, engine, after, hstart, hrun, ?_, ?_⟩
  · rw [hfind]
    decide +kernel
  · rw [hget]
    decide +kernel

end LayeredStore.Engine
