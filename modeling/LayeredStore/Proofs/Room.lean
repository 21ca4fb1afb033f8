import LayeredStore.Proofs.Changes
import Mathlib.Data.List.Flatten

namespace LayeredStore

/-!
# Where changes succeed

A flush succeeds where the folder can be written to, the entries fit into a file and there
is a number left. A compaction asks for the same, with files as long as all mapped tables
together; entries that come from these tables, each once, always fit into them.

* `Footprint.measure_spec` — the room that a flush asks for;
* `Generation.records_le_of_subperm` — entries take no more room than a list that has them;
* `Store.capacity_eq` — the room that a compaction asks for;
* `Store.Backed.flush_ok`, `Store.Backed.writeMerged_ok`, `Store.Backed.compact_ok` — where
  changes succeed.
-/

/-! ### Room for entries -/

/-- Ascending entries differ from one another. -/
theorem nodup_of_ascending {order : KeyOrder} [Std.TransCmp order.compare] {entries : List Entry}
    (h : order.Ascending (keysOf entries)) : entries.Nodup := by
  refine List.Pairwise.imp (fun {a b} hab heq => ?_) (List.pairwise_map.mp h)
  rw [heq, KeyOrder.same_iff.mp (KeyOrder.same_refl b.key)] at hab
  cases hab

/-- The files for entries whose records fit into a file are measured exactly, and the offsets
    fit into a file too. -/
theorem Footprint.measure_spec {entries : List Entry}
    (hsize : (Generation.records entries).length < Word.signedLimit) :
    ∃ size, Footprint.measure entries = .ok size
      ∧ size.valuesBytes = (Generation.records entries).length
      ∧ size.offsetsBytes = 8 * entries.length
      ∧ size.offsetsBytes < Word.signedLimit := by
  have hcount := Generation.length_le_records entries
  have hslots := Generation.length_slots entries
  refine ⟨_, Footprint.measure_eq (Word.lt_limit hsize), rfl, hslots, ?_⟩
  show (Generation.slots entries).length < Word.signedLimit
  omega

namespace Generation

/-- Entries that are some of a list, each once, have no longer records. -/
theorem records_le_of_subperm {left right : List Entry} (h : left.Subperm right) :
    (records left).length ≤ (records right).length := by
  obtain ⟨middle, hperm, hsublist⟩ := h
  calc (records left).length
      = (records middle).length := (hperm.flatMap_right Entry.encode).length_eq.symm
    _ ≤ (records right).length := (hsublist.flatMap Entry.encode).length_le

end Generation

namespace Store

/-! ### The room of a compaction -/

/-- The length of one region of all tables together. -/
def totalBytes (region : Table → Region) : List Table → Nat
  | [] => 0
  | table :: tables => (region table).length + totalBytes region tables

/-- The room for a table besides what was asked for. -/
def addTable (size : Footprint) (table : Table) : Except Fault Footprint := do
  let valuesBytes ← Word.add size.valuesBytes table.values.length
  let offsetsBytes ← Word.add size.offsetsBytes table.offsets.length
  return { size with valuesBytes, offsetsBytes }

/-- The lengths of the tables are added to a size, unless a sum is no word. -/
theorem foldlM_addTable (tables : List Table) (size : Footprint) :
    tables.foldlM addTable size
        = .ok ⟨size.count, size.valuesBytes + totalBytes Table.values tables,
          size.offsetsBytes + totalBytes Table.offsets tables⟩
      ∨ (∃ cause, tables.foldlM addTable size = .error (.overflow cause))
        ∧ (Word.limit ≤ size.valuesBytes + totalBytes Table.values tables
          ∨ Word.limit ≤ size.offsetsBytes + totalBytes Table.offsets tables) := by
  induction tables generalizing size with
  | nil => exact .inl rfl
  | cons table tables ih =>
    rw [List.foldlM_cons, addTable, totalBytes, totalBytes, Word.add, Word.add]
    -- a sum that is no word stays none, as the rest is only added to it
    by_cases hvalues : size.valuesBytes + table.values.length < Word.limit
    · rw [if_pos hvalues]
      by_cases hoffsets : size.offsetsBytes + table.offsets.length < Word.limit
      · rw [if_pos hoffsets, ← Nat.add_assoc, ← Nat.add_assoc]
        exact ih ⟨size.count, size.valuesBytes + table.values.length,
          size.offsetsBytes + table.offsets.length⟩
      · rw [if_neg hoffsets]
        exact .inr ⟨⟨.sum, rfl⟩, .inr (by omega)⟩
    · rw [if_neg hvalues]
      exact .inr ⟨⟨.sum, rfl⟩, .inl (by omega)⟩

/-- The room for a part that is not stored yet and for all tables, unless it is no word. -/
theorem capacity_cases (count payload : Nat) (tables : List Table) :
    capacity count payload tables = .ok ⟨count,
        16 * count + payload + totalBytes Table.values tables,
        8 * count + totalBytes Table.offsets tables⟩
      ∨ (∃ cause, capacity count payload tables = .error (.overflow cause))
        ∧ (Word.limit ≤ 16 * count + payload + totalBytes Table.values tables
          ∨ Word.limit ≤ 8 * count + totalBytes Table.offsets tables) := by
  rw [capacity]
  rcases Footprint.ofTotals_cases count payload with htotals | ⟨⟨cause, htotals⟩, hlimit⟩
  · rw [htotals]
    exact foldlM_addTable tables ⟨count, 16 * count + payload, 8 * count⟩
  · rw [htotals]
    exact .inr ⟨⟨cause, rfl⟩, .inl (by omega)⟩

theorem capacity_eq {count payload : Nat} {tables : List Table}
    (hvalues : 16 * count + payload + totalBytes Table.values tables < Word.limit)
    (hoffsets : 8 * count + totalBytes Table.offsets tables < Word.limit) :
    capacity count payload tables = .ok ⟨count,
      16 * count + payload + totalBytes Table.values tables,
      8 * count + totalBytes Table.offsets tables⟩ :=
  (capacity_cases count payload tables).resolve_right fun h => by omega

variable {order : KeyOrder}

/-- The values of tables are the records of all that they hold. -/
theorem totalBytes_values_of_forall₂ {tables : List Table} {layers : List (List Entry)}
    (h : List.Forall₂ (fun table entries => table.values = Generation.records entries) tables
      layers) :
    totalBytes Table.values tables = (Generation.records layers.flatten).length := by
  induction h with
  | nil => rfl
  | cons hvalues _ ih =>
    rw [totalBytes, ih, hvalues, List.flatten_cons, Generation.records_append, List.length_append]

/-- The offsets of tables are one slot for each entry that they hold. -/
theorem totalBytes_offsets_of_forall₂ {tables : List Table} {layers : List (List Entry)}
    (h : List.Forall₂ (fun table entries => table.offsets = Generation.slots entries) tables
      layers) :
    totalBytes Table.offsets tables = 8 * layers.flatten.length := by
  induction h with
  | nil => rfl
  | cons hoffsets _ ih =>
    rw [totalBytes, ih, hoffsets, Generation.length_slots, List.flatten_cons, List.length_append,
      Nat.mul_add]

/-- The tables of volumes hold their entries, whatever is said of both. -/
theorem forall₂_volumes {R : Table → List Entry → Prop}
    (h : ∀ volume, R (Volume.table order volume) volume.entries) (volumes : List Volume) :
    List.Forall₂ R (volumes.map (Volume.table order)) (Volume.layers volumes) := by
  induction volumes with
  | nil => exact .nil
  | cons volume volumes ih => exact .cons (h volume) ih

theorem totalBytes_values (volumes : List Volume) :
    totalBytes Table.values (volumes.map (Volume.table order))
      = (Generation.records (Volume.layers volumes).flatten).length :=
  totalBytes_values_of_forall₂ (forall₂_volumes (fun _ => rfl) volumes)

theorem totalBytes_offsets (volumes : List Volume) :
    totalBytes Table.offsets (volumes.map (Volume.table order))
      = 8 * (Volume.layers volumes).flatten.length :=
  totalBytes_offsets_of_forall₂ (forall₂_volumes (fun _ => rfl) volumes)

/-- There are no more slots than records. -/
theorem totalBytes_offsets_le (volumes : List Volume) :
    totalBytes Table.offsets (volumes.map (Volume.table order))
      ≤ totalBytes Table.values (volumes.map (Volume.table order)) := by
  rw [totalBytes_values, totalBytes_offsets]
  have hle := Generation.length_le_records (Volume.layers volumes).flatten
  omega

end Store

/-! ### Changes that succeed -/

namespace Shelf

variable {disk : Disk} {base : Path} {order : KeyOrder} {volumes : List Volume}
  {entries : List Entry}

/-- Entries that fit can be written under the next number. -/
theorem write_ok (h : Shelf disk base order volumes) (capacity : Footprint)
    (hready : Generation.Ready base (Volume.next volumes) disk)
    (hnext : Volume.next volumes < Word.limit)
    (hvaluesLimit : capacity.valuesBytes < Word.signedLimit)
    (hoffsetsLimit : capacity.offsetsBytes < Word.signedLimit)
    (hvalues : (Generation.records entries).length ≤ capacity.valuesBytes)
    (hoffsets : 8 * entries.length ≤ capacity.offsetsBytes) :
    ∃ made, Disk.makeFolders base disk = .ok () made
      ∧ Generation.nextIndex made base = .ok (Volume.next volumes)
      ∧ ∃ info written, Generation.write base (Volume.next volumes) (entries.map .ok) capacity made
        = .ok info written := by
  obtain ⟨made, home, hleads⟩ := hready.exists_leads
  obtain ⟨written, hwrite, _⟩ := Generation.write_entries hnext
    ⟨hleads.found, hready.free hleads, hvaluesLimit, hoffsetsLimit⟩ hvalues hoffsets
  exact ⟨made, hleads.made_eq, (h.of_leads hleads).nextIndex_eq hleads.found hnext, _, written,
    hwrite⟩

end Shelf

namespace Store.Backed

variable {volumes : List Volume} {store : Store} {disk : Disk} {entries : List Entry}

/-- A flush succeeds where the folder can be written to, the entries fit into a file and a
    number is left. -/
theorem flush_ok (h : store.Backed volumes disk) (husable : store.ensureUsable = .ok ())
    (hready : Generation.Ready store.base (Volume.next volumes) disk)
    (hfits : (Generation.records entries).length < Word.signedLimit)
    (hnext : Volume.next volumes < Word.limit) :
    ∃ info after, flush (.ofEntries entries) (store, disk) = .ok info after := by
  cases entries with
  | nil =>
    refine ⟨none, (store, disk), ?_⟩
    exact Action.lift_bind husable
  | cons e entries =>
    -- the room that is asked for is exactly what the entries take
    obtain ⟨size, hmeasure, hvalues, hoffsets, hoffsetsLimit⟩ := Footprint.measure_spec hfits
    have hvaluesLimit : size.valuesBytes < Word.signedLimit := by
      rw [hvalues]
      exact hfits
    obtain ⟨made, hmade, hindex, info, written, hwrite⟩ := h.shelf.write_ok size hready hnext
      hvaluesLimit hoffsetsLimit (Nat.le_of_eq hvalues.symm) (Nat.le_of_eq hoffsets.symm)
    have hnumber := Generation.index_of_write hwrite
    rw [← hnumber] at hindex hwrite
    have hrecorded : Recorded store ((e :: entries).map .ok) _ disk made info written :=
      ⟨husable, hmade, hindex, hwrite⟩
    obtain ⟨home, hrecorded⟩ := hrecorded.exists_home (h.shelf.direct hready)
    exact ⟨some info, _, hrecorded.flush_eq rfl hmeasure⟩

/-- The first step of a compaction succeeds where the folder can be written to, the
    entries fit into the room that it asks for, and a number is left. -/
theorem writeMerged_ok (h : store.Backed volumes disk) (husable : store.ensureUsable = .ok ())
    (hready : Generation.Ready store.base (Volume.next volumes) disk) {count payload : Nat}
    {size : Footprint}
    (hsize : capacity count payload store.tables = .ok size)
    (hvaluesLimit : size.valuesBytes < Word.signedLimit)
    (hoffsetsLimit : size.offsetsBytes < Word.signedLimit)
    (hvalues : (Generation.records entries).length ≤ size.valuesBytes)
    (hoffsets : 8 * entries.length ≤ size.offsetsBytes)
    (hnext : Volume.next volumes < Word.limit) :
    ∃ info written, writeMerged (entries.map .ok) count payload (store, disk)
      = .ok info (store, written) := by
  obtain ⟨made, hmade, hindex, info, written, hwrite⟩ := h.shelf.write_ok size hready hnext
    hvaluesLimit hoffsetsLimit hvalues hoffsets
  refine ⟨info, written, ?_⟩
  refine (Action.lift_bind husable).trans ?_
  refine (Action.bind_ok (prepare_eq hmade hindex)).trans ?_
  exact (Action.lift_bind hsize).trans (Action.within_ok hwrite)

/-- A compaction succeeds where its first step does, and then deletes what the new volume
    supersedes, and nothing else. -/
theorem compact_ok (h : store.Backed volumes disk) (hdirect : Generation.Direct store.base disk)
    (hascending : store.order.Ascending (keysOf entries)) {count payload : Nat}
    {info : Generation.Info} {written : Disk}
    (hwrite : writeMerged (entries.map .ok) count payload (store, disk) = .ok info (store, written)) :
    ∃ after home, compact (entries.map .ok) count payload (store, disk)
        = .ok info ({ store with tables := [], stale := true }, after)
      ∧ written.HasFolder store.base home
      ∧ ∀ place node, after.node? place = some node ↔ written.node? place = some node
        ∧ ∀ volume ∈ volumes, ∀ label ∈ Generation.labels,
          place ≠ Generation.filePlace home label volume.index := by
  obtain ⟨_, home, hstate, _, hindex, hfolder, hshelf, _⟩ :=
    h.of_writeMerged_ok hdirect hascending hwrite
  cases hstate
  obtain ⟨after, hsweep, _, _, hnodes⟩ :=
    sweep_eq { store with tables := [], stale := true } hshelf hfolder
  refine ⟨after, home, ?_, hfolder, hnodes⟩
  rw [← hindex] at hsweep
  refine (Action.bind_ok hwrite).trans ?_
  exact (Action.bind_ok hsweep).trans rfl

end Store.Backed

end LayeredStore
