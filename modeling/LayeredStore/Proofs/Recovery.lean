import LayeredStore.Proofs.Runs

namespace LayeredStore

/-!
# What a failed compaction leaves

A compaction that fails leaves the store as it is, but it may leave the two files that it
began. They have the newest number, so a store that is loaded then reads what happens to be
in them. Once they are deleted, loading the folder gives the store that it was.

* `Generation.SameFiles` — folders with the same files of generations;
* `Generation.SameFiles.loadTables_eq` — such folders are loaded alike;
* `Store.nextNumber`, `Store.begun` — the generation that a change begins;
* `Store.adds_of_compact_error`, `Store.sameFiles_of_adds` — what a failed compaction leaves, and
  what is left without it;
* `Store.compact_error_recovers` — the store that it was is found again;
* `Store.compact_error_shows` — without the deletion it need not be.
-/

namespace Generation

variable {disk after : Disk} {folder : Path} {home : Place} {order : KeyOrder} {tables : List Table}

/-! ### Folders with the same generations -/

/-- In the folder the disks have the same files of generations. -/
def SameFiles (home : Place) (disk after : Disk) : Prop :=
  ∀ label ∈ labels, ∀ name n, index? label name = some n → ∀ content,
    after.node? (name :: home) = some (.file content)
      ↔ disk.node? (name :: home) = some (.file content)

namespace SameFiles

theorem discover_eq (h : SameFiles home disk after) (hfolder : disk.HasFolder folder home)
    (hafter : after.HasFolder folder home) :
    discover after folder = discover disk folder := by
  have hindices : ∀ label ∈ labels, indices after folder label = indices disk folder label := by
    intro label hlabel
    rw [indices_of_find hafter]
    refine (indices_eq hfolder (pairwise_numbersOf after home label) fun n => ?_).symm
    rw [mem_numbersOf]
    refine exists_congr fun name => exists_congr fun content => and_congr_left fun hn => ?_
    exact h label hlabel name n hn content
  rw [discover, discover, hindices _ values_mem_labels, hindices _ offsets_mem_labels]

/-- A folder is loaded as another with the same files of generations. -/
theorem loadTables_eq (h : SameFiles home disk after) (hfolder : disk.HasFolder folder home)
    (hfiles : disk.KeepsFiles after) (hways : disk.KeepsWays after)
    (hload : Store.loadTables disk folder order = .ok tables) :
    Store.loadTables after folder order = .ok tables := by
  obtain ⟨numbers, hdiscover, hopen⟩ := Store.of_loadTables_ok hload
  rw [Store.loadTables, h.discover_eq hfolder (hfolder.mono hways), hdiscover]
  exact Store.openTables_mono hfiles hways hopen

end SameFiles

end Generation

namespace Store

variable {store : Store} {disk made after left : Disk} {home : Place} {items : List Item}
  {count payload : Nat} {fault : Fault} {state : Store × Disk}

/-! ### A compaction that fails -/

/-- The number of the generation that a change of the store begins: one above the newest. -/
def nextNumber (store : Store) : Nat :=
  match store.generations with
  | [] => 0
  | newest :: _ => newest + 1

/-- The generations that a change of the store may begin: the one with that number, if it is a
    word. -/
def begun (store : Store) : List Nat :=
  if store.nextNumber < Word.limit then [store.nextNumber] else []

theorem mem_begun {n : Nat} : n ∈ store.begun ↔ n = store.nextNumber ∧ n < Word.limit := by
  rw [begun]
  split
  · rw [List.mem_singleton]
    exact ⟨fun h => ⟨h, h ▸ by assumption⟩, fun h => h.1⟩
  · rename_i hlimit
    exact ⟨fun h => (List.not_mem_nil h).elim, fun h => absurd (h.1 ▸ h.2) hlimit⟩

/-- The number that is picked is the one above the newest mapped generation. -/
theorem eq_nextNumber (hfolder : disk.HasFolder store.base home)
    (hmapped : loadTables disk store.base store.order = .ok store.tables) {index : Nat}
    (hindex : Generation.nextIndex disk store.base = .ok index) : index = store.nextNumber := by
  obtain ⟨hdescending, hmem⟩ := generations_spec hfolder hmapped
  rw [Generation.nextIndex_eq hfolder hdescending hmem] at hindex
  rw [nextNumber]
  cases hgenerations : store.generations with
  | nil =>
    rw [hgenerations] at hindex
    cases hindex
    rfl
  | cons newest rest =>
    rw [hgenerations, Generation.aboveFirst, Word.add] at hindex
    split at hindex
    · cases hindex
      rfl
    · cases hindex

/-- The folder holds no file with the number above the newest mapped generation. -/
theorem not_records_nextNumber (hfolder : disk.HasFolder store.base home)
    (hmapped : loadTables disk store.base store.order = .ok store.tables) {label : String}
    (hlabel : label ∈ Generation.labels) :
    ¬ Generation.Records disk home label store.nextNumber := by
  obtain ⟨hdescending, hmem⟩ := generations_spec hfolder hmapped
  -- a recorded number is one of a mapped generation, and those are not above the newest
  rw [← hmem label hlabel, nextNumber]
  cases hgenerations : store.generations with
  | nil => exact List.not_mem_nil
  | cons newest rest =>
    rw [hgenerations, List.pairwise_cons] at hdescending
    rw [List.mem_cons, not_or]
    exact ⟨Nat.succ_ne_self newest, fun h => Nat.not_succ_lt_self (hdescending.1 _ h)⟩

/-- What a failed compaction leaves is what was there, and files of the generation that it has
    begun. -/
theorem adds_of_compact_error (husable : store.ensureUsable = .ok ())
    (hleads : disk.Leads store.base made home) (hdirect : Generation.Direct store.base disk)
    (hmapped : loadTables made store.base store.order = .ok store.tables)
    (hfailed : compact items count payload (store, disk) = .error fault state) :
    state.1 = store ∧ made.Adds (fun place node => node.isFile = true
      ∧ ∃ n ∈ store.begun, Generation.IsFileOf home n place) state.2 := by
  obtain ⟨after, rfl, hreason⟩ := of_compact_error hfailed
  refine ⟨rfl, ?_⟩
  rcases hreason.touchesOnly husable hleads hdirect with rfl | ⟨index, hindex, htouched⟩
  · exact .refl _
  · have hbegun := mem_begun.mpr
      ⟨eq_nextNumber hleads.found hmapped hindex, Generation.lt_limit_of_nextIndex hindex⟩
    exact (htouched.adds hleads.found hindex).mono
      fun _ _ ⟨hfile, hplace⟩ => ⟨hfile, index, hbegun, hplace⟩

/-- Without the files that were begun everything is there that was before, and no other
    generation. -/
theorem sameFiles_of_adds (hfolder : made.HasFolder store.base home)
    (hmapped : loadTables made store.base store.order = .ok store.tables)
    (hadds : made.Adds (fun place node => node.isFile = true
      ∧ ∃ n ∈ store.begun, Generation.IsFileOf home n place) after)
    (hleft : Disk.SameNodes (after.withoutGenerations home store.begun) left) :
    made.KeepsFiles left ∧ made.KeepsWays left ∧ Generation.SameFiles home made left := by
  have hnodes : ∀ place node, left.node? place = some node ↔ after.node? place = some node
      ∧ (node.isFile = true → ∀ n ∈ store.begun, ∀ label ∈ Generation.labels,
        place ≠ Generation.filePlace home label n) := by
    intro place node
    rw [hleft, Disk.node?_withoutGenerations]
  have hfiles : made.KeepsFiles left := by
    intro place content hfile
    refine (hnodes _ _).mpr ⟨hadds.node?_eq hfile, fun _ n hn label hlabel hplace => ?_⟩
    -- under the next number nothing was recorded before
    obtain ⟨rfl, hlimit⟩ := mem_begun.mp hn
    subst hplace
    exact not_records_nextNumber hfolder hmapped hlabel
      ⟨_, content, hfile, Generation.index?_fileName hlimit⟩
  refine ⟨hfiles, fun place node hnode hplace => ?_, fun label hlabel name n hn content => ?_⟩
  · exact (hnodes _ _).mpr ⟨hadds.node?_eq hplace, fun hfile => by rw [hnode] at hfile; cases hfile⟩
  · refine ⟨fun hfile => ?_, hfiles _ _⟩
    obtain ⟨hafter, helse⟩ := (hnodes _ _).mp hfile
    refine (hadds.of_node? hafter).resolve_right fun ⟨_, m, hm, other, hother, hplace⟩ => ?_
    exact helse rfl m hm other hother hplace

/-- A usable store is told by its folder, order and tables. -/
theorem eq_of_usable (husable : store.ensureUsable = .ok ()) :
    ⟨store.base, store.order, store.tables, false, false⟩ = store := by
  obtain ⟨hclosed, hstale⟩ := ensureUsable_iff.mp husable
  cases store
  cases hclosed
  cases hstale
  rfl

/-- A compaction that fails leaves a store that has mapped what its folder holds as it is.
    Once the files of the generation that it began are deleted, a reload gives the store
    that it was, and so does loading the folder. No link may have had the name of one of these
    files. -/
theorem compact_error_recovers (husable : store.ensureUsable = .ok ())
    (hleads : disk.Leads store.base made home) (hdirect : Generation.Direct store.base disk)
    (hmapped : loadTables made store.base store.order = .ok store.tables)
    (hfailed : compact items count payload (store, disk) = .error fault state)
    (hleft : Disk.SameNodes (state.2.withoutGenerations home store.begun) left) :
    state.1 = store ∧ reload (store, left) = .ok () (store, left)
      ∧ load left store.base store.order = .ok store := by
  obtain ⟨hkept, hadds⟩ := adds_of_compact_error husable hleads hdirect hmapped hfailed
  obtain ⟨hfiles, hways, hsame⟩ := sameFiles_of_adds hleads.found hmapped hadds hleft
  have htables := hsame.loadTables_eq hleads.found hfiles hways hmapped
  have hstore := eq_of_usable husable
  refine ⟨hkept, ?_, ?_⟩
  · refine (Action.lift_bind htables).trans ?_
    exact congrArg (fun back => EStateM.Result.ok () (back, left)) hstore
  · rw [load_of_folder (hleads.found.mono hways) htables]
    exact congrArg Except.ok hstore

/-- A compaction that stops at a fault behind its first entry: with its files deleted, a
    reload gives the store with the one entry that was flushed before. -/
theorem compact_error_recovers_one :
    ∃ store disk fault after, [Op.flush [.live [0x6B] [0x76]]].forM Op.perform
        (⟨.ofText [] "/", .lexicographic, [], false, false⟩, Disk.empty) = .ok () (store, disk)
      ∧ compact [.ok (.live [0x61] [0x31]), .error (.corrupt 0 (.reported "injected"))] 0 0
        (store, disk) = .error fault (store, after)
      ∧ reload (store, after.withoutGenerations [] [1])
        = .ok () (store, after.withoutGenerations [] [1])
      ∧ store.get? [0x61] = .ok none := by
  have htried : Action.okWith (fun _ state => decide (state.1.ensureUsable = .ok ()
        ∧ state.1.begun = [1] ∧ Generation.hasLink state.2 = false
        ∧ state.1.get? [0x61] = .ok none)
        && (compact [.ok (.live [0x61] [0x31]), .error (.corrupt 0 (.reported "injected"))]
          0 0).errorWith (fun _ _ => true) state)
      ([Op.flush [.live [0x6B] [0x76]]].forM Op.perform)
      (⟨.ofText [] "/", .lexicographic, [], false, false⟩, Disk.empty) = true := by decide +kernel
  obtain ⟨_, ⟨store, disk⟩, hrun, hchecked⟩ := Action.of_okWith htried
  obtain ⟨hfacts, hfails⟩ := Bool.and_eq_true_iff.mp hchecked
  obtain ⟨husable, hbegun, hlinks, hget⟩ := of_decide_eq_true hfacts
  obtain ⟨fault, ⟨kept, after⟩, hfailed, _⟩ := Action.of_errorWith hfails
  have hreached := Reached.of_root (by decide +kernel) hrun
  obtain ⟨volumes, hbacked, _⟩ := hreached.backed
  have hbase : store.base = .ofText [] "/" := hreached.base_eq
  have hfolder : disk.HasFolder store.base [] := hbase ▸ Disk.hasFolder_root disk
  obtain ⟨hkept, hreload, _⟩ := compact_error_recovers husable hfolder.leads
    (Generation.direct_of_hasLink hfolder.text_ne hlinks) (hbacked.loadTables_eq husable hfolder)
    hfailed fun _ => rfl
  dsimp only at hkept
  rw [hkept] at hfailed
  rw [hbegun] at hreload
  exact ⟨store, disk, fault, after, hrun, hfailed, hreload, hget⟩

/-- Without the deletion a reload may show what was never flushed: the entry before the
    fault is there, in files that are as long as a generation of one entry. -/
theorem compact_error_shows :
    ∃ store disk fault after left, [Op.flush [.live [0x6B] [0x76]]].forM Op.perform
        (⟨.ofText [] "/", .lexicographic, [], false, false⟩, Disk.empty) = .ok () (store, disk)
      ∧ store.ensureUsable = .ok ()
      ∧ loadTables disk store.base store.order = .ok store.tables
      ∧ compact [.ok (.live [0x61] [0x31]), .error (.corrupt 0 (.reported "injected"))] 0 0
        (store, disk) = .error fault (store, after)
      ∧ reload (store, after) = .ok () (left, after)
      ∧ store.get? [0x61] = .ok none
      ∧ left.get? [0x61] = .ok (some (.live [0x61] [0x31])) := by
  have htried : Action.okWith (fun _ state => decide (state.1.ensureUsable = .ok ()
        ∧ state.1.get? [0x61] = .ok none)
        && (compact [.ok (.live [0x61] [0x31]), .error (.corrupt 0 (.reported "injected"))]
          0 0).errorWith (fun _ => reload.okWith fun _ again =>
            decide (again.1.get? [0x61] = .ok (some (.live [0x61] [0x31])))) state)
      ([Op.flush [.live [0x6B] [0x76]]].forM Op.perform)
      (⟨.ofText [] "/", .lexicographic, [], false, false⟩, Disk.empty) = true := by decide +kernel
  obtain ⟨_, ⟨store, disk⟩, hrun, hchecked⟩ := Action.of_okWith htried
  obtain ⟨hfacts, hfails⟩ := Bool.and_eq_true_iff.mp hchecked
  obtain ⟨husable, hget⟩ := of_decide_eq_true hfacts
  obtain ⟨fault, ⟨kept, after⟩, hfailed, hshows⟩ := Action.of_errorWith hfails
  obtain ⟨_, ⟨left, final⟩, hreload, hshown⟩ := Action.of_okWith hshows
  obtain ⟨_, hstate, _⟩ := of_compact_error hfailed
  cases hstate
  have hreached := Reached.of_root (by decide +kernel) hrun
  obtain ⟨volumes, hbacked, _⟩ := hreached.backed
  have hbase : store.base = .ofText [] "/" := hreached.base_eq
  have hfolder : disk.HasFolder store.base [] := hbase ▸ Disk.hasFolder_root disk
  obtain ⟨tables, _, hset⟩ := Action.of_lift_bind_ok hreload
  cases hset
  exact ⟨store, disk, fault, after, _, hrun, husable, hbacked.loadTables_eq husable hfolder,
    hfailed, hreload, hget, of_decide_eq_true hshown⟩

end Store

end LayeredStore
