import LayeredStore.Proofs.Outcomes
import Mathlib.Data.List.Infix

namespace LayeredStore.Store

/-!
# A usable store has mapped what its folder holds

A flush maps what it has written in front of the other generations, without a look at the
folder. Loading the folder anew gives the same store nevertheless, after any flushes,
compactions, reloads and closings, whatever else the folder holds: the number of a
generation is above those of all files, and what is written touches no other file, unless a
link leads there.

* `Step` — what can be done with a store, with any entries and items;
* `Step.ended` — how a step may end;
* `Shown` — the path to the folder does not hide generations that are there;
* `Mirrors` — what every step keeps: a usable store is the one that is loaded;
* `Mirrors.step`, `Mirrors.run` — one step, and a run of them;
* `load_of_run` — the store that is loaded after a run;
* `load_of_run_fails` — below a file this is not so.
-/

/-! ### Steps -/

/-- What can be done with a store. -/
inductive Step
  /-- Flushes a source, the two passes of which may differ. -/
  | flush (source : Source)
  /-- Compacts the store into any items. -/
  | compact (items : List Item) (count payload : Nat)
  /-- Maps what the folder holds, if that can be mapped. -/
  | reload
  /-- Lets go of all generations. -/
  | close
  deriving DecidableEq

namespace Step

/-- Carries out a step. Only a reload may fail, and is then of no consequence. -/
def perform : Step → Action (Store × Disk) Unit
  | flush source => discard (Store.flush source)
  | compact items count payload => discard (Store.compact items count payload)
  | reload => Action.ignoreFault Store.reload
  | close => update Store.close

/-- Carries out a step, which may fail, and tells what was written if anything was. -/
def attempt : Step → Action (Store × Disk) (Option Generation.Info)
  | flush source => Store.flush source
  | compact items count payload => do return some (← Store.compact items count payload)
  | reload => do
    Store.reload
    return none
  | close => do
    update Store.close
    return none

/-- The state behind steps that are carried out one after the other, whether or not they
    fail. -/
def run (steps : List Step) (state : Store × Disk) : Store × Disk :=
  steps.foldl (fun state op => (op.attempt.perform state).2) state

/-- How a step has ended: what it answered, and the state that it has left. -/
inductive Ended (store : Store) (disk : Disk) :
    Step → Except Fault (Option Generation.Info) → Store × Disk → Prop
  | idle {source : Source} (husable : store.ensureUsable = .ok ())
    (hempty : source.isEmpty = true) : Ended store disk (.flush source) (.ok none) (store, disk)
  | flushed {source : Source} {size : Footprint} {made after : Disk} {info : Generation.Info}
    {table : Table} (h : Recorded store (source.written.map .ok) size disk made info after)
    (hopen : openTable after store.base store.order info.index = .ok table) :
    Ended store disk (.flush source) (.ok (some info))
      ({ store with tables := table :: store.tables }, after)
  | compacted {items : List Item} {count payload : Nat} {size : Footprint}
    {made written after : Disk} {info : Generation.Info}
    (h : Recorded store items size disk made info written)
    (hsweep : sweep info.index ({ store with tables := [], stale := true }, written)
      = .ok () ({ store with tables := [], stale := true }, after)) :
    Ended store disk (.compact items count payload) (.ok (some info))
      ({ store with tables := [], stale := true }, after)
  | unflushed {source : Source} {fault : Fault} {after : Disk}
    (h : NotRecorded store (source.written.map .ok) (Footprint.measure source.measured) disk
      fault after) : Ended store disk (.flush source) (.error fault) (store, after)
  | unmapped {source : Source} {size : Footprint} {made after : Disk} {info : Generation.Info}
    {fault : Fault} (h : Recorded store (source.written.map .ok) size disk made info after)
    (hopen : openTable after store.base store.order info.index = .error fault) :
    Ended store disk (.flush source) (.error fault) (store, after)
  | uncompacted {items : List Item} {count payload : Nat} {fault : Fault} {after : Disk}
    (h : NotRecorded store items (capacity count payload store.tables) disk fault after) :
    Ended store disk (.compact items count payload) (.error fault) (store, after)
  | reloaded {tables : List Table} (h : loadTables disk store.base store.order = .ok tables) :
    Ended store disk .reload (.ok none)
      ({ store with tables, closed := false, stale := false }, disk)
  | unloaded {fault : Fault} (h : loadTables disk store.base store.order = .error fault) :
    Ended store disk .reload (.error fault) (store, disk)
  | closed : Ended store disk .close (.ok none) (store.close, disk)

theorem of_attempt_ok {op : Step} {store : Store} {disk : Disk} {state : Store × Disk}
    {written : Option Generation.Info} (h : op.attempt (store, disk) = .ok written state) :
    Ended store disk op (.ok written) state := by
  cases op with
  | flush source =>
    rcases of_flush_ok h with
      ⟨husable, ⟨hempty, rfl, rfl⟩ | ⟨_, _, _, _, _, _, rfl, _, hrecorded, hopen, rfl⟩⟩
    · exact .idle husable hempty
    · exact .flushed hrecorded hopen
  | compact items count payload =>
    obtain ⟨_, _, hcompact, h⟩ := Action.of_bind_ok h
    cases h
    obtain ⟨_, _, _, _, _, hrecorded, hsweep, rfl⟩ := of_compact_ok hcompact
    exact .compacted hrecorded hsweep
  | reload =>
    obtain ⟨_, _, hreload, h⟩ := Action.of_bind_ok h
    cases h
    obtain ⟨_, htables, rfl⟩ := of_reload_ok hreload
    exact .reloaded htables
  | close =>
    cases h
    exact .closed

theorem of_attempt_error {op : Step} {store : Store} {disk : Disk} {state : Store × Disk}
    {fault : Fault} (h : op.attempt (store, disk) = .error fault state) :
    Ended store disk op (.error fault) state := by
  cases op with
  | flush source =>
    obtain ⟨_, rfl, hreason | ⟨_, _, _, hrecorded, hopen⟩⟩ := of_flush_error h
    · exact .unflushed hreason
    · exact .unmapped hrecorded hopen
  | compact items count payload =>
    obtain ⟨_, rfl, hreason⟩ :=
      of_compact_error ((Action.of_bind_error h).resolve_right fun ⟨_, _, _, h⟩ => by cases h)
    exact .uncompacted hreason
  | reload =>
    obtain ⟨hfault, rfl⟩ :=
      of_reload_error ((Action.of_bind_error h).resolve_right fun ⟨_, _, _, h⟩ => by cases h)
    exact .unloaded hfault
  | close => cases h

/-- Each step ends in one of these ways. -/
theorem ended (op : Step) (store : Store) (disk : Disk) :
    Ended store disk op (op.attempt.perform (store, disk)).1
      (op.attempt.perform (store, disk)).2 := by
  cases h : op.attempt (store, disk) with
  | ok written state => rw [Action.perform_ok h]; exact of_attempt_ok h
  | error fault state => rw [Action.perform_error h]; exact of_attempt_error h

end Step

/-! ### What a run keeps -/

/-- Where the path leads to nothing, no generation is recorded where it leads once the folders on
    its way are made. -/
def Shown (base : Path) (disk : Disk) : Prop :=
  disk.find base = .error .notFound → ∀ made home, disk.Leads base made home →
    ∀ label ∈ Generation.labels, ∀ n, ¬ Generation.Records made home label n

/-- The store belongs to the folder, and while it is usable it is the one that is loaded. -/
structure Mirrors (base : Path) (order : KeyOrder) (state : Store × Disk) : Prop where
  base_eq : state.1.base = base
  order_eq : state.1.order = order
  shown : Shown base state.2
  load_eq : state.1.ensureUsable = .ok () → load state.2 base order = .ok state.1

variable {disk made after : Disk} {base : Path} {order : KeyOrder} {first store : Store}
  {state : Store × Disk} {steps : List Step}

theorem shown_of_folder {home : Place} (h : disk.HasFolder base home) : Shown base disk := by
  intro hmissing
  cases h.find_eq.symm.trans hmissing

/-- The making of the folder shows no other generations than were there. -/
theorem loadTables_of_makeFolders {home : Place} (hload : load disk base order = .ok store)
    (hshown : Shown base disk) (hleads : disk.Leads base made home) :
    loadTables made base order = .ok store.tables := by
  obtain ⟨_, hwhere⟩ := of_load_ok hload
  rcases Disk.folder_or_missing_of_makeFolders hleads.found.text_ne hleads.made_eq with
    ⟨place, hfolder⟩ | hmissing
  · obtain ⟨rfl, _⟩ := hfolder.of_leads hleads
    rcases hwhere with ⟨_, htables⟩ | ⟨hexists, _⟩
    · exact htables
    · rw [Disk.exists?, hfolder.find_eq] at hexists
      cases hexists
  · have hnil : store.tables = [] := by
      rcases hwhere with ⟨⟨place, hfolder⟩, _⟩ | ⟨_, hnil⟩
      · cases hfolder.find_eq.symm.trans hmissing
      · exact hnil
    rw [hnil]
    exact loadTables_of_none (.inl hleads.found) (hshown hmissing made home hleads)

/-- What a reload maps is what is loaded. -/
theorem load_of_loadTables {tables : List Table} (h : loadTables disk base order = .ok tables) :
    load disk base order = .ok ⟨base, order, tables, false, false⟩ := by
  by_cases hfolder : disk.find base = .ok .folder
  · obtain ⟨home, hfolder⟩ := Disk.find_folder_iff.mp hfolder
    exact load_of_folder hfolder h
  · obtain ⟨numbers, hdiscover, hopen⟩ := of_loadTables_ok h
    -- a path that leads to no folder is listed only where nothing is
    by_cases hmissing : disk.find base = .error .notFound
    · rw [Generation.discover_of_missing hmissing] at hdiscover
      cases hdiscover
      cases hopen
      exact load_of_missing (Disk.exists?_of_missing hmissing) order
    · obtain ⟨fault, hfault⟩ := Generation.discover_of_fault hfolder hmissing
      rw [hfault] at hdiscover
      cases hdiscover

namespace Mirrors

/-- A store that was loaded is the one that is loaded. -/
theorem of_load (hshown : Shown base disk) (hload : load disk base order = .ok store) :
    Mirrors base order (store, disk) := by
  obtain ⟨hstore, _⟩ := of_load_ok hload
  refine ⟨?_, ?_, hshown, fun _ => hload⟩
  · exact congrArg Store.base hstore
  · exact congrArg Store.order hstore

/-- After a flush the generation that was recorded is loaded in front of those that were
    mapped. -/
theorem of_flush_ok {source : Source} {info : Option Generation.Info}
    (h : Mirrors base order (store, disk)) (hdirect : Generation.Direct base disk)
    (hflush : flush source (store, disk) = .ok info state) : Mirrors base order state := by
  obtain ⟨rfl, rfl, hshown, hload⟩ := h
  obtain ⟨husable, ⟨_, _, rfl⟩ | ⟨_, made, info, written, home, _, _, _, hrecorded, rfl⟩⟩ :=
    of_flush_ok_direct hflush hdirect
  · exact ⟨rfl, rfl, hshown, hload⟩
  · have hmapped := loadTables_of_makeFolders (hload husable) hshown hrecorded.leads
    refine ⟨rfl, rfl, shown_of_folder hrecorded.hasFolder, fun _ => ?_⟩
    rw [load_of_folder hrecorded.hasFolder (hrecorded.loadTables_eq hmapped)]
    obtain ⟨hclosed, hstale⟩ := ensureUsable_iff.mp husable
    rw [hclosed, hstale]

/-- After a compaction the store is not usable until it is reloaded. -/
theorem of_compact_ok {items : List Item} {count payload : Nat} {info : Generation.Info}
    (h : Mirrors base order (store, disk)) (hdirect : Generation.Direct base disk)
    (hcompact : compact items count payload (store, disk) = .ok info state) :
    Mirrors base order state := by
  obtain ⟨rfl, rfl, _, _⟩ := h
  obtain ⟨_, _, written, _, _, hrecorded, hsweep, rfl⟩ := Store.of_compact_ok hcompact
  obtain ⟨home, hrecorded⟩ := hrecorded.exists_home hdirect
  obtain ⟨hfolder, _⟩ := hrecorded.keeps_swept hsweep rfl
  refine ⟨rfl, rfl, shown_of_folder hfolder, fun husable => ?_⟩
  cases (ensureUsable_iff.mp husable).2

/-- What a reload maps is what is loaded. -/
theorem of_reload_ok (h : Mirrors base order (store, disk))
    (hreload : reload (store, disk) = .ok () state) : Mirrors base order state := by
  obtain ⟨rfl, rfl, hshown, _⟩ := h
  obtain ⟨tables, htables, rfl⟩ := Store.of_reload_ok hreload
  exact ⟨rfl, rfl, hshown, fun _ => load_of_loadTables htables⟩

/-- Every step keeps what is loaded and what is mapped together. -/
theorem step {op : Step} (h : Mirrors base order (store, disk))
    (hdirect : Generation.Direct base disk) (hok : op.perform (store, disk) = .ok () state) :
    Mirrors base order state := by
  cases op with
  | flush source =>
    obtain ⟨_, hflush⟩ := Action.of_discard_ok hok
    exact h.of_flush_ok hdirect hflush
  | compact items count payload =>
    obtain ⟨_, hcompact⟩ := Action.of_discard_ok hok
    exact h.of_compact_ok hdirect hcompact
  | reload =>
    cases hreload : reload (store, disk) with
    | ok _ reloaded =>
      rw [Step.perform, Action.ignoreFault_ok hreload] at hok
      cases hok
      exact h.of_reload_ok hreload
    | error fault left =>
      obtain ⟨_, rfl⟩ := of_reload_error hreload
      simp only [Step.perform, Action.ignoreFault, hreload] at hok
      cases hok
      exact h
  | close =>
    cases hok
    refine ⟨h.base_eq, h.order_eq, h.shown, fun husable => ?_⟩
    cases (ensureUsable_iff.mp husable).1

/-- A run of steps keeps what is loaded and what is mapped together. -/
theorem run (h : Mirrors base order state) (hdirect : ∀ past, past <+: steps →
      Generation.Direct base ((past.forM Step.perform).perform state).2.2)
    (hok : steps.forM Step.perform state = .ok () (store, after)) :
    Mirrors base order (store, after) := by
  induction steps generalizing state with
  | nil => cases hok; exact h
  | cons op steps ih =>
    obtain ⟨_, ⟨between, middle⟩, hfirst, hrest⟩ := Action.of_bind_ok hok
    refine ih (h.step (hdirect [] (List.nil_prefix)) hfirst) (fun past hpast => ?_) hrest
    have hlater := hdirect (op :: past) (List.cons_prefix_cons.mpr ⟨rfl, hpast⟩)
    have hsame : (op :: past).forM Step.perform state = past.forM Step.perform (between, middle) :=
      Action.bind_ok hfirst
    rwa [Action.perform, hsame] at hlater

end Mirrors

/-! ### The store that is loaded -/

/-- **What is mapped is what is loaded.** A store that was loaded is used in any way, with
    flushes and compactions that succeed. While it is usable, loading its folder anew gives the
    same store, with its generations the newest first. When it is closed then, a reload brings
    it back if the path can be listed. -/
theorem load_of_run (hload : load disk base order = .ok first) (hshown : Shown base disk)
    (hdirect : ∀ past, past <+: steps →
      Generation.Direct base ((past.forM Step.perform).perform (first, disk)).2.2)
    (hrun : steps.forM Step.perform (first, disk) = .ok () (store, after))
    (husable : store.ensureUsable = .ok ()) :
    load after base order = .ok store ∧ store.generations.Pairwise (· > ·)
      ∧ (after.find base = .ok .folder ∨ after.find base = .error .notFound →
        reload (store.close, after) = .ok () (store, after)) := by
  obtain ⟨rfl, rfl, _, hmirrors⟩ := (Mirrors.of_load hshown hload).run hdirect hrun
  have hafter : load after store.base store.order = .ok store := hmirrors husable
  obtain ⟨hstore, hwhere⟩ := of_load_ok hafter
  refine ⟨hafter, ?_, fun hlisted => ?_⟩
  · rcases hwhere with ⟨⟨home, hfolder⟩, htables⟩ | ⟨_, hnil⟩
    · exact (generations_spec hfolder htables).1
    · rw [generations, hnil]
      exact .nil
  · have htables : loadTables after store.base store.order = .ok store.tables := by
      rcases hwhere with ⟨_, htables⟩ | ⟨hexists, hnil⟩
      · exact htables
      · rcases hlisted with hfolder | hmissing
        · rw [Disk.exists?, hfolder] at hexists
          cases hexists
        · rw [loadTables, Generation.discover_of_missing hmissing, hnil]
          rfl
    refine (Action.lift_bind htables).trans ?_
    exact congrArg (fun back => EStateM.Result.ok () (back, after)) hstore.symm

/-- A folder with a file, a sub-folder and a link of others, used by flushes, a compaction and a
    reload: at the end it is loaded with the two generations that are mapped. -/
theorem load_of_run_foreign :
    let disk := ((Disk.empty.put ["notes"] (.file [0x78])).put ["values7"] .folder).put ["again"]
      (.link "notes")
    ∃ store after, [Step.flush (.ofEntries [.live [0x6B] [0x76]]),
        .flush ⟨false, [.live [0x61] [0x31]], [.tombstone [0x61]]⟩,
        .compact [.ok (.live [0x6B] [0x77])] 0 0, .close, .reload,
        .flush (.ofEntries [.tombstone [0x6B]])].forM Step.perform
          (⟨.ofText [] "/", .caseless, [], false, false⟩, disk) = .ok () (store, after)
      ∧ load after (.ofText [] "/") .caseless = .ok store
      ∧ reload (store.close, after) = .ok () (store, after)
      ∧ store.generations = [3, 2] := by
  intro disk
  let steps := [Step.flush (.ofEntries [.live [0x6B] [0x76]]),
    .flush ⟨false, [.live [0x61] [0x31]], [.tombstone [0x61]]⟩,
    .compact [.ok (.live [0x6B] [0x77])] 0 0, .close, .reload,
    .flush (.ofEntries [.tombstone [0x6B]])]
  let first : Store := ⟨.ofText [] "/", .caseless, [], false, false⟩
  have hfolder : disk.HasFolder (.ofText [] "/") [] := ⟨by decide +kernel, rfl⟩
  have hdiscover : Generation.discover disk (.ofText [] "/") = .ok [] := by decide +kernel
  have htried : Action.okWith (fun _ state => decide (state.1.ensureUsable = .ok ()
        ∧ state.1.generations = [3, 2] ∧ state.2.find (.ofText [] "/") = .ok .folder))
      (steps.forM Step.perform) (first, disk) = true := by decide +kernel
  have hlinks : ∀ past ∈ steps.inits,
      Generation.hasLink ((past.forM Step.perform).perform (first, disk)).2.2 = false := by
    decide +kernel
  obtain ⟨_, ⟨store, after⟩, hrun, hfacts⟩ := Action.of_okWith htried
  obtain ⟨husable, hgenerations, hlisted⟩ := of_decide_eq_true hfacts
  obtain ⟨hload, _, hreload⟩ :=
    load_of_run (load_of_discover_nil hfolder hdiscover .caseless) (shown_of_folder hfolder)
      (fun past hpast => Generation.direct_of_hasLink (by decide)
        (hlinks past ((List.mem_inits _ _).mpr hpast))) hrun husable
  exact ⟨store, after, hrun, hload, hreload (.inl hlisted), hgenerations⟩

/-- Below a file nothing is found, which is loaded as an empty store but not listed by a
    reload. -/
theorem load_of_run_fails :
    ∃ disk first fault, load disk (.ofText [] "/f/s") .lexicographic = .ok first
      ∧ first.ensureUsable = .ok ()
      ∧ reload (first.close, disk) = .error fault (first.close, disk) := by
  let disk := Disk.empty.put ["f"] (.file [])
  have hmissing : disk.exists? (.ofText [] "/f/s") = false := by decide +kernel
  have hload := load_of_missing hmissing .lexicographic
  have hfails : reload.errorWith (fun _ _ => true)
      (close ⟨.ofText [] "/f/s", .lexicographic, [], false, false⟩, disk) = true := by
    decide +kernel
  obtain ⟨fault, left, hreload, _⟩ := Action.of_errorWith hfails
  obtain ⟨_, rfl⟩ := of_reload_error hreload
  exact ⟨disk, _, fault, hload, rfl, hreload⟩

/-- Where the way to a folder is missing, a flush that makes it maps the new generation only,
    while a later load finds all that the folder holds. -/
example :
    let base : Path := .ofText [] "/s/x/.."
    let disk := ((Disk.empty.put ["s"] .folder).put ["values0", "s"] (.file [])).put
      ["offsets0", "s"] (.file [])
    (flush (.ofEntries [.live [0x6B] [0x76]])).okWith (fun _ state => decide
        (state.1.generations = [1]
          ∧ (load state.2 base .lexicographic).toOption.map generations = some [1, 0]))
      (⟨base, .lexicographic, [], false, false⟩, disk) = true := by decide +kernel

/-- Two flushes to the empty path, both of generation zero: the second is written over the first,
    and a load finds no folder. -/
example :
    let base : Path := .ofText [] ""
    (flush (.ofEntries [.live [0x6B] [0x76]]) *> flush (.ofEntries [.live [0x6B] [0x77]])).okWith
      (fun _ state => decide (state.1.generations = [0, 0]
        ∧ (load state.2 base .lexicographic).toOption.map generations = some []))
      (⟨base, .lexicographic, [], false, false⟩, Disk.empty) = true := by decide +kernel

end LayeredStore.Store
