import LayeredStore.Proofs.Rescanning

namespace LayeredStore.Store

/-!
# A store that was closed or compacted is out of use

A store lets go of all tables when it is closed or compacted. A read would then find nothing,
and a compaction of what is mapped would put nothing in the place of all data. So both are
refused, and so is a flush, before anything is looked at: only a reload, which maps what the
folder holds, brings the store back.

* `Reachable` — the stores that there can be, and the disks beside them;
* `OutOfUse`, `Refuses` — what a store is that was closed or compacted, and what it does;
* `Reachable.tables_eq` — a store that is out of use has mapped nothing;
* `OutOfUse.step`, `OutOfUse.run` — a step, and a run of them, of such a store;
* `IsReloaded` — what a reload that succeeds has done;
* `refuses_until_reload` — from when to when a store is out of use, and what that means.
-/

/-! ### Stores that there can be -/

/-- The store was loaded and then used in any way, by steps that may have failed. At any time
    others may have put anything in the place of the disk. -/
inductive Reachable : Store × Disk → Prop
  | load {store : Store} {disk : Disk} {base : Path} {order : KeyOrder}
    (h : Store.load disk base order = .ok store) : Reachable (store, disk)
  | step {state : Store × Disk} (op : Step) (h : Reachable state) :
    Reachable (op.attempt.perform state).2
  | disturbed {store : Store} {disk : Disk} (other : Disk) (h : Reachable (store, disk)) :
    Reachable (store, other)

/-- The store was closed, or waits for a reload. -/
def OutOfUse (store : Store) : Prop :=
  store.closed = true ∨ store.stale = true

/-- The reason why a store that is out of use is not used. -/
def refusal (store : Store) : Fault :=
  if store.closed then .closed else .stale

/-- The store has mapped nothing, and whatever is asked of it is refused, with the disk and
    the store left as they are. -/
structure Refuses (store : Store) : Prop where
  tables_eq : store.tables = []
  get?_eq : ∀ key, store.get? key = .error store.refusal
  streams_eq : ∀ bounds, store.streams bounds = .error store.refusal
  flush_eq : ∀ source disk, flush source (store, disk) = .error store.refusal (store, disk)
  compact_eq : ∀ items count payload disk,
    compact items count payload (store, disk) = .error store.refusal (store, disk)

variable {store : Store} {disk : Disk} {state next : Store × Disk} {op : Step}
  {result : Except Fault (Option Generation.Info)}

theorem not_outOfUse_of_usable (h : store.ensureUsable = .ok ()) : ¬ store.OutOfUse := by
  obtain ⟨hclosed, hstale⟩ := ensureUsable_iff.mp h
  rw [OutOfUse, hclosed, hstale]
  decide

theorem OutOfUse.ensureUsable_eq (h : store.OutOfUse) :
    store.ensureUsable = .error store.refusal := by
  rw [ensureUsable, refusal]
  split
  · rfl
  · rename_i hopen
    exact if_pos (h.resolve_left hopen)

/-! ### What is mapped -/

/-- What a step can do to the tables: whatever puts a store out of use lets go of them. -/
theorem tables_of_ended (h : store.OutOfUse → store.tables = [])
    (hended : Step.Ended store disk op result next) (hout : next.1.OutOfUse) :
    next.1.tables = [] := by
  cases hended with
  | flushed hrecorded _ => exact absurd hout (not_outOfUse_of_usable hrecorded.usable)
  | reloaded => rcases hout with hclosed | hstale <;> contradiction
  | compacted => rfl
  | closed => rfl
  | _ => exact h hout

/-- A store that is out of use has mapped nothing. -/
theorem Reachable.tables_eq (h : Reachable state) (hout : state.1.OutOfUse) :
    state.1.tables = [] := by
  -- over what was done with the store
  induction h with
  | load h =>
    obtain ⟨hstore, _⟩ := of_load_ok h
    rw [hstore] at hout
    rcases hout with hclosed | hstale <;> contradiction
  | step op h ih => exact tables_of_ended ih (op.ended _ _) hout
  | disturbed other h ih => exact ih hout

/-! ### What is refused -/

/-- A store that is out of use refuses all but to be closed and reloaded. -/
theorem OutOfUse.refuses (h : store.OutOfUse) (htables : store.tables = []) : store.Refuses where
  tables_eq := htables
  get?_eq key := by rw [get?, h.ensureUsable_eq]; rfl
  streams_eq bounds := by rw [streams, h.ensureUsable_eq]; rfl
  flush_eq source disk := Action.lift_bind_error h.ensureUsable_eq
  compact_eq items count payload disk :=
    Action.bind_error (Action.lift_bind_error h.ensureUsable_eq)

/-- A step of a store that is out of use leaves it so, and the disk as it is, unless it is a
    reload that succeeds. -/
theorem OutOfUse.step (h : state.1.OutOfUse) (htables : state.1.tables = [])
    (hreload : op = .reload → ∃ fault left, reload state = .error fault left) :
    (op.attempt.perform state).2.2 = state.2 ∧ (op.attempt.perform state).2.1.OutOfUse
      ∧ (op.attempt.perform state).2.1.tables = [] := by
  have hrefuses := h.refuses htables
  cases op with
  | flush source =>
    rw [Action.perform_error (by exact hrefuses.flush_eq source state.2)]
    exact ⟨rfl, h, htables⟩
  | compact items count payload =>
    rw [Step.attempt,
      Action.perform_error (Action.bind_error (hrefuses.compact_eq items count payload state.2))]
    exact ⟨rfl, h, htables⟩
  | reload =>
    obtain ⟨fault, left, hfailed⟩ := hreload rfl
    obtain ⟨_, rfl⟩ := of_reload_error hfailed
    rw [Step.attempt, Action.perform_error (Action.bind_error hfailed)]
    exact ⟨rfl, h, htables⟩
  | close => exact ⟨rfl, .inl rfl, rfl⟩

/-- Steps of a store that is out of use leave it so, and the disk as it is, as long as no
    reload succeeds. -/
theorem OutOfUse.run {steps : List Step} (h : state.1.OutOfUse) (htables : state.1.tables = [])
    (hreloads : ∀ past, past ++ [.reload] <+: steps →
      ∃ fault left, reload (Step.run past state) = .error fault left) :
    (Step.run steps state).2 = state.2 ∧ (Step.run steps state).1.OutOfUse
      ∧ (Step.run steps state).1.tables = [] := by
  induction steps generalizing state with
  | nil => exact ⟨rfl, h, htables⟩
  | cons op steps ih =>
    obtain ⟨hdisk, hout, hnil⟩ := h.step htables fun hop => hreloads [] (hop ▸ ⟨steps, rfl⟩)
    obtain ⟨hsame, hrest⟩ := ih hout hnil fun past hpast =>
      hreloads (op :: past) (List.cons_prefix_cons.mpr ⟨rfl, hpast⟩)
    exact ⟨hsame.trans hdisk, hrest⟩

/-- Only a reload that succeeds brings a store back. -/
theorem OutOfUse.of_back (h : state.1.OutOfUse) (htables : state.1.tables = [])
    (hback : ¬ (op.attempt.perform state).2.1.OutOfUse) :
    op = .reload ∧ reload state = .ok () (op.attempt.perform state).2 := by
  by_contra hne
  refine hback (h.step htables fun hop => ?_).2.1
  subst hop
  cases hreload : reload state with
  | ok _ next =>
    have hback : Step.reload.attempt.perform state = (.ok none, next) :=
      Action.perform_ok (Action.bind_ok hreload)
    refine absurd ⟨rfl, ?_⟩ hne
    rw [hback, hreload]
  | error fault left => exact ⟨fault, left, rfl⟩

/-! ### What a reload does -/

/-- The store is in use and has mapped all generations that the folder holds. -/
structure IsReloaded (disk : Disk) (store : Store) : Prop where
  closed_eq : store.closed = false
  stale_eq : store.stale = false
  mapped : loadTables disk store.base store.order = .ok store.tables
  whole : ∀ home, disk.HasFolder store.base home → ∀ label ∈ Generation.labels, ∀ n,
    n ∈ store.generations ↔ Generation.Records disk home label n

theorem isReloaded_of_reload (h : reload state = .ok () next) :
    next.2 = state.2 ∧ next.1.base = state.1.base ∧ IsReloaded next.2 next.1 := by
  obtain ⟨tables, htables, rfl⟩ := of_reload_ok h
  exact ⟨rfl, rfl, rfl, rfl, htables, fun _ hfolder => (generations_spec hfolder htables).2⟩

/-! ### The law -/

/-- **A store that was closed or compacted is out of use until it is reloaded.** Closing a
    store and compacting it put it out of use. It has mapped nothing then, and refuses to be
    read, flushed, even of nothing, and compacted, without a look at the disk; when it was
    closed the reason is that, and else that a reload is due. So it goes on, with the disk as
    it is, whatever steps are tried, as long as no reload succeeds. Only by a reload that
    succeeds is it brought back; all that the folder holds is mapped then. A reload that
    fails changes nothing. -/
theorem refuses_until_reload (h : Reachable state) :
    (close state.1).OutOfUse
      ∧ (∀ items count payload info next,
        compact items count payload state = .ok info next → next.1.OutOfUse)
      ∧ (state.1.OutOfUse → state.1.Refuses
        ∧ (∀ steps, (∀ past, past ++ [.reload] <+: steps →
            ∃ fault left, reload (Step.run past state) = .error fault left) →
          (Step.run steps state).2 = state.2 ∧ (Step.run steps state).1.OutOfUse
            ∧ (Step.run steps state).1.Refuses)
        ∧ ∀ op : Step, ¬ (op.attempt.perform state).2.1.OutOfUse →
          op = .reload ∧ reload state = .ok () (op.attempt.perform state).2)
      ∧ (∀ next, reload state = .ok () next →
        next.2 = state.2 ∧ next.1.base = state.1.base ∧ IsReloaded next.2 next.1)
      ∧ ∀ fault next, reload state = .error fault next → next = state := by
  refine ⟨.inl rfl, fun items count payload info next hcompact => ?_, fun hout => ?_,
    fun next => isReloaded_of_reload, fun fault next hreload => (of_reload_error hreload).2⟩
  · obtain ⟨_, _, _, _, _, _, _, rfl⟩ := of_compact_ok hcompact
    exact .inr rfl
  · have htables := h.tables_eq hout
    refine ⟨hout.refuses htables, fun steps hreloads => ?_, fun op => hout.of_back htables⟩
    obtain ⟨hdisk, hstill, hnil⟩ := hout.run htables hreloads
    exact ⟨hdisk, hstill, hstill.refuses hnil⟩

/-- A store is flushed and compacted, and refuses to be read. Then a flush of nothing, a
    compaction of nothing and a flush of another value are tried, with the store being closed in
    between: the disk is kept, and a reload finds the value that was compacted. -/
theorem refuses_until_reload_compacted :
    let compacted := Step.run [.flush (.ofEntries [.live [0x6B] [0x76]]),
      .compact [.ok (.live [0x6B] [0x77])] 0 0]
      (⟨.ofText [] "/", .lexicographic, [], false, false⟩, Disk.empty)
    let steps : List Step := [.flush (.ofEntries []), .compact [] 0 0, .close,
      .flush (.ofEntries [.live [0x6B] [0x78]])]
    let tried := Step.run steps compacted
    compacted.1.get? [0x6B] = .error .stale
      ∧ tried.2 = compacted.2 ∧ tried.1.get? [0x6B] = .error .closed
      ∧ ∃ next, reload tried = .ok () next ∧ IsReloaded compacted.2 next.1
        ∧ next.1.get? [0x6B] = .ok (some (.live [0x6B] [0x77])) := by
  intro compacted steps tried
  have hload : load Disk.empty (.ofText [] "/") .lexicographic
      = .ok ⟨.ofText [] "/", .lexicographic, [], false, false⟩ :=
    load_of_discover_nil ⟨rfl, rfl⟩ (by decide +kernel) .lexicographic
  have hreach : Reachable compacted := .step _ (.step _ (.load hload))
  obtain ⟨-, -, hlaw, -⟩ := refuses_until_reload hreach
  obtain ⟨hrefuses, hsteps, -⟩ := hlaw (.inr (by decide +kernel))
  obtain ⟨hdisk, -, htried⟩ := hsteps steps fun past hpast => by
    have hmem := hpast.subset (List.mem_append_right past (List.mem_singleton_self Step.reload))
    exact absurd hmem (by decide)
  have hreason : compacted.1.refusal = .stale := by decide +kernel
  have hreasons : tried.1.refusal = .closed := by decide +kernel
  have hreloads : reload.okWith (fun _ next => decide
      (next.1.get? [0x6B] = .ok (some (.live [0x6B] [0x77])))) tried = true := by decide +kernel
  obtain ⟨_, next, hreload, hget⟩ := Action.of_okWith hreloads
  have hreached : Reachable tried := .step _ (.step _ (.step _ (.step _ hreach)))
  obtain ⟨-, -, -, hback, -⟩ := refuses_until_reload hreached
  obtain ⟨hsame, -, hreloaded⟩ := hback next hreload
  refine ⟨hreason ▸ hrefuses.get?_eq _, hdisk, hreasons ▸ htried.get?_eq _, next, hreload, ?_,
    of_decide_eq_true hget⟩
  rwa [hsame, hdisk] at hreloaded

end LayeredStore.Store
