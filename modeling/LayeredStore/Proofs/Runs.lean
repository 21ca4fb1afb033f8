import LayeredStore.Proofs.Changes

namespace LayeredStore

/-!
# Stores over a run of operations

A store that is used from an empty folder on answers, whatever was flushed, compacted,
reloaded and reopened in between, with the newest entry under a key, and its scans are the
entries that it answers with.

* `Store.Op` — the operations of a run;
* `Store.Op.history` — the layers that a run has written, the newest first;
* `Store.Reached` — what every operation of a run keeps: the folder is a shelf that answers
  as the history does;
* `Store.Reached.step`, `Store.Reached.run` — one operation, and a run of them;
* `Store.newest_wins` — the reads at the end of a run.
-/

namespace Store

/-! ### Operations -/

/-- What can be done with a store. -/
inductive Op
  /-- Flushes the given entries. -/
  | flush (entries : List Entry)
  /-- Compacts the store into the merge of all its generations. -/
  | compact (count payload : Nat)
  /-- Compacts the store into other entries. -/
  | rewrite (entries : List Entry) (count payload : Nat)
  /-- Maps what the folder holds. -/
  | reload
  /-- Lets go of all generations. -/
  | close
  /-- Loads the folder anew. -/
  | reopen
  deriving DecidableEq

namespace Op

/-- Carries out an operation. -/
def perform : Op → Action (Store × Disk) Unit
  | flush entries => discard (Store.flush (.ofEntries entries))
  | compact count payload => do
    let (store, _) ← get
    let items ← Action.lift (store.scan .all)
    discard (Store.compact items count payload)
  | rewrite entries count payload => discard (Store.compact (entries.map .ok) count payload)
  | reload => Store.reload
  | close => update Store.close
  | reopen => do
    let (store, disk) ← get
    let fresh ← Action.lift (Store.load disk store.base store.order)
    set (fresh, disk)

/-- The entries that the operation writes ascend. -/
def Ascending (order : KeyOrder) : Op → Prop
  | flush entries => order.Ascending (keysOf entries)
  | rewrite entries _ _ => order.Ascending (keysOf entries)
  | _ => True

instance (order : KeyOrder) : DecidablePred (Ascending order)
  | flush entries => inferInstanceAs (Decidable (order.Ascending (keysOf entries)))
  | rewrite entries _ _ => inferInstanceAs (Decidable (order.Ascending (keysOf entries)))
  | compact .. => isTrue trivial
  | reload => isTrue trivial
  | close => isTrue trivial
  | reopen => isTrue trivial

/-- Whether the operation writes entries in the place of all that was written before. -/
def isRewrite : Op → Bool
  | rewrite .. => true
  | _ => false

/-- What a flush writes. -/
def flushed? : Op → Option (List Entry)
  | flush entries => some entries
  | _ => none

/-- The layers that were written when an operation has followed others. -/
def extend (layers : List (List Entry)) : Op → List (List Entry)
  | flush entries => entries :: layers
  | rewrite entries _ _ => [entries]
  | _ => layers

/-- The layers that a run has written, the newest first. -/
def history (ops : List Op) : List (List Entry) := ops.foldl extend []

/-- What the flushes of a run have written, the newest first. -/
def flushes (ops : List Op) : List (List Entry) := (ops.filterMap flushed?).reverse

/-- A run without rewrites has written what its flushes have. -/
theorem history_eq_flushes {ops : List Op} (h : ∀ op ∈ ops, op.isRewrite = false) :
    history ops = flushes ops := by
  -- for whatever was written before, since a flush puts its layer in front
  have hfold : ∀ layers, ops.foldl extend layers = flushes ops ++ layers := by
    induction ops with
    | nil => exact fun _ => rfl
    | cons op ops ih =>
      intro layers
      have hrest := ih fun other hother => h other (List.mem_cons_of_mem _ hother)
      have hfirst := h op List.mem_cons_self
      rw [List.foldl_cons, hrest]
      cases op with
      | flush entries => simp [flushes, extend, flushed?]
      | rewrite entries count payload => cases hfirst
      | compact count payload => rfl
      | reload => rfl
      | close => rfl
      | reopen => rfl
  rw [history, hfold, List.append_nil]

end Op

/-! ### What a run keeps -/

/-- What is so after a run of operations that began on the disk `start`: the store's folder
    is a shelf that answers as the history does, it has at most one volume's number for
    each operation, and nothing is in the way of a generation. The folder can be made if it could
    at the start. -/
structure Reached (start : Disk) (base : Path) (order : KeyOrder) (history : List (List Entry))
    (steps : Nat) (state : Store × Disk) : Prop where
  base_eq : state.1.base = base
  order_eq : state.1.order = order
  text_ne : base.text ≠ ""
  clear : Generation.Clear base state.2
  backed : ∃ volumes, state.1.Backed volumes state.2 ∧ Volume.next volumes ≤ steps
    ∧ ∀ key, order.find? key (Volume.layers volumes).flatten = order.find? key history.flatten
  exists_leads : (∃ made home, start.Leads base made home) →
    ∃ made home, state.2.Leads base made home

namespace Reached

variable {start : Disk} {base : Path} {order : KeyOrder} [Std.TransCmp order.compare]
  {history : List (List Entry)} {steps : Nat} {state after : Store × Disk}

/-- A usable store that was reached holds layers that answer as the history does. -/
theorem layered {store : Store} {disk : Disk}
    (h : Reached start base order history steps (store, disk))
    (husable : store.ensureUsable = .ok ()) : ∃ layers, store.Layered layers
      ∧ ∀ key, store.order.find? key layers.flatten = store.order.find? key history.flatten := by
  obtain ⟨_, rfl, _, _, ⟨volumes, hbacked, _, hanswers⟩, _⟩ := h
  exact ⟨Volume.layers volumes, hbacked.shelf.layered (hbacked.tables_eq husable), hanswers⟩

omit [Std.TransCmp order.compare] in
/-- A run begins with a store that was loaded from a folder without generations. -/
theorem of_load {store : Store} (hvacant : Generation.Vacant base start)
    (hload : Store.load start base order = .ok store) :
    Reached start base order [] 0 (store, start) := by
  have hshelf := Shelf.of_vacant hvacant order
  obtain rfl := hshelf.of_load_ok hload
  exact ⟨rfl, rfl, hvacant.text_ne, hvacant.clear,
    ⟨[], ⟨hshelf, fun _ => rfl⟩, Nat.le_refl _, fun _ => rfl⟩, id⟩

/-- Every operation keeps what holds of a run. -/
theorem step {op : Op} (h : Reached start base order history steps state)
    (hop : op.Ascending order) (hok : op.perform state = .ok () after) :
    Reached start base order (op.extend history) (steps + 1) after := by
  obtain ⟨store, disk⟩ := state
  obtain ⟨store', disk'⟩ := after
  obtain ⟨rfl, rfl, htext, hclear, ⟨volumes, hbacked, hsteps, hanswers⟩, hleads⟩ := h
  have hdirect := hclear.direct htext
  -- one case for each operation: which volumes it leaves, and that they answer as before
  cases op with
  | flush entries =>
    obtain ⟨info, hflush⟩ := Action.of_discard_ok hok
    obtain ⟨volumes', hstate, hshelf, hvolumes, hkept, hthere⟩ :=
      hbacked.of_flush_ok hdirect hop hflush
    obtain rfl := (Prod.mk.inj hstate).1
    refine ⟨rfl, rfl, htext, hkept hclear, ⟨volumes', ⟨hshelf, fun _ => rfl⟩, ?_, fun key => ?_⟩,
      fun hstart => ?_⟩
    · rw [hvolumes]
      split
      · omega
      · exact Nat.succ_le_succ hsteps
    · rw [hvolumes, Op.extend, List.flatten_cons, KeyOrder.find?_append, ← hanswers]
      split
      · subst entries
        rfl
      · rw [Volume.layers_cons, List.flatten_cons, KeyOrder.find?_append]
    · rcases hthere with heq | ⟨home, hfolder⟩
      · exact heq ▸ hleads hstart
      · exact ⟨disk', home, hfolder.leads⟩
  | compact count payload =>
    obtain ⟨items, hscan, hcompact⟩ := Action.of_lift_bind_ok hok
    obtain ⟨husable, hcount⟩ := of_scan_ok hscan
    obtain ⟨merged, hmerged, hascending, _, hfind⟩ :=
      (hbacked.shelf.layered (hbacked.tables_eq husable)).scan_all husable hcount
    rw [hscan] at hmerged
    cases hmerged
    obtain ⟨info, hcompact⟩ := Action.of_discard_ok hcompact
    obtain ⟨rfl, _, hshelf, hkept⟩ := hbacked.of_compact_ok hdirect hascending hcompact
    obtain ⟨home, hfolder⟩ := hshelf.found (List.cons_ne_nil _ _)
    refine ⟨rfl, rfl, htext, hkept hclear,
      ⟨_, ⟨hshelf, fun h => ?_⟩, Nat.succ_le_succ hsteps, fun key => ?_⟩,
      fun _ => ⟨disk', home, hfolder.leads⟩⟩
    · cases (ensureUsable_iff.mp h).2
    · rw [Volume.layers_cons, Volume.layers_nil, List.flatten_cons, List.flatten_nil,
        List.append_nil, hfind, hanswers]
      rfl
  | rewrite entries count payload =>
    obtain ⟨info, hcompact⟩ := Action.of_discard_ok hok
    obtain ⟨rfl, _, hshelf, hkept⟩ := hbacked.of_compact_ok hdirect hop hcompact
    obtain ⟨home, hfolder⟩ := hshelf.found (List.cons_ne_nil _ _)
    refine ⟨rfl, rfl, htext, hkept hclear,
      ⟨_, ⟨hshelf, fun h => ?_⟩, Nat.succ_le_succ hsteps, fun key => rfl⟩,
      fun _ => ⟨disk', home, hfolder.leads⟩⟩
    cases (ensureUsable_iff.mp h).2
  | reload =>
    obtain ⟨rfl, rfl⟩ := Prod.mk.inj (Backed.of_reload_ok hbacked.shelf hok)
    exact ⟨rfl, rfl, htext, hclear,
      ⟨volumes, ⟨hbacked.shelf, fun _ => rfl⟩, Nat.le_succ_of_le hsteps, hanswers⟩, hleads⟩
  | close =>
    cases hok
    refine ⟨rfl, rfl, htext, hclear,
      ⟨volumes, ⟨hbacked.shelf, fun h => ?_⟩, Nat.le_succ_of_le hsteps, hanswers⟩, hleads⟩
    cases (ensureUsable_iff.mp h).1
  | reopen =>
    obtain ⟨fresh, hload, hset⟩ := Action.of_lift_bind_ok hok
    cases hset
    obtain rfl := hbacked.shelf.of_load_ok hload
    exact ⟨rfl, rfl, htext, hclear,
      ⟨volumes, ⟨hbacked.shelf, fun _ => rfl⟩, Nat.le_succ_of_le hsteps, hanswers⟩, hleads⟩

/-- A run of operations keeps what holds at its start. -/
theorem run {ops : List Op} (h : Reached start base order history steps state)
    (hops : ∀ op ∈ ops, op.Ascending order) (hok : ops.forM Op.perform state = .ok () after) :
    Reached start base order (ops.foldl Op.extend history) (steps + ops.length) after := by
  -- over the operations, from the first one on
  induction ops generalizing history steps state with
  | nil => cases hok; exact h
  | cons op ops ih =>
    obtain ⟨_, between, hfirst, hrest⟩ := Action.of_bind_ok hok
    have hstep := h.step (hops op List.mem_cons_self) hfirst
    have hrun := ih hstep (fun other hother => hops other (List.mem_cons_of_mem _ hother)) hrest
    rw [List.foldl_cons, List.length_cons, Nat.add_comm ops.length, ← Nat.add_assoc]
    exact hrun

omit [Std.TransCmp order.compare] in
/-- Where the folder could be made at the start, generations can be written to it. -/
theorem writable (h : Reached start base order history steps state)
    (hstart : ∃ made home, start.Leads base made home) : Generation.Writable base state.2 :=
  ⟨h.exists_leads hstart, h.clear⟩

end Reached

namespace Reached

variable {order : KeyOrder} [Std.TransCmp order.compare] {after : Store × Disk}

/-- What is so after a run that began in the root of the empty disk. -/
theorem of_root {ops : List Op} (hops : ∀ op ∈ ops, op.Ascending order)
    (hok : ops.forM Op.perform (⟨.ofText [] "/", order, [], false, false⟩, Disk.empty)
      = .ok () after) :
    Reached Disk.empty (.ofText [] "/") order (Op.history ops) ops.length after := by
  have hfolder := Disk.hasFolder_root Disk.empty
  have hvacant := Generation.vacant_empty hfolder.leads.made_eq hfolder rfl
  have hload := (Shelf.of_vacant hvacant order).load_eq (.inl hfolder.find_eq)
  rw [← Nat.zero_add ops.length]
  exact (of_load hvacant hload).run hops hok

end Reached

/-! ### The newest entry wins -/

/-- **The newest entry wins.** At the end of a run that began in a folder without generations, a
    usable store answers with the entry of the most recent flush that has the key. If it has
    fewer generations than there are priorities it scans, ascending, to those entries within the
    bounds that it answers with under their keys. -/
theorem newest_wins {disk after : Disk} {base : Path} {order : KeyOrder}
    [Std.TransCmp order.compare] {first store : Store} {ops : List Op}
    (hvacant : Generation.Vacant base disk) (hload : Store.load disk base order = .ok first)
    (hops : ∀ op ∈ ops, op.Ascending order ∧ op.isRewrite = false)
    (hrun : ops.forM Op.perform (first, disk) = .ok () (store, after))
    (husable : store.ensureUsable = .ok ()) :
    (∀ key, store.get? key = .ok ((Op.flushes ops).findSome? (order.find? key)))
      ∧ (store.generations.length < Word.halfLimit →
        ∀ bounds, ∃ merged : List Entry, store.scan bounds = .ok (merged.map .ok)
          ∧ order.Ascending (keysOf merged)
          ∧ ∀ e, e ∈ merged ↔
            bounds.admits order e.key = true ∧ store.get? e.key = .ok (some e)) := by
  have hreached := (Reached.of_load hvacant hload).run (fun op hop => (hops op hop).1) hrun
  obtain ⟨layers, hlayered, hanswers⟩ := hreached.layered husable
  obtain rfl := hreached.order_eq
  have hhistory : ops.foldl Op.extend [] = Op.flushes ops :=
    Op.history_eq_flushes fun op hop => (hops op hop).2
  have hget : ∀ key, store.get? key = .ok (store.order.find? key layers.flatten) :=
    hlayered.get?_eq husable
  refine ⟨fun key => ?_, fun hcount bounds => ?_⟩
  · rw [hget, hanswers, hhistory, KeyOrder.find?, List.find?_flatten]
    rfl
  · rw [generations, List.length_map] at hcount
    obtain ⟨merged, hscan, hascending, hmem⟩ := hlayered.scan_eq husable hcount bounds
    refine ⟨merged, hscan, hascending, fun e => ?_⟩
    rw [hmem, hget, Except.ok.injEq]

/-- Two flushes that differ in the case of a letter, a compaction and a reload: under either
    spelling the newer entry is found. -/
theorem newest_wins_caseless :
    ∃ store after, [Op.flush [.live [0x61] [2], .tombstone [0x62]], .flush [.live [0x41] [4]],
        .compact 0 0, .reload].forM Op.perform
          (⟨.ofText [] "/d", .caseless, [], false, false⟩, Disk.empty) = .ok () (store, after)
      ∧ store.get? [0x61] = .ok (some (.live [0x41] [4]))
      ∧ ∃ merged : List Entry, store.scan .all = .ok (merged.map .ok)
        ∧ .live [0x41] [4] ∈ merged := by
  have htried : Action.okWith (fun _ state => decide (state.1.ensureUsable = .ok ()
        ∧ state.1.generations.length = 1))
      ([Op.flush [.live [0x61] [2], .tombstone [0x62]], .flush [.live [0x41] [4]],
        .compact 0 0, .reload].forM Op.perform)
      (⟨.ofText [] "/d", .caseless, [], false, false⟩, Disk.empty) = true := by decide +kernel
  obtain ⟨_, ⟨store, after⟩, hrun, hfacts⟩ := Action.of_okWith htried
  obtain ⟨husable, hone⟩ := of_decide_eq_true hfacts
  have hmade : Disk.makeFolders (.ofText [] "/d") Disk.empty
      = .ok () (Disk.empty.put ["d"] .folder) := rfl
  have hfolder : (Disk.empty.put ["d"] .folder).HasFolder (.ofText [] "/d") ["d"] :=
    ⟨by decide +kernel, by decide +kernel⟩
  have hvacant := Generation.vacant_empty hmade hfolder (by decide +kernel)
  have hload := (Shelf.of_vacant hvacant .caseless).load_eq (.inr (by decide +kernel))
  obtain ⟨hget, hscan⟩ := newest_wins hvacant hload (by decide +kernel) hrun husable
  have hfound : store.get? [0x61] = .ok (some (.live [0x41] [4])) := by
    rw [hget]
    rfl
  obtain ⟨merged, hmerged, _, hmem⟩ := hscan (by rw [hone]; decide) .all
  refine ⟨store, after, hrun, hfound, merged, hmerged, (hmem _).mpr ⟨rfl, ?_⟩⟩
  rw [hget]
  rfl

end Store

end LayeredStore
