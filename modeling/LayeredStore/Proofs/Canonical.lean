import LayeredStore.Proofs.Leftovers
import LayeredStore.Proofs.Refinement

namespace LayeredStore.Engine

/-!
# A compaction leaves a canonical form

What a compaction writes depends on the live keys and their values alone. Overwritten and
deleted entries, the generations they were in, the numbers that these had and the room that
was asked for leave no trace, so engines with the same look-ups are compacted into the same
bytes, whatever their histories are.

* `History` — the engines that operations lead to, restarts included;
* `History.exists_alone` — what is so of an engine that is alone is so of each of them;
* `Compacted` — the folder holds one generation, of the given entries;
* `Canonical` — and so it does after every compaction that follows at once;
* `compacted_again`, `compact_again_ok` — a folder of one volume is compacted into it again;
* `History.canonical` — what the compaction of one engine leaves;
* `compaction_is_canonical` — two engines with the same look-ups.
-/

variable {here : Place} {config : Config} {engine done next : Engine} {disk after last : Disk}
  {entries : List Entry} {info : Generation.Info}

/-! ### Histories -/

/-- The engine was started in lexicographic order on a folder of written generations, which
    may be none, and then operations were carried out on it, among them restarts with other
    thresholds. There was no link with the name of a file that an operation was to make, a
    change that failed has begun no file, and nothing else has touched the folder. -/
inductive History (here : Place) : Engine → Disk → Prop
  | start {config : Config} {engine : Engine} {disk : Disk} {volumes : List Volume}
    (horder : config.order = .lexicographic)
    (hshelf : Shelf disk (folderOf here config) .lexicographic volumes)
    (h : Engine.start disk here config = .ok engine) : History here engine disk
  | done {engine done : Engine} {disk after : Disk} (op : Op) (h : History here engine disk)
    (hdirect : Generation.Direct engine.store.base disk)
    (hdone : op.perform here (engine, disk) = .ok () (done, after)) : History here done after
  | failed {engine failed : Engine} {disk after : Disk} {fault : Fault} (change : Change)
    (h : History here engine disk) (hdirect : Generation.Direct engine.store.base disk)
    (hfailed : change.perform (engine, disk) = .error fault (failed, after))
    (hfiles : ∀ place content, after.node? place = some (.file content) →
      disk.node? place = some (.file content)) : History here failed after

/-- A restart that succeeds has closed the engine and started another on what it has left. -/
theorem of_reopen_ok {threshold : Nat}
    (h : Op.perform here (.reopen threshold) (engine, disk) = .ok () (done, after)) :
    ∃ closed, Change.close.perform (engine, disk) = .ok () (closed, after)
      ∧ start after here { closed.config with flushThreshold := threshold } = .ok done := by
  obtain ⟨_, ⟨closed, between⟩, hclose, h⟩ := Action.of_bind_ok h
  obtain ⟨fresh, hstart, h⟩ := Action.of_lift_bind_ok h
  cases h
  exact ⟨closed, hclose, hstart⟩

namespace History

/-- An engine with a history is one that is alone: a restart is a start on what the closed
    engine has left. -/
theorem exists_alone (h : History here engine disk) :
    ∃ config, config.order = .lexicographic ∧ Alone here config engine disk := by
  induction h with
  | start horder hshelf h => exact ⟨_, horder, .start (horder ▸ hshelf) h⟩
  | done op h hdirect hdone ih =>
    obtain ⟨config, horder, halone⟩ := ih
    rw [halone.reachable.ready.base_eq] at hdirect
    cases op with
    | put key value => exact ⟨config, horder, .done (.put key value) halone hdirect hdone⟩
    | delete key => exact ⟨config, horder, .done (.delete key) halone hdirect hdone⟩
    | flush => exact ⟨config, horder, .done .flush halone hdirect hdone⟩
    | compact => exact ⟨config, horder, .done .compact halone hdirect hdone⟩
    | reopen threshold =>
      obtain ⟨closed, hclose, hstart⟩ := of_reopen_ok hdone
      have hclosed := Alone.done .close halone hdirect hclose
      have hready := hclosed.reachable.ready
      obtain ⟨volumes, hbacked⟩ := hclosed.backed horder
      have hshelf := hbacked.shelf
      rw [hready.base_eq, hready.order_eq] at hshelf
      rw [hready.config_eq] at hstart
      exact ⟨{ config with flushThreshold := threshold }, horder, .start hshelf hstart⟩
  | failed change h hdirect hfailed hfiles ih =>
    obtain ⟨config, horder, halone⟩ := ih
    rw [halone.reachable.ready.base_eq] at hdirect
    exact ⟨config, horder, .failed change halone hdirect hfailed hfiles⟩

/-- Operations that all succeed are a history. -/
theorem of_run {ops : List Op} (h : History here engine disk)
    (hdirect : ∀ past, past <+: ops → ∀ state,
      past.forM (Op.perform here) (engine, disk) = .ok () state →
        Generation.Direct state.1.store.base state.2)
    (hrun : ops.forM (Op.perform here) (engine, disk) = .ok () (done, after)) :
    History here done after := by
  induction ops generalizing engine disk with
  | nil =>
    cases hrun
    exact h
  | cons op ops ih =>
    obtain ⟨_, ⟨next, between⟩, hfirst, hrest⟩ := Action.of_bind_ok hrun
    have hnow : Generation.Direct engine.store.base disk :=
      hdirect [] List.nil_prefix (engine, disk) rfl
    refine ih (.done op h hnow hfirst) (fun past hpast state hstate => ?_) hrest
    exact hdirect (op :: past) (List.cons_prefix_cons.mpr ⟨rfl, hpast⟩) state
      ((Action.bind_ok hfirst).trans hstate)

end History

/-! ### What compactions leave -/

/-- The folder holds one generation, which has the records of the entries and their slots and
    was told with their number, and the engine has mapped that and buffers nothing. -/
structure Compacted (base : Path) (entries : List Entry) (info : Generation.Info)
    (done : Engine) (after : Disk) : Prop where
  values_eq : after.mapFile (base.child (Generation.fileName Generation.valuesLabel info.index))
    = .ok (Generation.records entries)
  offsets_eq : after.mapFile (base.child (Generation.fileName Generation.offsetsLabel info.index))
    = .ok (Generation.slots entries)
  only : ∃ home, after.HasFolder base home ∧ ∀ label ∈ Generation.labels, ∀ name content n,
    after.node? (name :: home) = some (.file content) → Generation.index? label name = some n →
      name = Generation.fileName label info.index
  count_eq : info.count = entries.length
  buffer_eq : done.buffer = .empty
  generations_eq : done.store.generations = [info.index]

/-- A compaction has left the entries, and one that follows at once leaves them again, under a
    higher number, where no link has the name of a file that it makes. It does not fail as long as
    neither a folder nor a link has the name of a generation's file and there is a next number. -/
structure Canonical (base : Path) (entries : List Entry) (info : Generation.Info)
    (done : Engine) (after : Disk) : Prop extends Compacted base entries info done after where
  again : Generation.Direct base after → ∀ answer next last,
    compact (done, after) = .ok answer (next, last) →
      ∃ higher, answer = some higher ∧ info.index < higher.index
        ∧ Compacted base entries higher next last
  again_ok : Generation.Clear base after → info.index + 1 < Word.limit →
    ∃ answer state, compact (done, after) = .ok answer state

/-! ### Folders of one volume -/

/-- Behind an empty buffer the entries are those of the only volume. -/
theorem flatten_empty_cons (entries : List Entry) :
    (Buffer.empty.entries :: Volume.layers [⟨info.index, entries⟩]).flatten = entries := by
  simp [Buffer.empty, Volume.layers]

/-- An engine that has mapped a folder of one volume, and buffers nothing. -/
theorem Compacted.of_shelf
    (hshelf : Shelf after (folderOf here config) .lexicographic [⟨info.index, entries⟩])
    (hcount : info.count = entries.length) :
    Compacted (folderOf here config) entries info
      (onVolumes here config .empty [⟨info.index, entries⟩]) after where
  values_eq := hshelf.mapFile_eq List.mem_cons_self Generation.values_mem_labels
  offsets_eq := hshelf.mapFile_eq List.mem_cons_self Generation.offsets_mem_labels
  only := by
    obtain ⟨home, hfolder⟩ := hshelf.found (List.cons_ne_nil _ _)
    refine ⟨home, hfolder, fun label hlabel name content n hfile hn => ?_⟩
    obtain ⟨volume, hvolume, -, hname⟩ :=
      hshelf.only hfolder.leads label hlabel name content n hfile hn
    rw [List.mem_singleton.mp hvolume] at hname
    exact hname
  count_eq := hcount
  buffer_eq := rfl
  generations_eq := rfl

/-- A volume of live entries is compacted into them again. -/
theorem compacted_again (horder : config.order = .lexicographic)
    (hshelf : Shelf after (folderOf here config) .lexicographic [⟨info.index, entries⟩])
    (hlive : ∀ e ∈ entries, e.isTombstone = false)
    (hdirect : Generation.Direct (folderOf here config) after) {answer : Option Generation.Info}
    (hcompact : compact (onVolumes here config .empty [⟨info.index, entries⟩], after)
      = .ok answer (next, last)) :
    ∃ higher, answer = some higher ∧ info.index < higher.index
      ∧ Compacted (folderOf here config) entries higher next last := by
  have hlayered : (onVolumes here config .empty [⟨info.index, entries⟩]).Layered
      (Volume.layers [⟨info.index, entries⟩]) :=
    ⟨rfl, horder, Buffer.sound_empty, rfl, rfl, hshelf.layered_ofVolumes⟩
  cases answer with
  | none =>
    -- there is a generation, so there is something to compact
    rcases of_compact_ok (by exact hdirect) rfl hcompact with ⟨hnone, _⟩
      | ⟨_, _, _, _, _, _, _, hinfo, _⟩
    · cases hnone
    · cases hinfo
  | some higher =>
    obtain ⟨again, hascending, hmem, hinfo, rfl, hshelf'⟩ :=
      hlayered.of_compact_some ⟨hshelf, fun _ => rfl⟩ hdirect hcompact
    have hlayer : KeyOrder.lexicographic.Ascending (keysOf entries) :=
      hshelf.ascending _ List.mem_cons_self
    have hsame : again = entries := by
      refine KeyOrder.eq_of_ascending hascending hlayer fun e => (hmem e).trans ?_
      show _ ∧ KeyOrder.lexicographic.find? e.key
        (Buffer.empty.entries :: Volume.layers [⟨info.index, entries⟩]).flatten = some e ↔ _
      rw [flatten_empty_cons, KeyOrder.find?_eq_some_iff_mem hlayer]
      exact and_iff_right_of_imp (hlive e)
    subst hsame
    have hindex : higher.index = info.index + 1 := congrArg Generation.Info.index hinfo
    exact ⟨higher, rfl, by omega,
      .of_shelf hshelf' (congrArg Generation.Info.count hinfo)⟩

/-- A volume is compacted where its folder can be written to and a number is left. -/
theorem compact_again_ok (horder : config.order = .lexicographic) (hpath : config.basePath ≠ "")
    (hshelf : Shelf after (folderOf here config) .lexicographic [⟨info.index, entries⟩])
    (hclear : Generation.Clear (folderOf here config) after)
    (hnext : info.index + 1 < Word.limit) :
    ∃ answer state, compact (onVolumes here config .empty [⟨info.index, entries⟩], after)
      = .ok answer state := by
  obtain ⟨home, hfolder⟩ := hshelf.found (List.cons_ne_nil _ _)
  -- the engine is the map of its entries
  have hreflects : Reflects here (fun key => (KeyOrder.lexicographic.find? key entries).map
      Entry.value) (info.index + 1) config .empty [⟨info.index, entries⟩] after := by
    refine ⟨horder, hpath, Buffer.sound_empty, hshelf, Nat.le_refl _,
      Generation.writable_of_folder hfolder hclear, .inl hfolder.find_eq, fun key => ?_⟩
    rw [flatten_empty_cons]
    cases hfound : KeyOrder.lexicographic.find? key entries with
    | none => rfl
    | some e =>
      obtain rfl := KeyOrder.key_of_lexicographic_find? hfound
      rfl
  have hroom : (onVolumes here config .empty [⟨info.index, entries⟩]).footprint
      < Word.signedLimit := by
    rw [hreflects.footprint_eq, flatten_empty_cons]
    exact hshelf.fits _ List.mem_cons_self
  have hone : (onVolumes here config .empty [⟨info.index, entries⟩]).store.tables.length
      < Word.halfLimit := by
    show 1 < Word.halfLimit
    decide
  obtain ⟨_, higher, last, hcompact, _⟩ := hreflects.compact_some rfl hone hroom hnext
  exact ⟨some higher, _, hcompact⟩

/-- What a compaction leaves of an engine with a history: the live keys with their values. -/
theorem History.canonical (h : History here engine disk)
    (hdirect : Generation.Direct engine.store.base disk)
    (hcompact : compact (engine, disk) = .ok (some info) (done, after)) :
    ∃ entries : List Entry, KeyOrder.lexicographic.Ascending (keysOf entries)
      ∧ (∀ e, e ∈ entries ↔ e.isTombstone = false ∧ engine.get? e.key = .ok e.value)
      ∧ Canonical engine.store.base entries info done after := by
  obtain ⟨config, horder, halone⟩ := h.exists_alone
  have hready := halone.reachable.ready
  have hopen := ensureOpen_of_compact hcompact
  obtain ⟨volumes, hbacked⟩ := halone.backed horder
  have hlayered := hready.layered horder hopen hbacked
  obtain ⟨entries, hascending, hmem, hinfo, hdone, hshelf⟩ :=
    hlayered.of_compact_some hbacked hdirect hcompact
  rw [hready.base_eq, hlayered.store_order] at hdone hshelf
  have hvolume : done = onVolumes here config .empty [⟨info.index, entries⟩] := by
    rw [hdone, hready.config_eq, ensureOpen_iff.mp hopen]
    rfl
  subst hvolume
  refine ⟨entries, hascending, fun e => ?_, ?_⟩
  · rw [hmem, hlayered.get?_eq, Except.ok.injEq]
    exact and_congr_right fun hlive => Layered.find?_eq_some_iff hlive
  · rw [hready.base_eq]
    exact ⟨.of_shelf hshelf (congrArg Generation.Info.count hinfo),
      fun hagain _ _ _ => compacted_again horder hshelf (fun e he => ((hmem e).mp he).1) hagain,
      compact_again_ok horder hready.path_ne hshelf⟩

/-! ### Two histories -/

/-- **A compaction leaves a canonical form.** Two engines that were used in any way, in any
    folders and with any thresholds, and have the same value under every key, are compacted
    into the same entries: the live keys, ascending, with their values. If both compactions
    write anything, the two files of the one hold the same bytes as those of the other, the
    records of these entries one behind the other and their slots. No other generation's file
    is left in either folder, the buffers are empty, and a compaction that follows at once
    writes the same bytes under a higher number. No link may have the name of a file that is
    made. -/
theorem compaction_is_canonical {here' : Place} {engine' done' : Engine} {disk' after' : Disk}
    {info' : Generation.Info} (h : History here engine disk) (h' : History here' engine' disk')
    (hdirect : Generation.Direct engine.store.base disk)
    (hdirect' : Generation.Direct engine'.store.base disk')
    (hsame : ∀ key, engine'.get? key = engine.get? key)
    (hcompact : compact (engine, disk) = .ok (some info) (done, after))
    (hcompact' : compact (engine', disk') = .ok (some info') (done', after')) :
    ∃ entries : List Entry, KeyOrder.lexicographic.Ascending (keysOf entries)
      ∧ (∀ e, e ∈ entries ↔ ∃ key value, e = .live key value
        ∧ engine.get? key = .ok (some value))
      ∧ Canonical engine.store.base entries info done after
      ∧ Canonical engine'.store.base entries info' done' after' := by
  obtain ⟨entries, hascending, hmem, hcanonical⟩ := h.canonical hdirect hcompact
  obtain ⟨other, hotherAscending, hotherMem, hother⟩ := h'.canonical hdirect' hcompact'
  -- ascending entries are told by their members, and these by the look-ups
  have heq : other = entries := by
    refine KeyOrder.eq_of_ascending hotherAscending hascending fun e => ?_
    rw [hotherMem, hmem, hsame]
  subst heq
  refine ⟨other, hascending, fun e => ?_, hcanonical, hother⟩
  rw [hmem]
  constructor
  · rintro ⟨hlive, hget⟩
    obtain ⟨key, value⟩ := e
    cases value with
    | none => cases hlive
    | some value => exact ⟨key, value, rfl, hget⟩
  · rintro ⟨key, value, rfl, hget⟩
    exact ⟨rfl, hget⟩

/-- A run from the root of an empty disk on, at whose end a key is known, can be compacted. -/
theorem exists_root_run (threshold : Nat) (ops : List Op) {key : Bytes} {value : Option Bytes}
    (hknown : Op.contents ops key = some value)
    (hweights : Op.totalWeight (ops ++ [.compact]) < Word.signedLimit)
    (hcount : (ops ++ [Op.compact]).length < Word.halfLimit) :
    ∃ first engine disk info done after,
      start Disk.empty [] ⟨"/", .lexicographic, threshold⟩ = .ok first
      ∧ ops.forM (Op.perform []) (first, Disk.empty) = .ok () (engine, disk)
      ∧ History [] engine disk ∧ Generation.Direct engine.store.base disk
      ∧ (∀ key, engine.get? key = .ok (Op.contents ops key).join)
      ∧ compact (engine, disk) = .ok (some info) (done, after) := by
  have hroot := Disk.hasFolder_root Disk.empty
  have hvacant : Generation.Vacant (folderOf [] ⟨"/", .lexicographic, threshold⟩) Disk.empty :=
    Generation.vacant_empty hroot.leads.made_eq hroot rfl
  obtain ⟨hstart, hreflects⟩ := start_ok rfl hvacant hroot.leads.made_eq
  have hroom := hreflects.hasRoom_of_weights (ops ++ [.compact])
    (by rw [show (onVolumes _ _ _ _).footprint = 0 from rfl, Nat.zero_add]; exact hweights)
    (by rw [Nat.zero_add]; exact hcount)
  rw [List.length_append, List.length_singleton] at hcount
  have hlimit : Word.halfLimit < Word.limit := by decide
  -- at each point of the run the folder can be written to
  have hdirect : ∀ past, past <+: ops → ∀ state,
      past.forM (Op.perform [])
        (onVolumes [] ⟨"/", .lexicographic, threshold⟩ .empty [], Disk.empty) = .ok () state →
        Generation.Direct state.1.store.base state.2 := by
    rintro past ⟨rest, rfl⟩ state hstate
    rw [List.length_append] at hcount
    obtain ⟨_, _, _, _, hrun, hlast⟩ :=
      hreflects.run_ok past hroom.of_append.of_append (by omega)
    cases hstate.symm.trans hrun
    exact hlast.writable.direct
  obtain ⟨config, buffer, volumes, disk, hrun, hlast⟩ :=
    hreflects.run_ok ops hroom.of_append (by omega)
  have hsome : ((onVolumes [] config buffer volumes).store.tables.isEmpty && buffer.isEmpty)
      = false := by
    refine Bool.eq_false_iff.mpr fun hempty => ?_
    have hnone := hlast.eq_none_of_empty hempty key
    rw [show List.foldl Op.apply (fun _ => none) ops key = some value from hknown] at hnone
    cases hnone
  have hrest := hroom.of_run hrun
  obtain ⟨_, info, after, hcompact, _⟩ :=
    hlast.compact_some hsome hrest.1 hrest.2.1 (by omega)
  exact ⟨_, _, disk, info, _, after, hstart, hrun,
    (History.start rfl hreflects.shelf hstart).of_run hdirect hrun,
    hdirect ops List.prefix_rfl _ hrun, hlast.get?_eq, hcompact⟩

/-- One engine has a flushed generation and a tombstone in its buffer, the other has written
    the key before, was started again and was compacted. Both are compacted into the record
    of the only live key. -/
theorem compaction_is_canonical_two :
    ∃ engine engine' disk disk' done done' after after' info info',
      History [] engine disk ∧ History [] engine' disk'
      ∧ (∀ key, engine'.get? key = engine.get? key)
      ∧ compact (engine, disk) = .ok (some info) (done, after)
      ∧ compact (engine', disk') = .ok (some info') (done', after')
      ∧ after.mapFile (engine.store.base.child
          (Generation.fileName Generation.valuesLabel info.index)) = .ok (Entry.live [2] [20]).encode
      ∧ after'.mapFile (engine'.store.base.child
          (Generation.fileName Generation.valuesLabel info'.index)) = .ok (Entry.live [2] [20]).encode
      ∧ info.count = 1 ∧ info'.count = 1 := by
  let ops : List Op := [.put [1] [10], .put [2] [20], .delete [1]]
  let ops' : List Op := [.put [2] [5], .flush, .put [2] [20], .reopen 2, .compact]
  obtain ⟨_, engine, disk, info, done, after, _, _, hhistory, hdirect, hget, hcompact⟩ :=
    exists_root_run 3 ops (by decide : Op.contents ops [2] = some (some [20])) (by decide) (by decide)
  obtain ⟨_, engine', disk', info', done', after', _, _, hhistory', hdirect', hget', hcompact'⟩ :=
    exists_root_run 0 ops' (by decide : Op.contents ops' [2] = some (some [20])) (by decide)
      (by decide)
  have hlive : ∀ key, (Op.contents ops key).join = if key = [2] then some [20] else none := by
    intro key
    by_cases hone : key = [1]
    · subst hone
      rfl
    · simp [ops, Op.contents, Op.apply, Function.update_apply, hone]
      split <;> rfl
  have hlive' : ∀ key, (Op.contents ops' key).join = if key = [2] then some [20] else none := by
    intro key
    simp [ops', Op.contents, Op.apply, Function.update_apply]
    split <;> rfl
  have hsame : ∀ key, engine'.get? key = engine.get? key := by
    intro key
    rw [hget, hget', hlive, hlive']
  obtain ⟨entries, hascending, hmem, hcanonical, hcanonical'⟩ :=
    compaction_is_canonical hhistory hhistory' hdirect hdirect' hsame hcompact hcompact'
  have hentries : entries = [.live [2] [20]] := by
    refine KeyOrder.eq_of_ascending hascending (List.pairwise_singleton _ _) fun e => ?_
    rw [hmem, List.mem_singleton]
    constructor
    · rintro ⟨key, value, rfl, hvalue⟩
      rw [hget, hlive, Except.ok.injEq] at hvalue
      split at hvalue
      · rename_i hkey
        rw [hkey, Option.some.inj hvalue]
      · cases hvalue
    · rintro rfl
      exact ⟨[2], [20], rfl, by rw [hget, hlive, if_pos rfl]⟩
  subst hentries
  exact ⟨engine, engine', disk, disk', done, done', after, after', info, info', hhistory, hhistory',
    hsame, hcompact, hcompact', hcanonical.values_eq, hcanonical'.values_eq, hcanonical.count_eq,
    hcanonical'.count_eq⟩

end LayeredStore.Engine
