import LayeredStore.Proofs.Robustness

namespace LayeredStore

/-!
# A merge accounts for everything

Nothing is asked of the order here, nor of the inputs. Each request takes an entry from the
inputs, and right after it passes over entries whose keys compare equal. So what the inputs
have before their gaps is yielded or passed over, until nothing is left or a fault is met. The
fault is the last item, and a merge that yields none has come to the end of every input.

* `Merge.Serving`, `Merge.Serves` — an entry that is yielded, and what is passed over with it;
* `Merge.Course` — a merge from the first request to the last;
* `Merge.Course.cons`, `Merge.exists_course` — what a request adds, and that every merge takes
  its course;
* `Merge.answer_eq` — request after request it yields its items, and then nothing for ever;
* `Table.ReadsThrough` — a table that was read to the end of the bounds;
* `Engine.readsThrough_of_range`, `Engine.readsThrough_of_compact` — what was read where an
  engine answers;
* `Merge.accounts_for_everything` — all of it.
-/

/-! ### One request -/

namespace Merge

/-- An entry that is yielded, with those that are passed over right after it. -/
structure Serving where
  entry : Entry
  skipped : List Entry

/-- The entries that one request takes from the inputs. -/
def Serving.entries (serving : Serving) : List Entry := serving.entry :: serving.skipped

/-- A request that is answered with an entry. What it takes from the inputs is that entry and
    others, whose keys compare equal. -/
structure Serves (order : KeyOrder) (before : Merge) (serving : Serving) (after : Merge) :
    Prop where
  next_eq : before.next = (some (.ok serving.entry), after)
  equal : ∀ e ∈ serving.skipped, order.compare e.key serving.entry.key = .eq
  perm : before.fronts.flatten.Perm (serving.entries.map .ok ++ after.fronts.flatten)

variable {order : KeyOrder} {merge after : Merge} {servings : List Serving}
  {ending : Option Fault} {n : Nat}

/-- Items that are all under one key are entries. -/
theorem exists_entries {key : Bytes} {items : List Item}
    (h : ∀ item ∈ items, Lookahead.holdsItem order key item = true) :
    ∃ entries : List Entry, items = entries.map .ok
      ∧ ∀ e ∈ entries, order.compare e.key key = .eq := by
  have hentry : ∀ item ∈ items, ∃ e, item = .ok e := by
    intro item hitem
    cases item with
    | error fault => exact absurd (h _ hitem) Bool.false_ne_true
    | ok e => exact ⟨e, rfl⟩
  obtain ⟨entries, rfl⟩ := Answer.exists_map_ok hentry
  refine ⟨entries, rfl, fun e he => ?_⟩
  exact beq_iff_eq.mp (h _ (List.mem_map_of_mem he))

/-- Sequences that drop items at the front give just these away. -/
theorem perm_dropWhile (p : Item → Bool) (all : List (List Item)) :
    all.flatten.Perm (all.flatMap (List.takeWhile p) ++ (all.map (List.dropWhile p)).flatten) := by
  have hsplit : all.flatten = all.flatMap fun items => items.takeWhile p ++ items.dropWhile p := by
    simp [← List.flatMap_id]
  rw [hsplit, ← List.flatMap_def]
  exact (List.flatMap_append_perm all _ _).symm

/-- A merge that yields an entry serves it. -/
theorem exists_serves {e : Entry} {left : List (List Item)}
    (hready : Takes (.ok e) merge.fronts left) (hnext : merge.next = (some (.ok e), after))
    (hfronts : after.fronts = left.map (List.dropWhile (Lookahead.holdsItem merge.order e.key))) :
    ∃ skipped, Serves merge.order merge ⟨e, skipped⟩ after := by
  have hpassed : ∀ item ∈ left.flatMap (List.takeWhile (Lookahead.holdsItem merge.order e.key)),
      Lookahead.holdsItem merge.order e.key item = true := by
    intro item hitem
    obtain ⟨items, -, hitem⟩ := List.mem_flatMap.mp hitem
    exact eq_true_of_mem_takeWhile item hitem
  obtain ⟨skipped, hskipped, hequal⟩ := exists_entries hpassed
  refine ⟨skipped, hnext, hequal, hready.perm.trans ?_⟩
  show (Except.ok e :: left.flatten).Perm (.ok e :: (skipped.map .ok ++ after.fronts.flatten))
  rw [hfronts, ← hskipped]
  exact (perm_dropWhile _ left).cons _

/-! ### Request after request -/

/-- The merge behind a number of requests. -/
def advance : Nat → Merge → Merge
  | 0, merge => merge
  | n + 1, merge => advance n merge.next.2

theorem advance_succ {answer : Answer} (h : merge.next = (answer, after)) :
    merge.advance (n + 1) = after.advance n := by
  rw [advance, h]

/-- Behind a request that was answered with nothing a merge yields nothing. -/
theorem items_of_next_none (h : merge.next = (none, after)) : after.items = [] := by
  cases hfailed : merge.failed with
  | true =>
    rw [next, if_pos hfailed] at h
    cases h
    exact items_of_failed hfailed
  | false =>
    rcases next_cases hfailed with ⟨hempty, _, hnext, hfronts⟩ | ⟨_, _, _, _, hnext, _⟩
      | ⟨_, _, _, _, hnext, _⟩ <;> rw [h] at hnext <;> cases hnext
    · have hnothing : after.fronts.flatten = [] := by
        rw [hfronts]
        exact List.flatten_eq_nil_iff.mpr hempty
      have hitems := items_subperm after
      rw [hnothing] at hitems
      exact List.subperm_nil.mp hitems

/-- Request after request, a merge yields its items, and then nothing for ever. -/
theorem answer_eq (n : Nat) (merge : Merge) : (merge.advance n).next.1 = merge.items[n]? := by
  induction n generalizing merge with
  | zero =>
    rw [advance]
    rcases hnext : merge.next with ⟨answer, after⟩
    cases answer with
    | none => rw [items_of_none hnext]; rfl
    | some item => rw [items_of_some hnext]; rfl
  | succ n ih =>
    rcases hnext : merge.next with ⟨answer, after⟩
    rw [advance_succ hnext, ih]
    cases answer with
    | none => rw [items_of_none hnext, items_of_next_none hnext]; simp
    | some item => rw [items_of_some hnext, List.getElem?_cons_succ]

/-! ### The whole course -/

/-- The course of a merge. Request after request it serves entries. Then nothing is left in
    the inputs, or one of them has a fault, which is the last item. -/
structure Course (merge : Merge) (servings : List Serving) (ending : Option Fault) : Prop where
  items_eq : merge.items
    = servings.map (fun serving => .ok serving.entry) ++ ending.toList.map .error
  serves : ∀ n serving, servings[n]? = some serving →
    Serves merge.order (merge.advance n) serving (merge.advance (n + 1))
  perm : merge.fronts.flatten.Perm
    ((servings.flatMap Serving.entries).map .ok ++ (merge.advance servings.length).fronts.flatten)
  of_none : ending = none → (merge.advance servings.length).fronts.flatten = []
  of_some : ∀ fault, ending = some fault →
    .error fault ∈ (merge.advance servings.length).fronts.flatten

namespace Course

/-- The course of a merge that serves nothing. -/
theorem nil (hitems : merge.items = ending.toList.map .error)
    (hnone : ending = none → merge.fronts.flatten = [])
    (hsome : ∀ fault, ending = some fault → .error fault ∈ merge.fronts.flatten) :
    merge.Course [] ending where
  items_eq := hitems
  serves n serving hserving := by cases hserving
  perm := List.Perm.refl _
  of_none := hnone
  of_some := hsome

/-- A request that is served comes before the course of the merge behind it. -/
theorem cons {serving : Serving} (hserves : Serves merge.order merge serving after)
    (horder : after.order = merge.order) (h : after.Course servings ending) :
    merge.Course (serving :: servings) ending where
  items_eq := by
    rw [items_of_some hserves.next_eq, h.items_eq]
    rfl
  serves n later hlater := by
    cases n with
    | zero =>
      cases hlater
      rw [advance_succ hserves.next_eq]
      exact hserves
    | succ n =>
      rw [advance_succ hserves.next_eq, advance_succ hserves.next_eq, ← horder]
      exact h.serves n later hlater
  perm := by
    rw [List.length_cons, advance_succ hserves.next_eq, List.flatMap_cons, List.map_append,
      List.append_assoc]
    exact hserves.perm.trans (h.perm.append_left _)
  of_none := by
    rw [List.length_cons, advance_succ hserves.next_eq]
    exact h.of_none
  of_some := by
    rw [List.length_cons, advance_succ hserves.next_eq]
    exact h.of_some

end Course

/-- Every merge takes its course. -/
theorem exists_course (hfailed : merge.failed = false) :
    ∃ servings ending, merge.Course servings ending := by
  -- over the requests
  induction merge using items.induct with
  | case1 merge after hnext =>
    rcases next_cases hfailed with ⟨hempty, _, hyields, _⟩ | ⟨_, _, _, _, hyields, _⟩
      | ⟨_, _, _, _, hyields, _⟩ <;> rw [hnext] at hyields <;> cases hyields
    · refine ⟨[], none, .nil (items_of_none hnext) (fun _ => ?_) fun fault hfault => ?_⟩
      · exact List.flatten_eq_nil_iff.mpr hempty
      · cases hfault
  | case2 merge item after hnext _ ih =>
    rcases next_cases hfailed with ⟨_, _, hyields, _⟩
      | ⟨e, left, _, hready, hyields, horder, hafter, hfronts⟩
      | ⟨fault, left, _, hready, hyields, hafter⟩ <;> rw [hnext] at hyields <;> cases hyields
    · obtain ⟨skipped, hserves⟩ := exists_serves hready hnext hfronts
      obtain ⟨servings, ending, hcourse⟩ := ih hafter
      exact ⟨⟨e, skipped⟩ :: servings, ending, .cons hserves horder hcourse⟩
    · have hitems : merge.items = [.error fault] := by
        rw [items_of_some hnext, items_of_failed hafter]
      refine ⟨[], some fault, .nil hitems (fun hnone => ?_) ?_⟩
      · cases hnone
      · rintro _ ⟨⟩
        exact hready.perm.mem_iff.mpr List.mem_cons_self

namespace Course

/-- A merge ends without a fault exactly if there is none in its inputs. -/
theorem ending_eq_none_iff (h : merge.Course servings ending) :
    ending = none ↔ ∀ fault, .error fault ∉ merge.fronts.flatten := by
  constructor
  · intro hnone fault hfault
    rw [h.perm.mem_iff, h.of_none hnone, List.append_nil] at hfault
    simp at hfault
  · intro hsound
    cases ending with
    | none => rfl
    | some fault =>
      refine absurd (h.perm.mem_iff.mpr ?_) (hsound fault)
      exact List.mem_append_right _ (h.of_some fault rfl)

end Course

end Merge

/-! ### Tables that are read to the end -/

namespace Cursor

variable {cursor after : Cursor} {entries : List Entry} {e : Entry}

/-- An entry that is read is that of the record the walk has come to. -/
theorem of_read_some (h : cursor.read = .ok (some e)) :
    cursor.table.entryAt cursor.index = .ok e := by
  obtain ⟨offset, hoffset, h⟩ := Answer.bind_eq_ok_iff.mp h
  have hread : (some <$> cursor.table.values.readEntry offset) = .ok (some e) := by
    cases hupper : cursor.upper with
    | none =>
      rw [hupper] at h
      exact h
    | some upper =>
      rw [hupper] at h
      obtain ⟨key, -, h⟩ := Answer.bind_eq_ok_iff.mp h
      split at h
      · cases h
      · exact h
  obtain ⟨entry, hentry, hsome⟩ := Answer.map_eq_ok_iff.mp hread
  cases hsome
  exact Answer.bind_eq_ok_iff.mpr ⟨offset, hoffset, hentry⟩

/-- No entry is read where the key of the record has reached the upper bound. -/
theorem of_read_none (h : cursor.read = .ok none) :
    ∃ upper key, cursor.upper = some upper ∧ cursor.table.keyAt cursor.index = .ok key
      ∧ cursor.table.order.compare key upper ≠ .lt := by
  obtain ⟨offset, hoffset, h⟩ := Answer.bind_eq_ok_iff.mp h
  cases hupper : cursor.upper with
  | none =>
    rw [hupper] at h
    obtain ⟨entry, -, hnone⟩ := Answer.map_eq_ok_iff.mp h
    cases hnone
  | some upper =>
    rw [hupper] at h
    obtain ⟨key, hkey, h⟩ := Answer.bind_eq_ok_iff.mp h
    split at h
    next hreached =>
      exact ⟨upper, key, rfl, Answer.bind_eq_ok_iff.mpr ⟨offset, hoffset, hkey⟩, hreached⟩
    next =>
      obtain ⟨entry, -, hnone⟩ := Answer.map_eq_ok_iff.mp h
      cases hnone

/-- A step that yields an entry reads it and goes on to the next record. -/
theorem of_next_entry (h : cursor.next = (some (.ok e), after)) :
    cursor.read = .ok (some e) ∧ after = { cursor with index := cursor.index + 1 } := by
  rw [next] at h
  split at h
  · split at h <;> cases h
    next hread => exact ⟨hread, rfl⟩
  · cases h

/-- The walk stands behind the last record, or at one whose key has reached the upper bound. -/
def AtEnd (cursor : Cursor) : Prop :=
  cursor.stop ≤ cursor.index ∨ ∃ upper key, cursor.upper = some upper
    ∧ cursor.table.keyAt cursor.index = .ok key ∧ cursor.table.order.compare key upper ≠ .lt

theorem atEnd_of_none (h : cursor.next = (none, after)) : cursor.AtEnd := by
  rw [next] at h
  split at h
  · split at h <;> cases h
    next hread => exact .inr (of_read_none hread)
  · exact .inl (Nat.le_of_not_lt ‹_›)

/-- A walk that yields entries only has read record after record, up to its end. -/
theorem reads_of_items (h : cursor.items = entries.map .ok) :
    (∀ n e, entries[n]? = some e → cursor.table.entryAt (cursor.index + n) = .ok e)
      ∧ AtEnd { cursor with index := cursor.index + entries.length } := by
  induction entries generalizing cursor with
  | nil =>
    rcases hnext : cursor.next with ⟨answer, after⟩
    cases answer with
    | some item =>
      rw [items_of_some hnext] at h
      cases h
    | none => exact ⟨by simp, atEnd_of_none hnext⟩
  | cons e entries ih =>
    rcases hnext : cursor.next with ⟨answer, after⟩
    cases answer with
    | none =>
      rw [items_of_none hnext] at h
      cases h
    | some item =>
      rw [items_of_some hnext, List.map_cons, List.cons.injEq] at h
      obtain ⟨rfl, hitems⟩ := h
      obtain ⟨hread, rfl⟩ := of_next_entry hnext
      obtain ⟨hreads, hend⟩ := ih hitems
      constructor
      · intro n f hf
        cases n with
        | zero =>
          cases hf
          exact of_read_some hread
        | succ n =>
          have hlater := hreads n f hf
          rwa [Nat.add_assoc, Nat.add_comm 1 n] at hlater
      · rw [List.length_cons, Nat.add_comm entries.length 1, ← Nat.add_assoc]
        exact hend

end Cursor

/-- The table was read without a fault to the end of the bounds: a walk over it answers with
    the entries of one record after the other, and where it ends, there are no more records, or
    the key of the next one has reached the upper bound. -/
structure Table.ReadsThrough (table : Table) (bounds : Bounds) (cursor : Cursor)
    (entries : List Entry) : Prop where
  cursor_eq : table.cursor bounds = .ok cursor
  answers : ∀ n, (cursor.advance n).next.1 = (entries.map .ok)[n]?
  reads : ∀ n e, entries[n]? = some e → table.entryAt (cursor.index + n) = .ok e
  ends : table.count ≤ cursor.index + entries.length ∨ ∃ upper key, bounds.upper = some upper
    ∧ table.keyAt (cursor.index + entries.length) = .ok key
    ∧ table.order.compare key upper ≠ .lt

/-- A scan that yields entries only has read the table to the end. -/
theorem Table.readsThrough_of_scan {table : Table} {bounds : Bounds} {entries : List Entry}
    (h : table.scan bounds = .ok (entries.map .ok)) :
    ∃ cursor, table.ReadsThrough bounds cursor entries := by
  obtain ⟨cursor, hcursor, hitems⟩ := Answer.map_eq_ok_iff.mp h
  obtain ⟨hreads, hend⟩ := Cursor.reads_of_items hitems
  obtain ⟨rfl, hstop, hupper⟩ := of_cursor_ok hcursor
  refine ⟨cursor, hcursor, fun n => ?_, hreads, ?_⟩
  · rw [Cursor.answer_eq, hitems]
  · rw [← hstop, ← hupper]
    exact hend

/-! ### Engines that answer -/

namespace Store

/-- Where streams are given, every table is scanned, and its items are one of them. -/
theorem scans_of_streamsFrom {bounds : Bounds} {rank : Nat} {tables : List Table}
    {inputs : List Lookahead} (h : streamsFrom bounds rank tables = .ok inputs) :
    ∀ table ∈ tables, ∃ input ∈ inputs, table.scan bounds = .ok input.front := by
  induction tables generalizing rank inputs with
  | nil => exact fun _ htable => (List.not_mem_nil htable).elim
  | cons first tables ih =>
    obtain ⟨items, hitems, h⟩ := Answer.bind_eq_ok_iff.mp h
    obtain ⟨priority, -, h⟩ := Answer.bind_eq_ok_iff.mp h
    obtain ⟨rest, hrest, h⟩ := Answer.bind_eq_ok_iff.mp h
    cases h
    refine List.forall_mem_cons.mpr ⟨⟨_, List.mem_cons_self, ?_⟩, fun table htable => ?_⟩
    · rw [Lookahead.front_ofItems]
      exact hitems
    · obtain ⟨input, hinput, hscan⟩ := ih hrest table htable
      exact ⟨input, List.mem_cons_of_mem _ hinput, hscan⟩

theorem scans_of_streams {store : Store} {bounds : Bounds} {inputs : List Lookahead}
    (h : store.streams bounds = .ok inputs) :
    ∀ table ∈ store.tables, ∃ input ∈ inputs, table.scan bounds = .ok input.front := by
  obtain ⟨_, -, hstreams⟩ := Answer.bind_eq_ok_iff.mp h
  exact scans_of_streamsFrom hstreams

end Store

namespace Engine

variable {engine : Engine} {bounds : Bounds}

/-- Where the merge of an engine yields entries only, every table was read to the end. -/
theorem readsThrough_of_merged {merge : Merge} {merged : List Entry}
    (hmerge : engine.merged bounds = .ok merge) (hitems : merge.items = merged.map .ok) :
    ∀ table ∈ engine.store.tables, ∃ cursor entries, table.ReadsThrough bounds cursor entries := by
  obtain ⟨inputs, hinputs, rfl⟩ := of_merged_ok hmerge
  intro table htable
  obtain ⟨input, hinput, hscan⟩ := Store.scans_of_streams hinputs table htable
  have hentries : ∀ item ∈ input.front, ∃ e, item = .ok e := by
    intro item hitem
    have hfront : input.front ∈ (Merge.ofInputs engine.config.order
        (.ofEntries bufferPriority (engine.buffer.range bounds) :: inputs)).fronts :=
      List.mem_map_of_mem (List.mem_cons_of_mem _ hinput)
    obtain ⟨e, he, -⟩ :=
      Merge.resolves_of_items rfl hitems item (List.mem_flatten_of_mem hfront hitem)
    exact ⟨e, he⟩
  obtain ⟨entries, heq⟩ := Answer.exists_map_ok hentries
  rw [heq] at hscan
  obtain ⟨cursor, hreads⟩ := Table.readsThrough_of_scan hscan
  exact ⟨cursor, entries, hreads⟩

/-- Live entries are told only if there is no fault. -/
theorem of_liveEntries_ok {items : List Item} {entries : List Entry}
    (h : liveEntries items = .ok entries) : ∃ merged : List Entry, items = merged.map .ok := by
  refine Answer.exists_map_ok ?_
  induction items generalizing entries with
  | nil => exact fun _ hitem => (List.not_mem_nil hitem).elim
  | cons item items ih =>
    cases item with
    | error fault => cases h
    | ok e =>
      obtain ⟨rest, hrest, -⟩ := Answer.bind_eq_ok_iff.mp h
      exact List.forall_mem_cons.mpr ⟨⟨e, rfl⟩, ih hrest⟩

theorem readsThrough_of_range {live : List Entry} (h : engine.range bounds = .ok live) :
    ∀ table ∈ engine.store.tables, ∃ cursor entries, table.ReadsThrough bounds cursor entries := by
  obtain ⟨_, -, h⟩ := Answer.bind_eq_ok_iff.mp h
  obtain ⟨merge, hmerge, hlive⟩ := Answer.bind_eq_ok_iff.mp h
  obtain ⟨merged, hitems⟩ := of_liveEntries_ok hlive
  exact readsThrough_of_merged hmerge hitems

theorem readsThrough_of_compact {disk : Disk} {info : Option Generation.Info}
    {state : Engine × Disk} (h : compact (engine, disk) = .ok info state) :
    ∀ table ∈ engine.store.tables, ∃ cursor entries, table.ReadsThrough .all cursor entries := by
  obtain ⟨done, after⟩ := state
  rcases of_compact_done (ensureOpen_of_compact h) h with
    ⟨hempty, -⟩ | ⟨items, recorded, stale, tables, -, hitems, hcompact, -⟩
  · rw [hempty]
    exact fun _ htable => (List.not_mem_nil htable).elim
  · -- what was recorded are entries
    obtain ⟨_, _, _, _, -, hrecorded, -, -⟩ := Store.of_compact_ok hcompact
    obtain ⟨entries, rfl⟩ := hrecorded.exists_entries
    obtain ⟨merge, hmerge, hkept⟩ := of_compactionItems_ok hitems
    obtain ⟨merged, hyielded, -⟩ := of_filter_isKept hkept.symm
    exact readsThrough_of_merged hmerge hyielded

end Engine

/-! ### The law -/

namespace Merge

/-- **A merge swallows nothing and comes to an end.** Under any comparison, also one that
    contradicts itself, and from any inputs, with gaps, faults and repeated keys, a merge yields
    its items request after request, and then nothing for ever. What the inputs have before
    their gaps is yielded, or is passed over right after an entry whose key compares equal,
    until all of it is, or up to a fault, which is the last item. There is such a fault exactly
    if an input has one. So a range that is answered, and a compaction that succeeds, have read
    every generation to the end. -/
theorem accounts_for_everything (order : KeyOrder) (inputs : List Lookahead) :
    (∀ n, ((ofInputs order inputs).advance n).next.1 = (ofInputs order inputs).items[n]?)
      ∧ (∃ servings ending, (ofInputs order inputs).Course servings ending
        ∧ (ending = none ↔ ∀ input ∈ inputs, ∀ fault, .error fault ∉ input.front))
      ∧ (∀ (engine : Engine) (bounds : Bounds) (live : List Entry),
        engine.range bounds = .ok live →
          ∀ table ∈ engine.store.tables, ∃ cursor entries, table.ReadsThrough bounds cursor entries)
      ∧ ∀ (engine : Engine) (disk : Disk) (info : Option Generation.Info) (state : Engine × Disk),
        Engine.compact (engine, disk) = .ok info state →
          ∀ table ∈ engine.store.tables, ∃ cursor entries,
            table.ReadsThrough .all cursor entries := by
  refine ⟨fun n => answer_eq n _, ?_, ?_, ?_⟩
  · have hfailed : (ofInputs order inputs).failed = false := rfl
    obtain ⟨servings, ending, hcourse⟩ := exists_course hfailed
    refine ⟨servings, ending, hcourse, hcourse.ending_eq_none_iff.trans ?_⟩
    simp only [fronts, ofInputs, List.mem_flatten, List.mem_map]
    constructor
    · intro hsound input hinput fault hfault
      exact hsound fault ⟨_, ⟨input, hinput, rfl⟩, hfault⟩
    · rintro hsound fault ⟨_, ⟨input, hinput, rfl⟩, hfault⟩
      exact hsound input hinput fault hfault
  · intro engine bounds live hrange
    exact Engine.readsThrough_of_range hrange
  · intro engine disk info state hcompact
    exact Engine.readsThrough_of_compact hcompact

/-- An input with a gap and one with a fault, under a comparison that puts everything behind
    everything. What stands before the gap is yielded, and what stands before the fault, and
    the fault, and then nothing. -/
theorem accounts_for_everything_gap :
    let order : KeyOrder := ⟨"Contradictory", fun _ _ => .gt⟩
    let broken : Fault := .corrupt 0 .unaddressable
    let inputs : List Lookahead :=
      [.ofStream 1 [some (.ok (.live [5] [50])), none, some (.ok (.live [9] [90]))],
        .ofItems 2 [.ok (.live [2] [20]), .error broken]]
    let merge := ofInputs order inputs
    merge.items = [.ok (.live [5] [50]), .ok (.live [2] [20]), .error broken]
      ∧ (∀ n, 3 ≤ n → (merge.advance n).next.1 = none)
      ∧ ∃ servings, merge.Course servings (some broken) := by
  intro order broken inputs merge
  obtain ⟨hanswers, ⟨servings, ending, hcourse, hending⟩, -, -⟩ :=
    accounts_for_everything order inputs
  have hitems : merge.items = [.ok (.live [5] [50]), .ok (.live [2] [20])] ++ [.error broken] := by
    decide +kernel
  refine ⟨hitems, fun n hn => ?_, servings, ?_⟩
  · have hanswer : (merge.advance n).next.1 = merge.items[n]? := hanswers n
    rw [hanswer, hitems]
    exact List.getElem?_eq_none hn
  · cases ending with
    | none =>
      have hfault : .error broken ∈ inputs[1].front := by decide +kernel
      exact absurd hfault (hending.mp rfl inputs[1] (List.getElem_mem _) broken)
    | some fault =>
      obtain ⟨-, hfault⟩ := List.append_singleton_inj.mp (hcourse.items_eq.symm.trans hitems)
      cases hfault
      exact hcourse

end Merge

end LayeredStore
