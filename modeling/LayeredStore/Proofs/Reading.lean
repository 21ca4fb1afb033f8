import LayeredStore.Engine
import LayeredStore.Proofs.Buffering
import LayeredStore.Proofs.Layers

namespace LayeredStore.Engine

/-!
# Reading an engine

The buffer is one more layer in front of those of the store, so an engine answers with the
entry of the newest layer that has the key, and its range reads are the live ones among
these entries.

* `Engine.of_merged_ok`, `Engine.of_compactionItems_ok` — what is merged;
* `Engine.Layered` — an open engine in front of a usable store of layers;
* `Engine.Layered.find?_eq`, `Engine.Layered.range_eq` — its reads;
* `Engine.Layered.compactionItems_eq` — what a compaction is made of.
-/

variable {engine : Engine} {layers : List (List Entry)}

/-- The engine is open, its buffer is sound, and its store is usable and holds the given
    layers, all in lexicographic order. -/
structure Layered (engine : Engine) (layers : List (List Entry)) : Prop where
  opened : engine.closed = false
  order_eq : engine.config.order = .lexicographic
  sound : engine.buffer.Sound
  store_order : engine.store.order = .lexicographic
  usable : engine.store.ensureUsable = .ok ()
  layered : engine.store.Layered layers

/-- The live ones of entries. -/
def live (entries : List Entry) : List Entry := entries.filter fun e => !e.isTombstone

theorem mem_live {entries : List Entry} {e : Entry} :
    e ∈ live entries ↔ e ∈ entries ∧ e.isTombstone = false := by
  rw [live, List.mem_filter, Bool.not_eq_true']

/-- Live entries are told from tombstones one by one. -/
theorem liveEntries_map (entries : List Entry) :
    liveEntries (entries.map .ok) = .ok (live entries) := by
  induction entries with
  | nil => rfl
  | cons e entries ih =>
    rw [List.map_cons, liveEntries, ih]
    show Except.ok (if e.isTombstone = true then live entries else e :: live entries) = _
    cases he : e.isTombstone <;> simp [live, he]

theorem filter_isKept_map (entries : List Entry) :
    (entries.map .ok).filter isKept = (live entries).map .ok := by
  rw [List.filter_map]
  rfl

/-- The merge of an engine has the buffer for its first input. -/
theorem of_merged_ok {bounds : Bounds} {merge : Merge} (h : engine.merged bounds = .ok merge) :
    ∃ inputs, engine.store.streams bounds = .ok inputs ∧ merge = .ofInputs engine.config.order
      (.ofEntries bufferPriority (engine.buffer.range bounds) :: inputs) := by
  obtain ⟨inputs, hinputs, hmerge⟩ := Answer.bind_eq_ok_iff.mp h
  exact ⟨inputs, hinputs, (Except.ok.inj hmerge).symm⟩

/-- The items of a compaction are what is kept of the merge. -/
theorem of_compactionItems_ok {items : List Item} (h : engine.compactionItems = .ok items) :
    ∃ merge, engine.merged .all = .ok merge ∧ items = merge.items.filter isKept := by
  obtain ⟨merge, hmerge, hkept⟩ := Answer.bind_eq_ok_iff.mp h
  exact ⟨merge, hmerge, (Except.ok.inj hkept).symm⟩

/-- Streams can be merged only while there are fewer tables than priorities. -/
theorem length_lt_of_merged {bounds : Bounds} {merge : Merge}
    (h : engine.merged bounds = .ok merge) : engine.store.tables.length < Word.halfLimit := by
  obtain ⟨inputs, hinputs, _⟩ := of_merged_ok h
  obtain ⟨_, _, hstreams⟩ := Answer.bind_eq_ok_iff.mp hinputs
  have hlt := Store.length_lt_of_streamsFrom (by decide) hstreams
  rwa [Nat.zero_add] at hlt

theorem length_lt_of_compactionItems {items : List Item} (h : engine.compactionItems = .ok items) :
    engine.store.tables.length < Word.halfLimit := by
  obtain ⟨merge, hmerge, _⟩ := of_compactionItems_ok h
  exact length_lt_of_merged hmerge

namespace Layered

theorem ensureOpen_eq (h : engine.Layered layers) : engine.ensureOpen = .ok () := by
  rw [ensureOpen, h.opened]
  rfl

/-- An engine answers with the newest entry under the key, in the buffer or in a layer. -/
theorem find?_eq (h : engine.Layered layers) (key : Bytes) : engine.find? key
    = .ok (KeyOrder.lexicographic.find? key (engine.buffer.entries :: layers).flatten) := by
  have : Std.TransCmp engine.store.order.compare := h.store_order ▸ inferInstance
  have hstore := h.layered.get?_eq h.usable key
  rw [h.store_order] at hstore
  rw [find?, h.ensureOpen_eq, Buffer.get?_eq, List.flatten_cons, KeyOrder.find?_append]
  -- the store is only asked for what the buffer has not got
  cases KeyOrder.lexicographic.find? key engine.buffer.entries with
  | some e => rfl
  | none => exact hstore

/-- The merge of the buffer with the layers yields, ascending, the entries within the bounds
    that are found under their key. -/
theorem merged_eq (h : engine.Layered layers)
    (hcount : engine.store.tables.length < Word.halfLimit) (bounds : Bounds) :
    ∃ merge, engine.merged bounds = .ok merge ∧ ∃ entries : List Entry,
      merge.items = entries.map .ok ∧ KeyOrder.lexicographic.Ascending (keysOf entries)
      ∧ ∀ e, e ∈ entries ↔ bounds.admits .lexicographic e.key = true
        ∧ KeyOrder.lexicographic.find? e.key (engine.buffer.entries :: layers).flatten = some e := by
  have hlayers := h.layered
  rw [Store.Layered, h.store_order] at hlayers
  obtain ⟨inputs, hinputs, hshows⟩ := Store.streamsFrom_eq hlayers bounds 0 (by rwa [Nat.zero_add])
  have hascending : ∀ entries ∈ engine.buffer.entries :: layers,
      KeyOrder.lexicographic.Ascending (keysOf entries) := by
    refine List.forall_mem_cons.mpr ⟨h.sound.ascending, fun entries hentries => ?_⟩
    rw [← h.store_order]
    exact h.layered.ascending entries hentries
  -- the buffer is one more run, which ranks before those of the store
  have hbuffer : Merge.Shows
      ⟨0, engine.buffer.entries.filter fun e => bounds.admits .lexicographic e.key⟩
      (.ofEntries bufferPriority (engine.buffer.range bounds)) :=
    ⟨rfl, by rw [Buffer.range_eq]; exact Lookahead.front_ofItems _ _⟩
  refine ⟨_, ?_, Store.merge_layers (.cons hbuffer hshows) hascending⟩
  rw [merged, Store.streams, h.usable, h.order_eq]
  show (Store.streamsFrom bounds 0 engine.store.tables >>= fun rest => pure _) = _
  rw [hinputs]
  rfl

/-- A range read yields, ascending, the live entries within the bounds that are found under
    their key. -/
theorem range_eq (h : engine.Layered layers)
    (hcount : engine.store.tables.length < Word.halfLimit) (bounds : Bounds) :
    ∃ entries, engine.range bounds = .ok entries
      ∧ KeyOrder.lexicographic.Ascending (keysOf entries)
      ∧ ∀ e, e ∈ entries ↔ (bounds.admits .lexicographic e.key = true
        ∧ KeyOrder.lexicographic.find? e.key (engine.buffer.entries :: layers).flatten = some e)
        ∧ e.isTombstone = false := by
  obtain ⟨merge, hmerge, entries, hitems, hascending, hmem⟩ := h.merged_eq hcount bounds
  refine ⟨live entries, ?_, ?_, fun e => by rw [mem_live, hmem]⟩
  · rw [range, h.ensureOpen_eq, hmerge]
    show liveEntries merge.items = _
    rw [hitems, liveEntries_map]
  · exact List.Pairwise.sublist (List.Sublist.map _ List.filter_sublist) hascending

/-- A compaction is made of the live entries that are found under their key. -/
theorem compactionItems_eq (h : engine.Layered layers)
    (hcount : engine.store.tables.length < Word.halfLimit) :
    ∃ entries : List Entry, engine.compactionItems = .ok (entries.map .ok)
      ∧ KeyOrder.lexicographic.Ascending (keysOf entries)
      ∧ ∀ e, e ∈ entries ↔ e.isTombstone = false
        ∧ KeyOrder.lexicographic.find? e.key (engine.buffer.entries :: layers).flatten = some e := by
  obtain ⟨merge, hmerge, entries, hitems, hascending, hmem⟩ := h.merged_eq hcount .all
  refine ⟨live entries, ?_, ?_, fun e => ?_⟩
  · rw [compactionItems, hmerge]
    show Except.ok (merge.items.filter isKept) = _
    rw [hitems, filter_isKept_map]
  · exact List.Pairwise.sublist (List.Sublist.map _ List.filter_sublist) hascending
  · rw [mem_live, hmem, Bounds.admits_all]
    exact ⟨fun h => ⟨h.2, h.1.2⟩, fun h => ⟨⟨rfl, h.2⟩, h.1⟩⟩

end Layered

end LayeredStore.Engine
