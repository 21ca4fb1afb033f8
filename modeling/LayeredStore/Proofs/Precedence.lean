import LayeredStore.Proofs.Layers
import LayeredStore.Proofs.Yielding

namespace LayeredStore.Merge

/-!
# Precedence among the inputs of a merge

The merge of ascending inputs is the selection by precedence: of each key the first entry
in the input of lowest priority that has it, the earlier input going before where priorities
are equal. Keys and positions alone decide; whether an entry is a tombstone, and what its
value is, decides nothing.

* `Run.map` — a run whose entries are replaced one by one;
* `Merge.wins_map_iff` — replacing entries under their keys replaces the winners;
* `Merge.exists_resolving` — every entry gives way to one that is yielded;
* `Merge.merges_by_precedence` — the whole law.
-/

variable {order : KeyOrder} {runs : List Run} {inputs : List Lookahead}
  {change : Entry → Entry} {e f : Entry}

/-! ### Entries that are replaced under their keys -/

/-- The run with each entry replaced. -/
def Run.map (change : Entry → Entry) (run : Run) : Run :=
  ⟨run.priority, run.entries.map change⟩

theorem keysOf_map {entries : List Entry} (hchange : ∀ e, (change e).key = e.key) :
    keysOf (entries.map change) = keysOf entries := by
  unfold keysOf
  rw [List.map_map]
  exact List.map_congr_left fun e _ => hchange e

theorem find?_map {entries : List Entry} {key : Bytes} (hchange : ∀ e, (change e).key = e.key) :
    order.find? key (entries.map change) = (order.find? key entries).map change := by
  unfold KeyOrder.find?
  rw [List.find?_map]
  congr 2
  funext e
  show order.same (change e).key key = order.same e.key key
  rw [hchange]

theorem sorted_map {entries : List Entry} (hchange : ∀ e, (change e).key = e.key)
    (h : Sorted order entries) : Sorted order (entries.map change) := by
  refine List.pairwise_map.mpr (List.Pairwise.imp (fun {a b} hab => ?_) h)
  rwa [hchange, hchange]

/-- The winners among replaced entries are the winners, replaced. -/
theorem wins_map_iff (hchange : ∀ e, (change e).key = e.key) :
    Wins order (runs.map (Run.map change)) f ↔ ∃ e, Wins order runs e ∧ change e = f := by
  have hnone : ∀ {key : Bytes} {run : Run}, order.find? key (run.map change).entries ≠ none ↔
      order.find? key run.entries ≠ none := by
    intro key run
    rw [Run.map, find?_map hchange, Ne, Option.map_eq_none_iff]
  simp only [Wins, List.getElem?_map, Option.map_eq_some_iff]
  constructor
  · rintro ⟨i, _, ⟨run, hrun, rfl⟩, hfind, hbest⟩
    rw [Run.map, find?_map hchange, Option.map_eq_some_iff] at hfind
    obtain ⟨e, hfind, rfl⟩ := hfind
    rw [hchange] at hfind hbest
    exact ⟨e, ⟨i, run, hrun, hfind, fun j other hother hne =>
      hbest j (other.map change) ⟨other, hother, rfl⟩ (hnone.mpr hne)⟩, rfl⟩
  · rintro ⟨e, ⟨i, run, hrun, hfind, hbest⟩, rfl⟩
    rw [hchange]
    refine ⟨i, run.map change, ⟨run, hrun, rfl⟩, ?_, ?_⟩
    · rw [Run.map, find?_map hchange, hfind, Option.map_some]
    · rintro j _ ⟨other, hother, rfl⟩ hne
      exact hbest j other hother (hnone.mp hne)

/-! ### One entry for each key -/

/-- What the runs hold is what the inputs have before them. -/
theorem mem_fronts_of_shows (hinputs : List.Forall₂ Shows runs inputs) {run : Run}
    (hrun : run ∈ runs) (he : e ∈ run.entries) :
    Except.ok e ∈ (ofInputs order inputs).fronts.flatten := by
  induction hinputs with
  | nil => cases hrun
  | @cons first ahead runs inputs hshows _ ih =>
    rw [fronts, ofInputs, List.map_cons, List.flatten_cons, List.mem_append]
    rcases List.mem_cons.mp hrun with rfl | hrun
    · rw [hshows.2]
      exact .inl (List.mem_map_of_mem he)
    · exact .inr (ih hrun)

/-- Every entry of the inputs gives way to one that is yielded, under a key that compares
    equal to its own. -/
theorem exists_resolving [Std.TransCmp order.compare] {merged : List Entry}
    (hinputs : List.Forall₂ Shows runs inputs)
    (hitems : (ofInputs order inputs).items = merged.map .ok) {run : Run} (hrun : run ∈ runs)
    (he : e ∈ run.entries) : ∃ w ∈ merged, order.same e.key w.key = true := by
  obtain ⟨entry, hentry, w, hw, hresolves⟩ :=
    resolves_of_items rfl hitems (.ok e) (mem_fronts_of_shows hinputs hrun he)
  cases hentry
  refine ⟨w, hw, ?_⟩
  rcases hresolves with rfl | hsame
  · exact KeyOrder.same_refl w.key
  · exact hsame

/-! ### The law -/

/-- The inputs that hand out the entries of runs. -/
def inputsOf (runs : List Run) : List Lookahead :=
  runs.map fun run => .ofEntries run.priority run.entries

theorem shows_inputsOf (runs : List Run) : List.Forall₂ Shows runs (inputsOf runs) := by
  induction runs with
  | nil => exact .nil
  | cons run runs ih => exact .cons ⟨rfl, Lookahead.front_ofItems _ _⟩ ih

/-- **The merge is the selection by precedence.** Under every order of keys, of every list of
    ascending inputs with any priorities the merge yields entries that strictly ascend; there
    is exactly one under each key that an input holds, and it is the one that wins there.
    Where the inputs hold other entries under the same keys, tombstones or not, the merge
    yields what stands at the same places. -/
theorem merges_by_precedence [Std.TransCmp order.compare]
    (hinputs : List.Forall₂ Shows runs inputs) (hruns : ∀ run ∈ runs, Sorted order run.entries) :
    ∃ merged : List Entry, (ofInputs order inputs).items = merged.map .ok
      ∧ order.Ascending (keysOf merged)
      ∧ (∀ e, e ∈ merged ↔ Wins order runs e)
      ∧ (∀ run ∈ runs, ∀ e ∈ run.entries, ∃! w, w ∈ merged ∧ order.same e.key w.key = true)
      ∧ ∀ (change : Entry → Entry) (others : List Lookahead), (∀ e, (change e).key = e.key) →
          List.Forall₂ Shows (runs.map (Run.map change)) others →
          (ofInputs order others).items = (merged.map change).map .ok := by
  obtain ⟨merged, hitems, hascending, hmem⟩ := items_ofInputs hinputs hruns
  refine ⟨merged, hitems, hascending, hmem, ?_, ?_⟩
  · intro run hrun e he
    obtain ⟨w, hw, hsame⟩ := exists_resolving hinputs hitems hrun he
    refine ⟨w, ⟨hw, hsame⟩, ?_⟩
    rintro v ⟨hv, hother⟩
    -- both are under the key of the entry, and no two entries win one key
    refine Wins.unique ((hmem v).mp hv) ((hmem w).mp hw) ?_
    rwa [← KeyOrder.same_congr hsame v.key, KeyOrder.same_comm]
  · intro change others hchange hothers
    have hsorted : ∀ run ∈ runs.map (Run.map change), Sorted order run.entries :=
      List.forall_mem_map.mpr fun run hrun => sorted_map hchange (hruns run hrun)
    obtain ⟨replaced, hreplaced, hreplacedAscending, hreplacedMem⟩ :=
      items_ofInputs hothers hsorted
    have hsame : replaced = merged.map change := by
      refine KeyOrder.eq_of_ascending hreplacedAscending ?_ fun f => ?_
      · rw [keysOf_map hchange]
        exact hascending
      · rw [hreplacedMem, List.mem_map, wins_map_iff hchange]
        exact exists_congr fun e => and_congr_left fun _ => (hmem e).symm
    rw [hreplaced, hsame]

/-- Three inputs under an order that ignores case, the first two of one priority and the last
    one of a lower. The first has a key in two spellings, its tombstone before its value. -/
theorem merges_by_precedence_caseless :
    let runs : List Run :=
      [⟨1, [.tombstone [0x61], .live [0x41] [1], .live [0x63] [2]]⟩,
        ⟨1, [.live [0x61] [3], .live [0x62] [4], .live [0x63] [5]]⟩, ⟨0, [.live [0x42] [6]]⟩]
    let swap : Entry → Entry := fun e => ⟨e.key, if e.isTombstone then some [7] else none⟩
    (ofInputs .caseless (inputsOf runs)).items
        = [.tombstone [0x61], .live [0x42] [6], .live [0x63] [2]].map .ok
      ∧ Wins .caseless runs (.tombstone [0x61])
      ∧ (ofInputs .caseless (inputsOf (runs.map (Run.map swap)))).items
        = [.live [0x61] [7], .tombstone [0x42], .tombstone [0x63]].map .ok := by
  intro runs swap
  have hruns : ∀ run ∈ runs, Sorted .caseless run.entries := by
    unfold Sorted
    decide +kernel
  obtain ⟨merged, hitems, -, hmem, -, hchange⟩ :=
    merges_by_precedence (shows_inputsOf runs) hruns
  have htried : (ofInputs .caseless (inputsOf runs)).items
      = [.tombstone [0x61], .live [0x42] [6], .live [0x63] [2]].map .ok := by decide +kernel
  obtain rfl : merged = [.tombstone [0x61], .live [0x42] [6], .live [0x63] [2]] :=
    List.map_injective_iff.mpr (fun _ _ h => Except.ok.inj h) (hitems.symm.trans htried)
  exact ⟨hitems, (hmem _).mp List.mem_cons_self,
    hchange swap _ (fun _ => rfl) (shows_inputsOf (runs.map (Run.map swap)))⟩

end LayeredStore.Merge
