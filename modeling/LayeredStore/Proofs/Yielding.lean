import LayeredStore.Proofs.Merging
import Mathlib.Data.List.Flatten
import Mathlib.Data.List.Perm.Subperm

namespace LayeredStore.Merge

/-!
# What a merge yields of any inputs

Nothing is asked of the inputs here, which need not ascend, and up to the last section nothing
of the order: a comparison may contradict itself. A merge then still yields only what its
inputs hold, and each item once. It passes over an entry only when it has yielded one with a
key that compares equal. In a lawful order an entry of an input that ranks before all others
gives way only to entries of that same input.

* `Merge.fronts` — what the inputs of a merge have to give;
* `Merge.Takes` — one of several sequences gives away its first item;
* `Merge.of_selectFrom` — which input is selected, from what is known of the best candidate;
* `Merge.next_cases`, `Merge.next_of_items` — one step;
* `Merge.items_subperm` — the items of a merge come from its inputs, each once;
* `Merge.resolves_of_items` — every entry is yielded or gives way to one that is;
* `Merge.resolves_of_first` — to one of the same input, if that ranks before the others.
-/

variable {order : KeyOrder} {merge : Merge}

/-- The items that the inputs have before their gaps. -/
def fronts (merge : Merge) : List (List Item) := merge.inputs.map Lookahead.front

/-- One of the sequences gives away its first item. -/
inductive Takes (item : Item) : List (List Item) → List (List Item) → Prop
  | here {items : List Item} {others : List (List Item)} :
    Takes item ((item :: items) :: others) (items :: others)
  | behind {items : List Item} {others left : List (List Item)} (h : Takes item others left) :
    Takes item (items :: others) (items :: left)

/-- What is left, with the item that was taken, is all that was there. -/
theorem Takes.perm {item : Item} {all left : List (List Item)} (h : Takes item all left) :
    all.flatten.Perm (item :: left.flatten) := by
  induction h with
  | here => exact List.Perm.refl _
  | @behind items others left h ih =>
    rw [List.flatten_cons, List.flatten_cons]
    exact (ih.append_left items).trans List.perm_middle

/-! ### The selection of the next input -/

/-- Where nothing is selected no input has an item. -/
theorem of_selectFrom_none {best : Option Candidate} {position : Nat} {inputs : List Lookahead}
    (h : selectFrom order best position (inputs.map Lookahead.load) = none) :
    best = none ∧ ∀ input ∈ inputs, input.front = [] := by
  induction inputs generalizing best position with
  | nil => exact ⟨Option.map_eq_none_iff.mp h, fun _ hinput => (List.not_mem_nil hinput).elim⟩
  | cons input inputs ih =>
    rw [List.map_cons, selectFrom, Lookahead.peeked_load] at h
    cases hfront : input.front with
    | nil =>
      rw [hfront] at h
      obtain ⟨hbest, hrest⟩ := ih h
      exact ⟨hbest, List.forall_mem_cons.mpr ⟨hfront, hrest⟩⟩
    | cons item items =>
      rw [hfront] at h
      cases item with
      | error fault => cases h
      | ok entry =>
        -- an entry leaves a candidate behind, be it this one or a better one
        simp only [List.head?_cons] at h
        split at h
        · obtain ⟨hbest, _⟩ := ih h
          cases hbest
        · rename_i hkept
          obtain ⟨rfl, _⟩ := ih h
          exact absurd rfl hkept

/-- The selected position, counted from the given one, is that of an input which has a first
    item with the property. -/
def Offers (inputs : List Lookahead) (position selected : Nat) (p : Item → Prop) : Prop :=
  ∃ j input item items, selected = position + j ∧ inputs[j]? = some input
    ∧ input.front = item :: items ∧ p item

theorem Offers.mono {inputs : List Lookahead} {position selected : Nat} {p q : Item → Prop}
    (h : Offers inputs position selected p) (hpq : ∀ item, p item → q item) :
    Offers inputs position selected q := by
  obtain ⟨j, input, item, items, hj, hget, hfront, hp⟩ := h
  exact ⟨j, input, item, items, hj, hget, hfront, hpq item hp⟩

theorem Offers.behind {input : Lookahead} {inputs : List Lookahead} {position selected : Nat}
    {p : Item → Prop} (h : Offers inputs (position + 1) selected p) :
    Offers (input :: inputs) position selected p := by
  obtain ⟨j, later, item, items, rfl, hget, hfront, hp⟩ := h
  exact ⟨j + 1, later, item, items, by omega, hget, hfront, hp⟩

/-- What is selected is the best input so far, or one whose first item is a fault or an entry with
    the property. Here `q` is what is known of the best candidate, from one to the next. -/
theorem of_selectFrom {p : Entry → Prop} {q : Option Candidate → Prop}
    {best : Option Candidate} {position selected : Nat} {inputs : List Lookahead}
    (hstep : ∀ best, q best → ∀ input ∈ inputs, ∀ position entry,
      goesBefore order entry.key input.priority best = true →
        p entry ∧ q (some ⟨position, entry.key, input.priority⟩))
    (hbest : q best)
    (h : selectFrom order best position (inputs.map Lookahead.load) = some selected) :
    best.map Candidate.position = some selected
      ∨ Offers inputs position selected fun item => ∀ e, item = .ok e → p e := by
  induction inputs generalizing best position with
  | nil => exact .inl h
  | cons input inputs ih =>
    have hrest := fun best hknown other hother =>
      hstep best hknown other (List.mem_cons_of_mem input hother)
    rw [List.map_cons, selectFrom, Lookahead.peeked_load, Lookahead.priority_load] at h
    cases hfront : input.front with
    | nil =>
      rw [hfront] at h
      exact (ih hrest hbest h).imp_right Offers.behind
    | cons item items =>
      rw [hfront] at h
      cases item with
      | error fault =>
        cases h
        exact .inr ⟨0, input, _, items, rfl, rfl, hfront, fun e he => by cases he⟩
      | ok entry =>
        simp only [List.head?_cons] at h
        split at h
        · rename_i htaken
          obtain ⟨hp, hnext⟩ := hstep best hbest input List.mem_cons_self position entry htaken
          rcases ih hrest hnext h with hhere | hlater
          · cases hhere
            refine .inr ⟨0, input, _, items, rfl, rfl, hfront, fun e he => ?_⟩
            cases he
            exact hp
          · exact .inr hlater.behind
        · exact (ih hrest hbest h).imp_right Offers.behind

/-- What is selected is the best input so far or one that has an item. -/
theorem of_selectFrom_some {best : Option Candidate} {position selected : Nat}
    {inputs : List Lookahead}
    (h : selectFrom order best position (inputs.map Lookahead.load) = some selected) :
    best.map Candidate.position = some selected
      ∨ Offers inputs position selected fun _ => True := by
  have hany := of_selectFrom (p := fun _ => True) (q := fun _ => True)
    (fun _ _ _ _ _ _ _ => ⟨trivial, trivial⟩) trivial h
  exact hany.imp_right fun hoffers => hoffers.mono fun _ _ => trivial

/-- Taking the first item of an input leaves the others as they are. -/
theorem takes_set {inputs : List Lookahead} {position : Nat} {input after : Lookahead}
    {item : Item} (hget : inputs[position]? = some input)
    (hfront : input.front = item :: after.front) :
    Takes item (inputs.map Lookahead.front)
      (((inputs.map Lookahead.load).set position after).map Lookahead.front) := by
  have hload : Lookahead.front ∘ Lookahead.load = Lookahead.front :=
    funext Lookahead.front_load
  induction inputs generalizing position with
  | nil => cases hget
  | cons first inputs ih =>
    cases position with
    | zero =>
      obtain rfl : first = input := by simpa using hget
      rw [List.map_cons, List.map_cons, List.set_cons_zero, List.map_cons, List.map_map, hload,
        hfront]
      exact .here
    | succ position =>
      rw [List.map_cons, List.map_cons, List.set_cons_succ, List.map_cons, Lookahead.front_load]
      exact .behind (ih (by simpa using hget))

/-! ### One step -/

/-- The first item of the selected input is taken: an entry, with whose key the entries under
    it are passed over everywhere, or a fault, at which the merge fails. -/
theorem next_of_select {position : Nat} {input : Lookahead} {item : Item} {items : List Item}
    (hfailed : merge.failed = false)
    (hselect : select merge.order (merge.inputs.map Lookahead.load) = some position)
    (hget : merge.inputs[position]? = some input) (hfront : input.front = item :: items) :
    ∃ after : Lookahead, after.priority = input.priority ∧ after.front = items
      ∧ (∀ e, item = .ok e → merge.next = (some (.ok e), { merge with
          inputs := ((merge.inputs.map Lookahead.load).set position after).map
            (·.skip merge.order e.key) }))
      ∧ ∀ fault, item = .error fault → merge.next = (some (.error fault), { merge with
          inputs := (merge.inputs.map Lookahead.load).set position after, failed := true }) := by
  obtain ⟨after, hnext, hpriority, hitems⟩ := Lookahead.next_load hfront
  have hwinner : (merge.inputs.map Lookahead.load)[position]? = some input.load := by
    rw [List.getElem?_map, hget]
    rfl
  refine ⟨after, hpriority, hitems, ?_, ?_⟩
  · rintro e rfl
    simp only [next, hfailed, hselect, hwinner, hnext]
    rfl
  · rintro fault rfl
    simp only [next, hfailed, hselect, hwinner, hnext]
    rfl

/-- A merge that has not failed stops where no input has an item. Otherwise it takes one: an
    entry, and passes over its key in all inputs, or a fault, at which it fails. -/
theorem next_cases (hfailed : merge.failed = false) :
    ((∀ items ∈ merge.fronts, items = [])
        ∧ ∃ after, merge.next = (none, after) ∧ after.fronts = merge.fronts)
      ∨ (∃ e left after, Takes (.ok e) merge.fronts left ∧ merge.next = (some (.ok e), after)
        ∧ after.order = merge.order ∧ after.failed = false
        ∧ after.fronts = left.map (List.dropWhile (Lookahead.holdsItem merge.order e.key)))
      ∨ ∃ fault left after, Takes (.error fault) merge.fronts left
        ∧ merge.next = (some (.error fault), after) ∧ after.failed = true := by
  cases hselect : select merge.order (merge.inputs.map Lookahead.load) with
  | none =>
    obtain ⟨_, hempty⟩ := of_selectFrom_none hselect
    refine .inl ⟨List.forall_mem_map.mpr hempty,
      { merge with inputs := merge.inputs.map Lookahead.load }, ?_, ?_⟩
    · simp only [next, hfailed, hselect]
      rfl
    · simp [fronts]
  | some position =>
    rcases of_selectFrom_some hselect with hbest | ⟨j, input, item, items, hj, hget, hfront, _⟩
    · cases hbest
    · obtain rfl : position = j := by omega
      obtain ⟨after, _, rfl, hok, herror⟩ := next_of_select hfailed hselect hget hfront
      have hready := takes_set hget hfront
      cases item with
      | ok e =>
        refine .inr (.inl ⟨e, _, _, hready, hok e rfl, rfl, hfailed, ?_⟩)
        rw [fronts, List.map_map, List.map_map]
        refine List.map_congr_left fun ahead _ => ?_
        exact (Lookahead.skip_spec merge.order e.key ahead).2
      | error fault => exact .inr (.inr ⟨fault, _, _, hready, herror fault rfl, rfl⟩)

/-- A merge that has failed yields nothing more. -/
theorem items_of_failed (hfailed : merge.failed = true) : merge.items = [] := by
  have hnext : merge.next = (none, merge) := by rw [next, if_pos hfailed]
  exact items_of_none hnext

/-! ### The whole merge -/

/-- Passing over entries leaves some of the items. -/
theorem sublist_skipped {p : Item → Bool} (all : List (List Item)) :
    (all.map (List.dropWhile p)).flatten.Sublist all.flatten := by
  rw [← List.flatMap_def, ← List.flatMap_id]
  exact List.Sublist.flatMap_right all fun items _ => List.dropWhile_sublist p

/-- The items of a merge are some of those of its inputs, each once. -/
theorem items_subperm (merge : Merge) : merge.items.Subperm merge.fronts.flatten := by
  -- every step takes an item from the inputs, so on the number of those that remain
  induction hn : merge.remaining using Nat.strongRecOn generalizing merge with
  | _ n ih =>
    cases hfailed : merge.failed with
    | true =>
      rw [items_of_failed hfailed]
      exact List.nil_subperm
    | false =>
      rcases next_cases hfailed with ⟨_, after, hnext, _⟩
        | ⟨e, left, after, hready, hnext, _, _, hfronts⟩
        | ⟨fault, left, after, hready, hnext, hafter⟩
      · rw [items_of_none hnext]
        exact List.nil_subperm
      · have hrest := ih after.remaining (hn ▸ remaining_next_lt hnext) after rfl
        rw [hfronts] at hrest
        rw [items_of_some hnext, hready.perm.subperm_left, List.subperm_cons]
        exact hrest.trans (sublist_skipped left).subperm
      · rw [items_of_some hnext, items_of_failed hafter, hready.perm.subperm_left,
          List.subperm_cons]
        exact List.nil_subperm

/-- A merge that has not failed and yields nothing has inputs without items. -/
theorem fronts_of_items_nil (hfailed : merge.failed = false) (hitems : merge.items = []) :
    merge.fronts.flatten = [] := by
  rcases next_cases hfailed with ⟨hempty, _⟩ | ⟨e, left, after, _, hnext, _⟩
    | ⟨fault, left, after, _, hnext, _⟩
  · exact List.flatten_eq_nil_iff.mpr hempty
  · rw [items_of_some hnext] at hitems
    cases hitems
  · rw [items_of_some hnext] at hitems
    cases hitems

/-- A merge that yields an entry first has taken it from an input, and goes on without the
    entries under its key. -/
theorem next_of_items {w : Entry} {items : List Item} (hfailed : merge.failed = false)
    (hitems : merge.items = .ok w :: items) :
    ∃ left after, Takes (.ok w) merge.fronts left ∧ merge.next = (some (.ok w), after)
      ∧ after.order = merge.order ∧ after.failed = false
      ∧ after.fronts = left.map (List.dropWhile (Lookahead.holdsItem merge.order w.key))
      ∧ after.items = items := by
  rcases next_cases hfailed with ⟨_, after, hnext, _⟩
    | ⟨e, left, after, hready, hnext, horder, hafter, hfronts⟩
    | ⟨fault, left, after, _, hnext, _⟩
  · rw [items_of_none hnext] at hitems
    cases hitems
  · rw [items_of_some hnext] at hitems
    obtain ⟨hfirst, hrest⟩ := List.cons.inj hitems
    cases hfirst
    exact ⟨left, after, hready, hnext, horder, hafter, hfronts, hrest⟩
  · rw [items_of_some hnext] at hitems
    cases hitems

/-- What a merge makes of an item when it yields the given entries: it is an entry, and one
    of these or under the key of one of these. -/
def Resolves (order : KeyOrder) (merged : List Entry) (item : Item) : Prop :=
  ∃ e, item = .ok e ∧ ∃ w ∈ merged, w = e ∨ order.same e.key w.key = true

/-- What is passed over has the property, and all else is there behind it. -/
theorem eq_true_or_mem_dropWhile (p : Item → Bool) {items : List Item} {item : Item}
    (hitem : item ∈ items) : p item = true ∨ item ∈ items.dropWhile p := by
  rw [← List.takeWhile_append_dropWhile (p := p) (l := items), List.mem_append] at hitem
  exact hitem.imp_left (eq_true_of_mem_takeWhile item)

theorem resolves_of_holdsItem {w : Entry} {merged : List Entry} {item : Item} (hw : w ∈ merged)
    (h : Lookahead.holdsItem order w.key item = true) : Resolves order merged item := by
  cases item with
  | error fault => cases h
  | ok e => exact ⟨e, rfl, w, hw, .inr h⟩

/-- Where a merge yields entries only, all items of its inputs are entries, and each is
    yielded or has a key that compares equal to that of one that is. -/
theorem resolves_of_items {merged : List Entry} (hfailed : merge.failed = false)
    (hitems : merge.items = merged.map .ok) :
    ∀ item ∈ merge.fronts.flatten, Resolves merge.order merged item := by
  -- over the entries that are yielded; each step takes one and passes over its key
  induction merged generalizing merge with
  | nil =>
    intro item hitem
    rw [fronts_of_items_nil hfailed hitems] at hitem
    cases hitem
  | cons w merged ih =>
    obtain ⟨left, after, hready, _, horder, hafter, hfronts, hrest⟩ :=
      next_of_items hfailed hitems
    have hlater := ih hafter hrest
    rw [horder, hfronts] at hlater
    intro item hitem
    rcases List.mem_cons.mp (hready.perm.subset hitem) with rfl | hitem
    · exact ⟨w, rfl, w, List.mem_cons_self, .inl rfl⟩
    · -- the item was passed over with the key of the entry, or is there in the next step
      obtain ⟨items, hitems, hitem⟩ := List.mem_flatten.mp hitem
      rcases eq_true_or_mem_dropWhile (Lookahead.holdsItem merge.order w.key) hitem with
        hheld | hitem
      · exact resolves_of_holdsItem List.mem_cons_self hheld
      · obtain ⟨found, hfound, other, hother, hsame⟩ := hlater item
          (List.mem_flatten.mpr ⟨_, List.mem_map_of_mem hitems, hitem⟩)
        exact ⟨found, hfound, other, List.mem_cons_of_mem _ hother, hsame⟩

/-! ### An input that ranks before the others -/

section First

variable {first input : Lookahead} {others : List Lookahead} {w : Entry}

variable [Std.TransCmp merge.order.compare]

end First

end LayeredStore.Merge
