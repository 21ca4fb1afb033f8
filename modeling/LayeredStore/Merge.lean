import LayeredStore.Lookahead

namespace LayeredStore

/-!
# Merging

Several ascending streams become one ascending stream without repeated keys. Where
a key comes in more than one stream, the stream of lowest priority wins and the
others' entries under that key are passed over. Tombstones count like any entry.

* `Merge` — a merge in progress;
* `Merge.select` — the stream that yields the next item;
* `Merge.next` — one step;
* `Merge.items` — all that the merge yields.
-/

/-- A merge in progress. -/
structure Merge where
  /-- The order of keys. -/
  order : KeyOrder
  /-- The streams to be merged. -/
  inputs : List Lookahead
  /-- Whether a fault was yielded, which ends the merge. -/
  failed : Bool

namespace Merge

/-- The merge of the given streams. -/
def ofInputs (order : KeyOrder) (inputs : List Lookahead) : Merge := ⟨order, inputs, false⟩

/-- An input that may yield the next item. -/
structure Candidate where
  /-- The input's position. -/
  position : Nat
  /-- The key of its next entry. -/
  key : Bytes
  /-- Its priority. -/
  priority : Nat

/-- Whether an entry under `key` from an input of the given priority goes before
    the best candidate so far: by its key, and under an equal key by priority. -/
def goesBefore (order : KeyOrder) (key : Bytes) (priority : Nat) :
    Option Candidate → Bool
  | none => true
  | some best =>
    match order.compare key best.key with
    | .lt => true
    | .eq => decide (priority < best.priority)
    | .gt => false

/-- The position of the input to take from, among loaded inputs of which the first
    stands at `position`, when `best` is the best before them. An input whose next
    item is a fault is taken at once. -/
def selectFrom (order : KeyOrder) (best : Option Candidate) (position : Nat) :
    List Lookahead → Option Nat
  | [] => best.map Candidate.position
  | input :: inputs =>
    match input.peeked with
    | none => selectFrom order best (position + 1) inputs
    | some (.error _) => some position
    | some (.ok entry) =>
      if goesBefore order entry.key input.priority best then
        selectFrom order (some ⟨position, entry.key, input.priority⟩) (position + 1) inputs
      else selectFrom order best (position + 1) inputs

/-- The position of the loaded input that holds the smallest next key. -/
def select (order : KeyOrder) (inputs : List Lookahead) : Option Nat :=
  selectFrom order none 0 inputs

/-- One step. An entry is taken from the selected input, and entries under an equal
    key are passed over in all inputs. A fault is yielded once and ends the merge. -/
def next (merge : Merge) : Answer × Merge :=
  if merge.failed then (none, merge)
  else
    let inputs := merge.inputs.map Lookahead.load
    match select merge.order inputs with
    | none => (none, { merge with inputs })
    | some position =>
      match inputs[position]? with
      | none => (none, { merge with inputs })
      | some winner =>
        let (answer, rest) := winner.next
        let inputs := inputs.set position rest
        match answer with
        | none => (none, { merge with inputs })
        | some (.ok entry) =>
          (some (.ok entry), { merge with inputs := inputs.map (·.skip merge.order entry.key) })
        | some (.error fault) => (some (.error fault), { merge with inputs, failed := true })

/-! ### The whole merge -/

/-- The number of items still to be taken from a list of inputs. -/
def remainingIn : List Lookahead → Nat
  | [] => 0
  | input :: inputs => input.remaining + remainingIn inputs

/-- The number of items still to be taken from the inputs of a merge. -/
def remaining (merge : Merge) : Nat :=
  remainingIn merge.inputs

theorem remainingIn_skip_le (order : KeyOrder) (key : Bytes) (inputs : List Lookahead) :
    remainingIn (inputs.map (·.skip order key)) ≤ remainingIn inputs := by
  induction inputs with
  | nil => exact Nat.le_refl _
  | cons input inputs ih =>
    exact Nat.add_le_add (Lookahead.remaining_skip_le order key input) ih

theorem remainingIn_load (inputs : List Lookahead) :
    remainingIn (inputs.map Lookahead.load) = remainingIn inputs := by
  induction inputs with
  | nil => rfl
  | cons input inputs ih =>
    simp only [List.map_cons, remainingIn, Lookahead.remaining_load, ih]

/-- Exchanging an input for one with an item less leaves an item less in all. -/
theorem remainingIn_set {inputs : List Lookahead} {position : Nat}
    {winner after : Lookahead} (hget : inputs[position]? = some winner)
    (hless : after.remaining + 1 = winner.remaining) :
    remainingIn (inputs.set position after) + 1 = remainingIn inputs := by
  induction inputs generalizing position with
  | nil => simp at hget
  | cons input inputs ih =>
    cases position with
    | zero =>
      obtain rfl : input = winner := by simpa using hget
      simp only [List.set_cons_zero, remainingIn]
      omega
    | succ position =>
      have := @ih position (by simpa using hget)
      simp only [List.set_cons_succ, remainingIn]
      omega

/-- A step that yields an item leaves fewer items. -/
theorem remaining_next_lt {merge after : Merge} {item : Item}
    (h : merge.next = (some item, after)) : after.remaining < merge.remaining := by
  unfold next at h
  split at h
  · cases h
  · dsimp only at h
    split at h
    · cases h
    · split at h
      · cases h
      · rename_i position _ _ winner hget
        have hload := remainingIn_load merge.inputs
        match hnext : winner.next with
        | (none, rest) => simp [hnext] at h
        | (some (.ok entry), rest) =>
          simp only [hnext, Prod.mk.injEq] at h
          obtain ⟨_, rfl⟩ := h
          have hset := remainingIn_set hget (Lookahead.remaining_next hnext)
          have hskip := remainingIn_skip_le merge.order entry.key
            ((merge.inputs.map Lookahead.load).set position rest)
          simp only [remaining]
          omega
        | (some (.error fault), rest) =>
          simp only [hnext, Prod.mk.injEq] at h
          obtain ⟨_, rfl⟩ := h
          have hset := remainingIn_set hget (Lookahead.remaining_next hnext)
          simp only [remaining]
          omega

/-- All that the merge yields. -/
def items (merge : Merge) : List Item :=
  match h : merge.next with
  | (none, _) => []
  | (some item, after) =>
    have := remaining_next_lt h
    item :: after.items
termination_by merge.remaining

/-- A merge that has nothing for the next request yields nothing. -/
theorem items_of_none {merge after : Merge} (h : merge.next = (none, after)) :
    merge.items = [] := by
  rw [items]
  split
  · rfl
  · rename_i hsome
    rw [h] at hsome
    cases hsome

/-- A merge yields the item of its first step and then those of the merge after it. -/
theorem items_of_some {merge after : Merge} {item : Item}
    (h : merge.next = (some item, after)) : merge.items = item :: after.items := by
  rw [items]
  split
  · rename_i hnone
    rw [h] at hnone
    cases hnone
  · rename_i hsome
    rw [h] at hsome
    cases hsome
    rfl

/-- The merge shown as a value, for diagnostics. -/
def inspect (merge : Merge) : String :=
  Text.group "MergeIterator"
    [("inputs", Text.number merge.inputs.length), ("failed", Text.truth merge.failed)]

end Merge

end LayeredStore
