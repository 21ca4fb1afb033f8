import LayeredStore.Table.Cursor

namespace LayeredStore

/-!
# Streams with lookahead

A stream of entries answers each request with an item or with nothing. A
lookahead lets the next answer be seen before it is taken, and ranks the stream by
its age.

* `Answer`, `Answering` — what a stream gives to a request, and what a stream is;
* `Stream` — a stream that is told by the answers still to come;
* `Lookahead` — a ranked stream, of any kind, of which one answer may be loaded;
* `Lookahead.load`, `Lookahead.peeked` — loads the next answer; looks at it;
* `Lookahead.next` — takes the next answer;
* `Lookahead.skip` — passes over the entries under a given key.
-/

/-- What a stream answers to a request: an item, or `none` where it has none. -/
abbrev Answer := Option Item

/-- Whatever answers one request after the other is a stream. It may answer with
    nothing and then go on, and it need not have an end. -/
class Answering (σ : Type) where
  /-- The answer to a request, and the stream behind it. -/
  ask : σ → Answer × σ

/-- The answers still to come; after the last there is nothing for ever. -/
abbrev Stream := List Answer

instance : Answering Stream where
  ask stream := (stream.headD none, stream.tail)

@[simp] theorem Stream.ask_nil : Answering.ask ([] : Stream) = (none, []) := rfl

@[simp] theorem Stream.ask_cons (answer : Answer) (rest : Stream) :
    Answering.ask (answer :: rest) = (answer, rest) := rfl

/-- A stream that yields the given items and ends. -/
def Stream.ofItems (items : List Item) : Stream := items.map some

/-- A ranked stream with at most one answer loaded. -/
structure Lookahead (σ : Type := Stream) where
  /-- The rank: lower means newer. Any number will do here; those that a store gives out
      are half words (`Store.priorityOf`). -/
  priority : Nat
  /-- The answer that was loaded, if one was; it may be the end. -/
  loaded : Option Answer
  /-- The stream behind it. -/
  rest : σ

namespace Lookahead

variable {σ : Type}

/-- A stream of which nothing is loaded yet. -/
def ofStream (priority : Nat) (stream : σ) : Lookahead σ := ⟨priority, none, stream⟩

/-- The stream of the given items. -/
def ofItems (priority : Nat) (items : List Item) : Lookahead :=
  ofStream priority (Stream.ofItems items)

/-- The stream of the given entries. -/
def ofEntries (priority : Nat) (entries : List Entry) : Lookahead :=
  ofItems priority (entries.map .ok)

/-- Loads the next answer, unless one is loaded. -/
def load [Answering σ] (ahead : Lookahead σ) : Lookahead σ :=
  match ahead.loaded with
  | some _ => ahead
  | none =>
    let (answer, rest) := Answering.ask ahead.rest
    { ahead with loaded := some answer, rest }

/-- The loaded answer; `none` also where nothing is loaded. -/
def peeked (ahead : Lookahead σ) : Answer := ahead.loaded.join

/-- The next answer, which stays loaded. -/
def peek [Answering σ] (ahead : Lookahead σ) : Answer × Lookahead σ :=
  (ahead.load.peeked, ahead.load)

/-- The key of an answer that is an entry. -/
def keyOf? : Answer → Option Bytes
  | some (.ok entry) => some entry.key
  | _ => none

/-- The key of the next answer, if that is an entry. -/
def peekKey [Answering σ] (ahead : Lookahead σ) : Option Bytes × Lookahead σ :=
  (keyOf? ahead.load.peeked, ahead.load)

/-- Takes the next answer. -/
def next [Answering σ] (ahead : Lookahead σ) : Answer × Lookahead σ :=
  match ahead.loaded with
  | some answer => (answer, { ahead with loaded := none })
  | none =>
    let (answer, rest) := Answering.ask ahead.rest
    (answer, { ahead with rest })

/-- Whether an answer is an entry whose key compares equal to `key`. -/
def holds (order : KeyOrder) (key : Bytes) (answer : Answer) : Bool :=
  match keyOf? answer with
  | some found => order.compare found key == .eq
  | none => false

/-- Takes answers from the front of a stream while they are entries under `key`,
    and leaves the first other one loaded. -/
def skipFrom (order : KeyOrder) (key : Bytes) (priority : Nat) : Stream → Lookahead
  | [] => ⟨priority, some none, []⟩
  | answer :: rest =>
    if holds order key answer then skipFrom order key priority rest
    else ⟨priority, some answer, rest⟩

/-- Passes over the entries whose key compares equal to `key`. -/
def skip (order : KeyOrder) (key : Bytes) (ahead : Lookahead) : Lookahead :=
  match ahead.loaded with
  | none => skipFrom order key ahead.priority ahead.rest
  | some answer =>
    if holds order key answer then skipFrom order key ahead.priority ahead.rest else ahead

/-! ### What is left -/

/-- The answers still to be taken. -/
def pending (ahead : Lookahead) : Stream :=
  ahead.loaded.toList ++ ahead.rest

/-- The number of items still to be taken. -/
def remaining (ahead : Lookahead) : Nat :=
  (ahead.pending.filter Option.isSome).length

@[simp] theorem pending_ofStream (priority : Nat) (stream : Stream) :
    (ofStream priority stream).pending = stream := rfl

/-- Loading takes no item. -/
@[simp] theorem remaining_load (ahead : Lookahead) : ahead.load.remaining = ahead.remaining := by
  obtain ⟨priority, loaded, rest⟩ := ahead
  cases loaded with
  | some _ => rfl
  | none => cases rest <;> simp [load, remaining, pending]

theorem remaining_skipFrom_le (order : KeyOrder) (key : Bytes) (priority : Nat)
    (stream : Stream) :
    (skipFrom order key priority stream).remaining ≤ (stream.filter Option.isSome).length := by
  induction stream with
  | nil => simp [skipFrom, remaining, pending]
  | cons answer rest ih =>
    unfold skipFrom
    split
    · exact Nat.le_trans ih (List.Sublist.length_le (List.Sublist.filter _ (by simp)))
    · simp [remaining, pending]

/-- Passing over entries takes items at most. -/
theorem remaining_skip_le (order : KeyOrder) (key : Bytes) (ahead : Lookahead) :
    (ahead.skip order key).remaining ≤ ahead.remaining := by
  obtain ⟨priority, loaded, rest⟩ := ahead
  cases loaded with
  | none => exact remaining_skipFrom_le order key priority rest
  | some answer =>
    simp only [skip]
    split
    · refine Nat.le_trans (remaining_skipFrom_le order key priority rest) ?_
      exact List.Sublist.length_le (List.Sublist.filter _ (by simp [pending]))
    · exact Nat.le_refl _

/-- Taking an item leaves one item less. -/
theorem remaining_next {ahead after : Lookahead} {item : Item}
    (h : ahead.next = (some item, after)) : after.remaining + 1 = ahead.remaining := by
  obtain ⟨priority, loaded, rest⟩ := ahead
  cases loaded with
  | some answer => cases h; simp [remaining, pending]
  | none =>
    cases rest with
    | nil => cases h
    | cons answer rest => cases h; simp [remaining, pending]

/-! ### Diagnostics -/

/-- An item shown as a value. -/
def inspectItem : Item → String
  | .ok entry => Text.wrap "Ok" entry.inspect
  | .error fault => Text.wrap "Err" fault.inspect

/-- The lookahead shown as a value. -/
def inspect (ahead : Lookahead σ) : String :=
  Text.group "PeekingPriorityIterator"
    [("priority", Text.number ahead.priority),
      ("peeked", Text.option (ahead.loaded.map fun answer =>
        Text.option (answer.map inspectItem)))]

end Lookahead

end LayeredStore
