import LayeredStore.Merge
import Mathlib.Data.List.Forall2
import Mathlib.Data.List.Induction
import Mathlib.Logic.Function.Iterate

namespace LayeredStore

/-!
# A lookahead changes nothing of its stream

Answers that are taken through a lookahead are those of the stream itself, in their order,
however often they were looked at before. Nothing is assumed of the stream: it may answer with
nothing and then go on, it may have faults anywhere, and it need not have an end.

* `Answering.behind`, `Answering.answerAt` — a stream by itself, request after request;
* `Counted` — a stream that counts the requests made to it;
* `Lookahead.Request`, `Lookahead.after`, `Lookahead.answers` — what a lookahead can be asked,
  and what a run of requests leaves and takes;
* `Lookahead.isSeen` — whether the next answer was looked at since the last was taken;
* `Lookahead.Stands` — where a lookahead stands in its stream, with a lemma for each request;
* `Lookahead.is_transparent` — the law for every stream and every run of requests;
* `Merge.reaches_next` — a merge does nothing else with its inputs than such requests.
-/

/-! ### A stream by itself -/

namespace Answering

variable {σ : Type} [Answering σ]

/-- The stream behind a number of requests. -/
def behind (n : Nat) (stream : σ) : σ := (fun rest => (ask rest).2)^[n] stream

/-- What the stream answers to the request of the given number, counted from `0`. -/
def answerAt (stream : σ) (n : Nat) : Answer := (ask (behind n stream)).1

theorem behind_succ (n : Nat) (stream : σ) : behind (n + 1) stream = (ask (behind n stream)).2 :=
  Function.iterate_succ_apply' _ n stream

end Answering

/-- A stream that counts the requests made to it. -/
structure Counted (σ : Type) where
  stream : σ
  /-- The number of requests so far. -/
  asked : Nat

namespace Counted

variable {σ : Type} [Answering σ]

instance : Answering (Counted σ) where
  ask counted :=
    let (answer, rest) := Answering.ask counted.stream
    (answer, ⟨rest, counted.asked + 1⟩)

theorem asked_behind (n : Nat) (counted : Counted σ) :
    (Answering.behind n counted).asked = counted.asked + n := by
  induction n with
  | zero => rfl
  | succ n ih =>
    rw [Answering.behind_succ]
    show (Answering.behind n counted).asked + 1 = _
    omega

end Counted

namespace Lookahead

open Answering (ask behind answerAt)

/-! ### Requests -/

/-- What can be asked of a lookahead. -/
inductive Request
  | peek
  | peeked
  | peekKey
  | next
  deriving DecidableEq

/-- Whether the request looks at the next answer, which is loaded then. -/
def Request.looks : Request → Bool
  | .peek | .peekKey => true
  | .peeked | .next => false

variable {σ : Type} [Answering σ]

/-- The lookahead that a request leaves. -/
def serve (ahead : Lookahead σ) : Request → Lookahead σ
  | .peek => ahead.peek.2
  | .peeked => ahead
  | .peekKey => ahead.peekKey.2
  | .next => ahead.next.2

/-- The lookahead that requests leave, made one after the other. -/
def after (ahead : Lookahead σ) (requests : List Request) : Lookahead σ :=
  requests.foldl serve ahead

/-- The answers that are taken by requests made one after the other. -/
def answers (ahead : Lookahead σ) : List Request → List Answer
  | [] => []
  | .next :: requests => ahead.next.1 :: answers ahead.next.2 requests
  | request :: requests => answers (ahead.serve request) requests

/-- Whether the next answer was looked at since the last one was taken. -/
def isSeen (requests : List Request) : Bool :=
  (requests.reverse.takeWhile (· ≠ .next)).any Request.looks

@[simp] theorem isSeen_concat_next (requests : List Request) :
    isSeen (requests ++ [.next]) = false := by
  simp [isSeen]

@[simp] theorem isSeen_concat_of_ne {requests : List Request} {request : Request}
    (h : request ≠ .next) : isSeen (requests ++ [request]) = (request.looks || isSeen requests) := by
  simp [isSeen, h]

/-! ### Where a lookahead stands -/

/-- So many answers of the stream were taken, and the one behind them is loaded or not. The
    stream was asked for these and for no others. -/
structure Stands (stream : σ) (taken : Nat) (seen : Bool) (ahead : Lookahead σ) : Prop where
  loaded_eq : ahead.loaded = if seen then some (answerAt stream taken) else none
  rest_eq : ahead.rest = behind (if seen then taken + 1 else taken) stream

namespace Stands

variable {stream : σ} {taken : Nat} {seen : Bool} {ahead : Lookahead σ} {requests : List Request}

theorem ofStream (priority : Nat) (stream : σ) : Stands stream 0 false (ofStream priority stream) :=
  ⟨rfl, rfl⟩

theorem peeked_eq (h : Stands stream taken seen ahead) :
    ahead.peeked = if seen then answerAt stream taken else none := by
  rw [peeked, h.loaded_eq]
  cases seen <;> rfl

/-- Looking takes nothing, and a second look changes nothing. -/
theorem load (h : Stands stream taken seen ahead) : Stands stream taken true ahead.load := by
  obtain ⟨priority, loaded, rest⟩ := ahead
  obtain ⟨hloaded, hrest⟩ := h
  cases seen with
  | true =>
    obtain rfl : loaded = some (answerAt stream taken) := hloaded
    exact ⟨rfl, hrest⟩
  | false =>
    obtain rfl : loaded = none := hloaded
    obtain rfl : rest = behind taken stream := hrest
    exact ⟨rfl, (Answering.behind_succ taken stream).symm⟩

theorem peek_eq (h : Stands stream taken seen ahead) : ahead.peek.1 = answerAt stream taken :=
  h.load.peeked_eq

/-- What is taken is the answer in turn, loaded or not. -/
theorem next (h : Stands stream taken seen ahead) :
    ahead.next.1 = answerAt stream taken ∧ Stands stream (taken + 1) false ahead.next.2 := by
  obtain ⟨priority, loaded, rest⟩ := ahead
  obtain ⟨hloaded, hrest⟩ := h
  cases seen with
  | true =>
    obtain rfl : loaded = some (answerAt stream taken) := hloaded
    exact ⟨rfl, rfl, hrest⟩
  | false =>
    obtain rfl : loaded = none := hloaded
    obtain rfl : rest = behind taken stream := hrest
    exact ⟨rfl, rfl, (Answering.behind_succ taken stream).symm⟩

/-- A request other than for the next answer takes nothing. -/
theorem serve {request : Request} (h : Stands stream taken seen ahead) (hrequest : request ≠ .next) :
    Stands stream taken (request.looks || seen) (ahead.serve request) := by
  cases request with
  | peek => exact h.load
  | peeked => exact h
  | peekKey => exact h.load
  | next => exact absurd rfl hrequest

/-- Requests take the answers in turn. -/
theorem answers_eq (h : Stands stream taken seen ahead) :
    ahead.answers requests = (List.range' taken (requests.count .next)).map (answerAt stream) := by
  induction requests generalizing taken seen ahead with
  | nil => rfl
  | cons request requests ih =>
    by_cases hrequest : request = .next
    · subst hrequest
      rw [answers, h.next.1, ih h.next.2, List.count_cons_self, List.range'_succ, List.map_cons]
    · have hanswers : ahead.answers (request :: requests)
          = (ahead.serve request).answers requests := by
        cases request with
        | next => exact absurd rfl hrequest
        | _ => rfl
      rw [hanswers, ih (h.serve hrequest), List.count_cons_of_ne hrequest]

end Stands

/-- Where a lookahead stands behind a run of requests. -/
theorem stands_after (priority : Nat) (stream : σ) (requests : List Request) :
    Stands stream (requests.count .next) (isSeen requests)
      ((ofStream priority stream).after requests) := by
  -- over the run from behind: what was seen is said by the last requests
  induction requests using List.reverseRecOn with
  | nil => exact .ofStream priority stream
  | append_singleton requests request ih =>
    rw [after, List.foldl_concat, List.count_append]
    by_cases hrequest : request = .next
    · subst hrequest
      rw [isSeen_concat_next, List.count_singleton_self]
      exact ih.next.2
    · rw [isSeen_concat_of_ne hrequest, List.count_singleton, if_neg (by simpa using hrequest)]
      exact ih.serve hrequest

/-! ### The law -/

/-- **A lookahead is transparent.** For every stream and every run of requests: the answers
    that are taken are the first ones of the stream, so many as were asked for. The next answer
    to be taken is the next of the stream, and this is what a look at it shows, however many
    looks follow before it is taken; its key is shown if it is an entry. Without loading, it is
    shown exactly if it was looked at since the last answer was taken. The stream was asked for
    the answers that were taken, and for one more exactly if that one was looked at. -/
theorem is_transparent (priority : Nat) (stream : σ) (requests : List Request) :
    let start := ofStream priority stream
    let ahead := start.after requests
    let taken := requests.count .next
    start.answers requests = (List.range taken).map (answerAt stream)
      ∧ ahead.next.1 = answerAt stream taken
      ∧ ahead.peek.1 = answerAt stream taken
      ∧ (∀ looks, .next ∉ looks → (ahead.peek.2.after looks).next.1 = ahead.peek.1)
      ∧ ahead.peekKey.1 = keyOf? (answerAt stream taken)
      ∧ ahead.peeked = (if isSeen requests then answerAt stream taken else none)
      ∧ ahead.rest = behind (if isSeen requests then taken + 1 else taken) stream
      ∧ ((ofStream priority (Counted.mk stream 0)).after requests).rest.asked
        = if isSeen requests then taken + 1 else taken := by
  intro start ahead taken
  have hstands : Stands stream taken (isSeen requests) ahead := stands_after priority stream requests
  refine ⟨?_, hstands.next.1, hstands.peek_eq, ?_, ?_, hstands.peeked_eq, hstands.rest_eq, ?_⟩
  · rw [List.range_eq_range']
    exact (Stands.ofStream priority stream).answers_eq
  · intro looks hlooks
    have hrun : ahead.peek.2.after looks = start.after (requests ++ .peek :: looks) := by
      simp [ahead, after, Lookahead.serve]
    have hcount : (requests ++ .peek :: looks).count .next = taken := by
      simp [taken, List.count_eq_zero_of_not_mem hlooks]
    have hlater := stands_after priority stream (requests ++ .peek :: looks)
    rw [hcount] at hlater
    rw [hrun, hlater.next.1, hstands.peek_eq]
  · show keyOf? ahead.load.peeked = _
    rw [hstands.load.peeked_eq, if_pos rfl]
  · have hcounted := stands_after priority (Counted.mk stream 0) requests
    rw [hcounted.rest_eq, Counted.asked_behind, Nat.zero_add]

/-- A gap that is looked at is handed out once, and the fault behind it comes after it. -/
example :
    let stream : Stream := [some (.ok (.live [1] [2])), none, some (.error .closed)]
    (ofStream 0 stream).answers [.next, .peek, .peek, .next, .peekKey, .peeked, .next, .next]
      = stream ++ [none] := rfl

/-! ### The inputs of a merge -/

/-- Some requests lead from the one lookahead to the other. -/
def Reaches (ahead left : Lookahead σ) : Prop := ∃ requests, ahead.after requests = left

namespace Reaches

variable {ahead between left : Lookahead σ}

theorem refl (ahead : Lookahead σ) : ahead.Reaches ahead := ⟨[], rfl⟩

theorem trans (h : ahead.Reaches between) (hrest : between.Reaches left) : ahead.Reaches left := by
  obtain ⟨requests, rfl⟩ := h
  obtain ⟨others, rfl⟩ := hrest
  exact ⟨requests ++ others, List.foldl_append⟩

theorem load (ahead : Lookahead σ) : ahead.Reaches ahead.load := ⟨[.peek], rfl⟩

theorem next (ahead : Lookahead σ) : ahead.Reaches ahead.next.2 := ⟨[.next], rfl⟩

end Reaches

/-- To pass over a key is to look at the key of the next entry, and to take that entry and
    start again while its key compares equal. -/
theorem skip_eq (order : KeyOrder) (key : Bytes) (ahead : Lookahead) :
    ahead.skip order key
      = if holds order key ahead.peek.1 then ahead.next.2.skip order key else ahead.load := by
  obtain ⟨priority, loaded, rest⟩ := ahead
  cases loaded with
  | some answer => rfl
  | none =>
    cases rest with
    | nil => rfl
    | cons answer rest => rfl

theorem pending_next (ahead : Lookahead) : ahead.next.2.pending = ahead.pending.tail := by
  obtain ⟨priority, loaded, rest⟩ := ahead
  cases loaded <;> rfl

theorem reaches_skip (order : KeyOrder) (key : Bytes) (ahead : Lookahead) :
    ahead.Reaches (ahead.skip order key) := by
  -- over the answers that are still to come: each entry that is passed over is one of them
  induction hpending : ahead.pending generalizing ahead with
  | nil =>
    obtain ⟨priority, loaded, rest⟩ := ahead
    obtain ⟨hloaded, rfl⟩ := List.append_eq_nil_iff.mp hpending
    obtain rfl : loaded = none := by simpa using hloaded
    exact .load _
  | cons answer rest ih =>
    rw [skip_eq]
    split
    · have hrest : ahead.next.2.pending = rest := by rw [pending_next, hpending, List.tail_cons]
      exact (Reaches.next ahead).trans (ih ahead.next.2 hrest)
    · exact .load ahead

end Lookahead

namespace Merge

open Lookahead (Reaches)

variable {inputs others : List Lookahead}

theorem reaches_map {change : Lookahead → Lookahead} (h : List.Forall₂ Reaches inputs others)
    (hchange : ∀ input, Reaches input (change input)) :
    List.Forall₂ Reaches inputs (others.map change) :=
  List.forall₂_map_right_iff.mpr (h.imp fun _ input hinput => hinput.trans (hchange input))

theorem reaches_set {position : Nat} {winner left : Lookahead}
    (h : List.Forall₂ Reaches inputs others) (hwinner : others[position]? = some winner)
    (hleft : winner.Reaches left) : List.Forall₂ Reaches inputs (others.set position left) := by
  induction h generalizing position with
  | nil => exact .nil
  | cons hinput hrest ih =>
    cases position with
    | zero =>
      cases hwinner
      exact .cons (hinput.trans hleft) hrest
    | succ position => exact .cons hinput (ih hwinner)

/-- What a merge does with its inputs at a request is nothing but requests to each of them. So
    each stream answers as it does by itself, and is asked for one answer at most beyond those
    that were taken. -/
theorem reaches_next (merge : Merge) : List.Forall₂ Reaches merge.inputs merge.next.2.inputs := by
  have hsame : List.Forall₂ Reaches merge.inputs merge.inputs :=
    List.forall₂_same.mpr fun input _ => .refl input
  have hload : List.Forall₂ Reaches merge.inputs (merge.inputs.map Lookahead.load) :=
    reaches_map hsame .load
  unfold next
  split
  · exact hsame
  · dsimp only
    split
    · exact hload
    · split
      · exact hload
      · rename_i winner hwinner
        have hset := reaches_set hload hwinner (.next winner)
        split
        · exact hset
        · exact reaches_map hset (Lookahead.reaches_skip merge.order _)
        · exact hset

end Merge

end LayeredStore
