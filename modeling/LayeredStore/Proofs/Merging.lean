import LayeredStore.Merge
import LayeredStore.Proofs.Lookup
import Mathlib.Data.List.Forall2

namespace LayeredStore

/-!
# Merging keeps the winner of each key

Of several ranked runs of ascending entries the merge yields, in ascending order, one
entry for each key that occurs: the first one in the run of lowest priority that has the
key, the earlier run going before where priorities are equal.

* `Lookahead.front` — the items that a lookahead has before its first gap;
* `Merge.Run` — a ranked run of entries;
* `Merge.Wins` — an entry that wins its key among runs;
* `Merge.Leads` — what the selection of the next input keeps while it goes through the
  inputs;
* `Merge.next_spec` — what one step takes, and what it leaves;
* `Merge.items_eq`, `Merge.items_ofInputs` — the merge of ascending runs;
* `Merge.wins_ranked_iff` — among runs that are ranked one behind the other the first
  one with a key wins.
-/

/-! ### What is before the first gap of a stream -/

/-- The items of a stream before its first empty answer. -/
def Stream.front : Stream → List Item
  | some item :: rest => item :: front rest
  | _ => []

theorem Stream.front_ofItems (items : List Item) : (Stream.ofItems items).front = items := by
  induction items with
  | nil => rfl
  | cons item items ih => exact congrArg (item :: ·) ih

namespace Lookahead

/-- The items before the first empty answer. -/
def front (ahead : Lookahead) : List Item := ahead.pending.front

/-- Whether an item is an entry whose key compares equal to `key`. -/
def holdsItem (order : KeyOrder) (key : Bytes) (item : Item) : Bool :=
  holds order key (some item)

@[simp] theorem front_ofItems (priority : Nat) (items : List Item) :
    (ofItems priority items).front = items :=
  Stream.front_ofItems items

@[simp] theorem priority_load (ahead : Lookahead) : ahead.load.priority = ahead.priority := by
  obtain ⟨priority, loaded, rest⟩ := ahead
  cases loaded <;> rfl

/-- Loading changes nothing of what is to come. -/
@[simp] theorem front_load (ahead : Lookahead) : ahead.load.front = ahead.front := by
  obtain ⟨priority, loaded, rest⟩ := ahead
  cases loaded with
  | some answer => rfl
  | none => cases rest <;> rfl

/-- What is seen of a loaded stream is its first item. -/
theorem peeked_load (ahead : Lookahead) : ahead.load.peeked = ahead.front.head? := by
  obtain ⟨priority, loaded, rest⟩ := ahead
  cases loaded with
  | some answer => cases answer <;> rfl
  | none =>
    cases rest with
    | nil => rfl
    | cons answer rest => cases answer <;> rfl

/-- Taking the first item leaves the others. -/
theorem next_load {ahead : Lookahead} {item : Item} {items : List Item}
    (h : ahead.front = item :: items) : ∃ after, ahead.load.next = (some item, after)
      ∧ after.priority = ahead.priority ∧ after.front = items := by
  obtain ⟨priority, loaded, rest⟩ := ahead
  cases loaded with
  | some answer =>
    cases answer with
    | none => cases h
    | some first => cases h; exact ⟨_, rfl, rfl, rfl⟩
  | none =>
    cases rest with
    | nil => cases h
    | cons answer rest =>
      cases answer with
      | none => cases h
      | some first => cases h; exact ⟨_, rfl, rfl, rfl⟩

theorem skipFrom_spec (order : KeyOrder) (key : Bytes) (priority : Nat) (stream : Stream) :
    (skipFrom order key priority stream).priority = priority
      ∧ (skipFrom order key priority stream).front
        = stream.front.dropWhile (holdsItem order key) := by
  induction stream with
  | nil => exact ⟨rfl, rfl⟩
  | cons answer rest ih =>
    cases answer with
    | none => exact ⟨rfl, rfl⟩
    | some item =>
      rw [skipFrom, Stream.front, List.dropWhile_cons, holdsItem]
      cases holds order key (some item) with
      | true => exact ih
      | false => exact ⟨rfl, rfl⟩

/-- Passing over a key drops the entries under it at the front. -/
theorem skip_spec (order : KeyOrder) (key : Bytes) (ahead : Lookahead) :
    (ahead.skip order key).priority = ahead.priority
      ∧ (ahead.skip order key).front = ahead.front.dropWhile (holdsItem order key) := by
  obtain ⟨priority, loaded, rest⟩ := ahead
  cases loaded with
  | none => exact skipFrom_spec order key priority rest
  | some answer =>
    cases answer with
    | none => exact ⟨rfl, rfl⟩
    | some item =>
      have hfront : front ⟨priority, some (some item), rest⟩ = item :: rest.front := rfl
      rw [hfront, List.dropWhile_cons, holdsItem]
      by_cases hholds : holds order key (some item) = true
      · rw [if_pos hholds]
        simp only [skip, if_pos hholds]
        exact skipFrom_spec order key priority rest
      · rw [if_neg hholds]
        simp only [skip, if_neg hholds]
        exact ⟨trivial, rfl⟩

end Lookahead

/-! ### Runs and winners -/

namespace Merge

/-- A ranked run of entries. -/
structure Run where
  priority : Nat
  entries : List Entry

/-- The entry is the first under its key in some run, and every other run that has the
    key ranks behind that run, or stands behind it with the same rank. -/
def Wins (order : KeyOrder) (runs : List Run) (e : Entry) : Prop :=
  ∃ (i : Nat) (run : Run), runs[i]? = some run ∧ order.find? e.key run.entries = some e
    ∧ ∀ (j : Nat) (other : Run), runs[j]? = some other → order.find? e.key other.entries ≠ none →
      run.priority < other.priority ∨ (run.priority = other.priority ∧ i ≤ j)

/-- The entries ascend, and several may be under the same key. -/
def Sorted (order : KeyOrder) (entries : List Entry) : Prop :=
  entries.Pairwise fun a b => (order.compare a.key b.key).isLE

/-- The run without the entries under `key` at its front. -/
def Run.skip (order : KeyOrder) (key : Bytes) (run : Run) : Run :=
  ⟨run.priority, run.entries.dropWhile fun e => order.same e.key key⟩

variable {order : KeyOrder} {runs : List Run} {e f : Entry}

/-- Strictly ascending entries ascend. -/
theorem sorted_of_ascending {entries : List Entry} (h : order.Ascending (keysOf entries)) :
    Sorted order entries := by
  refine List.Pairwise.imp (fun {a b} hab => ?_) (List.pairwise_map.mp h)
  rw [hab]
  rfl

theorem sorted_skip {key : Bytes} {run : Run} (h : Sorted order run.entries) :
    Sorted order (run.skip order key).entries :=
  List.Pairwise.sublist (List.dropWhile_sublist _) h

/-- A winner is an entry of some run. -/
theorem Wins.exists_mem (h : Wins order runs e) : ∃ run ∈ runs, e ∈ run.entries := by
  obtain ⟨i, run, hrun, hfind, _⟩ := h
  exact ⟨run, List.mem_of_getElem? hrun, KeyOrder.mem_of_find? hfind⟩

section Winners

variable [Std.TransCmp order.compare]

/-- No two entries win the same key. -/
theorem Wins.unique (he : Wins order runs e) (hf : Wins order runs f)
    (hsame : order.same e.key f.key = true) : e = f := by
  obtain ⟨i, run, hrun, hfind, hbest⟩ := he
  obtain ⟨j, other, hother, hfound, hleast⟩ := hf
  have hcongr : ∀ entries, order.find? e.key entries = order.find? f.key entries :=
    fun entries => KeyOrder.find?_congr hsame
  -- each ranks no worse than the other, so they come from one run
  have hij := hbest j other hother (by rw [hcongr, hfound]; exact Option.some_ne_none f)
  have hji := hleast i run hrun (by rw [← hcongr, hfind]; exact Option.some_ne_none e)
  obtain rfl : i = j := by omega
  rw [hother] at hrun
  cases hrun
  rw [hcongr, hfound] at hfind
  exact (Option.some.inj hfind).symm

/-- Passing over a key does not change who wins another. -/
theorem wins_skip_iff {key : Bytes} (hkey : order.same e.key key = false) :
    Wins order (runs.map (Run.skip order key)) e ↔ Wins order runs e := by
  -- among the entries passed over none is under the other key
  have hfind : ∀ run : Run, order.find? e.key (run.skip order key).entries
      = order.find? e.key run.entries := by
    intro run
    have hskipped : order.find? e.key (run.entries.takeWhile fun f => order.same f.key key)
        = none := by
      refine KeyOrder.find?_eq_none.mpr fun f hf => Bool.eq_false_iff.mpr fun hsame => ?_
      have hfkey : order.same f.key key = true := eq_true_of_mem_takeWhile f hf
      rw [KeyOrder.same_comm, KeyOrder.same_congr hsame, KeyOrder.same_comm, hkey] at hfkey
      cases hfkey
    have hsplit : run.entries = (run.entries.takeWhile fun f => order.same f.key key)
        ++ (run.skip order key).entries := List.takeWhile_append_dropWhile.symm
    conv => rhs; rw [hsplit, KeyOrder.find?_append, hskipped, Option.none_or]
  simp only [Wins, List.getElem?_map, Option.map_eq_some_iff]
  constructor
  · rintro ⟨i, _, ⟨run, hrun, rfl⟩, hfound, hbest⟩
    refine ⟨i, run, hrun, by rwa [hfind] at hfound, fun j other hother hne => ?_⟩
    exact hbest j (other.skip order key) ⟨other, hother, rfl⟩ (by rwa [hfind])
  · rintro ⟨i, run, hrun, hfound, hbest⟩
    refine ⟨i, _, ⟨run, hrun, rfl⟩, by rwa [hfind], ?_⟩
    rintro j _ ⟨other, hother, rfl⟩ hne
    exact hbest j other hother (by rwa [hfind] at hne)

/-- Besides an entry that wins, those win that win among what is left behind its key. -/
theorem Wins.iff_skip (hwins : Wins order runs e)
    (hlt : ∀ run ∈ runs, ∀ f ∈ (run.skip order e.key).entries, order.compare e.key f.key = .lt) :
    Wins order runs f ↔ f = e ∨ Wins order (runs.map (Run.skip order e.key)) f := by
  constructor
  · intro hf
    by_cases hsame : order.same f.key e.key = true
    · exact .inl (hf.unique hwins hsame)
    · exact .inr ((wins_skip_iff (Bool.eq_false_iff.mpr hsame)).mpr hf)
  · rintro (rfl | hf)
    · exact hwins
    · obtain ⟨_, hskipped, hmem⟩ := hf.exists_mem
      obtain ⟨run, hrun, rfl⟩ := List.mem_map.mp hskipped
      have hgt := Std.OrientedCmp.gt_of_lt (hlt run hrun f hmem)
      exact (wins_skip_iff (KeyOrder.same_eq_false_of_gt hgt)).mp hf

end Winners

/-! ### The selection of the next input -/

/-- The lookahead has the entries of a run before it, and its rank. -/
def Shows (run : Run) (ahead : Lookahead) : Prop :=
  ahead.priority = run.priority ∧ ahead.front = run.entries.map .ok

/-- The candidate stands for the first entry of a run. -/
def Candidate.IsHead (runs : List Run) (c : Candidate) : Prop :=
  ∃ e entries, runs[c.position]? = some ⟨c.priority, e :: entries⟩ ∧ e.key = c.key

/-- A candidate goes before another by its key, and under an equal key by its priority and
    then by its position. -/
def Candidate.Before (order : KeyOrder) (a b : Candidate) : Prop :=
  order.compare a.key b.key = .lt ∨ (order.compare a.key b.key = .eq
    ∧ (a.priority < b.priority ∨ (a.priority = b.priority ∧ a.position ≤ b.position)))

/-- The candidate, if any, stands for the first entry of a run and goes before all others
    that do. -/
def Leads (order : KeyOrder) (runs : List Run) (best : Option Candidate) : Prop :=
  (∀ b ∈ best, b.IsHead runs) ∧ ∀ c : Candidate, c.IsHead runs → ∃ b ∈ best, b.Before order c

section Selection

variable {seen rest : List Run} {run : Run} {best : Option Candidate} {a b c : Candidate}

/-- The heads of the runs with one more are those before and that of the last run. -/
theorem isHead_append_singleton : c.IsHead (seen ++ [run]) ↔
    c.IsHead seen ∨ (c.position = seen.length ∧ c.priority = run.priority
      ∧ ∃ e entries, run.entries = e :: entries ∧ e.key = c.key) := by
  constructor
  · rintro ⟨e, entries, hget, hkey⟩
    rcases Nat.lt_or_ge c.position seen.length with hlt | hge
    · rw [List.getElem?_append_left hlt] at hget
      exact .inl ⟨e, entries, hget, hkey⟩
    · rw [List.getElem?_append_right hge, List.getElem?_singleton] at hget
      split at hget
      · cases hget
        exact .inr ⟨by omega, rfl, e, entries, rfl, hkey⟩
      · cases hget
  · rintro (⟨e, entries, hget, hkey⟩ | ⟨hposition, hpriority, e, entries, hentries, hkey⟩)
    · refine ⟨e, entries, ?_, hkey⟩
      rwa [List.getElem?_append_left (List.getElem?_eq_some_iff.mp hget).1]
    · refine ⟨e, entries, ?_, hkey⟩
      rw [hposition, List.getElem?_concat_length, hpriority, ← hentries]

theorem position_lt_of_isHead (h : c.IsHead seen) : c.position < seen.length := by
  obtain ⟨e, entries, hget, _⟩ := h
  exact (List.getElem?_eq_some_iff.mp hget).1

theorem leads_nil : Leads order [] none := by
  refine ⟨fun b hb => ?_, fun c hc => ?_⟩
  · cases hb
  · exact absurd (position_lt_of_isHead hc) (Nat.not_lt_zero _)

/-- A run without entries changes nothing. -/
theorem leads_append_empty (h : Leads order seen best) (hrun : run.entries = []) :
    Leads order (seen ++ [run]) best := by
  refine ⟨fun b hb => isHead_append_singleton.mpr (.inl (h.1 b hb)), fun c hc => ?_⟩
  rcases isHead_append_singleton.mp hc with hc | ⟨_, _, e, entries, hentries, _⟩
  · exact h.2 c hc
  · rw [hrun] at hentries
    cases hentries

variable [Std.TransCmp order.compare]

theorem before_trans (hab : a.Before order b) (hbc : b.Before order c) : a.Before order c := by
  rcases hab with hab | ⟨hab, hranks⟩
  · refine .inl (Std.TransCmp.lt_of_lt_of_isLE hab ?_)
    rcases hbc with hbc | ⟨hbc, _⟩ <;> rw [hbc] <;> rfl
  · rcases hbc with hbc | ⟨hbc, hranked⟩
    · exact .inl (Std.TransCmp.lt_of_eq_of_lt hab hbc)
    · exact .inr ⟨Std.TransCmp.eq_trans hab hbc, by omega⟩

/-- A run whose first entry does not go before the candidate leaves it in the lead. -/
theorem leads_append_kept {entries : List Entry} (h : Leads order seen best)
    (hrun : run.entries = e :: entries)
    (hkept : goesBefore order e.key run.priority best = false) :
    Leads order (seen ++ [run]) best := by
  refine ⟨fun b hb => isHead_append_singleton.mpr (.inl (h.1 b hb)), fun c hc => ?_⟩
  rcases isHead_append_singleton.mp hc with hc | ⟨hposition, hpriority, f, rest, hhead, hkey⟩
  · exact h.2 c hc
  · rw [hrun] at hhead
    cases hhead
    -- the new head is compared with the candidate; the other way round is what is needed
    cases best with
    | none => cases hkept
    | some b =>
      have hlt := position_lt_of_isHead (h.1 b rfl)
      have hswap : order.compare b.key e.key = (order.compare e.key b.key).swap :=
        Std.OrientedCmp.eq_swap
      refine ⟨b, rfl, ?_⟩
      rw [goesBefore] at hkept
      rw [Candidate.Before, ← hkey, hswap]
      cases hcompare : order.compare e.key b.key with
      | lt => rw [hcompare] at hkept; cases hkept
      | eq =>
        rw [hcompare] at hkept
        have hge : ¬ run.priority < b.priority := of_decide_eq_false hkept
        exact .inr ⟨rfl, by omega⟩
      | gt => exact .inl rfl

/-- A run whose first entry goes before the candidate takes the lead. -/
theorem leads_append_taken {entries : List Entry} (h : Leads order seen best)
    (hrun : run.entries = e :: entries)
    (htaken : goesBefore order e.key run.priority best = true) :
    Leads order (seen ++ [run]) (some ⟨seen.length, e.key, run.priority⟩) := by
  refine ⟨fun b hb => ?_, fun c hc => ⟨_, rfl, ?_⟩⟩
  · cases hb
    exact isHead_append_singleton.mpr (.inr ⟨rfl, rfl, e, entries, hrun, rfl⟩)
  · rcases isHead_append_singleton.mp hc with hc | ⟨hposition, hpriority, f, rest, hhead, hkey⟩
    · -- the new head goes before the candidate, which goes before the heads that were seen
      obtain ⟨b, hb, hbefore⟩ := h.2 c hc
      cases hb
      refine before_trans ?_ hbefore
      rw [goesBefore] at htaken
      rw [Candidate.Before]
      cases hcompare : order.compare e.key b.key with
      | lt => exact .inl rfl
      | eq =>
        rw [hcompare] at htaken
        exact .inr ⟨rfl, .inl (of_decide_eq_true htaken)⟩
      | gt => rw [hcompare] at htaken; cases htaken
    · rw [hrun] at hhead
      cases hhead
      rw [Candidate.Before, ← hkey]
      exact .inr ⟨Std.ReflCmp.compare_self, .inr ⟨hpriority.symm, Nat.le_of_eq hposition.symm⟩⟩

/-- The selection ends with the position of a candidate that leads all runs. -/
theorem selectFrom_spec {inputs : List Lookahead} (hbest : Leads order seen best)
    (hinputs : List.Forall₂ Shows rest inputs) :
    ∃ last, Leads order (seen ++ rest) last
      ∧ selectFrom order best seen.length (inputs.map Lookahead.load)
        = last.map Candidate.position := by
  -- over the inputs that were not yet looked at: the candidate leads those that were
  induction hinputs generalizing seen best with
  | nil => exact ⟨best, by rwa [List.append_nil], rfl⟩
  | @cons run input rest inputs hshows hinputs ih =>
    obtain ⟨hpriority, hfront⟩ := hshows
    rw [List.map_cons, selectFrom, Lookahead.peeked_load, hfront, Lookahead.priority_load,
      hpriority]
    have hrest : seen ++ run :: rest = (seen ++ [run]) ++ rest := by
      rw [List.append_assoc, List.singleton_append]
    have hlength : seen.length + 1 = (seen ++ [run]).length := by
      rw [List.length_append, List.length_singleton]
    rw [hrest, hlength]
    cases hentries : run.entries with
    | nil => exact ih (leads_append_empty hbest hentries)
    | cons e entries =>
      rw [List.map_cons, List.head?_cons]
      by_cases htaken : goesBefore order e.key run.priority best = true
      · simp only [if_pos htaken]
        exact ih (leads_append_taken hbest hentries htaken)
      · simp only [if_neg htaken]
        exact ih (leads_append_kept hbest hentries (Bool.eq_false_iff.mpr htaken))

end Selection

/-! ### One step -/

section Step

variable [Std.TransCmp order.compare]

/-- What is left of an ascending run behind a key that nothing in it comes before comes
    after that key. -/
theorem lt_of_mem_skip {key : Bytes} {run : Run} (hrun : Sorted order run.entries)
    (hge : ∀ f ∈ run.entries, (order.compare key f.key).isLE) :
    ∀ f ∈ (run.skip order key).entries, order.compare key f.key = .lt := by
  have hfront : run.entries.Pairwise fun f g =>
      order.same g.key key = true → order.same f.key key = true := by
    refine hrun.imp_of_mem fun {f g} hf _ hle hsame => ?_
    -- an entry before one under the key is not before the key, so it is under it
    have hgkey := Std.OrientedCmp.eq_symm (KeyOrder.same_iff.mp hsame)
    have hfkey : (order.compare f.key key).isLE := by
      rw [Std.TransCmp.congr_right hgkey]
      exact hle
    exact KeyOrder.same_iff.mpr (Std.OrientedCmp.isLE_antisymm hfkey (hge f hf))
  intro f hf
  have hnot := eq_false_of_mem_dropWhile hfront f hf
  have hle := hge f ((List.dropWhile_sublist _).mem hf)
  rw [KeyOrder.same_comm] at hnot
  cases hcompare : order.compare key f.key with
  | lt => rfl
  | eq => rw [KeyOrder.same_iff.mpr hcompare] at hnot; cases hnot
  | gt => rw [hcompare] at hle; cases hle

/-- A candidate that leads ascending runs comes before all entries or is under their key. -/
theorem isLE_of_leads {b : Candidate} (hlead : Leads order runs (some b))
    (hruns : ∀ run ∈ runs, Sorted order run.entries) :
    ∀ run ∈ runs, ∀ f ∈ run.entries, (order.compare b.key f.key).isLE := by
  intro run hrun f hf
  obtain ⟨j, hj⟩ := List.getElem?_of_mem hrun
  obtain ⟨priority, entries⟩ := run
  cases entries with
  | nil => cases hf
  | cons head entries =>
    obtain ⟨_, hb, hbefore⟩ := hlead.2 ⟨j, head.key, priority⟩ ⟨head, entries, hj, rfl⟩
    cases hb
    -- it goes before the first entry of the run, which comes before the others
    have hhead : (order.compare b.key head.key).isLE := by
      rcases hbefore with h | ⟨h, _⟩ <;> rw [h] <;> rfl
    rcases List.mem_cons.mp hf with rfl | hf
    · exact hhead
    · exact Std.TransCmp.isLE_trans hhead ((List.pairwise_cons.mp (hruns _ hrun)).1 f hf)

/-- The entry of a candidate that leads ascending runs wins its key. -/
theorem wins_of_leads {b : Candidate} {entries : List Entry} (hlead : Leads order runs (some b))
    (hruns : ∀ run ∈ runs, Sorted order run.entries)
    (hget : runs[b.position]? = some ⟨b.priority, e :: entries⟩) (hkey : e.key = b.key) :
    Wins order runs e := by
  refine ⟨b.position, _, hget, KeyOrder.find?_cons_of_same (KeyOrder.same_refl e.key), ?_⟩
  intro j other hother hne
  obtain ⟨priority, found⟩ := other
  cases found with
  | nil => exact absurd rfl hne
  | cons head found =>
    obtain ⟨_, hb, hbefore⟩ := hlead.2 ⟨j, head.key, priority⟩ ⟨head, found, hother, rfl⟩
    cases hb
    rcases hbefore with hlt | ⟨_, hranks⟩
    · -- a run that begins behind the key does not have it
      refine absurd (KeyOrder.find?_eq_none.mpr fun f hf => ?_) hne
      have hle : (order.compare head.key f.key).isLE := by
        rcases List.mem_cons.mp hf with rfl | hf
        · exact Std.ReflCmp.isLE_rfl
        · exact (List.pairwise_cons.mp (hruns _ (List.mem_of_getElem? hother))).1 f hf
      have hafter := Std.TransCmp.lt_of_lt_of_isLE hlt hle
      exact KeyOrder.same_eq_false_of_gt (Std.OrientedCmp.gt_of_lt (hkey ▸ hafter))
    · exact hranks

omit [Std.TransCmp order.compare] in
/-- Passing over a key keeps what a lookahead shows of a run. -/
theorem shows_skip {key : Bytes} {run : Run} {ahead : Lookahead} (h : Shows run ahead) :
    Shows (run.skip order key) (ahead.skip order key) := by
  obtain ⟨hpriority, hfront⟩ := h
  obtain ⟨hsame, hskip⟩ := Lookahead.skip_spec order key ahead
  refine ⟨hsame.trans hpriority, ?_⟩
  rw [hskip, hfront, List.dropWhile_map]
  rfl

variable (order) in
/-- Taking the first entry of a run and then passing over its key everywhere leaves what
    passing over that key alone would leave. -/
theorem shows_step {inputs : List Lookahead} {position priority : Nat} {entries : List Entry}
    (hinputs : List.Forall₂ Shows runs inputs)
    (hget : runs[position]? = some ⟨priority, e :: entries⟩) :
    ∃ winner after, (inputs.map Lookahead.load)[position]? = some winner
      ∧ winner.next = (some (.ok e), after)
      ∧ List.Forall₂ Shows (runs.map (Run.skip order e.key))
        (((inputs.map Lookahead.load).set position after).map (·.skip order e.key)) := by
  -- the input at the position is the first one, or stands among the others
  induction hinputs generalizing position with
  | nil => cases hget
  | @cons run input rest inputs hshows hinputs ih =>
    have hload : Shows run input.load :=
      ⟨input.priority_load.trans hshows.1, input.front_load.trans hshows.2⟩
    cases position with
    | zero =>
      obtain rfl : run = ⟨priority, e :: entries⟩ := by simpa using hget
      obtain ⟨after, hnext, hpriority, hfront⟩ := Lookahead.next_load hshows.2
      refine ⟨input.load, after, rfl, hnext, .cons ?_ ?_⟩
      · have hskip : Run.skip order e.key ⟨priority, e :: entries⟩
            = Run.skip order e.key ⟨priority, entries⟩ := by
          simp only [Run.skip, List.dropWhile_cons, KeyOrder.same_refl, if_true]
        rw [hskip]
        exact shows_skip ⟨hpriority.trans hshows.1, hfront⟩
      · rw [List.forall₂_map_left_iff, List.forall₂_map_right_iff, List.forall₂_map_right_iff]
        exact hinputs.imp fun other ahead h =>
          shows_skip ⟨ahead.priority_load.trans h.1, ahead.front_load.trans h.2⟩
    | succ position =>
      obtain ⟨winner, after, hwinner, hnext, hrest⟩ := ih (by simpa using hget)
      exact ⟨winner, after, hwinner, hnext, .cons (shows_skip hload) hrest⟩

end Step

variable {merge : Merge} [Std.TransCmp merge.order.compare]

/-- A step of a merge whose inputs show runs: where no run has an entry it yields nothing,
    and else it yields the entry of a candidate that leads and passes over its key. -/
theorem next_spec (hfailed : merge.failed = false)
    (hinputs : List.Forall₂ Shows runs merge.inputs) :
    ((∀ run ∈ runs, run.entries = []) ∧ ∃ after, merge.next = (none, after))
      ∨ ∃ b e entries after, Leads merge.order runs (some b)
        ∧ runs[b.position]? = some ⟨b.priority, e :: entries⟩ ∧ e.key = b.key
        ∧ merge.next = (some (.ok e), after) ∧ after.order = merge.order
        ∧ after.failed = false
        ∧ List.Forall₂ Shows (runs.map (Run.skip merge.order e.key)) after.inputs := by
  obtain ⟨last, hlead, hselect⟩ := selectFrom_spec (leads_nil : Leads merge.order [] none) hinputs
  rw [List.nil_append] at hlead
  rw [List.length_nil] at hselect
  cases last with
  | none =>
    -- without a candidate no run has a head
    refine .inl ⟨fun run hrun => ?_, { merge with inputs := merge.inputs.map Lookahead.load }, ?_⟩
    · obtain ⟨j, hj⟩ := List.getElem?_of_mem hrun
      obtain ⟨priority, entries⟩ := run
      cases entries with
      | nil => rfl
      | cons head entries =>
        obtain ⟨_, hnone, _⟩ := hlead.2 ⟨j, head.key, priority⟩ ⟨head, entries, hj, rfl⟩
        cases hnone
    · simp only [next, hfailed, select, hselect, Option.map_none]
      rfl
  | some b =>
    obtain ⟨e, entries, hget, hkey⟩ := hlead.1 b rfl
    obtain ⟨winner, rest, hwinner, hnext, hafter⟩ := shows_step merge.order hinputs hget
    let inputs := (merge.inputs.map Lookahead.load).set b.position rest
    refine .inr ⟨b, e, entries, { merge with inputs := inputs.map (·.skip merge.order e.key) },
      hlead, hget, hkey, ?_, rfl, hfailed, hafter⟩
    simp only [next, hfailed, select, hselect, Option.map_some, hwinner, hnext]
    rfl

/-! ### The whole merge -/

/-- The merge of ascending runs yields their winners, ascending. -/
theorem items_eq (hfailed : merge.failed = false)
    (hinputs : List.Forall₂ Shows runs merge.inputs)
    (hruns : ∀ run ∈ runs, Sorted merge.order run.entries) :
    ∃ merged : List Entry, merge.items = merged.map .ok ∧ merge.order.Ascending (keysOf merged)
      ∧ ∀ e, e ∈ merged ↔ Wins merge.order runs e := by
  -- every step takes an item from the inputs, so on the number of those that remain
  induction hn : merge.remaining using Nat.strongRecOn generalizing merge runs with
  | _ n ih =>
    rcases next_spec hfailed hinputs with ⟨hempty, after, hnext⟩
      | ⟨b, e, entries, after, hlead, hget, hkey, hnext, horder, hafterOk, hafter⟩
    · refine ⟨[], items_of_none hnext, KeyOrder.ascending_nil, fun f => ⟨fun hf => ?_, fun hf => ?_⟩⟩
      · cases hf
      · obtain ⟨run, hrun, hf⟩ := hf.exists_mem
        rw [hempty run hrun] at hf
        cases hf
    · have hwins : Wins merge.order runs e := wins_of_leads hlead hruns hget hkey
      have hlt : ∀ run ∈ runs, ∀ f ∈ (run.skip merge.order e.key).entries,
          merge.order.compare e.key f.key = .lt := fun run hrun =>
        lt_of_mem_skip (hruns run hrun) (hkey ▸ isLE_of_leads hlead hruns run hrun)
      -- the inputs that are left show the runs without the key, which ascend as well
      have hskip : ∀ run ∈ runs.map (Run.skip merge.order e.key), Sorted merge.order run.entries :=
        List.forall_mem_map.mpr fun run hrun => sorted_skip (hruns run hrun)
      rw [← horder] at hafter hskip
      have : Std.TransCmp after.order.compare := horder ▸ inferInstance
      obtain ⟨rest, hitems, hascending, hmem⟩ :=
        ih after.remaining (hn ▸ remaining_next_lt hnext) hafterOk hafter hskip rfl
      rw [horder] at hascending hmem
      refine ⟨e :: rest, by rw [items_of_some hnext, hitems, List.map_cons], ?_, fun f => ?_⟩
      · refine KeyOrder.ascending_cons.mpr ⟨List.forall_mem_map.mpr fun f hf => ?_, hascending⟩
        obtain ⟨_, hskipped, hfrun⟩ := ((hmem f).mp hf).exists_mem
        obtain ⟨run, hrun, rfl⟩ := List.mem_map.mp hskipped
        exact hlt run hrun f hfrun
      · rw [List.mem_cons, hmem, hwins.iff_skip hlt]

/-- The merge of inputs that show ascending runs. -/
theorem items_ofInputs [Std.TransCmp order.compare] {inputs : List Lookahead}
    (hinputs : List.Forall₂ Shows runs inputs) (hruns : ∀ run ∈ runs, Sorted order run.entries) :
    ∃ merged : List Entry, (ofInputs order inputs).items = merged.map .ok
      ∧ order.Ascending (keysOf merged) ∧ ∀ e, e ∈ merged ↔ Wins order runs e :=
  have : Std.TransCmp (ofInputs order inputs).order.compare :=
    inferInstanceAs (Std.TransCmp order.compare)
  items_eq rfl hinputs hruns

/-! ### Runs ranked one behind the other -/

/-- The runs of layers, ranked from `priority` on. -/
def ranked (priority : Nat) : List (List Entry) → List Run
  | [] => []
  | layer :: layers => ⟨priority, layer⟩ :: ranked (priority + 1) layers

theorem priority_of_ranked {priority i : Nat} {layers : List (List Entry)} {run : Run}
    (h : (ranked priority layers)[i]? = some run) : run.priority = priority + i := by
  induction layers generalizing priority i with
  | nil => cases h
  | cons layer layers ih =>
    cases i with
    | zero => cases h; rfl
    | succ i =>
      have hlater : run.priority = priority + 1 + i := ih h
      omega

/-- The first of a sequence of ranked runs wins with the keys that it has, and leaves the
    other keys to the runs behind it. -/
theorem wins_ranked_cons_iff {priority : Nat} {layer : List Entry} {layers : List (List Entry)} :
    Wins order (ranked priority (layer :: layers)) e ↔ order.find? e.key layer = some e
      ∨ (order.find? e.key layer = none ∧ Wins order (ranked (priority + 1) layers) e) := by
  constructor
  · rintro ⟨i, run, hrun, hfind, hbest⟩
    cases i with
    | zero => cases hrun; exact .inl hfind
    | succ i =>
      have hlater : run.priority = priority + 1 + i := priority_of_ranked hrun
      refine .inr ⟨?_, i, run, hrun, hfind, fun j other hother hne => ?_⟩
      · -- else the first run, which ranks before all others, would win
        by_contra hne
        have hranks := hbest 0 ⟨priority, layer⟩ rfl hne
        dsimp only at hranks
        omega
      · have hranks := hbest (j + 1) other hother hne
        omega
  · rintro (hfind | ⟨hnone, i, run, hrun, hfind, hbest⟩)
    · refine ⟨0, ⟨priority, layer⟩, rfl, hfind, fun j other hother _ => ?_⟩
      have hlater := priority_of_ranked hother
      dsimp only
      omega
    · refine ⟨i + 1, run, hrun, hfind, fun j other hother hne => ?_⟩
      cases j with
      | zero => cases hother; exact absurd hnone hne
      | succ j =>
        have hranks := hbest j other hother hne
        omega

/-- Among runs that are ranked one behind the other the first one with a key wins. -/
theorem wins_ranked_iff {priority : Nat} {layers : List (List Entry)} :
    Wins order (ranked priority layers) e ↔ order.find? e.key layers.flatten = some e := by
  induction layers generalizing priority with
  | nil =>
    refine ⟨fun ⟨i, run, hrun, _⟩ => ?_, fun h => ?_⟩
    · cases hrun
    · cases h
  | cons layer layers ih =>
    rw [wins_ranked_cons_iff, ih, List.flatten_cons, KeyOrder.find?_append]
    cases order.find? e.key layer with
    | none => simp
    | some f => simp

end Merge

end LayeredStore
