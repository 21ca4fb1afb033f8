import LayeredStore.Proofs.Layout
import Mathlib.Data.List.GetD

namespace LayeredStore

/-!
# Look-up by bisection is exact

In a table whose keys ascend, bisection finds the one record whose key compares equal
to the key that is looked for, or else the number of records that come before it.

* `KeyOrder.Ascending` — keys that ascend strictly, so no two compare equal;
* `IsCut`, `bisect_exact` — bisection finds where the elements that come before end;
* `Table.HasKeys` — a table whose records give certain keys, whatever their values;
* `Table.HasKeys.search_eq_of_append` — what bisection answers;
* `exists_cut`, `KeyOrder.find?_of_cut` — ascending entries cut at a key;
* `Table.Holds.get?_eq` — a table of ascending entries answers with the entry that has
  the key.
-/

/-! ### Ascending keys -/

namespace KeyOrder

/-- The keys ascend strictly. -/
def Ascending (order : KeyOrder) (keys : List Bytes) : Prop :=
  keys.Pairwise fun a b => order.compare a b = .lt

instance (order : KeyOrder) (keys : List Bytes) : Decidable (order.Ascending keys) :=
  inferInstanceAs (Decidable (keys.Pairwise _))

/-- Whether a key comes before another. -/
def precedes (order : KeyOrder) (a b : Bytes) : Bool := order.compare a b == .lt

/-- Whether two keys compare equal. -/
def same (order : KeyOrder) (a b : Bytes) : Bool := order.compare a b == .eq

variable {order : KeyOrder} {a b c : Bytes}

theorem precedes_iff : order.precedes a b = true ↔ order.compare a b = .lt :=
  beq_iff_eq

theorem same_iff : order.same a b = true ↔ order.compare a b = .eq :=
  beq_iff_eq

theorem same_eq_false_of_lt (h : order.compare a b = .lt) : order.same a b = false := by
  rw [same, h]
  rfl

theorem same_eq_false_of_gt (h : order.compare a b = .gt) : order.same a b = false := by
  rw [same, h]
  rfl

theorem ascending_nil : order.Ascending [] :=
  List.Pairwise.nil

theorem ascending_cons {key : Bytes} {keys : List Bytes} :
    order.Ascending (key :: keys)
      ↔ (∀ k ∈ keys, order.compare key k = .lt) ∧ order.Ascending keys :=
  List.pairwise_cons

theorem ascending_append {left right : List Bytes} :
    order.Ascending (left ++ right)
      ↔ order.Ascending left ∧ order.Ascending right
        ∧ ∀ a ∈ left, ∀ b ∈ right, order.compare a b = .lt :=
  List.pairwise_append

variable [Std.TransCmp order.compare]

/-- What comes before a key that comes before another comes before that. -/
theorem precedes_of_lt (h : order.compare a b = .lt) (hb : order.precedes b c = true) :
    order.precedes a c = true :=
  precedes_iff.mpr (Std.TransCmp.lt_trans h (precedes_iff.mp hb))

/-- What comes after something that is not before a key comes after that key. -/
theorem compare_eq_gt_of_lt (h : order.compare a b = .lt) (ha : order.precedes a c = false) :
    order.compare b c = .gt := by
  refine Std.OrientedCmp.gt_of_lt (Std.TransCmp.lt_of_isLE_of_lt ?_ h)
  cases hcompare : order.compare a c with
  | lt => rw [precedes_iff.mpr hcompare] at ha; cases ha
  | eq => rw [Std.OrientedCmp.eq_symm hcompare]; rfl
  | gt => rw [Std.OrientedCmp.lt_of_gt hcompare]; rfl

end KeyOrder

/-! ### Lists cut where a property ends -/

section Front

variable {α : Type} {p : α → Bool} {l : List α}

/-- Where a property passes from each element to those before it, nothing behind the
    first element without it has it. -/
theorem eq_false_of_mem_dropWhile (hl : l.Pairwise fun a b => p b = true → p a = true) :
    ∀ a ∈ l.dropWhile p, p a = false := by
  induction l with
  | nil => simp
  | cons first l ih =>
    obtain ⟨hfirst, hl⟩ := List.pairwise_cons.mp hl
    by_cases h : p first = true
    · rw [List.dropWhile_cons_of_pos h]
      exact ih hl
    · -- the first element has not got it, and with it everything behind
      rw [List.dropWhile_cons_of_neg h]
      intro a ha
      rcases List.mem_cons.mp ha with rfl | ha
      · exact Bool.eq_false_iff.mpr h
      · exact Bool.eq_false_iff.mpr fun hpa => h (hfirst a ha hpa)

theorem eq_true_of_mem_takeWhile : ∀ a ∈ l.takeWhile p, p a = true :=
  fun a ha => List.all_eq_true.mp List.all_takeWhile a ha

end Front

/-! ### Bisection -/

/-- The elements before index `high` are cut at `below`: everything before it comes before
    what is looked for, everything behind it comes after that, and the element at `below`
    does not come before. -/
structure IsCut (cmp : Nat → Ordering) (high below : Nat) : Prop where
  before : ∀ i, i < below → cmp i = .lt
  at_cut : below < high → cmp below ≠ .lt
  behind : ∀ i, below < i → i < high → cmp i = .gt

namespace IsCut

variable {cmp : Nat → Ordering} {high high' below i : Nat}

theorem mono (h : IsCut cmp high below) (hle : high' ≤ high) : IsCut cmp high' below where
  before := h.before
  at_cut := fun hbelow => h.at_cut (by omega)
  behind := fun i hi hih => h.behind i hi (by omega)

/-- What comes before what is looked for stands before the cut. -/
theorem lt_of_lt (h : IsCut cmp high below) (hi : i < high) (hcmp : cmp i = .lt) : i < below := by
  rcases Nat.lt_trichotomy i below with hlt | heq | hgt
  · exact hlt
  · subst heq
    exact absurd hcmp (h.at_cut hi)
  · rw [h.behind i hgt hi] at hcmp
    cases hcmp

/-- What comes after what is looked for does not stand before the cut. -/
theorem le_of_gt (h : IsCut cmp high below) (hcmp : cmp i = .gt) : below ≤ i := by
  refine Nat.le_of_not_lt fun hlt => ?_
  rw [h.before i hlt] at hcmp
  cases hcmp

/-- Only at the cut there can be what is looked for. -/
theorem eq_of_eq (h : IsCut cmp high below) (hi : i < high) (hcmp : cmp i = .eq) : i = below := by
  rcases Nat.lt_trichotomy i below with hlt | heq | hgt
  · rw [h.before i hlt] at hcmp
    cases hcmp
  · exact heq
  · rw [h.behind i hgt hi] at hcmp
    cases hcmp

end IsCut

/-- Bisection finds the cut, and what is looked for if it is there. -/
theorem bisect_exact {ε : Type} {probe : Nat → Except ε Ordering} {cmp : Nat → Ordering}
    {low high below : Nat} (hprobe : ∀ i, low ≤ i → i < high → probe i = .ok (cmp i))
    (hlow : low ≤ below) (hhigh : below ≤ high) (hcut : IsCut cmp high below) :
    bisect probe low high
      = .ok (if below < high ∧ cmp below = .eq then .found below else .absent below) := by
  -- along the recursion of the search: the cut stays between the two bounds
  fun_induction bisect probe low high with
  | case1 low high hless middle e herror =>
    have hmiddle := hprobe middle (by omega) (by omega)
    rw [herror] at hmiddle
    cases hmiddle
  | case2 low high hless middle hbefore ih =>
    have hmiddle := hprobe middle (by omega) (by omega)
    have hcmp : cmp middle = .lt := (Except.ok.inj (hbefore.symm.trans hmiddle)).symm
    have hbelow : middle < below := hcut.lt_of_lt (by omega) hcmp
    exact ih (fun i hi hih => hprobe i (by omega) hih) (by omega) hhigh hcut
  | case3 low high hless middle hafter ih =>
    have hmiddle := hprobe middle (by omega) (by omega)
    have hcmp : cmp middle = .gt := (Except.ok.inj (hafter.symm.trans hmiddle)).symm
    have hbelow : below ≤ middle := hcut.le_of_gt hcmp
    -- the element at `middle` was not equal, so giving it up loses nothing
    have hsame : (below < middle ∧ cmp below = .eq) ↔ (below < high ∧ cmp below = .eq) := by
      constructor
      · exact fun h => ⟨by omega, h.2⟩
      · intro h
        refine ⟨Nat.lt_of_le_of_ne hbelow fun heq => ?_, h.2⟩
        rw [← heq, h.2] at hcmp
        cases hcmp
    rw [ih (fun i hi hih => hprobe i hi (by omega)) hlow hbelow (hcut.mono (by omega))]
    simp only [hsame]
  | case4 low high hless middle hequal =>
    have hmiddle := hprobe middle (by omega) (by omega)
    have hcmp : cmp middle = .eq := (Except.ok.inj (hequal.symm.trans hmiddle)).symm
    have hbelow : middle = below := hcut.eq_of_eq (by omega) hcmp
    rw [if_pos ⟨by omega, hbelow ▸ hcmp⟩, hbelow]
  | case5 low high hge =>
    have hbelow : below = low := by omega
    rw [if_neg (fun h => by omega), hbelow]

/-! ### Tables with certain keys -/

/-- The table's records give the listed keys. Nothing is said about their values. -/
structure Table.HasKeys (table : Table) (keys : List Bytes) : Prop where
  count_eq : table.count = keys.length
  keyAt_eq : ∀ before key after, keys = before ++ key :: after →
    table.keyAt before.length = .ok key

namespace Table.HasKeys

variable {table : Table} {keys : List Bytes}

/-- A record gives the key that is listed at its index. -/
theorem keyAt_getElem (h : table.HasKeys keys) {i : Nat} (hi : i < keys.length) :
    table.keyAt i = .ok keys[i] := by
  have hsplit : keys = keys.take i ++ keys[i] :: keys.drop (i + 1) := by
    rw [← List.drop_eq_getElem_cons hi, List.take_append_drop]
  have hkey := h.keyAt_eq _ _ _ hsplit
  rwa [List.length_take_of_le (by omega)] at hkey

/-- The comparison of a record's key is that of the listed key. -/
theorem compareAt_eq (h : table.HasKeys keys) (key : Bytes) {i : Nat} (hi : i < keys.length) :
    table.compareAt key i = .ok (table.order.compare (keys.getD i []) key) := by
  rw [compareAt, h.keyAt_getElem hi, List.getD_eq_getElem _ _ hi]
  rfl

variable [Std.TransCmp table.order.compare]

/-- Ascending keys are cut where the keys that come before a key end. -/
theorem isCut_of_append {order : KeyOrder} [Std.TransCmp order.compare] {front back : List Bytes}
    {key : Bytes} (hkeys : order.Ascending (front ++ back))
    (hfront : ∀ k ∈ front, order.precedes k key = true)
    (hback : ∀ k ∈ back, order.precedes k key = false) :
    IsCut (fun i => order.compare ((front ++ back).getD i []) key) (front ++ back).length
      front.length where
  before := by
    intro i hi
    rw [List.getD_append _ _ _ _ hi, List.getD_eq_getElem _ _ hi]
    exact KeyOrder.precedes_iff.mp (hfront _ (List.getElem_mem hi))
  at_cut := by
    intro hlength hlt
    cases back with
    | nil => simp at hlength
    | cons first back =>
      rw [List.getD_append_right _ _ _ _ (Nat.le_refl _), Nat.sub_self,
        List.getD_cons_zero] at hlt
      have hfalse := hback first List.mem_cons_self
      rw [KeyOrder.precedes_iff.mpr hlt] at hfalse
      cases hfalse
  behind := by
    intro i hi hlength
    obtain ⟨j, rfl⟩ : ∃ j, i = front.length + (j + 1) := ⟨i - front.length - 1, by omega⟩
    rw [List.getD_append_right _ _ _ _ (by omega), Nat.add_sub_cancel_left]
    rw [List.length_append] at hlength
    cases back with
    | nil => rw [List.length_nil] at hlength; omega
    | cons first back =>
      rw [List.length_cons] at hlength
      have hj : j < back.length := by omega
      -- what stands behind the first key that is not before comes after it
      have hpair := (KeyOrder.ascending_cons.mp (KeyOrder.ascending_append.mp hkeys).2.1).1
      rw [List.getD_cons_succ, List.getD_eq_getElem _ _ hj]
      exact KeyOrder.compare_eq_gt_of_lt (hpair _ (List.getElem_mem hj))
        (hback first List.mem_cons_self)

/-- Bisection in a table whose keys are cut in two: those in front come before the key
    that is looked for, and those behind do not. It finds the first key behind, if that
    compares equal. -/
theorem search_eq_of_append {front back : List Bytes} {key : Bytes}
    (h : table.HasKeys (front ++ back)) (hkeys : table.order.Ascending (front ++ back))
    (hfront : ∀ k ∈ front, table.order.precedes k key = true)
    (hback : ∀ k ∈ back, table.order.precedes k key = false) :
    table.search key = .ok
      (if (back.head?.any (table.order.same · key)) = true then .found front.length
        else .absent front.length) := by
  have hlength : (front ++ back).length = front.length + back.length := List.length_append
  -- bisection ends at the cut; what is left is whether the first key behind it is the one
  rw [search, h.count_eq,
    bisect_exact (fun i _ hi => h.compareAt_eq key hi) (Nat.zero_le front.length) (by omega)
      (isCut_of_append hkeys hfront hback)]
  cases back with
  | nil => simp
  | cons first back =>
    have hfirst : (front ++ first :: back).getD front.length [] = first := by
      rw [List.getD_append_right _ _ _ _ (Nat.le_refl _), Nat.sub_self, List.getD_cons_zero]
    have hless : front.length < (front ++ first :: back).length := by
      rw [hlength, List.length_cons]
      omega
    simp only [hfirst, hless, true_and, List.head?_cons, Option.any_some, KeyOrder.same_iff]

/-- The keys that come before a key stand at the front. -/
theorem precedes_front (hkeys : table.order.Ascending keys) (key : Bytes) :
    keys.Pairwise fun a b =>
      table.order.precedes b key = true → table.order.precedes a key = true :=
  List.Pairwise.imp KeyOrder.precedes_of_lt hkeys

end Table.HasKeys

/-! ### Entries under a key -/

/-- The keys of a sequence of entries, in its order. -/
def keysOf (entries : List Entry) : List Bytes := entries.map Entry.key

@[simp] theorem keysOf_nil : keysOf [] = [] := rfl

@[simp] theorem keysOf_cons (e : Entry) (entries : List Entry) :
    keysOf (e :: entries) = e.key :: keysOf entries := rfl

@[simp] theorem keysOf_append (left right : List Entry) :
    keysOf (left ++ right) = keysOf left ++ keysOf right := List.map_append

/-- Where a property passes from each key to those before it, a sequence of entries is cut
    in two: the keys in front have it, and those behind do not. -/
theorem exists_cut {p : Bytes → Bool} {entries : List Entry}
    (h : (keysOf entries).Pairwise fun a b => p b = true → p a = true) :
    ∃ front back, entries = front ++ back ∧ (∀ e ∈ front, p e.key = true)
      ∧ ∀ e ∈ back, p e.key = false := by
  refine ⟨entries.takeWhile fun e => p e.key, entries.dropWhile fun e => p e.key,
    List.takeWhile_append_dropWhile.symm, eq_true_of_mem_takeWhile, ?_⟩
  exact eq_false_of_mem_dropWhile (List.pairwise_map.mp h)

namespace KeyOrder

variable {order : KeyOrder} {a b key : Bytes} {e : Entry} {entries left right : List Entry}

/-- The first of the entries whose key compares equal to `key`. -/
def find? (order : KeyOrder) (key : Bytes) (entries : List Entry) : Option Entry :=
  entries.find? fun e => order.same e.key key

@[simp] theorem find?_nil : order.find? key [] = none := rfl

theorem find?_append :
    order.find? key (left ++ right) = (order.find? key left).or (order.find? key right) :=
  List.find?_append

theorem find?_cons_of_same (h : order.same e.key key = true) :
    order.find? key (e :: entries) = some e := by
  rw [find?, List.find?_cons, h]

theorem find?_cons_of_not_same (h : order.same e.key key = false) :
    order.find? key (e :: entries) = order.find? key entries := by
  rw [find?, List.find?_cons, h]
  rfl

theorem find?_eq_none : order.find? key entries = none ↔
    ∀ e ∈ entries, order.same e.key key = false := by
  rw [find?, List.find?_eq_none]
  simp only [Bool.not_eq_true]

theorem mem_of_find? (h : order.find? key entries = some e) : e ∈ entries :=
  List.mem_of_find?_eq_some h

theorem same_of_find? (h : order.find? key entries = some e) : order.same e.key key = true :=
  List.find?_some (p := fun (e : Entry) => order.same e.key key) h

variable [Std.TransCmp order.compare]

theorem same_refl (key : Bytes) : order.same key key = true :=
  same_iff.mpr Std.ReflCmp.compare_self

theorem same_comm : order.same a b = order.same b a := by
  have hswap : order.compare a b = (order.compare b a).swap := Std.OrientedCmp.eq_swap
  rw [same, same, hswap]
  cases order.compare b a <;> rfl

/-- Keys that compare equal compare alike with a third. -/
theorem same_congr (h : order.same a b = true) (key : Bytes) :
    order.same key a = order.same key b := by
  rw [same, same, Std.TransCmp.congr_right (same_iff.mp h)]

/-- Keys that compare equal find the same entry. -/
theorem find?_congr (h : order.same a b = true) : order.find? a entries = order.find? b entries := by
  rw [find?, find?]
  congr 1
  funext e
  exact same_congr h e.key

omit [Std.TransCmp order.compare] in
theorem find?_eq_none_of_precedes (h : ∀ e ∈ entries, order.precedes e.key key = true) :
    order.find? key entries = none :=
  find?_eq_none.mpr fun e he => same_eq_false_of_lt (precedes_iff.mp (h e he))

/-- A key that comes before the first of ascending entries is none of theirs. -/
theorem find?_eq_none_of_lt (h : order.Ascending (keysOf (e :: entries)))
    (hlt : order.compare key e.key = .lt) : order.find? key (e :: entries) = none := by
  refine find?_eq_none.mpr fun f hf => same_eq_false_of_gt (Std.OrientedCmp.gt_of_lt ?_)
  rcases List.mem_cons.mp hf with rfl | hf
  · exact hlt
  · exact Std.TransCmp.lt_trans hlt ((ascending_cons.mp h).1 f.key (List.mem_map_of_mem hf))

/-- Among ascending entries that are cut at a key, only the first one behind can have it. -/
theorem find?_of_cut (hkeys : order.Ascending (keysOf (left ++ right)))
    (hleft : ∀ e ∈ left, order.precedes e.key key = true)
    (hright : ∀ e ∈ right, order.precedes e.key key = false) :
    order.find? key (left ++ right) = right.head?.filter (order.same ·.key key) := by
  rw [find?_append, find?_eq_none_of_precedes hleft, Option.none_or]
  cases right with
  | nil => rfl
  | cons e right =>
    rw [List.head?_cons, Option.filter_some]
    by_cases hsame : order.same e.key key = true
    · rw [find?_cons_of_same hsame, if_pos hsame]
    · rw [find?_cons_of_not_same (Bool.eq_false_iff.mpr hsame), if_neg hsame]
      -- what stands behind an entry that is not before the key comes after it
      refine find?_eq_none.mpr fun f hf => same_eq_false_of_gt ?_
      rw [keysOf_append, keysOf_cons] at hkeys
      have hlt := (ascending_cons.mp (ascending_append.mp hkeys).2.1).1 f.key
        (List.mem_map_of_mem hf)
      exact compare_eq_gt_of_lt hlt (hright e List.mem_cons_self)

end KeyOrder

/-! ### Tables of ascending entries -/

namespace Table.Holds

variable {table : Table} {entries : List Entry}

/-- A table that holds entries gives their keys. -/
theorem hasKeys (h : table.Holds entries) : table.HasKeys (keysOf entries) where
  count_eq := by rw [h.count_eq, keysOf, List.length_map]
  keyAt_eq := by
    intro before key after heq
    obtain ⟨front, rest, rfl, rfl, hrest⟩ := List.map_eq_append_iff.mp heq
    obtain ⟨e, back, rfl, rfl, rfl⟩ := List.map_eq_cons_iff.mp hrest
    rw [List.length_map]
    exact h.keyAt_eq

variable [Std.TransCmp table.order.compare] {front back : List Entry} {key : Bytes}

/-- Bisection in a table whose entries are cut at a key finds the first entry behind, if
    its key compares equal. -/
theorem search_eq_of_append (h : table.Holds (front ++ back))
    (hkeys : table.order.Ascending (keysOf (front ++ back)))
    (hfront : ∀ e ∈ front, table.order.precedes e.key key = true)
    (hback : ∀ e ∈ back, table.order.precedes e.key key = false) :
    table.search key = .ok
      (if (back.head?.any (table.order.same ·.key key)) = true then .found front.length
        else .absent front.length) := by
  have hlists := h.hasKeys
  rw [keysOf_append] at hkeys hlists
  rw [hlists.search_eq_of_append hkeys (List.forall_mem_map.mpr hfront)
    (List.forall_mem_map.mpr hback)]
  rw [keysOf, keysOf, List.length_map, List.head?_map, Option.any_map]

/-- The entry that is looked up is the one whose key compares equal. -/
theorem get?_eq (h : table.Holds entries) (hkeys : table.order.Ascending (keysOf entries))
    (key : Bytes) : table.get? key = .ok (table.order.find? key entries) := by
  obtain ⟨front, back, rfl, hfront, hback⟩ := exists_cut (HasKeys.precedes_front hkeys key)
  -- both sides only look at the first entry behind the cut
  rw [get?, indexOf?, h.search_eq_of_append hkeys hfront hback,
    KeyOrder.find?_of_cut hkeys hfront hback]
  cases back with
  | nil => rfl
  | cons e back =>
    rw [List.head?_cons, Option.any_some, Option.filter_some]
    by_cases hsame : table.order.same e.key key = true
    · rw [if_pos hsame, if_pos hsame]
      show (some <$> table.entryAt front.length) = _
      rw [h.entryAt_eq]
      rfl
    · rw [if_neg hsame, if_neg hsame]
      rfl

end Table.Holds

end LayeredStore
