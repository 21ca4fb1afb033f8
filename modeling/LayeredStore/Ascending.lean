namespace LayeredStore

/-!
# Ascending lists of numbers

Sets of numbers are kept as strictly ascending lists.

* `Ascending.insert`, `Ascending.ofList` — a set with one more number, and the set
  of a list's numbers;
* `Ascending.difference` — the numbers in exactly one of two sets;
* `Ascending.mem_ofList`, `Ascending.pairwise_ofList` — what the set holds, and that
  it ascends.
-/

namespace Ascending

/-- Adds a number, unless it is there. -/
def insert (n : Nat) : List Nat → List Nat
  | [] => [n]
  | m :: numbers =>
    if n < m then n :: m :: numbers
    else if n = m then m :: numbers
    else m :: insert n numbers

/-- The numbers of a list, ascending and each once. -/
def ofList (numbers : List Nat) : List Nat :=
  numbers.foldr insert []

/-- The numbers in exactly one of two sets, ascending. -/
def difference (left right : List Nat) : List Nat :=
  ofList (left.filter (· ∉ right) ++ right.filter (· ∉ left))

/-! ### Members and order -/

@[simp] theorem mem_insert {n k : Nat} {numbers : List Nat} :
    k ∈ insert n numbers ↔ k = n ∨ k ∈ numbers := by
  induction numbers with
  | nil => simp [insert]
  | cons m numbers ih => unfold insert; split <;> grind

@[simp] theorem mem_ofList {k : Nat} {numbers : List Nat} : k ∈ ofList numbers ↔ k ∈ numbers := by
  induction numbers with
  | nil => simp [ofList]
  | cons m numbers ih =>
    rw [ofList, List.foldr_cons, mem_insert, List.mem_cons]
    exact or_congr_right ih

theorem pairwise_insert {n : Nat} {numbers : List Nat} (h : numbers.Pairwise (· < ·)) :
    (insert n numbers).Pairwise (· < ·) := by
  induction numbers with
  | nil => simp [insert]
  | cons m numbers ih =>
    obtain ⟨hm, hrest⟩ := List.pairwise_cons.mp h
    unfold insert
    split
    · refine List.pairwise_cons.mpr ⟨fun k hk => ?_, h⟩
      rcases List.mem_cons.mp hk with rfl | hk
      · assumption
      · exact Nat.lt_trans ‹n < m› (hm k hk)
    · split
      · exact h
      · refine List.pairwise_cons.mpr ⟨fun k hk => ?_, ih hrest⟩
        rcases mem_insert.mp hk with rfl | hk
        · omega
        · exact hm k hk

theorem pairwise_ofList (numbers : List Nat) : (ofList numbers).Pairwise (· < ·) := by
  induction numbers with
  | nil => simp [ofList]
  | cons m numbers ih => exact pairwise_insert ih

@[simp] theorem mem_difference {k : Nat} {left right : List Nat} :
    k ∈ difference left right ↔ (k ∈ left ∧ k ∉ right) ∨ (k ∈ right ∧ k ∉ left) := by
  simp [difference]

end Ascending

end LayeredStore
