import LayeredStore.Fault

namespace LayeredStore

/-!
# Bisection

Finding a position in an ascending sequence by halving. The sequence is only
known through a probe, which tells how the element at an index compares with what
is looked for, or fails.

* `Position` — where something is, or where it would be put;
* `bisect` — the search between two bounds;
* `bisect_found`, `bisect_between` — what an answer says without any order.
-/

/-- The outcome of a search. -/
inductive Position
  /-- The element at `index` is the one. -/
  | found (index : Nat)
  /-- There is none; it would be put at `index`. -/
  | absent (index : Nat)
  deriving DecidableEq, Repr

namespace Position

/-- The index in either case. -/
def index : Position → Nat
  | found index => index
  | absent index => index

/-- The index where something was found. -/
def found? : Position → Option Nat
  | found index => some index
  | absent _ => none

end Position

variable {ε : Type}

/-- Searches from index `low` on and before index `high`. The probe at an index
    says whether its element comes before (`lt`), after (`gt`) or is what is looked
    for; the first probe that fails ends the search. -/
def bisect (probe : Nat → Except ε Ordering) (low high : Nat) : Except ε Position :=
  if low < high then
    let middle := low + (high - low) / 2
    match probe middle with
    | .error e => .error e
    | .ok .lt => bisect probe (middle + 1) high
    | .ok .gt => bisect probe low middle
    | .ok .eq => .ok (.found middle)
  else .ok (.absent low)
termination_by high - low

/-- What is found lies between the bounds and was probed as equal. -/
theorem bisect_found {probe : Nat → Except ε Ordering} {low high index : Nat}
    (h : bisect probe low high = .ok (.found index)) :
    low ≤ index ∧ index < high ∧ probe index = .ok .eq := by
  fun_induction bisect probe low high with
  | case1 => cases h
  | case2 low high hlt middle _ ih => have := ih h; grind
  | case3 low high hlt middle _ ih => have := ih h; grind
  | case4 low high hlt middle heq =>
    obtain rfl : middle = index := by simpa using h
    exact ⟨by grind, by grind, heq⟩
  | case5 => cases h

/-- An answer lies between the bounds. -/
theorem bisect_between {probe : Nat → Except ε Ordering} {low high : Nat} {position : Position}
    (hle : low ≤ high) (h : bisect probe low high = .ok position) :
    low ≤ position.index ∧ position.index ≤ high := by
  fun_induction bisect probe low high with
  | case1 => cases h
  | case2 low high hlt middle _ ih => have := ih (by grind) h; grind
  | case3 low high hlt middle _ ih => have := ih (by grind) h; grind
  | case4 low high hlt middle heq =>
    obtain rfl : .found middle = position := by simpa using h
    exact ⟨by grind [Position.index], by grind [Position.index]⟩
  | case5 low high hge =>
    obtain rfl : .absent low = position := by simpa using h
    exact ⟨Nat.le_refl _, by simpa [Position.index] using hle⟩

end LayeredStore
