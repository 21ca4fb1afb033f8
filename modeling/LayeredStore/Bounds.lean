import LayeredStore.KeyOrder

namespace LayeredStore

/-!
# Bounds

Range reads name the keys that they want by two bounds, each of which may be open.

* `Bounds` — the bounds of a range;
* `Bounds.admits` — whether a key lies in the range;
* `Bounds.isVoid`, `Bounds.isUpright` — how the bounds lie to one another;
* `Bounds.admits_of_isVoid` — a range whose lower bound has reached the upper one is empty.
-/

/-- The keys from `lower` on and before `upper`. A bound that is missing bounds
    nothing. -/
structure Bounds where
  lower : Option Bytes
  upper : Option Bytes
  deriving DecidableEq, Repr

namespace Bounds

/-- The range of all keys. -/
def all : Bounds := ⟨none, none⟩

variable (bounds : Bounds) (order : KeyOrder)

/-- Whether `key` lies in the range. -/
def admits (key : Bytes) : Bool :=
  bounds.lower.all (order.compare · key != .gt) && bounds.upper.all (order.compare key · == .lt)

/-- Whether the lower bound has reached the upper one. -/
def isVoid : Bool :=
  bounds.lower.any fun lower => bounds.upper.any fun upper => order.compare lower upper != .lt

/-- Whether the lower bound has not passed the upper one. -/
def isUpright : Bool :=
  bounds.lower.all fun lower => bounds.upper.all fun upper => order.compare lower upper != .gt

variable {bounds order} {key : Bytes}

@[simp] theorem admits_all (order : KeyOrder) (key : Bytes) : all.admits order key = true := rfl

@[simp] theorem isVoid_all (order : KeyOrder) : all.isVoid order = false := rfl

theorem admits_iff : bounds.admits order key = true ↔
    (∀ lower ∈ bounds.lower, order.compare lower key ≠ .gt)
      ∧ ∀ upper ∈ bounds.upper, order.compare key upper = .lt := by
  simp [admits, Option.all_eq_true]

theorem isVoid_iff : bounds.isVoid order = true ↔
    ∃ lower ∈ bounds.lower, ∃ upper ∈ bounds.upper, order.compare lower upper ≠ .lt := by
  simp [isVoid, Option.any_eq_true]

theorem isUpright_of_not_isVoid (h : ¬ bounds.isVoid order = true) :
    bounds.isUpright order = true := by
  simp only [isUpright, Option.all_eq_true, bne_iff_ne]
  intro lower hlower upper hupper hgt
  refine h (isVoid_iff.mpr ⟨lower, hlower, upper, hupper, ?_⟩)
  simp [hgt]

/-- No key lies behind a lower bound and before an upper one that this has reached. -/
theorem admits_of_isVoid [Std.TransCmp order.compare] (h : bounds.isVoid order = true)
    (key : Bytes) : bounds.admits order key = false := by
  obtain ⟨lower, hlower, upper, hupper, hreached⟩ := isVoid_iff.mp h
  refine Bool.eq_false_iff.mpr fun hadmits => hreached ?_
  obtain ⟨hbehind, hbefore⟩ := admits_iff.mp hadmits
  have hle : (order.compare lower key).isLE := Ordering.isLE_iff_ne_gt.mpr (hbehind lower hlower)
  exact Std.TransCmp.lt_of_isLE_of_lt hle (hbefore upper hupper)

end Bounds

end LayeredStore
