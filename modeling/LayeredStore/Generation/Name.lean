import LayeredStore.Word

namespace LayeredStore.Generation

/-!
# File names of generations

A generation is a pair of files. Their names are a label, which tells the two kinds
apart, and the generation's number in decimal.

* `valuesLabel`, `offsetsLabel` — the two labels;
* `fileName` — the name of a generation's file;
* `index?` — the number that a file name ends in;
* `behind?_eq_some_iff`, `index?_fileName` — the label is cut off exactly; a name made from a number is read as that number.
-/

/-- The label of values files. -/
def valuesLabel : String := "values"

/-- The label of offsets files. -/
def offsetsLabel : String := "offsets"

/-- The name of the file of generation `index` with the given label. -/
def fileName (label : String) (index : Nat) : String :=
  label ++ Nat.repr index

/-- The number that decimal digits spell. There must be a digit and nothing else,
    and the number must be a word; leading zeros are allowed. -/
def indexOfDigits? (digits : List Char) : Option Nat :=
  if digits ≠ [] ∧ digits.all Char.isDigit then
    let n := Nat.ofDigitChars 10 digits 0
    if n < Word.limit then some n else none
  else none

/-- What stands behind `label` in a text that begins with it. -/
def behind? : (label text : List Char) → Option (List Char)
  | [], text => some text
  | _ :: _, [] => none
  | c :: label, d :: text => if c = d then behind? label text else none

/-- The number of the generation that a file belongs to, by its name: what stands
    behind the label. Other files have none. -/
def index? (label name : String) : Option Nat :=
  (behind? label.toList name.toList).bind indexOfDigits?

/-! ### Reading undoes writing -/

theorem indexOfDigits?_toDigits (index : Nat) : indexOfDigits? (Nat.toDigits 10 index)
    = if index < Word.limit then some index else none := by
  have hne : Nat.toDigits 10 index ≠ [] := Nat.toDigits_ne_nil
  have hall : (Nat.toDigits 10 index).all Char.isDigit = true :=
    List.all_eq_true.mpr fun c hc => Nat.isDigit_of_mem_toDigits (by decide) (by decide) hc
  have hvalue : Nat.ofDigitChars 10 (Nat.toDigits 10 index) 0 = index :=
    Nat.ofDigitChars_toDigits (by decide) (by decide)
  simp only [indexOfDigits?, ne_eq, hne, not_false_eq_true, hall, and_self, if_true, hvalue]

theorem behind?_eq_some_iff {label text rest : List Char} :
    behind? label text = some rest ↔ text = label ++ rest := by
  fun_induction behind? label text with
  | case1 text => simp
  | case2 => simp
  | case3 c label text ih => simp [ih]
  | case4 c label d text hne => simp [Ne.symm hne]

theorem index?_fileName_eq (label : String) (index : Nat) :
    index? label (fileName label index) = if index < Word.limit then some index else none := by
  have hbehind : behind? label.toList (fileName label index).toList
      = some (Nat.toDigits 10 index) := by
    rw [behind?_eq_some_iff, fileName, String.toList_append, Nat.toList_repr]
  rw [index?, hbehind, Option.bind_some, indexOfDigits?_toDigits]

/-- A name made from a number is read as that number. -/
theorem index?_fileName {label : String} {index : Nat} (h : index < Word.limit) :
    index? label (fileName label index) = some index := by
  rw [index?_fileName_eq, if_pos h]

end LayeredStore.Generation
