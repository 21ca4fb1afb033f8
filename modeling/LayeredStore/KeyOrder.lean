import LayeredStore.Bytes

namespace LayeredStore

/-!
# Orders on keys

One order is shared by look-ups, bounded iteration and merging, so that they
never disagree.

* `KeyOrder` — a named comparison of keys; the store's laws ask that it is
  transitive, `Std.TransCmp`, and let different keys compare equal;
* `KeyOrder.lexicographic` — the usual order, byte by byte;
* `KeyOrder.reversed`, `KeyOrder.caseless`, `KeyOrder.byLength` — three others.
-/

/-- A named comparison of keys. -/
structure KeyOrder where
  /-- The name under which diagnostics show the order. -/
  name : String
  /-- The comparison. -/
  compare : Bytes → Bytes → Ordering

namespace KeyOrder

/-- The comparison of unsigned bytes at the first difference; a proper beginning
    of a key comes before the key. -/
def byBytes (a b : Bytes) : Ordering :=
  List.compareLex Ord.compare a b

/-- The order of keys byte by byte. -/
def lexicographic : KeyOrder := ⟨"Lexicographic", byBytes⟩

/-- The order byte by byte, read backwards. -/
def reversed : KeyOrder := ⟨"Reverse", fun a b => byBytes b a⟩

/-- A byte with the letters `A` to `Z` made small. -/
def lower (b : UInt8) : UInt8 :=
  if 0x41 ≤ b ∧ b ≤ 0x5A then b + 0x20 else b

/-- The order byte by byte in which a letter's case does not count, so different
    keys may compare equal. -/
def caseless : KeyOrder := ⟨"NoCase", fun a b => byBytes (a.map lower) (b.map lower)⟩

/-- Shorter keys first, and keys of one length byte by byte. -/
def byLength : KeyOrder :=
  ⟨"ByLength", fun a b => (Ord.compare a.length b.length).then (byBytes a b)⟩

/-! ### Laws -/

instance : Std.TransCmp byBytes :=
  inferInstanceAs (Std.TransCmp (List.compareLex Ord.compare))

instance : Std.LawfulEqCmp byBytes :=
  inferInstanceAs (Std.LawfulEqCmp (List.compareLex Ord.compare))

instance : Std.TransCmp lexicographic.compare :=
  inferInstanceAs (Std.TransCmp byBytes)

instance : Std.LawfulEqCmp lexicographic.compare :=
  inferInstanceAs (Std.LawfulEqCmp byBytes)

instance : Std.TransCmp reversed.compare where
  eq_swap {a b} := (Std.OrientedCmp.eq_swap : byBytes b a = (byBytes a b).swap)
  isLE_trans {a b c} hab hbc := by
    have hba : (byBytes b a).isLE := hab
    have hcb : (byBytes c b).isLE := hbc
    exact (Std.TransCmp.isLE_trans hcb hba : (byBytes c a).isLE)

instance : Std.TransCmp caseless.compare where
  eq_swap {a b} := (Std.OrientedCmp.eq_swap :
    byBytes (a.map lower) (b.map lower) = (byBytes (b.map lower) (a.map lower)).swap)
  isLE_trans {a b c} hab hbc := by
    have hab : (byBytes (a.map lower) (b.map lower)).isLE := hab
    have hbc : (byBytes (b.map lower) (c.map lower)).isLE := hbc
    exact (Std.TransCmp.isLE_trans hab hbc : (byBytes (a.map lower) (c.map lower)).isLE)

instance : Std.TransCmp byLength.compare :=
  inferInstanceAs (Std.TransCmp (compareLex (compareOn List.length) byBytes))

end KeyOrder

end LayeredStore
