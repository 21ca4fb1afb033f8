import LayeredStore.Word

namespace LayeredStore

/-!
# Regions

A region is the content of a file that was mapped for reading. Every access is
checked against its end, so that a bad length is reported and never followed.

* `Region.slice` — a stretch of the region;
* `Region.readWord`, `Region.readSigned` — eight bytes as a number;
* `Region.slice_eq_ok_iff` — a stretch can be read exactly where it lies inside.
-/

/-- The bytes of a mapped file. -/
abbrev Region := Bytes

namespace Region

/-- The `length` bytes from `offset` on. -/
def slice (region : Region) (offset length : Nat) : Except Fault Bytes :=
  if Word.limit ≤ offset + length then .error (.corrupt offset .unaddressable)
  else if region.length < offset + length then
    .error (.corrupt offset (.pastEnd length region.length))
  else .ok (Bytes.slice region offset length)

/-- The word stored at `offset`. -/
def readWord (region : Region) (offset : Nat) : Except Fault Nat :=
  (region.slice offset Word.size).map Word.value

/-- The word stored at `offset`, as a signed number. -/
def readSigned (region : Region) (offset : Nat) : Except Fault Int :=
  (region.readWord offset).map Word.toInt

/-! ### Where reading succeeds -/

theorem slice_eq_ok_iff {region : Region} {offset length : Nat} {bytes : Bytes} :
    region.slice offset length = .ok bytes ↔
      offset + length < Word.limit ∧ offset + length ≤ region.length ∧
        Bytes.slice region offset length = bytes := by
  unfold slice
  split
  · simp; omega
  · split
    · simp; omega
    · simp only [Except.ok.injEq]
      exact ⟨fun h => ⟨by omega, by omega, h⟩, fun h => h.2.2⟩

end Region

end LayeredStore
