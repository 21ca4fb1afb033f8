namespace LayeredStore

/-!
# Byte strings

Keys, values and whole files are lists of bytes.

* `Bytes.slice` — a stretch of a byte string;
* `Bytes.overwrite` — the string with a stretch replaced;
* `Bytes.resize` — the string cut or zero-filled to a given length;
* `Bytes.ofText` — the UTF-8 bytes of a text.
-/

/-- A byte string. -/
abbrev Bytes := List UInt8

namespace Bytes

/-- The `length` bytes from `offset` on, as far as the string reaches. -/
def slice (bytes : Bytes) (offset length : Nat) : Bytes :=
  (bytes.drop offset).take length

/-- The string in which `new` stands at `offset`, all else being kept. It keeps
    its length when `new` ends inside it. -/
def overwrite (bytes : Bytes) (offset : Nat) (new : Bytes) : Bytes :=
  bytes.take offset ++ new ++ bytes.drop (offset + new.length)

/-- `length` zero bytes. -/
def zeros (length : Nat) : Bytes :=
  List.replicate length 0

/-- The string cut to `length` bytes, or filled up to them with zeros. -/
def resize (bytes : Bytes) (length : Nat) : Bytes :=
  bytes.take length ++ zeros (length - bytes.length)

/-- The UTF-8 bytes of a text. -/
def ofText (text : String) : Bytes :=
  text.toList.flatMap String.utf8EncodeChar

/-! ### Lengths -/

@[simp] theorem length_zeros (n : Nat) : (zeros n).length = n := by
  simp [zeros]

@[simp] theorem length_slice (bytes : Bytes) (offset length : Nat) :
    (bytes.slice offset length).length = min length (bytes.length - offset) := by
  simp [slice]

@[simp] theorem length_resize (bytes : Bytes) (length : Nat) :
    (bytes.resize length).length = length := by
  simp only [resize, List.length_append, List.length_take, length_zeros]
  omega

theorem length_overwrite {bytes new : Bytes} {offset : Nat}
    (h : offset + new.length ≤ bytes.length) :
    (bytes.overwrite offset new).length = bytes.length := by
  simp only [overwrite, List.length_append, List.length_take, List.length_drop]
  omega

/-- A string of its own length is not changed by a resize to that length. -/
@[simp] theorem resize_length (bytes : Bytes) : bytes.resize bytes.length = bytes := by
  simp [resize, zeros]

end Bytes

end LayeredStore
