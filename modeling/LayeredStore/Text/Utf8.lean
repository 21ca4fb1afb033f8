import LayeredStore.Bytes

namespace LayeredStore.Text

/-!
# Reading bytes as UTF-8

A byte string is shown as text by decoding it as UTF-8. What is not UTF-8 is
replaced: the longest beginning of a well-formed character that is not finished, or
else a single byte, becomes one replacement character.

* `splitChar` — the character at the front of a byte string, or the number of
  bytes that one replacement stands for;
* `decodeLossy` — the text of a byte string;
* `decodeLossy_ofText` — the bytes of a text are shown as that text.
-/

/-- What the front of a byte string holds. -/
inductive Front
  /-- A well-formed character. -/
  | char (c : Char)
  /-- No well-formed character: `length` bytes make one replacement. -/
  | broken (length : Nat)
  deriving DecidableEq, Repr

/-- The character that replaces what is not UTF-8. -/
def replacement : Char := '\uFFFD'

/-- Whether a byte continues a character. -/
def isContinuation (b : UInt8) : Bool :=
  0x80 ≤ b.toNat && b.toNat < 0xC0

/-- The number of bytes that a character has when it starts with `b`, and the
    bounds of its second byte; `none` when no character of several bytes starts so.
    The narrowed bounds shut out overlong forms, surrogates and numbers above
    `0x10FFFF`. -/
def leadByte? (b : UInt8) : Option (Nat × Nat × Nat) :=
  let n := b.toNat
  if n < 0xC2 then none
  else if n < 0xE0 then some (2, 0x80, 0xBF)
  else if n = 0xE0 then some (3, 0xA0, 0xBF)
  else if n = 0xED then some (3, 0x80, 0x9F)
  else if n < 0xF0 then some (3, 0x80, 0xBF)
  else if n = 0xF0 then some (4, 0x90, 0xBF)
  else if n < 0xF4 then some (4, 0x80, 0xBF)
  else if n = 0xF4 then some (4, 0x80, 0x8F)
  else none

/-- The number of bytes of `b :: rest` that one replacement stands for, when no
    well-formed character is at its front. -/
def brokenLength (b : UInt8) (rest : Bytes) : Nat :=
  match leadByte? b, rest with
  | some (width, low, high), second :: more =>
    if low ≤ second.toNat ∧ second.toNat ≤ high then
      2 + ((more.take (width - 2)).takeWhile isContinuation).length
    else 1
  | _, _ => 1

/-- The front of the byte string `b :: rest`. A character has at most four bytes. -/
def splitChar (b : UInt8) (rest : Bytes) : Front :=
  match ByteArray.utf8DecodeChar? ((b :: rest).take 4).toByteArray 0 with
  | some c => .char c
  | none => .broken (brokenLength b rest)

/-- The characters of a byte string. The `fuel` bounds the number of characters,
    and the length of the string is enough. -/
def decodeWithin : (fuel : Nat) → Bytes → List Char
  | 0, _ => []
  | _, [] => []
  | fuel + 1, b :: rest =>
    match splitChar b rest with
    | .char c => c :: decodeWithin fuel ((b :: rest).drop c.utf8Size)
    | .broken length => replacement :: decodeWithin fuel ((b :: rest).drop length)

/-- The text of a byte string, with replacement characters for what is not UTF-8. -/
def decodeLossy (bytes : Bytes) : String :=
  String.ofList (decodeWithin bytes.length bytes)

/-! ### Well-formed bytes -/

/-- The bytes of a character are seen as that character, whatever follows them. -/
theorem splitChar_encode {c : Char} {b : UInt8} {rest tail : Bytes}
    (h : String.utf8EncodeChar c ++ tail = b :: rest) : splitChar b rest = .char c := by
  have hlen : (String.utf8EncodeChar c).length = c.utf8Size := String.length_utf8EncodeChar c
  have hle : c.utf8Size ≤ 4 := c.utf8Size_le_four
  have htake : (b :: rest).take 4 = String.utf8EncodeChar c ++ tail.take (4 - c.utf8Size) := by
    rw [← h, List.take_append, List.take_of_length_le (by omega), hlen]
  rw [splitChar, htake, List.toByteArray_append, ByteArray.utf8DecodeChar?_utf8EncodeChar_append]

theorem decodeWithin_encode {fuel : Nat} {chars : List Char}
    (h : (chars.flatMap String.utf8EncodeChar).length ≤ fuel) :
    decodeWithin fuel (chars.flatMap String.utf8EncodeChar) = chars := by
  induction chars generalizing fuel with
  | nil => cases fuel <;> rfl
  | cons c chars ih =>
    have hlen : (String.utf8EncodeChar c).length = c.utf8Size := String.length_utf8EncodeChar c
    have hpos : 0 < c.utf8Size := c.utf8Size_pos
    rw [List.flatMap_cons, List.length_append] at h
    match fuel, hb : (c :: chars).flatMap String.utf8EncodeChar with
    | 0, _ => omega
    | fuel + 1, [] =>
      have := congrArg List.length hb
      rw [List.flatMap_cons, List.length_append, List.length_nil] at this
      omega
    | fuel + 1, b :: rest =>
      rw [List.flatMap_cons] at hb
      have hdrop : (b :: rest).drop c.utf8Size = chars.flatMap String.utf8EncodeChar := by
        rw [← hb, ← hlen, List.drop_left]
      simp only [decodeWithin, splitChar_encode hb, hdrop, ih (show _ ≤ fuel by omega)]

/-- The bytes of a text are shown as that text. -/
@[simp] theorem decodeLossy_ofText (text : String) : decodeLossy (Bytes.ofText text) = text := by
  rw [decodeLossy, Bytes.ofText, decodeWithin_encode (Nat.le_refl _), String.ofList_toList]

end LayeredStore.Text
