import LayeredStore.Bytes
import LayeredStore.Text.Printable

namespace LayeredStore.Text

/-!
# Diagnostic texts

How values are shown in diagnostics: texts and byte strings between quotes, and
named groups of fields.

* `quote` — a text between double quotes, with escapes;
* `quoteBytes` — a byte string between double quotes, marked by a `b`;
* `group` — a name followed by its fields in braces;
* `list` — items in brackets;
* `number` — a natural number in decimal.
-/

/-! ### Quoted texts -/

/-- A number in lower-case hexadecimal digits, without leading zeros. -/
def hex (n : Nat) : List Char :=
  Nat.toDigits 16 n

/-- One character of a quoted text: the quote, the backslash and four controls
    have short escapes, and what is not printable is given by its number. -/
def escapeChar (c : Char) : List Char :=
  if c = '"' then ['\\', '"']
  else if c = '\\' then ['\\', '\\']
  else if c = '\n' then ['\\', 'n']
  else if c = '\r' then ['\\', 'r']
  else if c = '\t' then ['\\', 't']
  else if c = '\x00' then ['\\', '0']
  else if isPrintable c then [c]
  else ['\\', 'u', '\x7b'] ++ hex c.toNat ++ ['\x7d']

/-- A text between double quotes. -/
def quote (text : String) : String :=
  String.ofList (['"'] ++ text.toList.flatMap escapeChar ++ ['"'])

example : quote "a\"b\\c\n\x00" = "\"a\\\"b\\\\c\\n\\0\"" := by decide +kernel

example : quote "é\x7f" = "\"é\\u\x7b7f\x7d\"" := by decide +kernel

/-! ### Quoted byte strings -/

/-- One byte of a quoted byte string: printing ASCII stands for itself, the quote,
    the backslash and four controls have short escapes, and every other byte is
    given by two hexadecimal digits. -/
def escapeByte (b : UInt8) : List Char :=
  let c := Char.ofNat b.toNat
  if c = '"' then ['\\', '"']
  else if c = '\\' then ['\\', '\\']
  else if c = '\n' then ['\\', 'n']
  else if c = '\r' then ['\\', 'r']
  else if c = '\t' then ['\\', 't']
  else if c = '\x00' then ['\\', '0']
  else if 0x20 ≤ b.toNat ∧ b.toNat < 0x7f then [c]
  else ['\\', 'x', Nat.digitChar (b.toNat / 16), Nat.digitChar (b.toNat % 16)]

/-- A byte string between double quotes, after the mark `b`. -/
def quoteBytes (bytes : Bytes) : String :=
  String.ofList (['b', '"'] ++ bytes.flatMap escapeByte ++ ['"'])

example : quoteBytes [0x61, 0x00, 0x22, 0x0a, 0xff] = "b\"a\\0\\\"\\n\\xff\"" := by
  decide +kernel

/-! ### Groups and lists -/

/-- A natural number in decimal. -/
def number (n : Nat) : String :=
  Nat.repr n

/-- A whole number in decimal, with a minus sign before a negative one. -/
def integer : Int → String
  | .ofNat n => number n
  | .negSucc n => "-" ++ number (n + 1)

/-- `true` or `false`. -/
def truth (b : Bool) : String :=
  if b then "true" else "false"

/-- Items one after another, with a comma and a blank between them. -/
def commas (items : List String) : String :=
  ", ".intercalate items

/-- Items in brackets. -/
def list (items : List String) : String :=
  "[" ++ commas items ++ "]"

/-- A name followed by named fields in braces. -/
def group (name : String) (fields : List (String × String)) : String :=
  name ++ " \x7b " ++ commas (fields.map fun (field, shown) => field ++ ": " ++ shown) ++ " \x7d"

/-- A name followed by one argument in parentheses. -/
def wrap (name shown : String) : String :=
  name ++ "(" ++ shown ++ ")"

/-- An optional value: its absence has a name of its own. -/
def option (shown : Option String) : String :=
  match shown with
  | none => "None"
  | some text => wrap "Some" text

end LayeredStore.Text
