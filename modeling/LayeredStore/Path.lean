namespace LayeredStore

/-!
# Paths

A path is a text that tells how to walk from a folder to a file or folder, part by
part. What the parts are is settled without looking at the disk; where they lead, and
whether one can get there, is for the disk to say.

* `Place` — the names that lead to a file or folder;
* `Path` — a path's text, where it starts and its parts;
* `Path.ofText` — reads a path, from a folder where relative paths start;
* `Path.step` — one part of a way that passes no link;
* `Path.child` — the path of a name inside a folder;
* `Path.around` — what is left of a way without its last name.
-/

/-- The names that lead to a file or folder, the innermost first. The empty list
    is the folder that holds everything. -/
abbrev Place := List String

/-- A way to a file or folder. -/
structure Path where
  /-- The path as it was written. -/
  text : String
  /-- The folder where the way begins. -/
  start : Place
  /-- The parts of the text between its slashes, the last one first. -/
  way : List String
  deriving DecidableEq, Repr

namespace Path

/-- Whether a part leads nowhere: an empty part, as two slashes or a last slash
    leave it, or a dot. -/
def stays (part : String) : Bool :=
  part == "" || part == "."

/-- The place reached from `here` by one part: two dots lead to the enclosing
    folder, and a name leads inside. -/
def step (here : Place) (part : String) : Place :=
  if stays part then here
  else if part = ".." then here.tail
  else part :: here

/-- Whether a path starts at the outermost folder. -/
def isAbsolute (text : String) : Bool :=
  text.toList.head? == some '/'

/-- The folder where a path begins; a relative one starts at `here`. -/
def startFrom (here : Place) (text : String) : Place :=
  if isAbsolute text then [] else here

/-- The stretches of characters between slashes. -/
def split : List Char → List (List Char)
  | [] => [[]]
  | c :: rest =>
    if c = '/' then [] :: split rest
    else match split rest with
      | [] => [[c]]
      | part :: others => (c :: part) :: others

/-- The parts of a path, between its slashes. -/
def parts (text : String) : List String :=
  (split text.toList).map String.ofList

/-- Reads a path; a relative one starts at `here`. -/
def ofText (here : Place) (text : String) : Path where
  text := text
  start := startFrom here text
  way := (parts text).reverse

/-- A text behind a path, with one slash between them. The empty path takes none,
    and an absolute text replaces the path. -/
def join (folder text : String) : String :=
  if isAbsolute text then text
  else if folder = "" ∨ folder.toList.getLast? = some '/' then folder ++ text
  else folder ++ "/" ++ text

/-- The path of the name `name` inside a folder. -/
def child (folder : Path) (name : String) : Path where
  text := join folder.text name
  start := folder.start
  way := name :: folder.way

/-- The way to what is around the end of a way: without its last name, or two dots,
    and without the parts behind it that lead nowhere. -/
def around (way : List String) : List String :=
  (way.dropWhile stays).tail

theorem join_ne_empty {folder name : String} (h : name ≠ "") : join folder name ≠ "" := by
  have happend : ∀ front : String, front ++ name ≠ "" := fun front heq =>
    h (String.append_eq_empty_iff.mp heq).2
  rw [join]
  split
  · exact h
  · split
    · exact happend folder
    · exact happend (folder ++ "/")

end Path

end LayeredStore
