import LayeredStore.Action
import LayeredStore.Bytes
import LayeredStore.Path

namespace LayeredStore

/-!
# The disk

Files, folders and symbolic links, with the answers that a file system gives when a
name is missing, taken or of the wrong kind.

* `Node`, `Disk` — a file, folder or link, and all that there is;
* `Disk.locate` — what is at a place, or why it cannot be reached;
* `Disk.walk` — a walk from folder to folder, through links;
* `Disk.resolve`, `Disk.reach` — the place at the end of a path, with a link at the end
  being followed or not;
* `Disk.find` — what a path leads to;
* `Disk.listing`, `Disk.contentOf`, `Disk.mapFile` — reading;
* `Disk.makeFolders`, `Disk.makeFile`, `Disk.setContent`, `Disk.delete` — changes;
* `Disk.mem_children` — a folder lists what the disk holds directly below it;
* `Disk.node?_put`, `Disk.node?_remove` — a change is seen where it was made and
  nowhere else.
-/

/-- What is at a place. -/
inductive Node
  | file (content : Bytes)
  | folder
  /-- A symbolic link, with the path that it stands for. A relative one starts at the
      folder that the link is in. -/
  | link (target : String)
  deriving DecidableEq, Repr

/-- Whether a node is a regular file. -/
def Node.isFile : Node → Bool
  | file _ => true
  | _ => false

/-- Whether a node is a symbolic link. -/
def Node.isLink : Node → Bool
  | link _ => true
  | _ => false

/-- All files, folders and links, each place once. -/
structure Disk where
  nodes : List (Place × Node)
  nodup : (nodes.map Prod.fst).Nodup
  deriving DecidableEq

namespace Disk

/-- The disk that holds nothing but the outermost folder. -/
def empty : Disk := ⟨[], List.nodup_nil⟩

/-! ### What is where -/

/-- The file, folder or link recorded for a place. -/
def node? (disk : Disk) (place : Place) : Option Node :=
  (disk.nodes.find? (·.1 == place)).map Prod.snd

/-- What is at a place: on the way to it every name must be that of a folder. -/
def locate (disk : Disk) : Place → Except SystemFault Node
  | [] => .ok .folder
  | name :: parent =>
    match locate disk parent with
    | .error fault => .error fault
    | .ok .folder =>
      match disk.node? (name :: parent) with
      | some node => .ok node
      | none => .error .notFound
    | .ok _ => .error .notADirectory

/-- Walks on from a folder, part by part. Every part is taken from a folder that is
    there. Where it leads to a link, `again` walks what the link stands for, and then
    the other parts. -/
def walkWith (disk : Disk) (again : Place → List String → Except SystemFault Place)
    (here : Place) : List String → Except SystemFault Place
  | [] => .ok here
  | part :: parts =>
    match disk.locate here with
    | .error fault => .error fault
    | .ok .folder =>
      match disk.locate (Path.step here part) with
      | .ok (.link target) => again (Path.startFrom here target) (Path.parts target ++ parts)
      | _ => walkWith disk again (Path.step here part) parts
    | .ok _ => .error .notADirectory

/-- Walks from a folder through no more links than given, and answers the place at the
    end. -/
def walk (disk : Disk) : Nat → Place → List String → Except SystemFault Place
  | 0 => disk.walkWith fun _ _ => .error .filesystemLoop
  | links + 1 => disk.walkWith (disk.walk links)

/-- The number of links that are followed on one way. -/
def maxLinks : Nat := 40

/-- Whether a part of a way holds the character zero, which no name does. -/
def hasZero (way : List String) : Bool :=
  way.any fun part => part.toList.contains '\x00'

/-- The place at the end of a way, with every link followed. A way with the character
    zero is refused before the first step. -/
def resolveFrom (disk : Disk) (start : Place) (way : List String) : Except SystemFault Place :=
  if hasZero way then .error .invalidInput
  else disk.walk maxLinks start way.reverse

/-- The place of the last part of a way, which may be that of a link. -/
def reachFrom (disk : Disk) (start : Place) : List String → Except SystemFault Place
  | [] => .ok start
  | part :: outer =>
    if hasZero [part] then .error .invalidInput
    else match disk.resolveFrom start outer with
      | .error fault => .error fault
      | .ok here =>
        match disk.locate here with
        | .error fault => .error fault
        | .ok .folder => .ok (Path.step here part)
        | .ok _ => .error .notADirectory

/-- The place at the end of a path, with every link followed. Something need not be
    there, but the way must lead through folders only. The empty path leads nowhere. -/
def resolve (disk : Disk) (path : Path) : Except SystemFault Place :=
  if path.text = "" then .error .notFound
  else disk.resolveFrom path.start path.way

/-- The place of the last part of a path, which may be that of a link. -/
def reach (disk : Disk) (path : Path) : Except SystemFault Place :=
  if path.text = "" then .error .notFound
  else disk.reachFrom path.start path.way

/-- What a path leads to. -/
def find (disk : Disk) (path : Path) : Except SystemFault Node :=
  match disk.resolve path with
  | .error fault => .error fault
  | .ok place => disk.locate place

/-- Whether a path leads to something. -/
def exists? (disk : Disk) (path : Path) : Bool :=
  match disk.find path with
  | .ok _ => true
  | .error _ => false

/-- The name of a node that lies directly in `folder`. -/
def nameIn? (folder : Place) : Place → Option String
  | [] => none
  | name :: parent => if parent = folder then some name else none

/-- The names recorded directly in a folder, with what they stand for. -/
def children (disk : Disk) (folder : Place) : List (String × Node) :=
  disk.nodes.filterMap fun (place, node) => (nameIn? folder place).map (·, node)

/-- The content of a folder. Links in it are told as such. -/
def listing (disk : Disk) (folder : Path) : Except SystemFault (List (String × Node)) :=
  match disk.resolve folder with
  | .error fault => .error fault
  | .ok place =>
    match disk.locate place with
    | .error fault => .error fault
    | .ok .folder => .ok (disk.children place)
    | .ok _ => .error .notADirectory

/-- The content of a file. -/
def contentOf (disk : Disk) (path : Path) : Except SystemFault Bytes :=
  match disk.find path with
  | .error fault => .error fault
  | .ok (.file content) => .ok content
  | .ok _ => .error .isADirectory

/-- The content of a file that is mapped for reading. A folder can be opened but
    not mapped. What was mapped stays as it is here: a store changes a file that it has
    mapped only where a link with the name of a new file leads to it. -/
def mapFile (disk : Disk) (path : Path) : Except SystemFault Bytes :=
  match disk.find path with
  | .error fault => .error fault
  | .ok (.file content) => .ok content
  | .ok _ => .error .uncategorized

/-- All that lies below a folder: the places relative to it, with folders marked
    by a closing slash and without content, sorted by name. Only sessions of the driver
    ask for it. -/
def below (disk : Disk) (folder : Place) : List (String × Option Bytes) :=
  let named := disk.nodes.filterMap fun (place, node) =>
    if folder <:+ place ∧ place ≠ folder then
      let name := "/".intercalate (place.take (place.length - folder.length)).reverse
      match node with
      | .file content => some (name, some content)
      | .folder => some (name ++ "/", none)
      | .link _ => some (name, none)
    else none
  named.mergeSort fun a b => decide (¬ b.1 < a.1)

/-- The recorded nodes are those that can be looked up, since no place is recorded
    twice. -/
theorem mem_nodes {disk : Disk} {place : Place} {node : Node} :
    (place, node) ∈ disk.nodes ↔ disk.node? place = some node := by
  obtain ⟨nodes, nodup⟩ := disk
  simp only [node?]
  induction nodes with
  | nil => simp
  | cons first nodes ih =>
    obtain ⟨hfirst, hrest⟩ := List.nodup_cons.mp nodup
    rw [List.mem_cons, List.find?_cons]
    by_cases h : first.1 = place
    · subst h
      have hnot : (first.1, node) ∉ nodes := fun hmem =>
        hfirst (List.mem_map.mpr ⟨_, hmem, rfl⟩)
      simp only [beq_self_eq_true, hnot, or_false, Option.map_some, Option.some.injEq]
      exact ⟨fun heq => by rw [← heq], fun heq => by rw [← heq]⟩
    · have hne : (place, node) ≠ first := fun heq => h (by rw [← heq])
      have hbeq : (first.1 == place) = false := beq_eq_false_iff_ne.mpr h
      simp only [hne, false_or, hbeq]
      exact ih hrest

/-- A folder lists what is recorded directly below it. -/
theorem mem_children {disk : Disk} {folder : Place} {name : String} {node : Node} :
    (name, node) ∈ disk.children folder ↔ disk.node? (name :: folder) = some node := by
  rw [← mem_nodes, children, List.mem_filterMap]
  constructor
  · rintro ⟨⟨place, found⟩, hmem, hname⟩
    cases place with
    | nil => simp [nameIn?] at hname
    | cons first parent =>
      by_cases h : parent = folder
      · simp only [nameIn?, h, if_true, Option.map_some, Option.some.injEq,
          Prod.mk.injEq] at hname
        obtain ⟨rfl, rfl⟩ := hname
        rwa [h] at hmem
      · simp [nameIn?, h] at hname
  · intro hmem
    exact ⟨_, hmem, by simp [nameIn?]⟩

/-! ### Changing what is where -/

/-- The disk without the nodes at the places that `gone` picks. -/
def without (disk : Disk) (gone : Place → Bool) : Disk where
  nodes := disk.nodes.filter fun node => !gone node.1
  nodup := List.Nodup.sublist (List.Sublist.map _ List.filter_sublist) disk.nodup

/-- The disk without what is at a place. -/
def remove (disk : Disk) (place : Place) : Disk :=
  disk.without (· == place)

/-- The disk with a node at a place, instead of what was there. -/
def put (disk : Disk) (place : Place) (node : Node) : Disk where
  nodes := (place, node) :: (disk.remove place).nodes
  nodup := by
    refine List.nodup_cons.mpr ⟨?_, (disk.remove place).nodup⟩
    simp [remove, without]

@[simp] theorem node?_without (disk : Disk) (gone : Place → Bool) (place : Place) :
    (disk.without gone).node? place = if gone place then none else disk.node? place := by
  simp only [node?, without, List.find?_filter]
  split
  · rename_i hgone
    simp only [Option.map_eq_none_iff, List.find?_eq_none]
    intro node _
    by_cases h : node.1 = place <;> simp [h, hgone]
  · rename_i hgone
    congr 1
    apply congrArg (List.find? · disk.nodes)
    funext node
    by_cases h : node.1 = place <;> simp [h, hgone]

@[simp] theorem node?_remove (disk : Disk) (place other : Place) :
    (disk.remove place).node? other = if other = place then none else disk.node? other := by
  simp [remove]

/-- A node is seen at the place where it was put, and all else is as before. -/
@[simp] theorem node?_put (disk : Disk) (place other : Place) (node : Node) :
    (disk.put place node).node? other =
      if other = place then some node else disk.node? other := by
  by_cases h : other = place
  · subst h
    simp [node?, put]
  · have hne : place ≠ other := fun heq => h heq.symm
    have := node?_remove disk place other
    simp only [h, if_false] at this ⊢
    rw [← this]
    simp [node?, put, hne]

/-! ### File operations -/

/-- Makes one folder, in a folder that is there. Slashes behind its name count for
    nothing, and a link that has the name is in its way. -/
def makeFolder (start : Place) (way : List String) : Action Disk Unit := fun disk =>
  match way.dropWhile (· == "") with
  | [] => .error (.system .alreadyExists) disk
  | part :: outer =>
    match disk.reachFrom start (part :: outer) with
    | .error fault => .error (.system fault) disk
    | .ok place =>
      match disk.locate place with
      | .ok _ => .error (.system .alreadyExists) disk
      | .error .notFound => .ok () (disk.put place .folder)
      | .error fault => .error (.system fault) disk

/-- Makes one folder unless it is there, or a link leads to one. -/
def ensureFolder (start : Place) (way : List String) : Action Disk Unit := fun disk =>
  match makeFolder start way disk with
  | .error (.system .alreadyExists) disk =>
    match (disk.resolveFrom start way).bind disk.locate with
    | .ok .folder => .ok () disk
    | _ => .error (.system .alreadyExists) disk
  | outcome => outcome

/-- Makes one folder unless it is there. If it has no folder to be in, `surround`
    makes that first. -/
def ensureWithin (surround : Action Disk Unit) (start : Place) (way : List String) :
    Action Disk Unit := fun disk =>
  match ensureFolder start way disk with
  | .error (.system .notFound) disk => (surround *> ensureFolder start way) disk
  | outcome => outcome

/-- Makes the folders of a way from the outside in, beginning with the first that is
    missing. Parts that lead nowhere have none. -/
def makeWay (start : Place) : List String → Action Disk Unit
  | [] => pure ()
  | part :: outer =>
    if Path.stays part then makeWay start outer
    else ensureWithin (makeWay start outer) start (part :: outer)

/-- Makes a folder, and those on the way to it, unless they are there. A dot behind
    a name is a step out of the named folder, so that folder must be there before. For
    the empty path there is nothing to make. -/
def makeFolders (path : Path) : Action Disk Unit :=
  if path.text = "" then pure ()
  else ensureWithin (makeWay path.start (Path.around path.way)) path.start path.way

/-- Makes an empty file, or empties the file that is there, and answers where it is. At
    the end of a link this is the file that the link leads to. -/
def makeFile (path : Path) : Action Disk Place := fun disk =>
  match disk.resolve path with
  | .error fault => .error (.system fault) disk
  | .ok place =>
    match disk.locate place with
    | .ok (.file _) => .ok place (disk.put place (.file []))
    | .error .notFound => .ok place (disk.put place (.file []))
    | .ok _ => .error (.system .isADirectory) disk
    | .error fault => .error (.system fault) disk

/-- Gives a file that was made its content. -/
def setContent (place : Place) (content : Bytes) : Action Disk Unit := fun disk =>
  .ok () (disk.put place (.file content))

/-- Makes a file with the given content, and the folders on the way to it. Only
    sessions of the driver do so. -/
def save (path : Path) (content : Bytes) : Action Disk Unit := do
  makeWay path.start (Path.around path.way)
  setContent (← makeFile path) content

/-- Deletes a file, or a link by itself. -/
def delete (path : Path) : Action Disk Unit := fun disk =>
  match disk.reach path with
  | .error fault => .error (.system fault) disk
  | .ok place =>
    match disk.locate place with
    | .error fault => .error (.system fault) disk
    | .ok .folder => .error (.system .isADirectory) disk
    | .ok _ => .ok () (disk.remove place)

/-- Deletes a folder and all that lies below it. Only sessions of the driver do so. -/
def deleteTree (path : Path) : Action Disk Unit := fun disk =>
  match disk.reach path with
  | .error fault => .error (.system fault) disk
  | .ok place =>
    match disk.locate place with
    | .error fault => .error (.system fault) disk
    | .ok .folder => .ok () (disk.without fun other => place.isSuffixOf other)
    | .ok _ => .error (.system .notADirectory) disk

end Disk

end LayeredStore
