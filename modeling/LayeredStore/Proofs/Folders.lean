import LayeredStore.Disk
import Mathlib.Data.List.TakeWhile

namespace LayeredStore

/-!
# What is reached after a change

Paths are walked through folders and links only, so what a path leads to is settled by
these, and a folder is still found, at the same place, after a change that takes none of
them away. Inside a folder that is found, a plain name leads to what is recorded below the
folder, unless this is a link.

* `Disk.SameNodes` — disks with the same files, folders and links;
* `Disk.KeepsWays`, `Disk.KeepsFiles` — all folders and links, or all files, of a disk are
  those of another;
* `Disk.Adds` — nothing was changed but that something was put where nothing was;
* `Disk.HasFolder` — a path leads to the folder at a place;
* `Disk.walk_append` — a walk stops in its first parts, or goes on from where these lead;
* `Disk.walk_mono`, `Disk.HasFolder.mono`, `Disk.find_mono` — what is reached is reached again;
* `Path.IsPlain` — a name that leads from a folder to what is directly in it;
* `Disk.find_child`, `Disk.delete_child` — what a plain name leads to;
* `Disk.CanMake`, `Disk.of_makeFile_ok`, `Disk.canMake_child` — a file is made just where a
  folder is around it and neither a folder nor a link is there;
* `Disk.moves_makeFolders` — the making of folders follows every law that the making of one
  folder follows;
* `Disk.makeFolders_of_folder`, `Disk.adds_makeFolders`, `Disk.folder_of_makeFolders` — what
  the making of folders changes and leaves;
* `Disk.makeFolders_error_again` — what cannot be made cannot be made afterwards either;
* `Disk.Leads` — where a path leads once its folders are made.
-/

namespace Disk

variable {disk between after : Disk} {path folder : Path} {start place here home : Place}
  {way outer parts : List String} {part name : String} {node : Node} {fault : SystemFault}

/-! ### What stays -/

/-- The disks have the same files, folders and links. -/
def SameNodes (disk after : Disk) : Prop := ∀ place, after.node? place = disk.node? place

/-- Every folder and every link of a disk is one of another. -/
def KeepsWays (disk after : Disk) : Prop :=
  ∀ place node, node.isFile = false → disk.node? place = some node → after.node? place = some node

theorem KeepsWays.refl (disk : Disk) : KeepsWays disk disk := fun _ _ _ h => h

theorem KeepsWays.trans (h : KeepsWays disk between) (h' : KeepsWays between after) :
    KeepsWays disk after :=
  fun place node hnode hplace => h' place node hnode (h place node hnode hplace)

theorem keepsWays_remove (h : ∀ node, disk.node? place = some node → node.isFile = true) :
    KeepsWays disk (disk.remove place) := by
  intro other node hnode hother
  have hne : other ≠ place := fun heq => by
    rw [h node (heq ▸ hother)] at hnode
    cases hnode
  rw [node?_remove, if_neg hne, hother]

/-- Every file of a disk is still there, with the same content. -/
def KeepsFiles (disk after : Disk) : Prop :=
  ∀ place content, disk.node? place = some (.file content) →
    after.node? place = some (.file content)

theorem KeepsFiles.refl (disk : Disk) : KeepsFiles disk disk := fun _ _ h => h

/-- Something is at a place if it is recorded there and a folder is around it. -/
theorem locate_cons_ok_iff : disk.locate (name :: place) = .ok node ↔
    disk.locate place = .ok .folder ∧ disk.node? (name :: place) = some node := by
  rw [locate]
  cases disk.locate place with
  | error fault => simp
  | ok around =>
    cases around with
    | file content => simp
    | folder => cases disk.node? (name :: place) <;> simp
    | link target => simp

/-- Folders and links that are kept are where they were. -/
theorem locate_mono (h : KeepsWays disk after) (hnode : node.isFile = false)
    (hplace : disk.locate place = .ok node) : after.locate place = .ok node := by
  -- a place is reached through its parents, and all of them are folders
  induction place generalizing node with
  | nil => exact hplace
  | cons name parent ih =>
    obtain ⟨hparent, hrecorded⟩ := locate_cons_ok_iff.mp hplace
    exact locate_cons_ok_iff.mpr ⟨ih rfl hparent, h _ _ hnode hrecorded⟩

/-- What is at a place stays there while files, folders and links do. -/
theorem locate_ok_mono (hfiles : KeepsFiles disk after) (h : KeepsWays disk after)
    (hplace : disk.locate place = .ok node) : after.locate place = .ok node := by
  cases node with
  | folder => exact locate_mono h rfl hplace
  | link target => exact locate_mono h rfl hplace
  | file content =>
    cases place with
    | nil => exact hplace
    | cons name parent =>
      obtain ⟨hparent, hrecorded⟩ := locate_cons_ok_iff.mp hplace
      exact locate_cons_ok_iff.mpr ⟨locate_mono h rfl hparent, hfiles _ _ hrecorded⟩

theorem locate_tail (h : disk.locate here = .ok .folder) : disk.locate here.tail = .ok .folder := by
  cases here with
  | nil => rfl
  | cons name parent => exact (locate_cons_ok_iff.mp h).1

/-- Something is at the place, or a folder is around it in which nothing has the name. -/
def Ends (disk : Disk) (place : Place) : Prop :=
  (∃ node, disk.locate place = .ok node)
    ∨ (disk.locate place = .error .notFound ∧ disk.node? place = none
      ∧ ∃ name home, place = name :: home ∧ disk.locate home = .ok .folder)

/-- One step from a folder leads to something, or to a name that is not recorded there. -/
theorem ends_step (hhere : disk.locate here = .ok .folder) : disk.Ends (Path.step here part) := by
  rw [Path.step]
  split
  · exact .inl ⟨_, hhere⟩
  · split
    · exact .inl ⟨_, locate_tail hhere⟩
    · cases hnode : disk.node? (part :: here) with
      | some node => exact .inl ⟨node, locate_cons_ok_iff.mpr ⟨hhere, hnode⟩⟩
      | none =>
        have hmissing : disk.locate (part :: here) = .error .notFound := by
          simp only [locate, hhere, hnode]
        exact .inr ⟨hmissing, hnode, part, here, rfl, hhere⟩

/-! ### Walks -/

section Walks

variable {again again' : Place → List String → Except SystemFault Place} {links : Nat}

theorem of_walkWith_cons (h : disk.walkWith again here (part :: parts) = .ok place) :
    disk.locate here = .ok .folder := by
  rw [walkWith] at h
  split at h
  · cases h
  · assumption
  · cases h

/-- A law for what is walked through links is one for walks: they stop in their first parts,
    whatever the others are, or else go on from the place where these lead. -/
theorem walkWith_append (hlinks : disk.walk links = disk.walkWith again)
    (hagain : ∀ here parts, (∃ fault, ∀ more, again here (parts ++ more) = .error fault)
      ∨ ∃ left place, ∀ more, again here (parts ++ more) = disk.walk left place more)
    (here : Place) (parts : List String) :
    (∃ fault, ∀ more, disk.walkWith again here (parts ++ more) = .error fault)
      ∨ ∃ left place, ∀ more,
        disk.walkWith again here (parts ++ more) = disk.walk left place more := by
  induction parts generalizing here with
  | nil => exact .inr ⟨links, here, fun _ => by rw [hlinks]; rfl⟩
  | cons part parts ih =>
    simp only [List.cons_append, walkWith]
    cases disk.locate here with
    | error fault => exact .inl ⟨fault, fun _ => rfl⟩
    | ok node =>
      cases node with
      | file content => exact .inl ⟨_, fun _ => rfl⟩
      | link target => exact .inl ⟨_, fun _ => rfl⟩
      | folder =>
        cases disk.locate (Path.step here part) with
        | error fault => exact ih _
        | ok node =>
          cases node with
          | link target =>
            -- the parts of the target come before the others
            simpa only [List.append_assoc] using
              hagain (Path.startFrom here target) (Path.parts target ++ parts)
          | _ => exact ih _

/-- A walk stops in its first parts, whatever the others are, or else goes on from the place
    where they lead. -/
theorem walk_append (disk : Disk) (links : Nat) (here : Place) (parts : List String) :
    (∃ fault, ∀ more, disk.walk links here (parts ++ more) = .error fault)
      ∨ ∃ left place, ∀ more, disk.walk links here (parts ++ more) = disk.walk left place more := by
  induction links generalizing here parts with
  | zero =>
    have hlinks : disk.walk 0 = disk.walkWith fun _ _ => .error .filesystemLoop := rfl
    exact walkWith_append hlinks (fun _ _ => .inl ⟨_, fun _ => rfl⟩) here parts
  | succ links ih =>
    have hlinks : disk.walk (links + 1) = disk.walkWith (disk.walk links) := rfl
    exact walkWith_append hlinks ih here parts

theorem walkWith_mono (h : KeepsWays disk after) (hlink : ∀ target,
      after.locate place ≠ .ok (.link target))
    (hagain : ∀ here parts, again here parts = .ok place → again' here parts = .ok place)
    (hwalk : disk.walkWith again here parts = .ok place) :
    after.walkWith again' here parts = .ok place := by
  induction parts generalizing here with
  | nil => exact hwalk
  | cons part parts ih =>
    have hhere := of_walkWith_cons hwalk
    rw [walkWith, hhere] at hwalk
    rw [walkWith, locate_mono h rfl hhere]
    dsimp only at hwalk ⊢
    split at hwalk
    · rename_i target hstep
      rw [locate_mono h rfl hstep]
      exact hagain _ _ hwalk
    · -- what is walked through is a folder still, and at the end there is no link
      have hnone : ∀ target, after.locate (Path.step here part) ≠ .ok (.link target) := by
        cases parts with
        | nil =>
          cases hwalk
          exact hlink
        | cons next parts =>
          rw [locate_mono h rfl (of_walkWith_cons hwalk)]
          exact fun target heq => by cases heq
      split
      · rename_i target hstep
        exact absurd hstep (hnone target)
      · exact ih hwalk

/-- What is reached by a walk is reached again while folders and links stay, unless a link was
    put there. -/
theorem walk_mono (h : KeepsWays disk after) (hlink : ∀ target,
      after.locate place ≠ .ok (.link target)) (hwalk : disk.walk links here parts = .ok place) :
    after.walk links here parts = .ok place := by
  induction links generalizing here parts with
  | zero => exact walkWith_mono h hlink (fun _ _ hagain => hagain) hwalk
  | succ links ih => exact walkWith_mono h hlink (fun _ _ => ih) hwalk

/-- A walk from a place that is there ends at one that is, or where only a name is missing. -/
theorem ends_walkWith (hagain : ∀ {here parts place}, disk.Ends here →
      again here parts = .ok place → disk.Ends place)
    (hhere : disk.Ends here) (hwalk : disk.walkWith again here parts = .ok place) :
    disk.Ends place := by
  induction parts generalizing here with
  | nil =>
    cases hwalk
    exact hhere
  | cons part parts ih =>
    have hfolder := of_walkWith_cons hwalk
    rw [walkWith, hfolder] at hwalk
    dsimp only at hwalk
    split at hwalk
    · rename_i target _
      refine hagain ?_ hwalk
      -- the target starts at the root or in the folder of the link
      rw [Path.startFrom]
      split
      · exact .inl ⟨_, rfl⟩
      · exact .inl ⟨_, hfolder⟩
    · exact ih (ends_step hfolder) hwalk

theorem ends_walk (hhere : disk.Ends here) (hwalk : disk.walk links here parts = .ok place) :
    disk.Ends place := by
  induction links generalizing here parts place with
  | zero => exact ends_walkWith (fun _ hagain => by cases hagain) hhere hwalk
  | succ links ih => exact ends_walkWith (fun hhere => ih hhere) hhere hwalk

/-! ### One step of a walk -/

theorem walk_nil (disk : Disk) (links : Nat) (here : Place) :
    disk.walk links here [] = .ok here := by
  cases links <;> rfl

theorem of_walk_cons (h : disk.walk links here (part :: parts) = .ok place) :
    disk.locate here = .ok .folder := by
  cases links with
  | zero => exact of_walkWith_cons h
  | succ links => exact of_walkWith_cons h

theorem walk_cons_error (hhere : disk.locate here = .error fault) :
    disk.walk links here (part :: parts) = .error fault := by
  cases links <;> simp only [walk, walkWith, hhere]

theorem walkWith_singleton (hhere : disk.locate here = .ok .folder)
    (hlink : ∀ target, disk.locate (Path.step here part) ≠ .ok (.link target)) :
    disk.walkWith again here [part] = .ok (Path.step here part) := by
  rw [walkWith, hhere]
  dsimp only
  split
  · rename_i target hstep
    exact absurd hstep (hlink target)
  · rfl

theorem walk_singleton (hhere : disk.locate here = .ok .folder)
    (hlink : ∀ target, disk.locate (Path.step here part) ≠ .ok (.link target)) :
    disk.walk links here [part] = .ok (Path.step here part) := by
  cases links <;> exact walkWith_singleton hhere hlink

end Walks

/-! ### Ways -/

theorem hasZero_cons : hasZero (part :: outer) = (hasZero [part] || hasZero outer) := by
  simp [hasZero]

theorem hasZero_of_resolveFrom (h : disk.resolveFrom start way = .ok place) :
    hasZero way = false := by
  rw [resolveFrom] at h
  split at h
  · cases h
  · exact Bool.eq_false_iff.mpr (by assumption)

/-- One more part is walked from the place where the others lead, or not walked at all. -/
theorem resolveFrom_cons (disk : Disk) (start : Place) (part : String) (outer : List String)
    (hzero : hasZero [part] = false) :
    (∃ fault, disk.resolveFrom start outer = .error fault
        ∧ disk.resolveFrom start (part :: outer) = .error fault)
      ∨ ∃ left here, disk.resolveFrom start outer = .ok here
        ∧ disk.resolveFrom start (part :: outer) = disk.walk left here [part] := by
  rw [resolveFrom, resolveFrom, hasZero_cons, hzero, Bool.false_or]
  split
  · exact .inl ⟨_, rfl, rfl⟩
  · rw [List.reverse_cons]
    rcases walk_append disk maxLinks start outer.reverse with ⟨fault, hstop⟩ | ⟨left, here, hgo⟩
    · exact .inl ⟨fault, by simpa using hstop [], hstop [part]⟩
    · exact .inr ⟨left, here, by simpa [walk_nil] using hgo [], hgo [part]⟩

/-- A step from a folder to what is no link leads to the place of that. -/
theorem resolveFrom_step (hzero : hasZero [part] = false)
    (houter : disk.resolveFrom start outer = .ok here) (hhere : disk.locate here = .ok .folder)
    (hlink : ∀ target, disk.locate (Path.step here part) ≠ .ok (.link target)) :
    disk.resolveFrom start (part :: outer) = .ok (Path.step here part) := by
  rcases resolveFrom_cons disk start part outer hzero with ⟨fault, hfault, _⟩
    | ⟨left, mid, hmid, hgo⟩
  · rw [houter] at hfault
    cases hfault
  · rw [houter] at hmid
    cases hmid
    rw [hgo, walk_singleton hhere hlink]

/-- Where a way can be walked, its last part was walked from a folder. -/
theorem of_resolveFrom_cons (h : disk.resolveFrom start (part :: outer) = .ok place) :
    hasZero [part] = false ∧ ∃ here, disk.resolveFrom start outer = .ok here
      ∧ disk.locate here = .ok .folder := by
  have hzero : hasZero [part] = false := by
    have hway := hasZero_of_resolveFrom h
    rw [hasZero_cons, Bool.or_eq_false_iff] at hway
    exact hway.1
  refine ⟨hzero, ?_⟩
  rcases resolveFrom_cons disk start part outer hzero with ⟨fault, _, hfault⟩
    | ⟨left, here, hhere, hgo⟩
  · rw [h] at hfault
    cases hfault
  · rw [h] at hgo
    exact ⟨here, hhere, of_walk_cons hgo.symm⟩

theorem ends_of_resolveFrom (h : disk.resolveFrom start (part :: outer) = .ok place) :
    disk.Ends place := by
  obtain ⟨hzero, _⟩ := of_resolveFrom_cons h
  rcases resolveFrom_cons disk start part outer hzero with ⟨fault, _, hfault⟩
    | ⟨left, here, _, hgo⟩
  · rw [h] at hfault
    cases hfault
  · rw [h] at hgo
    exact ends_walk (.inl ⟨_, of_walk_cons hgo.symm⟩) hgo.symm

/-- Nothing is reached behind what is missing. -/
theorem bind_locate_cons_error (hzero : hasZero [part] = false)
    (h : (disk.resolveFrom start outer).bind disk.locate = .error fault) :
    (disk.resolveFrom start (part :: outer)).bind disk.locate = .error fault := by
  rcases resolveFrom_cons disk start part outer hzero with ⟨missed, hmissed, hfault⟩
    | ⟨left, here, hhere, hgo⟩
  · rw [hmissed] at h
    cases h
    rw [hfault]
    rfl
  · rw [hhere] at h
    rw [hgo, walk_cons_error h]
    rfl

theorem resolveFrom_mono (h : KeepsWays disk after)
    (hlink : ∀ target, after.locate place ≠ .ok (.link target))
    (hway : disk.resolveFrom start way = .ok place) : after.resolveFrom start way = .ok place := by
  have hzero := hasZero_of_resolveFrom hway
  rw [resolveFrom, hzero, if_neg Bool.false_ne_true] at hway ⊢
  exact walk_mono h hlink hway

/-! ### Folders that are found -/

/-- The path leads to the folder at a place. -/
def HasFolder (disk : Disk) (path : Path) (home : Place) : Prop :=
  disk.resolve path = .ok home ∧ disk.locate home = .ok .folder

/-- The empty path leads nowhere. -/
theorem text_ne_of_resolve (h : disk.resolve path = .ok place) : path.text ≠ "" := by
  intro hempty
  rw [resolve, if_pos hempty] at h
  cases h

theorem resolve_eq (hpath : path.text ≠ "") :
    disk.resolve path = disk.resolveFrom path.start path.way :=
  if_neg hpath

theorem bind_locate_eq_find (disk : Disk) (hpath : path.text ≠ "") :
    (disk.resolveFrom path.start path.way).bind disk.locate = disk.find path := by
  rw [find, resolve_eq hpath]
  cases disk.resolveFrom path.start path.way <;> rfl

/-- Something is found where a path can be walked to it. -/
theorem find_ok_iff : disk.find path = .ok node ↔
    ∃ place, disk.resolve path = .ok place ∧ disk.locate place = .ok node := by
  rw [find]
  cases disk.resolve path with
  | error fault => simp
  | ok place => simp

theorem find_folder_iff : disk.find path = .ok .folder ↔ ∃ home, disk.HasFolder path home :=
  find_ok_iff

theorem HasFolder.find_eq (h : disk.HasFolder path home) : disk.find path = .ok .folder :=
  find_folder_iff.mpr ⟨home, h⟩

/-- The root is there on every disk. -/
theorem hasFolder_root (disk : Disk) : disk.HasFolder (.ofText [] "/") [] := ⟨rfl, rfl⟩

theorem HasFolder.text_ne (h : disk.HasFolder path home) : path.text ≠ "" :=
  text_ne_of_resolve h.1

/-- A path leads to one place only. -/
theorem HasFolder.unique (h : disk.HasFolder path home) (h' : disk.HasFolder path place) :
    place = home :=
  Except.ok.inj (h'.1.symm.trans h.1)

/-- A path still leads to a place while folders and links stay, unless a link was put there. -/
theorem resolve_mono (h : KeepsWays disk after)
    (hlink : ∀ target, after.locate place ≠ .ok (.link target))
    (hpath : disk.resolve path = .ok place) : after.resolve path = .ok place := by
  have hne := text_ne_of_resolve hpath
  rw [resolve_eq hne] at hpath ⊢
  exact resolveFrom_mono h hlink hpath

/-- A folder is found at the same place while folders and links stay. -/
theorem HasFolder.mono (h : disk.HasFolder path home) (hways : KeepsWays disk after) :
    after.HasFolder path home := by
  obtain ⟨hpath, hhome⟩ := h
  have hafter := locate_mono hways rfl hhome
  refine ⟨resolve_mono hways (fun target heq => ?_) hpath, hafter⟩
  cases hafter.symm.trans heq

/-- What a path leads to it still leads to while files, folders and links stay. -/
theorem find_mono (hfiles : KeepsFiles disk after) (h : KeepsWays disk after)
    (hnode : node.isLink = false) (hfind : disk.find path = .ok node) :
    after.find path = .ok node := by
  obtain ⟨place, hpath, hplace⟩ := find_ok_iff.mp hfind
  have hafter := locate_ok_mono hfiles h hplace
  refine find_ok_iff.mpr ⟨place, resolve_mono h (fun target heq => ?_) hpath, hafter⟩
  cases hafter.symm.trans heq
  cases hnode

/-- Where nothing is found there is nothing. -/
theorem exists?_of_missing (h : disk.find path = .error fault) : disk.exists? path = false := by
  rw [exists?, h]

/-! ### Disks with something more -/

/-- Everything is as it was but for what was put where nothing was, and that is allowed. -/
def Adds (allowed : Place → Node → Prop) (disk after : Disk) : Prop :=
  ∀ place, after.node? place = disk.node? place
    ∨ (disk.node? place = none ∧ ∃ node, after.node? place = some node ∧ allowed place node)

section Adds

variable {allowed wider : Place → Node → Prop}

theorem Adds.refl (disk : Disk) : Adds allowed disk disk := fun _ => .inl rfl

theorem Adds.trans (h : Adds allowed disk between) (h' : Adds allowed between after) :
    Adds allowed disk after := by
  intro place
  rcases h' place with hlast | ⟨hnone, hput⟩
  · rw [hlast]
    exact h place
  · -- nothing was there before the second step, so the first put nothing there
    rcases h place with hfirst | ⟨_, _, hsome, _⟩
    · exact .inr ⟨hfirst.symm.trans hnone, hput⟩
    · rw [hnone] at hsome
      cases hsome

theorem Adds.mono (h : Adds allowed disk after)
    (hwider : ∀ place node, allowed place node → wider place node) : Adds wider disk after :=
  fun place => (h place).imp_right fun ⟨hnone, node, hnode, hallowed⟩ =>
    ⟨hnone, node, hnode, hwider place node hallowed⟩

theorem adds_put (hnone : disk.node? place = none) (hallowed : allowed place node) :
    Adds allowed disk (disk.put place node) := by
  intro other
  rw [node?_put]
  by_cases hother : other = place
  · subst hother
    exact .inr ⟨hnone, node, if_pos rfl, hallowed⟩
  · exact .inl (if_neg hother)

/-- What was there is there still. -/
theorem Adds.node?_eq (h : Adds allowed disk after) (hnode : disk.node? place = some node) :
    after.node? place = some node := by
  rcases h place with hsame | ⟨hnone, _⟩
  · rw [hsame, hnode]
  · rw [hnode] at hnone
    cases hnone

/-- What is there was there before, or it was allowed to be put there. -/
theorem Adds.of_node? (h : Adds allowed disk after) (hnode : after.node? place = some node) :
    disk.node? place = some node ∨ allowed place node := by
  rcases h place with hsame | ⟨_, found, hfound, hallowed⟩
  · exact .inl (hsame.symm.trans hnode)
  · cases hnode.symm.trans hfound
    exact .inr hallowed

theorem Adds.keepsFiles (h : Adds allowed disk after) : KeepsFiles disk after :=
  fun _ _ hfile => h.node?_eq hfile

theorem Adds.keepsWays (h : Adds allowed disk after) : KeepsWays disk after :=
  fun _ _ _ hnode => h.node?_eq hnode

end Adds

end Disk

/-! ### Names inside a folder -/

/-- The name leads from a folder to what is directly in it. -/
structure Path.IsPlain (name : String) : Prop where
  stays_eq : Path.stays name = false
  ne_dots : name ≠ ".."
  contains_eq : name.toList.contains '\x00' = false

namespace Path.IsPlain

variable {name : String} {home : Place}

theorem step_eq (h : IsPlain name) : step home name = name :: home := by
  rw [step, h.stays_eq, if_neg Bool.false_ne_true, if_neg h.ne_dots]

theorem hasZero_eq (h : IsPlain name) : Disk.hasZero [name] = false := by
  rw [Disk.hasZero, List.any_cons, h.contains_eq]
  rfl

theorem ne_empty (h : IsPlain name) : name ≠ "" := by
  rintro rfl
  cases h.stays_eq

theorem text_child_ne (h : IsPlain name) (folder : Path) : (folder.child name).text ≠ "" :=
  join_ne_empty h.ne_empty

end Path.IsPlain

namespace Disk

variable {disk after : Disk} {path folder : Path} {start place here home : Place}
  {way outer : List String} {part name : String} {node : Node} {content : Bytes}

/-- A plain name in a folder is at the place below the folder's. -/
theorem reach_child (hname : Path.IsPlain name) (hfolder : disk.HasFolder folder home) :
    disk.reach (folder.child name) = .ok (name :: home) := by
  obtain ⟨hpath, hhome⟩ := hfolder
  rw [resolve_eq (text_ne_of_resolve hpath)] at hpath
  rw [reach, if_neg (hname.text_child_ne folder), Path.child, reachFrom, hname.hasZero_eq,
    if_neg Bool.false_ne_true, hpath]
  simp only [hhome, hname.step_eq]

/-- What is recorded at a place in a folder that is found. -/
theorem locate_child (hfolder : disk.HasFolder folder home) :
    disk.locate (name :: home) = match disk.node? (name :: home) with
      | some node => .ok node
      | none => .error .notFound := by
  cases hnode : disk.node? (name :: home) <;> simp only [locate, hfolder.2, hnode]

/-- A plain name in a folder leads to the place below the folder's unless there is a link. -/
theorem resolve_child (hname : Path.IsPlain name) (hfolder : disk.HasFolder folder home)
    (hlink : ∀ target, disk.node? (name :: home) ≠ some (.link target)) :
    disk.resolve (folder.child name) = .ok (name :: home) := by
  obtain ⟨hpath, hhome⟩ := id hfolder
  rw [resolve_eq (text_ne_of_resolve hpath)] at hpath
  rw [resolve_eq (hname.text_child_ne folder), Path.child,
    resolveFrom_step hname.hasZero_eq hpath hhome, hname.step_eq]
  intro target hlocate
  rw [hname.step_eq, locate_cons_ok_iff] at hlocate
  exact hlink target hlocate.2

/-- A plain name in a folder leads to what is recorded below the folder unless this is a
    link. -/
theorem find_child (hname : Path.IsPlain name) (hfolder : disk.HasFolder folder home)
    (hlink : ∀ target, disk.node? (name :: home) ≠ some (.link target)) :
    disk.find (folder.child name) = match disk.node? (name :: home) with
      | some node => .ok node
      | none => .error .notFound := by
  rw [find, resolve_child hname hfolder hlink]
  exact locate_child hfolder

theorem find_child_file (hname : Path.IsPlain name) (hfolder : disk.HasFolder folder home)
    (hfile : disk.node? (name :: home) = some (.file content)) :
    disk.find (folder.child name) = .ok (.file content) := by
  rw [find_child hname hfolder (fun target heq => by cases hfile.symm.trans heq), hfile]

/-- What is mapped is the content of the file that is recorded. -/
theorem mapFile_child (hname : Path.IsPlain name) (hfolder : disk.HasFolder folder home)
    (hfile : disk.node? (name :: home) = some (.file content)) :
    disk.mapFile (folder.child name) = .ok content := by
  rw [mapFile, find_child_file hname hfolder hfile]

/-- What was mapped is mapped again while files, folders and links stay. -/
theorem mapFile_mono (hfiles : KeepsFiles disk after) (h : KeepsWays disk after)
    (hmapped : disk.mapFile path = .ok content) : after.mapFile path = .ok content := by
  rw [mapFile] at hmapped ⊢
  split at hmapped
  · cases hmapped
  · rename_i hfind
    rw [find_mono hfiles h rfl hfind]
    exact hmapped
  · cases hmapped

/-! ### Where files can be made -/

/-- A file can be put at the place: a folder is around it, and neither a folder nor a link is
    there. -/
structure IsFree (disk : Disk) (place : Place) : Prop where
  around : ∃ name home, place = name :: home ∧ disk.locate home = .ok .folder
  isFile : ∀ node, disk.node? place = some node → node.isFile = true

/-- The path leads to a place where a file can be put. -/
structure CanMake (disk : Disk) (path : Path) (place : Place) : Prop where
  resolve_eq : disk.resolve path = .ok place
  free : disk.IsFree place

theorem IsFree.not_link (h : disk.IsFree place) (target : String) :
    disk.locate place ≠ .ok (.link target) := by
  obtain ⟨name, home, rfl, _⟩ := h.around
  intro hlink
  cases h.isFile _ (locate_cons_ok_iff.mp hlink).2

/-- A folder or a link that is there has another place. -/
theorem IsFree.ne (h : disk.IsFree place) {other : Place} (hother : disk.node? other = some node)
    (hnode : node.isFile = false) : other ≠ place := by
  rintro rfl
  rw [h.isFile node hother] at hnode
  cases hnode

/-- A place where a file can be put is still one while folders and links stay and none is put
    there. -/
theorem IsFree.mono (h : disk.IsFree place) (hways : KeepsWays disk after)
    (hisFile : ∀ node, after.node? place = some node → node.isFile = true) :
    after.IsFree place := by
  obtain ⟨name, home, hplace, hhome⟩ := h.around
  exact ⟨⟨name, home, hplace, locate_mono hways rfl hhome⟩, hisFile⟩

theorem CanMake.mono (h : disk.CanMake path place) (hways : KeepsWays disk after)
    (hisFile : ∀ node, after.node? place = some node → node.isFile = true) :
    after.CanMake path place :=
  have hfree := h.free.mono hways hisFile
  ⟨resolve_mono hways hfree.not_link h.resolve_eq, hfree⟩

/-- The file that was put there is found. -/
theorem CanMake.find_eq (h : disk.CanMake path place) (hways : KeepsWays disk after)
    (hfile : after.node? place = some (.file content)) : after.find path = .ok (.file content) := by
  have hafter := h.mono hways fun node hnode => by
    cases hfile.symm.trans hnode
    rfl
  obtain ⟨name, home, rfl, hhome⟩ := hafter.free.around
  exact find_ok_iff.mpr ⟨_, hafter.resolve_eq, locate_cons_ok_iff.mpr ⟨hhome, hfile⟩⟩

theorem makeFile_eq (h : disk.CanMake path place) :
    makeFile path disk = .ok place (disk.put place (.file [])) := by
  obtain ⟨name, home, rfl, hhome⟩ := h.free.around
  simp only [makeFile, h.resolve_eq, locate, hhome]
  cases hnode : disk.node? (name :: home) with
  | none => rfl
  | some node =>
    have hfile := h.free.isFile node hnode
    cases node with
    | file content => rfl
    | _ => cases hfile

/-- A file was made where one can be. -/
theorem of_makeFile_ok (h : makeFile (folder.child name) disk = .ok place after) :
    disk.CanMake (folder.child name) place := by
  cases hpath : disk.resolve (folder.child name) with
  | error fault =>
    simp only [makeFile, hpath] at h
    cases h
  | ok found =>
    have hfound : found = place := by
      simp only [makeFile, hpath] at h
      split at h <;> cases h <;> rfl
    subst hfound
    have hends : disk.Ends found := by
      rw [Disk.resolve_eq (text_ne_of_resolve hpath), Path.child] at hpath
      exact ends_of_resolveFrom hpath
    refine ⟨hpath, ?_⟩
    rcases hends with ⟨node, hnode⟩ | ⟨_, hnone, name, home, hplace, hhome⟩
    · -- of what is there only a file can be made anew
      simp only [makeFile, hpath, hnode] at h
      cases node with
      | file content =>
        cases found with
        | nil => cases hnode
        | cons name home =>
          obtain ⟨hhome, hrecorded⟩ := locate_cons_ok_iff.mp hnode
          refine ⟨⟨name, home, rfl, hhome⟩, fun other hother => ?_⟩
          cases hrecorded.symm.trans hother
          rfl
      | _ => cases h
    · exact ⟨⟨name, home, hplace, hhome⟩, fun node hnode => by cases hnone.symm.trans hnode⟩

/-- A file that could not be made changes nothing. -/
theorem of_makeFile_error {fault : Fault} (h : makeFile path disk = .error fault after) :
    after = disk := by
  rw [makeFile] at h
  split at h
  · cases h; rfl
  · split at h <;> cases h
    · rfl
    · rfl

/-! ### Files in a folder -/

/-- A file can be made in a folder unless a folder or a link has its name. -/
theorem canMake_child (hname : Path.IsPlain name) (hfolder : disk.HasFolder folder home)
    (hfree : ∀ node, disk.node? (name :: home) = some node → node.isFile = true) :
    disk.CanMake (folder.child name) (name :: home) :=
  have hlink : ∀ target, disk.node? (name :: home) ≠ some (.link target) :=
    fun target heq => by cases hfree _ heq
  ⟨resolve_child hname hfolder hlink, ⟨name, home, rfl, hfolder.2⟩, hfree⟩

/-- No file is made where a folder has its name. -/
theorem makeFile_child_taken (hname : Path.IsPlain name) (hfolder : disk.HasFolder folder home)
    (hnode : disk.node? (name :: home) = some .folder) :
    makeFile (folder.child name) disk = .error (.system .isADirectory) disk := by
  rw [makeFile, resolve_child hname hfolder fun target heq => by cases hnode.symm.trans heq]
  simp only [locate_child hfolder, hnode]

theorem delete_child (hname : Path.IsPlain name) (hfolder : disk.HasFolder folder home)
    (hnode : disk.node? (name :: home) = some (.file content)) :
    delete (folder.child name) disk = .ok () (disk.remove (name :: home)) := by
  rw [delete, reach_child hname hfolder]
  simp only [locate_child hfolder, hnode]

/-! ### The making of one folder -/

/-- A folder is made where nothing is, in a folder that is found. -/
theorem of_makeFolder_ok (h : makeFolder start way disk = .ok () after) :
    ∃ part outer here, way.dropWhile (· == "") = part :: outer ∧ hasZero [part] = false
      ∧ disk.resolveFrom start outer = .ok here ∧ disk.locate here = .ok .folder
      ∧ disk.locate (Path.step here part) = .error .notFound
      ∧ disk.node? (Path.step here part) = none
      ∧ after = disk.put (Path.step here part) .folder := by
  rw [makeFolder] at h
  split at h
  · cases h
  rename_i part outer hway
  split at h
  · cases h
  rename_i place hreach
  rw [reachFrom] at hreach
  split at hreach
  · cases hreach
  rename_i hzero
  split at hreach
  · cases hreach
  rename_i here hhere
  split at hreach
  · cases hreach
  · rename_i hfolder
    cases hreach
    have hends : disk.Ends (Path.step here part) := ends_step hfolder
    rcases hends with ⟨node, hnode⟩ | ⟨hmissing, hnone, _⟩
    · rw [hnode] at h
      cases h
    · rw [hmissing] at h
      cases h
      exact ⟨part, outer, here, hway, Bool.eq_false_iff.mpr hzero, hhere, hfolder, hmissing, hnone,
        rfl⟩
  · cases hreach

/-- A folder that is not made changes nothing. -/
theorem of_makeFolder_error {fault : Fault} (h : makeFolder start way disk = .error fault after) :
    after = disk := by
  rw [makeFolder] at h
  split at h
  · cases h
    rfl
  split at h
  · cases h
    rfl
  split at h <;> cases h <;> rfl

/-- A folder is ensured by making it or by seeing that it is there. -/
theorem of_ensureFolder_ok (h : ensureFolder start way disk = .ok () after) :
    makeFolder start way disk = .ok () after
      ∨ (after = disk ∧ (disk.resolveFrom start way).bind disk.locate = .ok .folder) := by
  rw [ensureFolder] at h
  split at h
  · rename_i between hmake
    obtain rfl := of_makeFolder_error hmake
    split at h
    · rename_i hfolder
      cases h
      exact .inr ⟨rfl, hfolder⟩
    · cases h
  · exact .inl h

/-- A folder that is not ensured was not made. -/
theorem of_ensureFolder_error {fault : Fault}
    (h : ensureFolder start way disk = .error fault after) :
    makeFolder start way disk = .error fault after := by
  rw [ensureFolder] at h
  split at h
  · rename_i between hmake
    split at h <;> cases h
    exact hmake
  · exact h

/-- Where a folder is missing the one around it is made first. -/
theorem ensureWithin_eq (surround : Action Disk Unit) (start : Place) (way : List String)
    (disk : Disk) : ensureWithin surround start way disk = ensureFolder start way disk
      ∨ ∃ between, ensureFolder start way disk = .error (.system .notFound) between
        ∧ ensureWithin surround start way disk
          = (surround >>= fun _ => ensureFolder start way) between := by
  rw [← seqRight_eq_bind, ensureWithin]
  split
  · rename_i between hensure
    exact .inr ⟨between, hensure, rfl⟩
  · exact .inl rfl

/-! ### Laws for the making of folders -/

section Laws

variable {R : Disk → Disk → Prop}

/-- A relation that holds where a folder is made holds however the making ends. -/
theorem moves_makeFolder (hrefl : ∀ disk, R disk disk)
    (h : ∀ {disk after}, makeFolder start way disk = .ok () after → R disk after) :
    (makeFolder start way).Moves R :=
  Action.Moves.of_outcomes h fun herror => by rw [of_makeFolder_error herror]; exact hrefl _

theorem moves_ensureFolder (hrefl : ∀ disk, R disk disk) (h : (makeFolder start way).Moves R) :
    (ensureFolder start way).Moves R := by
  refine Action.Moves.of_outcomes (fun hok => ?_)
    fun herror => h.of_error (of_ensureFolder_error herror)
  rcases of_ensureFolder_ok hok with hok | ⟨rfl, _⟩
  · exact h.of_ok hok
  · exact hrefl _

variable (htrans : ∀ {a b c}, R a b → R b c → R a c) (hrefl : ∀ disk, R disk disk)
include htrans hrefl

theorem moves_ensureWithin {surround : Action Disk Unit} (hsurround : surround.Moves R)
    (h : (makeFolder start way).Moves R) : (ensureWithin surround start way).Moves R := by
  have hensure := moves_ensureFolder hrefl h
  intro disk
  rw [Action.perform]
  rcases ensureWithin_eq surround start way disk with heq | ⟨between, hmissing, heq⟩
  · rw [heq]
    exact hensure disk
  · rw [heq]
    exact htrans (hensure.of_error hmissing)
      (Action.Moves.bind (R := R) htrans hsurround (fun _ => hensure) between)

theorem moves_makeWay (hparts : ∀ outer, outer <:+ way → (makeFolder start outer).Moves R) :
    (makeWay start way).Moves R := by
  induction way with
  | nil => exact hrefl
  | cons part outer ih =>
    have houter := ih fun rest hsuffix => hparts rest (hsuffix.trans (List.suffix_cons _ outer))
    rw [makeWay]
    split
    · exact houter
    · exact moves_ensureWithin (R := R) htrans hrefl houter (hparts _ List.suffix_rfl)

/-- The making of folders follows a law that the making of each single folder on the way
    follows. -/
theorem moves_makeFolders
    (hparts : ∀ outer, outer <:+ path.way → (makeFolder path.start outer).Moves R) :
    (makeFolders path).Moves R := by
  rw [makeFolders]
  split
  · exact hrefl
  · have haround : Path.around path.way <:+ path.way :=
      (List.tail_suffix _).trans (List.dropWhile_suffix Path.stays)
    refine moves_ensureWithin (R := R) htrans hrefl ?_ (hparts _ List.suffix_rfl)
    exact moves_makeWay (R := R) htrans hrefl fun outer hsuffix =>
      hparts outer (hsuffix.trans haround)

end Laws

/-! ### What the making of folders puts where -/

/-- The path passes the folder at a place: some first parts of it lead there. -/
def Passes (disk : Disk) (path : Path) (place : Place) : Prop :=
  ∃ outer, outer <:+ path.way ∧ disk.resolveFrom path.start outer = .ok place
    ∧ disk.locate place = .ok .folder

theorem Passes.mono (h : disk.Passes path place) (hways : KeepsWays disk after) :
    after.Passes path place := by
  obtain ⟨outer, hsuffix, hway, hplace⟩ := h
  have hafter := locate_mono hways rfl hplace
  refine ⟨outer, hsuffix, resolveFrom_mono hways (fun target heq => ?_) hway, hafter⟩
  cases hafter.symm.trans heq

/-- A folder that was made is at the end of its way. -/
theorem resolveFrom_of_made (hzero : hasZero [part] = false)
    (houter : disk.resolveFrom start outer = .ok here) (hhere : disk.locate here = .ok .folder)
    (hmissing : disk.locate (Path.step here part) = .error .notFound)
    (hnone : disk.node? (Path.step here part) = none) :
    let made := disk.put (Path.step here part) .folder
    made.resolveFrom start (part :: outer) = .ok (Path.step here part)
      ∧ made.locate (Path.step here part) = .ok .folder := by
  intro made
  have hadds : Adds (fun _ _ => True) disk made := adds_put hnone trivial
  have hways := hadds.keepsWays
  have hfolder := locate_mono hways rfl hhere
  -- the last part is a name, for any other leads to a folder that is there
  have hplace : made.locate (Path.step here part) = .ok .folder := by
    have hput : made.node? (Path.step here part) = some .folder := by rw [node?_put, if_pos rfl]
    rw [Path.step] at hmissing hput ⊢
    split at hmissing
    · rw [hhere] at hmissing
      cases hmissing
    · split at hmissing
      · rw [locate_tail hhere] at hmissing
        cases hmissing
      · rw [if_neg (by assumption), if_neg (by assumption)] at hput ⊢
        exact locate_cons_ok_iff.mpr ⟨hfolder, hput⟩
  refine ⟨resolveFrom_step hzero ?_ hfolder fun target heq => ?_, hplace⟩
  · refine resolveFrom_mono hways (fun target heq => ?_) houter
    cases hfolder.symm.trans heq
  · cases hplace.symm.trans heq

/-- The making of folders puts folders where the path passes, and changes nothing else. -/
theorem adds_makeFolders (path : Path) : (makeFolders path).Moves fun disk after =>
    disk.Adds (fun place node => node = .folder ∧ after.Passes path place) after := by
  refine moves_makeFolders (R := fun disk after => disk.Adds _ after) (fun {a b c} h h' => ?_)
    (fun disk => .refl disk) fun way hsuffix =>
      moves_makeFolder (R := fun disk after => disk.Adds _ after) (fun disk => .refl disk)
        fun {disk after} h => ?_
  · exact (h.mono fun place node ⟨hnode, hpasses⟩ => ⟨hnode, hpasses.mono h'.keepsWays⟩).trans h'
  · obtain ⟨part, outer, here, hway, hzero, houter, hhere, hmissing, hnone, rfl⟩ :=
      of_makeFolder_ok h
    obtain ⟨hreached, hplace⟩ := resolveFrom_of_made hzero houter hhere hmissing hnone
    have hnamed : part :: outer <:+ path.way := hway ▸ (List.dropWhile_suffix _).trans hsuffix
    exact adds_put hnone ⟨rfl, part :: outer, hnamed, hreached, hplace⟩

theorem adds_of_makeFolders (h : makeFolders path disk = .ok () after) :
    disk.Adds (fun place node => node = .folder ∧ after.Passes path place) after :=
  (adds_makeFolders path).of_ok h

/-- The making of folders makes no files and no links. -/
theorem of_makeFolders_node? (h : makeFolders path disk = .ok () after)
    (hnode : after.node? place = some node) (hne : node ≠ .folder) :
    disk.node? place = some node :=
  ((adds_of_makeFolders h).of_node? hnode).resolve_right fun hallowed => hne hallowed.1

/-! ### Folders that were made are found -/

/-- Empty parts behind a folder lead to it. -/
theorem resolveFrom_of_dropWhile
    (h : disk.resolveFrom start (way.dropWhile (· == "")) = .ok place)
    (hplace : disk.locate place = .ok .folder) : disk.resolveFrom start way = .ok place := by
  induction way with
  | nil => exact h
  | cons part outer ih =>
    by_cases hpart : part = ""
    · subst hpart
      rw [List.dropWhile_cons_of_pos rfl] at h
      refine resolveFrom_step rfl (ih h) hplace fun target heq => ?_
      cases hplace.symm.trans heq
    · rwa [List.dropWhile_cons_of_neg (by simpa using hpart)] at h

/-- Empty parts at the end of a way lead nowhere. -/
theorem resolveFrom_dropWhile (h : disk.resolveFrom start way = .ok place) :
    disk.resolveFrom start (way.dropWhile (· == "")) = .ok place := by
  induction way with
  | nil => exact h
  | cons part outer ih =>
    by_cases hpart : part = ""
    · subst hpart
      rw [List.dropWhile_cons_of_pos rfl]
      obtain ⟨hzero, here, houter, hhere⟩ := of_resolveFrom_cons h
      rw [resolveFrom_step hzero houter hhere fun target heq => by
        cases hhere.symm.trans heq] at h
      cases h
      exact ih houter
    · rwa [List.dropWhile_cons_of_neg (by simpa using hpart)]

/-- Nothing is found behind what is missing, with empty parts as the last ones. -/
theorem bind_locate_of_dropWhile
    (h : (disk.resolveFrom start (way.dropWhile (· == ""))).bind disk.locate = .error fault) :
    (disk.resolveFrom start way).bind disk.locate = .error fault := by
  induction way with
  | nil => exact h
  | cons part outer ih =>
    by_cases hpart : part = ""
    · subst hpart
      rw [List.dropWhile_cons_of_pos rfl] at h
      exact bind_locate_cons_error rfl (ih h)
    · rwa [List.dropWhile_cons_of_neg (by simpa using hpart)] at h

/-- A folder that is found is not made again. -/
theorem makeFolder_of_folder (h : disk.resolveFrom start way = .ok home)
    (hhome : disk.locate home = .ok .folder) :
    makeFolder start way disk = .error (.system .alreadyExists) disk := by
  have hnamed := resolveFrom_dropWhile h
  rw [makeFolder]
  split
  · rfl
  · rename_i part outer hway
    rw [hway] at hnamed
    obtain ⟨hzero, here, houter, hhere⟩ := of_resolveFrom_cons hnamed
    have hreach : disk.reachFrom start (part :: outer) = .ok (Path.step here part) := by
      rw [reachFrom, hzero, if_neg Bool.false_ne_true, houter]
      simp only [hhere]
    rw [hreach]
    dsimp only
    have hends : disk.Ends (Path.step here part) := ends_step hhere
    rcases hends with ⟨node, hnode⟩ | ⟨hmissing, _⟩
    · rw [hnode]
    · -- where nothing is there is no link, so the way would lead there
      rw [resolveFrom_step hzero houter hhere fun target heq => by
        cases hmissing.symm.trans heq] at hnamed
      cases hnamed
      rw [hmissing] at hhome
      cases hhome

/-- A folder that is found need not be made. -/
theorem makeFolders_of_folder (h : disk.HasFolder path home) :
    makeFolders path disk = .ok () disk := by
  obtain ⟨hpath, hhome⟩ := h
  have hne := text_ne_of_resolve hpath
  rw [resolve_eq hne] at hpath
  have hbind : (disk.resolveFrom path.start path.way).bind disk.locate = .ok .folder := by
    rw [hpath]
    exact hhome
  rw [makeFolders, if_neg hne]
  simp only [ensureWithin, ensureFolder, makeFolder_of_folder hpath hhome, hbind]

/-- A folder is made only where nothing is found. -/
theorem bind_locate_of_makeFolder_ok (h : makeFolder start way disk = .ok () after) :
    (disk.resolveFrom start way).bind disk.locate = .error .notFound := by
  obtain ⟨part, outer, here, hway, hzero, houter, hhere, hmissing, _, _⟩ := of_makeFolder_ok h
  refine bind_locate_of_dropWhile ?_
  rw [hway, resolveFrom_step hzero houter hhere fun target heq => by
    cases hmissing.symm.trans heq]
  exact hmissing

/-- Nor is it missing where something is found. -/
theorem bind_locate_of_makeFolder_notFound
    (h : makeFolder start way disk = .error (.system .notFound) after) :
    (disk.resolveFrom start way).bind disk.locate = .error .notFound := by
  rw [makeFolder] at h
  split at h
  · cases h
  rename_i part outer hway
  refine bind_locate_of_dropWhile ?_
  rw [hway]
  split at h
  · rename_i missed hreach
    cases h
    rw [reachFrom] at hreach
    split at hreach
    · cases hreach
    rename_i hzero
    have hzero := Bool.eq_false_iff.mpr hzero
    split at hreach
    · rename_i missed hmissed
      cases hreach
      exact bind_locate_cons_error hzero (by rw [hmissed]; rfl)
    · rename_i here hhere
      split at hreach
      · rename_i missed hmissed
        cases hreach
        exact bind_locate_cons_error hzero (by rw [hhere]; exact hmissed)
      · cases hreach
      · cases hreach
  · split at h
    · cases h
    · cases h
    · rename_i missed hne _
      cases h
      exact absurd rfl hne

/-- Where a folder can be made it is there already, or nothing is. -/
theorem folder_or_missing_of_makeFolders (hpath : path.text ≠ "")
    (h : makeFolders path disk = .ok () after) :
    (∃ home, disk.HasFolder path home) ∨ disk.find path = .error .notFound := by
  rw [← find_folder_iff, ← bind_locate_eq_find disk hpath]
  rw [makeFolders, if_neg hpath] at h
  rcases ensureWithin_eq (makeWay path.start (Path.around path.way)) path.start path.way disk
    with heq | ⟨between, hmissing, _⟩
  · rw [heq] at h
    rcases of_ensureFolder_ok h with h | ⟨_, hfolder⟩
    · exact .inr (bind_locate_of_makeFolder_ok h)
    · exact .inl hfolder
  · -- the folder around it is made only where this one is missing
    exact .inr (bind_locate_of_makeFolder_notFound (of_ensureFolder_error hmissing))

/-- A folder that was ensured is found. -/
theorem bind_locate_of_ensureFolder (h : ensureFolder start way disk = .ok () after) :
    (after.resolveFrom start way).bind after.locate = .ok .folder := by
  rcases of_ensureFolder_ok h with h | ⟨rfl, hfolder⟩
  · obtain ⟨part, outer, here, hway, hzero, houter, hhere, hmissing, hnone, rfl⟩ :=
      of_makeFolder_ok h
    obtain ⟨hreached, hplace⟩ := resolveFrom_of_made hzero houter hhere hmissing hnone
    rw [resolveFrom_of_dropWhile (by rw [hway]; exact hreached) hplace]
    exact hplace
  · exact hfolder

/-- A folder that was made is found. -/
theorem folder_of_makeFolders (hpath : path.text ≠ "")
    (h : makeFolders path disk = .ok () after) : ∃ home, after.HasFolder path home := by
  rw [makeFolders, if_neg hpath] at h
  rw [← find_folder_iff, ← bind_locate_eq_find after hpath]
  -- whichever way is taken, it ends by ensuring the folder itself
  rcases ensureWithin_eq (makeWay path.start (Path.around path.way)) path.start path.way disk
    with heq | ⟨between, _, heq⟩
  · exact bind_locate_of_ensureFolder (heq ▸ h)
  · rw [heq] at h
    obtain ⟨_, last, _, hlast⟩ := Action.of_bind_ok h
    exact bind_locate_of_ensureFolder hlast

/-! ### Folders that could not be made -/

/-- What is around a folder that is found is a folder as well. -/
theorem folder_of_suffix (h : (disk.resolveFrom start way).bind disk.locate = .ok .folder)
    (hsuffix : outer <:+ way) : (disk.resolveFrom start outer).bind disk.locate = .ok .folder := by
  induction way with
  | nil =>
    obtain rfl := List.suffix_nil.mp hsuffix
    exact h
  | cons part rest ih =>
    rcases List.suffix_cons_iff.mp hsuffix with rfl | hsuffix
    · exact h
    · refine ih ?_ hsuffix
      cases hway : disk.resolveFrom start (part :: rest) with
      | error fault =>
        rw [hway] at h
        cases h
      | ok place =>
        obtain ⟨_, here, hhere, hfolder⟩ := of_resolveFrom_cons hway
        rw [hhere]
        exact hfolder

/-- A folder that is found is ensured without a change. -/
theorem ensureFolder_of_folder (h : (disk.resolveFrom start way).bind disk.locate = .ok .folder) :
    ensureFolder start way disk = .ok () disk := by
  cases hway : disk.resolveFrom start way with
  | error fault =>
    rw [hway] at h
    cases h
  | ok home =>
    rw [hway] at h
    have hmake := makeFolder_of_folder hway h
    have hfound : (disk.resolveFrom start way).bind disk.locate = .ok .folder := by
      rw [hway]
      exact h
    simp only [ensureFolder, hmake, hfound]

/-- Where a folder is ensured, what is around it is a folder. -/
theorem folder_around_of_ensureFolder (h : ensureFolder start way disk = .ok () after) :
    (disk.resolveFrom start (Path.around way)).bind disk.locate = .ok .folder := by
  have haround : Path.around way <:+ way :=
    (List.tail_suffix _).trans (List.dropWhile_suffix Path.stays)
  rcases of_ensureFolder_ok h with h | ⟨_, hfolder⟩
  · obtain ⟨part, outer, here, hway, _, houter, hhere, hmissing, _, _⟩ := of_makeFolder_ok h
    -- the last part is no dot, which would lead to the folder that is around it
    have hstays : Path.stays part = false := by
      refine Bool.eq_false_iff.mpr fun hstays => ?_
      rw [Path.step, if_pos hstays, hhere] at hmissing
      cases hmissing
    have hempty : ∀ other : String, (other == "") = true → Path.stays other = true := by
      intro other hother
      rw [Path.stays, hother, Bool.true_or]
    have hdrop : way.dropWhile Path.stays = part :: outer := by
      rw [← List.takeWhile_append_dropWhile (p := (· == "")) (l := way), hway,
        List.dropWhile_append_of_pos fun other hother => hempty other
          (List.mem_takeWhile_imp (p := (· == "")) hother),
        List.dropWhile_cons_of_neg (by simp [hstays])]
    rw [Path.around, hdrop, List.tail_cons, houter]
    exact hhere
  · exact folder_of_suffix hfolder haround

section Again

variable {surround : Action Disk Unit} {fault : Fault}

/-- What fails fails again on the disk that it has left, and what succeeds changes nothing when it
    is done again. -/
def Settles (action : Action Disk Unit) : Prop :=
  (∀ {disk after}, action disk = .ok () after → action after = .ok () after)
    ∧ ∀ {disk after fault}, action disk = .error fault after → ∃ again left,
      action after = .error again left

theorem ensureWithin_error (h : ensureFolder start way disk = .error fault after)
    (hsurround : ∃ again left,
      (surround >>= fun _ => ensureFolder start way) disk = .error again left) :
    ∃ again left, ensureWithin surround start way disk = .error again left := by
  obtain rfl := of_makeFolder_error (of_ensureFolder_error h)
  rcases ensureWithin_eq surround start way after with heq | ⟨between, hmissing, heq⟩
  · exact ⟨fault, after, heq.trans h⟩
  · cases h.symm.trans hmissing
    rwa [heq]

theorem settles_ensureWithin (hsurround : Settles surround)
    (haround : ∀ {disk after}, ensureFolder start way disk = .ok () after →
      surround disk = .ok () disk) : Settles (ensureWithin surround start way) := by
  have hok : ∀ {disk after}, ensureFolder start way disk = .ok () after →
      ensureWithin surround start way after = .ok () after := by
    intro disk after h
    have hagain := ensureFolder_of_folder (bind_locate_of_ensureFolder h)
    simp only [ensureWithin, hagain]
  constructor
  · intro disk after h
    rcases ensureWithin_eq surround start way disk with heq | ⟨between, _, heq⟩
    · exact hok (heq ▸ h)
    · rw [heq] at h
      obtain ⟨_, last, _, hlast⟩ := Action.of_bind_ok h
      exact hok hlast
  · intro disk after fault h
    rcases ensureWithin_eq surround start way disk with heq | ⟨between, hmissing, heq⟩
    · -- nothing was made, so it is the same disk
      obtain rfl := of_makeFolder_error (of_ensureFolder_error (heq ▸ h))
      exact ⟨fault, after, h⟩
    rw [heq] at h
    rcases Action.of_bind_error h with h | ⟨_, last, hmade, hlast⟩
    · -- what is around cannot be made, so the folder cannot be either
      obtain ⟨again, left, herror⟩ := hsurround.2 h
      cases hensure : ensureFolder start way after with
      | ok _ made => cases herror.symm.trans (haround hensure)
      | error fault made => exact ensureWithin_error hensure ⟨_, _, Action.bind_error herror⟩
    · obtain rfl := of_makeFolder_error (of_ensureFolder_error hlast)
      exact ensureWithin_error hlast ⟨_, _, (Action.bind_ok (hsurround.1 hmade)).trans hlast⟩

/-- On the way to a folder there is nothing to be made. -/
theorem makeWay_of_folder (h : (disk.resolveFrom start way).bind disk.locate = .ok .folder) :
    makeWay start way disk = .ok () disk := by
  induction way with
  | nil => rfl
  | cons part outer ih =>
    rw [makeWay]
    split
    · exact ih (folder_of_suffix h (List.suffix_cons part outer))
    · simp only [ensureWithin, ensureFolder_of_folder h]

theorem settles_makeWay (start : Place) (way : List String) : Settles (makeWay start way) := by
  induction way with
  | nil => exact ⟨fun _ => rfl, fun h => by cases h⟩
  | cons part outer ih =>
    rw [makeWay]
    split
    · exact ih
    · rename_i hstays
      refine settles_ensureWithin ih fun h => makeWay_of_folder ?_
      have haround := folder_around_of_ensureFolder h
      rwa [Path.around, List.dropWhile_cons_of_neg hstays] at haround

/-- Folders that could not be made cannot be made on the disk that was left either. -/
theorem makeFolders_error_again (h : makeFolders path disk = .error fault after) :
    ∃ again left, makeFolders path after = .error again left := by
  rw [makeFolders] at h ⊢
  split at h
  · cases h
  · rename_i hpath
    rw [if_neg hpath]
    exact (settles_ensureWithin (settles_makeWay _ _) fun hensure =>
      makeWay_of_folder (folder_around_of_ensureFolder hensure)).2 h

end Again

/-! ### Where a path leads once its folders are made -/

/-- With the folders of the path made, as far as they were missing, the disk is `made`, and the
    path leads to the folder at `home` there. -/
structure Leads (disk : Disk) (path : Path) (made : Disk) (home : Place) : Prop where
  made_eq : makeFolders path disk = .ok () made
  found : made.HasFolder path home

variable {made : Disk}

theorem HasFolder.leads (h : disk.HasFolder path home) : disk.Leads path disk home :=
  ⟨makeFolders_of_folder h, h⟩

theorem leads_of_makeFolders (hpath : path.text ≠ "") (h : makeFolders path disk = .ok () made) :
    ∃ home, disk.Leads path made home :=
  (folder_of_makeFolders hpath h).imp fun _ hhome => ⟨h, hhome⟩

theorem Leads.unique (h : disk.Leads path made home) (h' : disk.Leads path after place) :
    after = made ∧ place = home := by
  obtain ⟨hmade, hfound⟩ := h
  obtain ⟨hafter, hplace⟩ := h'
  cases hmade.symm.trans hafter
  exact ⟨rfl, hfound.unique hplace⟩

/-- From a folder that is there nothing is made. -/
theorem HasFolder.of_leads (h : disk.HasFolder path home) (h' : disk.Leads path made place) :
    made = disk ∧ place = home :=
  h.leads.unique h'

end Disk

end LayeredStore
