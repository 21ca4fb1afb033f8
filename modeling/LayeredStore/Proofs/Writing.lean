import LayeredStore.Proofs.Catalogue
import LayeredStore.Proofs.Filling

namespace LayeredStore.Generation

/-!
# What the writing of a generation does to the disk

The two files of the generation are put where their names lead, and nothing else is touched,
however the writing ends. Unless one of the names is that of a link they are put into the
folder. Where the writing succeeds they hold the records and the slots of the entries, and it
does succeed where both can be made and the capacity is large enough.

* `Unlinked` — no link has the name of one of the two files;
* `Direct` — a path to a folder where this is so of the next generation;
* `hasLink`, `direct_of_hasLink` — disks where it is so of every folder;
* `TouchesOnly` — nothing but the two files of a generation was changed;
* `Written` — the two files have a given content, and all else is unchanged;
* `TouchesOnly.adds` — what was touched under the next number was put where nothing was;
* `touchesOnly_write` — what the writing leaves, also where it fails;
* `FitsAt`, `WrittenAt`, `write_at` — the writing to any two places, links or not;
* `Fits`, `write_eq` — the writing to a folder in which no link is in the way;
* `entries_of_write` — what was written are entries;
* `write_entries`, `of_write_entries` — where the writing of entries succeeds, and what
  is so where it did.
-/

variable {disk between after : Disk} {folder : Path} {home : Place} {label : String} {index : Nat}
  {values offsets : Bytes} {place : Place}

/-! ### Two files and all else -/

/-- No link has the name of one of the two files of the generation. -/
def Unlinked (home : Place) (index : Nat) (disk : Disk) : Prop :=
  ∀ label ∈ labels, ∀ target, disk.node? (filePlace home label index) ≠ some (.link target)

/-- No link has the name of a file of the generation that would be the next in the folder, and
    the path to the folder is not the empty one. -/
structure Direct (folder : Path) (disk : Disk) : Prop where
  text_ne : folder.text ≠ ""
  unlinked : ∀ {made home index}, disk.Leads folder made home →
    nextIndex made folder = .ok index → Unlinked home index made

/-- Whether a link has the name of a generation's file, in whatever folder. -/
def hasLink (disk : Disk) : Bool :=
  disk.nodes.any fun (place, node) => node.isLink
    && labels.any fun label => (place.head?.bind (index? label)).isSome

theorem direct_of_hasLink (htext : folder.text ≠ "") (h : hasLink disk = false) :
    Direct folder disk := by
  refine ⟨htext, fun {made home index} hleads hindex label hlabel target hlink => ?_⟩
  -- the making of folders makes no links
  have hbefore := Disk.of_makeFolders_node? hleads.made_eq hlink fun heq => by cases heq
  have hnamed : labels.any (fun other =>
      ((filePlace home label index).head?.bind (index? other)).isSome) = true :=
    List.any_eq_true.mpr ⟨label, hlabel, by
      rw [filePlace, List.head?_cons, Option.bind_some,
        index?_fileName (lt_limit_of_nextIndex hindex)]
      rfl⟩
  exact List.any_eq_false.mp h _ (Disk.mem_nodes.mpr hbefore)
    (Bool.and_eq_true_iff.mpr ⟨rfl, hnamed⟩)

/-- Outside the two files of the generation the disk is as it was, and where these are no
    longer as they were they are files where no folder and no link was. -/
structure TouchesOnly (home : Place) (index : Nat) (disk after : Disk) : Prop where
  elsewhere : ∀ place, (∀ label ∈ labels, place ≠ filePlace home label index) →
    after.node? place = disk.node? place
  changed : ∀ place, after.node? place ≠ disk.node? place →
    (∀ node, disk.node? place = some node → node.isFile = true)
      ∧ ∃ content, after.node? place = some (.file content)

/-- The two files of the generation have the given contents, and all else is as it was. -/
structure Written (home : Place) (index : Nat) (disk after : Disk) (values offsets : Bytes) :
    Prop where
  values_eq : after.node? (filePlace home valuesLabel index) = some (.file values)
  offsets_eq : after.node? (filePlace home offsetsLabel index) = some (.file offsets)
  elsewhere : ∀ place, (∀ label ∈ labels, place ≠ filePlace home label index) →
    after.node? place = disk.node? place

theorem TouchesOnly.refl (disk : Disk) : TouchesOnly home index disk disk :=
  ⟨fun _ _ => rfl, fun _ h => absurd rfl h⟩

theorem TouchesOnly.keepsWays (h : TouchesOnly home index disk after) :
    Disk.KeepsWays disk after := by
  intro place node hnode hplace
  by_contra hne
  have hfile := (h.changed place (by rwa [hplace])).1 node hplace
  rw [hnode] at hfile
  cases hfile

/-- Where nothing but the two files was touched, no link was put. -/
theorem TouchesOnly.unlinked (h : TouchesOnly home index disk after)
    (hlinks : Unlinked home index disk) : Unlinked home index after := by
  intro label hlabel target hlink
  have hne := hlinks label hlabel target
  obtain ⟨_, content, hfile⟩ := h.changed _ (by rw [hlink]; exact hne.symm)
  cases hlink.symm.trans hfile

theorem TouchesOnly.trans (h : TouchesOnly home index disk between)
    (h' : TouchesOnly home index between after) : TouchesOnly home index disk after := by
  refine ⟨fun place hplace => (h'.elsewhere place hplace).trans (h.elsewhere place hplace),
    fun place hchanged => ⟨fun node hnode => ?_, ?_⟩⟩
  · -- what is no file is kept by both steps
    by_contra hfile
    have hfile := Bool.eq_false_iff.mpr hfile
    have hbetween := h.keepsWays place node hfile hnode
    exact hchanged ((h'.keepsWays place node hfile hbetween).trans hnode.symm)
  · -- whichever step changed the place last made it a file
    by_cases hlast : after.node? place = between.node? place
    · rw [hlast] at hchanged ⊢
      exact (h.changed place hchanged).2
    · exact (h'.changed place hlast).2

/-- What is touched under a number that was picked above all others is put where nothing was. -/
theorem TouchesOnly.adds (h : TouchesOnly home index disk after)
    (hfolder : disk.HasFolder folder home) (hindex : nextIndex disk folder = .ok index) :
    disk.Adds (fun place node => node.isFile = true ∧ IsFileOf home index place) after := by
  intro place
  by_cases hsame : after.node? place = disk.node? place
  · exact .inl hsame
  · obtain ⟨hfree, content, hfile⟩ := h.changed place hsame
    have hplace : IsFileOf home index place := by
      by_contra hne
      exact hsame (h.elsewhere place fun label hlabel heq => hne ⟨label, hlabel, heq⟩)
    refine .inr ⟨?_, _, hfile, rfl, hplace⟩
    obtain ⟨label, hlabel, rfl⟩ := hplace
    exact vacant_of_nextIndex hfolder hindex hlabel hfree

/-- A file that is put in the place of one of the two is a change of these only. -/
theorem touchesOnly_of_put {content : Bytes} (hlabel : label ∈ labels)
    (hfree : ∀ node, disk.node? (filePlace home label index) = some node → node.isFile = true)
    (hnodes : ∀ place, after.node? place = if place = filePlace home label index
      then some (.file content) else disk.node? place) : TouchesOnly home index disk after := by
  constructor
  · intro place hplace
    rw [hnodes, if_neg (hplace label hlabel)]
  · intro place hchanged
    by_cases hplace : place = filePlace home label index
    · subst hplace
      exact ⟨hfree, content, by rw [hnodes, if_pos rfl]⟩
    · rw [hnodes, if_neg hplace] at hchanged
      exact absurd rfl hchanged

/-- Both files of a generation that was written are there. -/
theorem Written.exists_file (h : Written home index disk after values offsets)
    (hlabel : label ∈ labels) :
    ∃ content, after.node? (filePlace home label index) = some (.file content) := by
  rcases List.mem_pair.mp hlabel with rfl | rfl
  · exact ⟨values, h.values_eq⟩
  · exact ⟨offsets, h.offsets_eq⟩

theorem Written.touchesOnly (h : Written home index disk after values offsets)
    (hfree : ∀ label ∈ labels, ∀ node, disk.node? (filePlace home label index) = some node →
      node.isFile = true) : TouchesOnly home index disk after := by
  refine ⟨h.elsewhere, fun place hchanged => ?_⟩
  by_cases hplace : ∀ label ∈ labels, place ≠ filePlace home label index
  · exact absurd (h.elsewhere place hplace) hchanged
  · push Not at hplace
    obtain ⟨label, hlabel, rfl⟩ := hplace
    exact ⟨hfree label hlabel, h.exists_file hlabel⟩

/-! ### One draft -/

theorem create_eq {capacity : Nat} (h : capacity < Word.signedLimit) :
    Draft.create capacity = .ok (Bytes.zeros capacity) :=
  if_pos h

theorem of_create_ok {capacity : Nat} {draft : Draft} (h : Draft.create capacity = .ok draft) :
    capacity < Word.signedLimit ∧ draft = Bytes.zeros capacity := by
  rw [Draft.create] at h
  split at h
  · cases h
    exact ⟨by assumption, rfl⟩
  · cases h

section OneDraft

variable {capacity : Nat} {answer : Place × Draft} {path : Path}

/-- A draft that was made is a file of zeros. -/
theorem of_makeDraft_ok (h : makeDraft path capacity disk = .ok answer after) :
    (∃ made, Disk.makeFile path disk = .ok answer.1 made) ∧ capacity < Word.signedLimit
      ∧ answer.2 = Bytes.zeros capacity := by
  obtain ⟨place, made, hmade, h⟩ := Action.of_bind_ok h
  obtain ⟨draft, hcreate, h⟩ := Action.of_lift_bind_ok h
  obtain ⟨hcapacity, rfl⟩ := of_create_ok hcreate
  cases h
  exact ⟨⟨made, hmade⟩, hcapacity, rfl⟩

/-- The making of a draft fails where the file is not made, or cannot have its length. -/
theorem of_makeDraft_error {fault : Fault} (h : makeDraft path capacity disk = .error fault after) :
    Disk.makeFile path disk = .error fault after
      ∨ ((∃ place, Disk.makeFile path disk = .ok place after)
        ∧ Draft.create capacity = .error fault) := by
  rcases Action.of_bind_error h with h | ⟨place, made, hmade, h⟩
  · exact .inl h
  rcases Action.of_lift_bind_error h with ⟨hcreate, rfl⟩ | ⟨_, _, h⟩
  · exact .inr ⟨⟨place, hmade⟩, hcreate⟩
  · rcases Action.of_bind_error h with h | ⟨_, _, _, h⟩ <;> cases h

/-- A draft is made where a file can be. -/
theorem makeDraft_eq (h : disk.CanMake path place) (hcapacity : capacity < Word.signedLimit) :
    ∃ after, makeDraft path capacity disk = .ok (place, Bytes.zeros capacity) after
      ∧ ∀ other, after.node? other = if other = place
        then some (.file (Bytes.zeros capacity)) else disk.node? other := by
  let made := disk.put place (.file [])
  refine ⟨made.put place (.file (Bytes.zeros capacity)), ?_, fun other => ?_⟩
  · rw [makeDraft, Action.bind_ok (Disk.makeFile_eq h), create_eq hcapacity]
    rfl
  · rw [Disk.node?_put, Disk.node?_put]
    by_cases hother : other = place
    · simp only [if_pos hother]
    · simp only [if_neg hother]

/-- Where a file was made in a folder, and no link has its name, it was made under this. -/
theorem canMake_of_makeFile (hlabel : label ∈ labels) (hindex : index < Word.limit)
    (hfolder : disk.HasFolder folder home) (hlinks : Unlinked home index disk)
    (h : Disk.makeFile (folder.child (fileName label index)) disk = .ok place after) :
    disk.CanMake (folder.child (fileName label index)) (filePlace home label index) := by
  have hmade := Disk.of_makeFile_ok h
  cases hmade.resolve_eq.symm.trans
    (Disk.resolve_child (plain_fileName hlabel hindex) hfolder (hlinks label hlabel))
  exact hmade

/-- However the making of a draft ends, only that file is touched. -/
theorem touchesOnly_makeDraft (capacity : Nat) (hlabel : label ∈ labels)
    (hindex : index < Word.limit) (hfolder : disk.HasFolder folder home)
    (hlinks : Unlinked home index disk) :
    TouchesOnly home index disk
      ((makeDraft (folder.child (fileName label index)) capacity).perform disk).2 := by
  cases h : makeDraft (folder.child (fileName label index)) capacity disk with
  | ok answer after =>
    obtain ⟨⟨made, hmade⟩, hcapacity, _⟩ := of_makeDraft_ok h
    have hcan := canMake_of_makeFile hlabel hindex hfolder hlinks hmade
    obtain ⟨_, heq, hnodes⟩ := makeDraft_eq hcan hcapacity
    cases h.symm.trans heq
    rw [Action.perform_ok h]
    exact touchesOnly_of_put hlabel hcan.free.isFile hnodes
  | error fault after =>
    rw [Action.perform_error h]
    -- it fails before the file is made, or with an empty file that was
    rcases of_makeDraft_error h with h | ⟨⟨place, hmade⟩, _⟩
    · rw [Disk.of_makeFile_error h]
      exact .refl disk
    · have hcan := canMake_of_makeFile hlabel hindex hfolder hlinks hmade
      cases hmade.symm.trans (Disk.makeFile_eq hcan)
      exact touchesOnly_of_put hlabel hcan.free.isFile fun other => Disk.node?_put _ _ _ _

end OneDraft

/-! ### Both files -/

section Both

variable {items : List Item} {capacity : Footprint} {info : Info} {entries : List Entry}

theorem filePlace_ne (hindex : index < Word.limit) :
    filePlace home valuesLabel index ≠ filePlace home offsetsLabel index := by
  intro h
  have hlabel := (fileName_inj values_mem_labels offsets_mem_labels hindex
    (List.cons.inj h).1).1
  revert hlabel
  decide

/-- What the writing of a generation says when the two files were filled. -/
def outcome (index : Nat) (after : Disk) : Except Fault Progress → EStateM.Result Fault Disk Info
  | .ok done => .ok ⟨index, done.count, done.values, done.offsets⟩ after
  | .error fault => .error fault after

/-- The two files of the generation can be made at two places, where the names may be links,
    with the capacity of two files. -/
structure FitsAt (folder : Path) (index : Nat) (valuesPlace offsetsPlace : Place)
    (capacity : Footprint) (disk : Disk) : Prop where
  values_made : disk.CanMake (folder.child (fileName valuesLabel index)) valuesPlace
  offsets_made : disk.CanMake (folder.child (fileName offsetsLabel index)) offsetsPlace
  values_lt : capacity.valuesBytes < Word.signedLimit
  offsets_lt : capacity.offsetsBytes < Word.signedLimit

/-- The two places hold the given contents, and all else is as it was. If they are one place
    the second content is there. -/
structure WrittenAt (valuesPlace offsetsPlace : Place) (disk after : Disk)
    (values offsets : Bytes) : Prop where
  values_eq : valuesPlace ≠ offsetsPlace → after.node? valuesPlace = some (.file values)
  offsets_eq : after.node? offsetsPlace = some (.file offsets)
  elsewhere : ∀ place, place ≠ valuesPlace → place ≠ offsetsPlace →
    after.node? place = disk.node? place

section Places

variable {valuesPlace offsetsPlace : Place}

/-- Where the two files can be made they are left as they were filled, also where the filling
    fails. -/
theorem write_at (h : FitsAt folder index valuesPlace offsetsPlace capacity disk)
    (items : List Item) : ∃ after, write folder index items capacity disk = outcome index after
        ((Pair.fill items).perform
          ⟨Bytes.zeros capacity.valuesBytes, Bytes.zeros capacity.offsetsBytes⟩).1
      ∧ WrittenAt valuesPlace offsetsPlace disk after
        ((Pair.fill items).perform
          ⟨Bytes.zeros capacity.valuesBytes, Bytes.zeros capacity.offsetsBytes⟩).2.values
        ((Pair.fill items).perform
          ⟨Bytes.zeros capacity.valuesBytes, Bytes.zeros capacity.offsetsBytes⟩).2.offsets := by
  obtain ⟨first, hfirst, hfirstNodes⟩ := makeDraft_eq h.values_made h.values_lt
  -- the first draft is in no way of the second
  have hways : Disk.KeepsWays disk first := by
    intro place node hnode hplace
    rw [hfirstNodes, if_neg (h.values_made.free.ne hplace hnode), hplace]
  have hoffsetsMade : first.CanMake _ offsetsPlace := h.offsets_made.mono hways fun node hnode => by
    rw [hfirstNodes] at hnode
    split at hnode
    · cases hnode
      rfl
    · exact h.offsets_made.free.isFile node hnode
  obtain ⟨second, hsecond, hsecondNodes⟩ := makeDraft_eq hoffsetsMade h.offsets_lt
  generalize hfilled : (Pair.fill items).perform
    ⟨Bytes.zeros capacity.valuesBytes, Bytes.zeros capacity.offsetsBytes⟩ = filled
  obtain ⟨result, pair⟩ := filled
  let third := second.put valuesPlace (.file pair.values)
  refine ⟨third.put offsetsPlace (.file pair.offsets), ?_, fun hne => ?_, ?_, ?_⟩
  · rw [write, Action.bind_ok hfirst]
    dsimp only
    rw [Action.bind_ok hsecond]
    dsimp only
    rw [hfilled]
    cases result with
    | ok done => rfl
    | error fault => rfl
  · rw [Disk.node?_put, if_neg hne, Disk.node?_put, if_pos rfl]
  · rw [Disk.node?_put, if_pos rfl]
  · intro place hvalues hoffsets
    rw [Disk.node?_put, if_neg hoffsets, Disk.node?_put, if_neg hvalues, hsecondNodes,
      if_neg hoffsets, hfirstNodes, if_neg hvalues]

/-- Where a generation was written its two files could be made. -/
theorem fitsAt_of_write (h : write folder index items capacity disk = .ok info after) :
    ∃ valuesPlace offsetsPlace, FitsAt folder index valuesPlace offsetsPlace capacity disk := by
  obtain ⟨⟨valuesPlace, _⟩, between, hfirst, h⟩ := Action.of_bind_ok h
  obtain ⟨⟨offsetsPlace, _⟩, last, hsecond, _⟩ := Action.of_bind_ok h
  obtain ⟨⟨_, hvalues⟩, hvaluesLimit, _⟩ := of_makeDraft_ok hfirst
  obtain ⟨⟨_, hoffsets⟩, hoffsetsLimit, _⟩ := of_makeDraft_ok hsecond
  have hvaluesMade := Disk.of_makeFile_ok hvalues
  refine ⟨valuesPlace, offsetsPlace, hvaluesMade, ?_, hvaluesLimit, hoffsetsLimit⟩
  -- what the first draft has put was in no way of the second, nor did it clear one
  obtain ⟨_, heq, hnodes⟩ := makeDraft_eq hvaluesMade hvaluesLimit
  cases hfirst.symm.trans heq
  have hmade := Disk.of_makeFile_ok hoffsets
  refine hmade.mono (fun place node hnode hplace => ?_) fun node hnode => ?_
  · rw [hnodes] at hplace
    split at hplace
    · cases hplace
      cases hnode
    · exact hplace
  · by_cases hsame : offsetsPlace = valuesPlace
    · exact hvaluesMade.free.isFile node (hsame ▸ hnode)
    · exact hmade.free.isFile node (by rw [hnodes, if_neg hsame, hnode])

/-- Where the two files were put folders and links are as they were. -/
theorem WrittenAt.keepsWays (h : WrittenAt valuesPlace offsetsPlace disk after values offsets)
    (hfits : FitsAt folder index valuesPlace offsetsPlace capacity disk) :
    Disk.KeepsWays disk after := by
  intro place node hnode hplace
  have hvalues := hfits.values_made.free.ne hplace hnode
  have hoffsets := hfits.offsets_made.free.ne hplace hnode
  rw [h.elsewhere place hvalues hoffsets, hplace]

/-- Two files that were put are found under their names, links or not. -/
theorem WrittenAt.find_eq (h : WrittenAt valuesPlace offsetsPlace disk after values offsets)
    (hfits : FitsAt folder index valuesPlace offsetsPlace capacity disk)
    (hne : valuesPlace ≠ offsetsPlace) :
    after.find (folder.child (fileName valuesLabel index)) = .ok (.file values)
      ∧ after.find (folder.child (fileName offsetsLabel index)) = .ok (.file offsets) :=
  have hways := h.keepsWays hfits
  ⟨hfits.values_made.find_eq hways (h.values_eq hne), hfits.offsets_made.find_eq hways h.offsets_eq⟩

end Places

/-- Where a generation can be written: the folder is found, neither a folder nor a link is in
    the way, and the capacity is that of two files. -/
structure Fits (folder : Path) (home : Place) (index : Nat) (capacity : Footprint) (disk : Disk) :
    Prop where
  folder_found : disk.HasFolder folder home
  free : ∀ label ∈ labels, ∀ node, disk.node? (filePlace home label index) = some node →
    node.isFile = true
  values_lt : capacity.valuesBytes < Word.signedLimit
  offsets_lt : capacity.offsetsBytes < Word.signedLimit

/-- What was put under the names of the files is written. -/
theorem WrittenAt.written (hindex : index < Word.limit) (h : WrittenAt
    (filePlace home valuesLabel index) (filePlace home offsetsLabel index) disk after values
    offsets) : Written home index disk after values offsets :=
  ⟨h.values_eq (filePlace_ne hindex), h.offsets_eq, fun place hplace =>
    h.elsewhere place (hplace _ values_mem_labels) (hplace _ offsets_mem_labels)⟩

/-- Then its files are made in the folder. -/
theorem Fits.fitsAt (h : Fits folder home index capacity disk) (hindex : index < Word.limit) :
    FitsAt folder index (filePlace home valuesLabel index) (filePlace home offsetsLabel index)
      capacity disk := by
  have hmade : ∀ label ∈ labels,
      disk.CanMake (folder.child (fileName label index)) (filePlace home label index) :=
    fun label hlabel =>
      Disk.canMake_child (plain_fileName hlabel hindex) h.folder_found (h.free label hlabel)
  exact ⟨hmade _ values_mem_labels, hmade _ offsets_mem_labels, h.values_lt, h.offsets_lt⟩

/-- Where a generation can be written, its files are left as they were filled, also where
    the filling fails. -/
theorem write_eq (hindex : index < Word.limit) (h : Fits folder home index capacity disk)
    (items : List Item) : ∃ after, write folder index items capacity disk = outcome index after
        ((Pair.fill items).perform
          ⟨Bytes.zeros capacity.valuesBytes, Bytes.zeros capacity.offsetsBytes⟩).1
      ∧ Written home index disk after
        ((Pair.fill items).perform
          ⟨Bytes.zeros capacity.valuesBytes, Bytes.zeros capacity.offsetsBytes⟩).2.values
        ((Pair.fill items).perform
          ⟨Bytes.zeros capacity.valuesBytes, Bytes.zeros capacity.offsetsBytes⟩).2.offsets := by
  obtain ⟨after, heq, hwritten⟩ := write_at (h.fitsAt hindex) items
  exact ⟨after, heq, hwritten.written hindex⟩

section Ends

variable (hindex : index < Word.limit) (hfolder : disk.HasFolder folder home)
  (hlinks : Unlinked home index disk)
include hindex hfolder hlinks

/-- Where both drafts were made the generation can be written. -/
theorem fits_of_makeDraft {first second : Place × Draft}
    (hfirst : makeDraft (folder.child (fileName valuesLabel index)) capacity.valuesBytes disk
      = .ok first between)
    (hsecond : makeDraft (folder.child (fileName offsetsLabel index)) capacity.offsetsBytes between
      = .ok second after) : Fits folder home index capacity disk := by
  obtain ⟨⟨_, hvaluesMade⟩, hvalues, _⟩ := of_makeDraft_ok hfirst
  obtain ⟨⟨_, hoffsetsMade⟩, hoffsets, _⟩ := of_makeDraft_ok hsecond
  have htouched := touchesOnly_makeDraft capacity.valuesBytes values_mem_labels hindex hfolder
    hlinks
  rw [Action.perform_ok hfirst] at htouched
  have hways := htouched.keepsWays
  have hcan := canMake_of_makeFile offsets_mem_labels hindex (hfolder.mono hways)
    (htouched.unlinked hlinks) hoffsetsMade
  refine ⟨hfolder, fun label hlabel node hnode => ?_, hvalues, hoffsets⟩
  rcases List.mem_pair.mp hlabel with rfl | rfl
  · have hcan := canMake_of_makeFile values_mem_labels hindex hfolder hlinks hvaluesMade
    exact hcan.free.isFile node hnode
  · by_contra hfile
    exact hfile (hcan.free.isFile node (hways _ node (Bool.eq_false_iff.mpr hfile) hnode))

/-- However the writing of a generation ends, only its two files are touched. -/
theorem touchesOnly_write (items : List Item) (capacity : Footprint) :
    TouchesOnly home index disk ((write folder index items capacity).perform disk).2 := by
  by_cases hfits : Fits folder home index capacity disk
  · obtain ⟨after, heq, hwritten⟩ := write_eq hindex hfits items
    have hafter : ((write folder index items capacity).perform disk).2 = after := by
      rw [Action.perform, heq]
      cases ((Pair.fill items).perform _).1 <;> rfl
    rw [hafter]
    exact hwritten.touchesOnly hfits.free
  · -- one of the two drafts is not made
    have hvalues := touchesOnly_makeDraft capacity.valuesBytes values_mem_labels
      hindex hfolder hlinks
    cases hfirst : makeDraft (folder.child (fileName valuesLabel index)) capacity.valuesBytes
        disk with
    | error fault after =>
      have hwrite : write folder index items capacity disk = .error fault after :=
        Action.bind_error hfirst
      rw [Action.perform_error hwrite]
      rwa [Action.perform_error hfirst] at hvalues
    | ok first between =>
      rw [Action.perform_ok hfirst] at hvalues
      have hoffsets := touchesOnly_makeDraft capacity.offsetsBytes offsets_mem_labels
        hindex (hfolder.mono hvalues.keepsWays) (hvalues.unlinked hlinks)
      cases hsecond : makeDraft (folder.child (fileName offsetsLabel index)) capacity.offsetsBytes
          between with
      | error fault after =>
        have hwrite : write folder index items capacity disk = .error fault after :=
          (Action.bind_ok hfirst).trans (Action.bind_error hsecond)
        rw [Action.perform_error hwrite]
        rw [Action.perform_error hsecond] at hoffsets
        exact hvalues.trans hoffsets
      | ok second after =>
        exact absurd (fits_of_makeDraft hindex hfolder hlinks hfirst hsecond) hfits

theorem touchesOnly_of_write_ok (h : write folder index items capacity disk = .ok info after) :
    TouchesOnly home index disk after := by
  have htouched := touchesOnly_write hindex hfolder hlinks items capacity
  rwa [Action.perform_ok h] at htouched

theorem touchesOnly_of_write_error {fault : Fault}
    (h : write folder index items capacity disk = .error fault after) :
    TouchesOnly home index disk after := by
  have htouched := touchesOnly_write hindex hfolder hlinks items capacity
  rwa [Action.perform_error h] at htouched

/-- Where a generation was written it could be. -/
theorem fits_of_write (h : write folder index items capacity disk = .ok info after) :
    Fits folder home index capacity disk := by
  obtain ⟨first, between, hfirst, h⟩ := Action.of_bind_ok h
  obtain ⟨second, last, hsecond, _⟩ := Action.of_bind_ok h
  exact fits_of_makeDraft hindex hfolder hlinks hfirst hsecond

end Ends

/-! ### Entries -/

/-- A generation is written only where its files could be filled, wherever these are. -/
theorem of_write_ok (h : write folder index items capacity disk = .ok info after) :
    ∃ done pair, Pair.fill items
        ⟨Bytes.zeros capacity.valuesBytes, Bytes.zeros capacity.offsetsBytes⟩ = .ok done pair
      ∧ info = ⟨index, done.count, done.values, done.offsets⟩ := by
  obtain ⟨⟨valuesPlace, values⟩, _, hfirst, h⟩ := Action.of_bind_ok h
  obtain ⟨⟨offsetsPlace, offsets⟩, _, hsecond, h⟩ := Action.of_bind_ok h
  obtain ⟨_, _, rfl⟩ := of_makeDraft_ok hfirst
  obtain ⟨_, _, rfl⟩ := of_makeDraft_ok hsecond
  dsimp only at h
  cases hfill : Pair.fill items
      ⟨Bytes.zeros capacity.valuesBytes, Bytes.zeros capacity.offsetsBytes⟩ with
  | error fault pair =>
    rw [Action.perform_error hfill] at h
    cases h
  | ok done pair =>
    rw [Action.perform_ok hfill] at h
    cases h
    exact ⟨done, pair, rfl, rfl⟩

theorem index_of_write (h : write folder index items capacity disk = .ok info after) :
    info.index = index := by
  obtain ⟨done, pair, _, rfl⟩ := of_write_ok h
  rfl

/-- Items that were written as a generation are entries. -/
theorem entries_of_write (h : write folder index items capacity disk = .ok info after) :
    ∃ entries : List Entry, items = entries.map .ok := by
  obtain ⟨done, pair, hfill, _⟩ := of_write_ok h
  obtain ⟨_, _, happend, _⟩ := Action.of_bind_ok hfill
  exact Pair.entries_of_append happend

/-- Entries that fit are written, and their records and slots are all that the files
    hold. -/
theorem write_entries_at {valuesPlace offsetsPlace : Place}
    (h : FitsAt folder index valuesPlace offsetsPlace capacity disk)
    (hvalues : (records entries).length ≤ capacity.valuesBytes)
    (hoffsets : 8 * entries.length ≤ capacity.offsetsBytes) :
    ∃ after, write folder index (entries.map .ok) capacity disk
        = .ok ⟨index, entries.length, (records entries).length, (slots entries).length⟩ after
      ∧ WrittenAt valuesPlace offsetsPlace disk after (records entries) (slots entries) := by
  have hfill : Pair.fill (entries.map .ok)
      ⟨Bytes.zeros capacity.valuesBytes, Bytes.zeros capacity.offsetsBytes⟩ = _ :=
    Pair.fill_fits (by rwa [Bytes.length_zeros]) (by rwa [Bytes.length_zeros])
      (by rw [Bytes.length_zeros]; exact h.values_lt)
      (by rw [Bytes.length_zeros]; exact h.offsets_lt)
  obtain ⟨after, heq, hwritten⟩ := write_at h (entries.map .ok)
  rw [Action.perform_ok hfill] at heq hwritten
  exact ⟨after, heq, hwritten⟩

theorem write_entries (hindex : index < Word.limit) (h : Fits folder home index capacity disk)
    (hvalues : (records entries).length ≤ capacity.valuesBytes)
    (hoffsets : 8 * entries.length ≤ capacity.offsetsBytes) :
    ∃ after, write folder index (entries.map .ok) capacity disk
        = .ok ⟨index, entries.length, (records entries).length, (slots entries).length⟩ after
      ∧ Written home index disk after (records entries) (slots entries) := by
  obtain ⟨after, heq, hwritten⟩ := write_entries_at (h.fitsAt hindex) hvalues hoffsets
  exact ⟨after, heq, hwritten.written hindex⟩

/-- The records and slots of entries that were written have fitted. -/
theorem fits_of_write_entries
    (h : write folder index (entries.map .ok) capacity disk = .ok info after) :
    (records entries).length ≤ capacity.valuesBytes
      ∧ 8 * entries.length ≤ capacity.offsetsBytes := by
  obtain ⟨done, pair, hfill, _⟩ := of_write_ok h
  have hfits := Pair.fits_of_fill hfill
  rwa [Bytes.length_zeros, Bytes.length_zeros] at hfits

/-- Entries that were written have fitted, and their records and slots are all that the
    files hold. -/
theorem of_write_entries (hindex : index < Word.limit) (hfolder : disk.HasFolder folder home)
    (hlinks : Unlinked home index disk)
    (h : write folder index (entries.map .ok) capacity disk = .ok info after) :
    Fits folder home index capacity disk ∧ (records entries).length < Word.signedLimit
      ∧ info = ⟨index, entries.length, (records entries).length, (slots entries).length⟩
      ∧ Written home index disk after (records entries) (slots entries) := by
  have hfits := fits_of_write hindex hfolder hlinks h
  -- the entries have fitted, and then it is known what the writing leaves
  obtain ⟨hvalues, hoffsets⟩ := fits_of_write_entries h
  obtain ⟨written, hwrite, hwritten⟩ := write_entries hindex hfits hvalues hoffsets
  rw [h] at hwrite
  cases hwrite
  exact ⟨hfits, Nat.lt_of_le_of_lt hvalues hfits.values_lt, rfl, hwritten⟩

end Both

end LayeredStore.Generation
