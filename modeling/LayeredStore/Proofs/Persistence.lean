import LayeredStore.Command.Run
import LayeredStore.Proofs.Refinement
import Mathlib.Data.Set.List

namespace LayeredStore.Command

/-!
# Runs of the program are a map that lasts

Each run of the program starts an engine on what the runs before it have left, carries out
one command and closes the engine. Over any number of runs on one folder this is a map from
texts to texts: what was written last is what is shown, and every write has put one
generation in front of the others.

* `values` — the map after commands: under each key what was written last;
* `Lists` — the pairs of a map between two keys, in the order of their bytes;
* `Effect` — what a command prints, and which generations it leaves;
* `HasRoom` — there is room for the record of every command;
* `Serves` — every command of a sequence succeeds and has its effect;
* `Stores` — what the folder holds between two runs;
* `Stores.of_read`, `Stores.write`, `Stores.compact` — the runs of commands that read, write and
  merge, and so of all (`Stores.run`) and of any number of them (`Stores.serves`);
* `Stores.hasRoom` — there is room where the records of all commands together have it;
* `serves_as_map` — every sequence of commands on a new folder.
-/

/-! ### The map -/

/-- What a command writes under a key: a value, or that there is none. -/
def writes? (key : String) : Command → Option (Option String)
  | put name value => if name = key then some (some value) else none
  | delete name => if name = key then some none else none
  | _ => none

/-- The value of a key after commands: what the last one has left that has written there. -/
def values (commands : List Command) (key : String) : Option String :=
  (commands.reverse.findSome? (writes? key)).join

@[simp] theorem values_nil (key : String) : values [] key = none := rfl

theorem values_concat (commands : List Command) (command : Command) (key : String) :
    values (commands ++ [command]) key = (writes? key command).getD (values commands key) := by
  rw [values, List.reverse_append, List.reverse_singleton, List.singleton_append,
    List.findSome?_cons]
  cases writes? key command <;> rfl

/-- A command that writes nothing leaves the map as it is. -/
theorem values_concat_of_none {command : Command} (commands : List Command)
    (hwrites : ∀ key, writes? key command = none) :
    values (commands ++ [command]) = values commands := by
  funext key
  rw [values_concat, hwrites]
  rfl

/-- The pairs of a map with keys from `lower` on and before `upper`, ascending by the bytes of
    their keys. -/
structure Lists (values : String → Option String) (lower upper : Option String)
    (pairs : List (String × String)) : Prop where
  ascending : KeyOrder.lexicographic.Ascending (pairs.map fun pair => Bytes.ofText pair.1)
  mem_iff : ∀ key value, (key, value) ∈ pairs ↔ values key = some value
    ∧ Bounds.admits ⟨lower.map Bytes.ofText, upper.map Bytes.ofText⟩ .lexicographic
      (Bytes.ofText key) = true

/-- The entry that stores a pair. -/
def entryOf (pair : String × String) : Entry :=
  .live (Bytes.ofText pair.1) (Bytes.ofText pair.2)

/-! ### Commands -/

/-- What a command prints, and the generations that it leaves, where the map is `values` and
    the generations are `volumes`, the newest first. -/
def Effect (values : String → Option String) (volumes : List Volume) :
    Command → String → List Volume → Prop
  | get key, output, after => output = line ((values key).getD "(nil)") ∧ after = volumes
  | put key value, output, after =>
    output = line "OK" ∧ after = ⟨Volume.next volumes, [entryOf (key, value)]⟩ :: volumes
  | delete key, output, after =>
    output = line "OK"
      ∧ after = ⟨Volume.next volumes, [.tombstone (Bytes.ofText key)]⟩ :: volumes
  | scan lower upper, output, after =>
    (∃ pairs, Lists values lower upper pairs
      ∧ output = String.join (pairs.map fun pair => line (pair.1 ++ "\t" ++ pair.2)))
      ∧ after = volumes
  | flush, output, after => output = line "nothing to flush" ∧ after = volumes
  | compact, output, after =>
    (output = line "nothing to compact" ↔ volumes = []) ∧ (volumes = [] → after = [])
      ∧ (volumes ≠ [] → ∃ pairs, Lists values none none pairs
        ∧ after = [⟨Volume.next volumes, pairs.map entryOf⟩]
        ∧ output = line ("compacted into generation " ++ Text.number (Volume.next volumes) ++ " ("
          ++ Text.number pairs.length ++ " entries, "
          ++ Text.number (Generation.records (pairs.map entryOf)).length ++ " bytes)"))
  | generations, output, after =>
    output = String.join (volumes.map fun volume => line (Text.number volume.index))
      ∧ after = volumes

/-- The bytes of the record that a command adds. -/
def weight : Command → Nat
  | put key value => 16 + (entryOf (key, value)).payload
  | delete key => 16 + (Entry.tombstone (Bytes.ofText key)).payload
  | _ => 0

/-- The bytes of the records that commands add. -/
def totalWeight : List Command → Nat
  | [] => 0
  | command :: commands => command.weight + totalWeight commands

/-- The settings of the runs on a folder. -/
def settings (folder : Option String) : Config :=
  { basePath := folder.getD ({} : Config).basePath }

variable (here : Place) (folder : Option String)

/-- Whenever a run begins, there are fewer generations than priorities, and all records and the
    one that its command adds take less than half of the addressable bytes, which is what a file
    can hold. -/
def HasRoom : Disk → List Command → Prop
  | _, [] => True
  | disk, command :: commands =>
    (∀ engine, Engine.start disk here (settings folder) = .ok engine →
      engine.store.tables.length < Word.halfLimit
        ∧ engine.footprint + command.weight < Word.signedLimit)
    ∧ ∀ outcome after, Invocation.run here ⟨folder, command⟩ disk = .ok outcome after →
      HasRoom after commands

/-- The commands are run one after the other, where `done` was run before them and has left
    the given generations. Each run exits with status 0 and has its command's effect on the
    map that is written so far, and before and after it the folder holds the generations, in
    descending order, and no others. -/
def Serves : List Command → List Volume → Disk → List Command → Prop
  | _, volumes, disk, [] =>
    Shelf disk (Engine.folderOf here (settings folder)) .lexicographic volumes
  | done, volumes, disk, command :: commands =>
    Shelf disk (Engine.folderOf here (settings folder)) .lexicographic volumes
    ∧ ∃ output next after, Invocation.run here ⟨folder, command⟩ disk = .ok ⟨0, output⟩ after
      ∧ Effect (values done) volumes command output next
      ∧ Serves (done ++ [command]) next after commands

/-! ### Texts as bytes -/

/-- The map of an engine holds the pairs of a map of texts, and no others. -/
def Tells (contents : Engine.Contents) (values : String → Option String) : Prop :=
  ∀ name bytes, (contents name).join = some bytes
    ↔ ∃ key value, name = Bytes.ofText key ∧ bytes = Bytes.ofText value ∧ values key = some value

/-- Different texts have different bytes. -/
theorem ofText_injective : Function.Injective Bytes.ofText :=
  Function.LeftInverse.injective Text.decodeLossy_ofText

theorem entryOf_injective : Function.Injective entryOf := by
  rintro ⟨key, value⟩ ⟨key', value'⟩ h
  obtain ⟨hkey, hvalue⟩ := Entry.mk.inj h
  exact Prod.ext (ofText_injective hkey) (ofText_injective (Option.some.inj hvalue))

namespace Tells

variable {contents : Engine.Contents} {values after : String → Option String}

theorem join_eq (h : Tells contents values) (key : String) :
    (contents (Bytes.ofText key)).join = (values key).map Bytes.ofText := by
  cases hvalue : values key with
  | some value => exact (h _ _).mpr ⟨key, value, rfl, rfl, hvalue⟩
  | none =>
    cases hjoin : (contents (Bytes.ofText key)).join with
    | none => rfl
    | some bytes =>
      obtain ⟨other, value, hkey, -, hother⟩ := (h _ _).mp hjoin
      rw [← ofText_injective hkey, hvalue] at hother
      cases hother

/-- A write under the bytes of a key is one under the key. -/
theorem update (h : Tells contents values) (key : String) (value : Option String)
    (hafter : ∀ other, after other = if key = other then value else values other) :
    Tells (Function.update contents (Bytes.ofText key) (some (value.map Bytes.ofText))) after := by
  intro name bytes
  by_cases hname : name = Bytes.ofText key
  · subst hname
    rw [Function.update_self]
    constructor
    · intro hbytes
      obtain ⟨text, htext, rfl⟩ := Option.map_eq_some_iff.mp hbytes
      exact ⟨key, text, rfl, rfl, by rw [hafter, if_pos rfl, htext]⟩
    · rintro ⟨other, text, hkey, rfl, hother⟩
      rw [hafter, if_pos (ofText_injective hkey)] at hother
      show value.map Bytes.ofText = _
      rw [hother]
      rfl
  · rw [Function.update_of_ne hname, h]
    -- the name is that of another key, if of any
    refine exists_congr fun other => exists_congr fun text => and_congr_right fun hother => ?_
    have hne : key ≠ other := fun heq => hname (heq ▸ hother)
    rw [hafter, if_neg hne]

/-- Entries that are told by an engine's map are those of the pairs of the map of texts. -/
theorem exists_pairs (h : Tells contents values) {lower upper : Option String}
    {entries : List Entry} (hascending : KeyOrder.lexicographic.Ascending (keysOf entries))
    (hmem : ∀ e, e ∈ entries
      ↔ Bounds.admits ⟨lower.map Bytes.ofText, upper.map Bytes.ofText⟩ .lexicographic e.key = true
        ∧ e.isTombstone = false ∧ contents e.key = some e.value) :
    ∃ pairs, entries = pairs.map entryOf ∧ Lists values lower upper pairs := by
  have hrange : entries ∈ Set.range (List.map entryOf) := by
    rw [Set.range_list_map]
    intro e he
    obtain ⟨-, hlive, hvalue⟩ := (hmem e).mp he
    obtain ⟨name, found⟩ := e
    cases found with
    | none => cases hlive
    | some bytes =>
      obtain ⟨key, value, rfl, rfl, -⟩ := (h name bytes).mp (by rw [hvalue]; rfl)
      exact ⟨(key, value), rfl⟩
  obtain ⟨pairs, rfl⟩ := hrange
  refine ⟨pairs, rfl, ?_, fun key value => ?_⟩
  · rw [keysOf, List.map_map] at hascending
    exact hascending
  · have hjoin := h.join_eq key
    have hstored : contents (Bytes.ofText key) = some (some (Bytes.ofText value))
        ↔ values key = some value := by
      rw [← Option.join_eq_some_iff, hjoin, ← Option.map_some,
        (Option.map_injective ofText_injective).eq_iff]
    rw [← List.mem_map_of_injective entryOf_injective, hmem, and_comm]
    exact and_congr_left fun _ => ⟨fun hfound => hstored.mp hfound.2, fun hvalue =>
      ⟨rfl, hstored.mpr hvalue⟩⟩

end Tells

/-! ### Single runs -/

variable {here : Place} {folder : Option String} {command : Command} {done : List Command}
  {engine closed : Engine} {disk between after : Disk} {output : String} {steps : Nat}
  {volumes : List Volume}

/-- A run whose command and whose closing succeed. -/
theorem run_of_ok {state : Engine × Disk}
    (hstart : Engine.start disk here (settings folder) = .ok engine)
    (hperform : command.perform (engine, disk) = .ok output state)
    (hclose : Engine.close state = .ok () (closed, after)) :
    Invocation.run here ⟨folder, command⟩ disk = .ok ⟨0, output⟩ after := by
  have hsettings : Invocation.config ⟨folder, command⟩ = settings folder := rfl
  unfold Invocation.run
  rw [hsettings, hstart]
  dsimp only
  rw [hperform]
  dsimp only
  rw [hclose]

/-- A command that has left the engine with nothing in the buffer leaves nothing to write for
    the closing. -/
theorem run_of_flushed {config : Config}
    (hstart : Engine.start disk here (settings folder) = .ok engine)
    (hperform : command.perform (engine, disk)
      = .ok output (Engine.onVolumes here config .empty volumes, after)) :
    Invocation.run here ⟨folder, command⟩ disk = .ok ⟨0, output⟩ after :=
  run_of_ok hstart hperform (Engine.close_of_flush rfl (Engine.flushBuffer_of_empty rfl after))

theorem read_ok {α : Type} {look : Engine → Except Fault α} {answer : α}
    (h : look engine = .ok answer) : read look (engine, disk) = .ok answer (engine, disk) := by
  rw [read]
  dsimp only
  rw [h]
  rfl

theorem perform_get {key : String} {value : Option Bytes}
    (h : engine.get? (Bytes.ofText key) = .ok value) :
    (get key).perform (engine, disk)
      = .ok (line ((value.map Text.decodeLossy).getD "(nil)")) (engine, disk) := by
  refine (Action.bind_ok (read_ok h)).trans ?_
  cases value <;> rfl

theorem perform_scan {lower upper : Option String} {entries : List Entry}
    (h : engine.range ⟨lower.map Bytes.ofText, upper.map Bytes.ofText⟩ = .ok entries) :
    (scan lower upper).perform (engine, disk)
      = .ok (String.join (entries.map entryLine)) (engine, disk) :=
  (Action.bind_ok (read_ok h)).trans rfl

theorem perform_generations : generations.perform (engine, disk)
    = .ok (String.join (engine.store.generations.map fun index => line (Text.number index)))
      (engine, disk) := by
  have hread : read (fun engine => .ok engine.store.generations) (engine, disk)
      = .ok engine.store.generations (engine, disk) := read_ok rfl
  exact (Action.bind_ok hread).trans rfl

theorem perform_flush_none {state after : Engine × Disk} (h : Engine.flush state = .ok none after) :
    flush.perform state = .ok (line "nothing to flush") after :=
  (Action.bind_ok h).trans rfl

theorem perform_compact_none {state after : Engine × Disk}
    (h : Engine.compact state = .ok none after) :
    compact.perform state = .ok (line "nothing to compact") after :=
  (Action.bind_ok h).trans rfl

theorem perform_compact_some {state after : Engine × Disk} {info : Generation.Info}
    (h : Engine.compact state = .ok (some info) after) :
    compact.perform state = .ok (line ("compacted into generation " ++ Text.number info.index
      ++ " (" ++ Text.number info.count ++ " entries, " ++ Text.number info.valuesBytes
      ++ " bytes)")) after :=
  (Action.bind_ok h).trans rfl

/-- The line of a stored pair shows the pair. -/
theorem entryLine_entryOf (pair : String × String) :
    entryLine (entryOf pair) = line (pair.1 ++ "\t" ++ pair.2) := by
  simp [entryLine, entryOf, Entry.live]

/-! ### What lasts between two runs -/

/-- The engine that a run starts where its folder holds the given generations. -/
abbrev started (here : Place) (folder : Option String) (volumes : List Volume) : Engine :=
  Engine.onVolumes here (settings folder) .empty volumes

/-- An engine that is started on the folder has the generations, buffers nothing and is the
    map that the commands have written. At most one number was taken for each command. -/
def Stores (here : Place) (folder : Option String) (done : List Command) (steps : Nat)
    (volumes : List Volume) (disk : Disk) : Prop :=
  ∃ contents, Engine.Reflects here contents steps (settings folder) .empty volumes disk
    ∧ Tells contents (values done)

/-- A run of the command exits with status 0 and has the command's effect, what the command has
    written is stored from then on, and no more bytes of records are added than the command's. -/
def Advances (here : Place) (folder : Option String) (done : List Command) (steps : Nat)
    (volumes : List Volume) (disk : Disk) (command : Command) : Prop :=
  ∃ output next after, Invocation.run here ⟨folder, command⟩ disk = .ok ⟨0, output⟩ after
    ∧ Effect (values done) volumes command output next
    ∧ Stores here folder (done ++ [command]) (steps + 1) next after
    ∧ (started here folder next).footprint
      ≤ (started here folder volumes).footprint + command.weight

namespace Stores

theorem start_eq (h : Stores here folder done steps volumes disk) :
    Engine.start disk here (settings folder) = .ok (started here folder volumes) := by
  obtain ⟨_, hreflects, -⟩ := h
  exact hreflects.start_eq (settings folder).flushThreshold

theorem shelf (h : Stores here folder done steps volumes disk) :
    Shelf disk (Engine.folderOf here (settings folder)) .lexicographic volumes := by
  obtain ⟨_, hreflects, -⟩ := h
  exact hreflects.shelf

/-- There are no more generations than commands that were run. -/
theorem length_lt {limit : Nat} (h : Stores here folder done steps volumes disk)
    (hsteps : steps < limit) : (started here folder volumes).store.tables.length < limit := by
  obtain ⟨_, hreflects, -⟩ := h
  exact hreflects.length_lt hsteps

/-- A command that writes nothing, and changes nothing on the disk, leaves what was there. -/
theorem of_read (h : Stores here folder done steps volumes disk)
    (hwrites : ∀ key, writes? key command = none)
    (hperform : command.perform (started here folder volumes, disk)
      = .ok output (started here folder volumes, disk))
    (heffect : Effect (values done) volumes command output volumes) :
    Advances here folder done steps volumes disk command := by
  have hrun := run_of_flushed h.start_eq hperform
  obtain ⟨contents, hreflects, htells⟩ := h
  rw [← values_concat_of_none done hwrites] at htells
  exact ⟨output, volumes, disk, hrun, heffect, ⟨contents, hreflects.mono, htells⟩,
    Nat.le_add_right _ _⟩

/-- A write puts a generation in front, of its one entry, whether the engine has flushed it at
    once or in closing. -/
theorem write (h : Stores here folder done steps volumes disk) (key : String)
    (value : Option String) {new : Entry}
    (hnew : new = ⟨Bytes.ofText key, value.map Bytes.ofText⟩)
    (hwrites : ∀ other, writes? other command = if key = other then some value else none)
    (hperform : command.perform = (Engine.write new >>= fun _ => pure (line "OK")))
    (heffect : Effect (values done) volumes command (line "OK")
      (⟨Volume.next volumes, [new]⟩ :: volumes))
    (hweight : command.weight = 16 + new.payload)
    (hroom : (started here folder volumes).footprint + command.weight < Word.signedLimit)
    (hsteps : steps < Word.limit) : Advances here folder done steps volumes disk command := by
  have hstart := h.start_eq
  obtain ⟨contents, hreflects, htells⟩ := h
  have htells' : Tells (Function.update contents new.key (some new.value))
      (values (done ++ [command])) := by
    subst hnew
    refine htells.update key value fun other => ?_
    rw [values_concat, hwrites]
    split <;> rfl
  rw [hweight] at hroom
  obtain ⟨buffer, volumes', between, hwrite, hafter, hcases, hgrown⟩ :=
    hreflects.write_ok new hroom hsteps
  have hperformed : command.perform (started here folder volumes, disk)
      = .ok (line "OK") (Engine.onVolumes here (settings folder) buffer volumes', between) := by
    rw [hperform]
    exact (Action.bind_ok hwrite).trans rfl
  rcases hcases with ⟨rfl, rfl, rfl⟩ | ⟨rfl, rfl⟩
  · -- the entry is in the buffer, which is flushed in closing
    obtain ⟨_, after, hflush, hclosed, hkept⟩ :=
      (hreflects.insert new).flushBuffer_ok (Nat.lt_of_le_of_lt hgrown hroom) hsteps
    exact ⟨_, _, after, run_of_ok hstart hperformed (Engine.close_of_flush rfl hflush), heffect,
      ⟨_, hclosed, htells'⟩, hweight ▸ hkept ▸ hgrown⟩
  · exact ⟨_, _, between, run_of_flushed hstart hperformed, heffect, ⟨_, hafter, htells'⟩,
      hweight ▸ hgrown⟩

/-- A compaction leaves a single generation, of the pairs of the map, where there was any. -/
theorem compact (h : Stores here folder done steps volumes disk) (hvolumes : volumes ≠ [])
    (hcount : (started here folder volumes).store.tables.length < Word.halfLimit)
    (hroom : (started here folder volumes).footprint < Word.signedLimit)
    (hsteps : steps < Word.limit) : Advances here folder done steps volumes disk .compact := by
  have hstart := h.start_eq
  obtain ⟨contents, hreflects, htells⟩ := h
  have hsome : ((started here folder volumes).store.tables.isEmpty && Buffer.empty.isEmpty)
      = false := by
    rw [Buffer.isEmpty_empty, Bool.and_true]
    exact List.isEmpty_eq_false_iff.mpr fun hnil => hvolumes (List.map_eq_nil_iff.mp hnil)
  obtain ⟨entries, info, after, hcompact, hafter, hascending, hmem, rfl, hshorter⟩ :=
    hreflects.compact_some hsome hcount hroom hsteps
  -- every key is between no bounds
  have hmem' : ∀ e, e ∈ entries
      ↔ Bounds.admits ⟨(none : Option String).map Bytes.ofText,
          (none : Option String).map Bytes.ofText⟩ .lexicographic e.key = true
        ∧ e.isTombstone = false ∧ contents e.key = some e.value :=
    fun e => (hmem e).trans (and_iff_right rfl).symm
  obtain ⟨pairs, rfl, hlists⟩ := htells.exists_pairs hascending hmem'
  rw [List.length_map] at hcompact
  have htells' : Tells (Engine.Op.apply contents .compact) (values (done ++ [.compact])) := by
    rw [values_concat_of_none done fun _ => rfl]
    intro name bytes
    rw [Engine.Op.join_apply_compact]
    exact htells name bytes
  refine ⟨_, _, after, run_of_flushed hstart (perform_compact_some hcompact),
    ⟨iff_of_false ?_ hvolumes, fun hnil => absurd hnil hvolumes,
      fun _ => ⟨pairs, hlists, rfl, rfl⟩⟩, ⟨_, hafter, htells'⟩, hshorter⟩
  -- the two texts begin with different letters
  simp [line, String.ext_iff]

/-- Whatever the command is, its run succeeds, has the command's effect and stores what was
    written. -/
theorem run (h : Stores here folder done steps volumes disk) (command : Command)
    (hcount : (started here folder volumes).store.tables.length < Word.halfLimit)
    (hroom : (started here folder volumes).footprint + command.weight < Word.signedLimit)
    (hsteps : steps < Word.limit) : Advances here folder done steps volumes disk command := by
  cases command with
  | get key =>
    obtain ⟨contents, hreflects, htells⟩ := id h
    have hget := hreflects.get?_eq (Bytes.ofText key)
    rw [htells.join_eq] at hget
    refine h.of_read (fun _ => rfl) (perform_get hget) ⟨?_, rfl⟩
    cases values done key with
    | none => rfl
    | some value => rw [Option.map_some, Option.map_some, Text.decodeLossy_ofText]
  | put key value =>
    exact h.write key (some value) rfl (fun _ => rfl) rfl ⟨rfl, rfl⟩ rfl hroom hsteps
  | delete key => exact h.write key none rfl (fun _ => rfl) rfl ⟨rfl, rfl⟩ rfl hroom hsteps
  | scan lower upper =>
    obtain ⟨contents, hreflects, htells⟩ := id h
    obtain ⟨entries, hrange, hascending, hmem⟩ :=
      hreflects.range_eq hcount ⟨lower.map Bytes.ofText, upper.map Bytes.ofText⟩
    obtain ⟨pairs, rfl, hlists⟩ := htells.exists_pairs hascending hmem
    refine h.of_read (fun _ => rfl) (perform_scan hrange) ⟨⟨pairs, hlists, ?_⟩, rfl⟩
    rw [List.map_map]
    exact congrArg String.join (List.map_congr_left fun pair _ => entryLine_entryOf pair)
  | flush =>
    have hflush : Engine.flush (started here folder volumes, disk)
        = .ok none (started here folder volumes, disk) :=
      (Engine.flush_eq rfl).trans (Engine.flushBuffer_of_empty rfl disk)
    exact h.of_read (fun _ => rfl) (perform_flush_none hflush) ⟨rfl, rfl⟩
  | compact =>
    by_cases hvolumes : volumes = []
    · subst hvolumes
      have hnothing : Engine.compact (started here folder [], disk)
          = .ok none (started here folder [], disk) := Engine.compact_of_empty rfl rfl
      exact h.of_read (fun _ => rfl) (perform_compact_none hnothing)
        ⟨iff_of_true rfl rfl, fun _ => rfl, fun hne => absurd rfl hne⟩
    · exact h.compact hvolumes hcount hroom hsteps
  | generations =>
    refine h.of_read (fun _ => rfl) perform_generations ⟨?_, rfl⟩
    show String.join (((volumes.map (Volume.table .lexicographic)).map Table.generation).map _) = _
    rw [List.map_map, List.map_map]
    rfl

/-- What is stored before a run is stored, with the run's command, after it, and so on over any
    number of runs. -/
theorem serves (h : Stores here folder done steps volumes disk) (commands : List Command)
    (hroom : HasRoom here folder disk commands)
    (hcount : steps + commands.length ≤ Word.limit) :
    Serves here folder done volumes disk commands := by
  induction commands generalizing done steps volumes disk with
  | nil => exact h.shelf
  | cons command commands ih =>
    obtain ⟨hfirst, hrest⟩ := hroom
    rw [List.length_cons] at hcount
    obtain ⟨hfew, hnow⟩ := hfirst _ h.start_eq
    obtain ⟨output, next, after, hrun, heffect, hstores, -⟩ := h.run command hfew hnow (by omega)
    exact ⟨h.shelf, output, next, after, hrun, heffect,
      ih hstores (hrest _ _ hrun) (by omega)⟩

/-- Where the bytes of all records and those that the commands add are few enough, and so are
    the commands, there is room throughout: a run adds the record of its command at most, and
    one generation. -/
theorem hasRoom (h : Stores here folder done steps volumes disk) (commands : List Command)
    (htotal : (started here folder volumes).footprint
      + totalWeight commands < Word.signedLimit)
    (hcount : steps + commands.length ≤ Word.halfLimit) : HasRoom here folder disk commands := by
  induction commands generalizing done steps volumes disk with
  | nil => trivial
  | cons command commands ih =>
    rw [totalWeight] at htotal
    rw [List.length_cons] at hcount
    have hlimit : Word.halfLimit < Word.limit := by decide
    have hfew := h.length_lt (by omega : steps < Word.halfLimit)
    obtain ⟨output, next, after, hrun, -, hstores, hgrown⟩ :=
      h.run command hfew (by omega) (by omega)
    constructor
    · intro engine hstart
      rw [h.start_eq] at hstart
      obtain rfl := Except.ok.inj hstart
      exact ⟨hfew, by omega⟩
    · intro outcome disk' hrun'
      rw [hrun] at hrun'
      obtain ⟨-, rfl⟩ := EStateM.Result.ok.inj hrun'
      exact ih hstores (by omega) (by omega)

/-- A folder without generations, which can be made and has nothing else under the names of
    their files, stores nothing. -/
theorem of_vacant {made : Disk}
    (hvacant : Generation.Vacant (Engine.folderOf here (settings folder)) disk)
    (hmade : Disk.makeFolders (Engine.folderOf here (settings folder)) disk = .ok () made) :
    Stores here folder [] 0 [] disk := by
  obtain ⟨-, hreflects⟩ := Engine.start_ok rfl hvacant hmade
  refine ⟨_, hreflects, fun name bytes => ⟨fun hnone => ?_, ?_⟩⟩
  · cases hnone
  · rintro ⟨key, value, -, -, hvalue⟩
    cases hvalue

end Stores

/-- **Runs of the program on a folder that was not there are a map that lasts.** However many
    commands are run one after the other, each in a run of its own, every run exits with
    status 0, a look-up shows what was written last under its key, a scan shows the pairs
    between its bounds in the order of the bytes of their keys, a write adds exactly one
    generation, numbered one above the highest or zero, a compaction leaves a single one with
    the pairs that are there, and the folder holds at all times just the generations that this
    makes. -/
theorem serves_as_map {made : Disk} {commands : List Command}
    (hvacant : Generation.Vacant (Engine.folderOf here (settings folder)) disk)
    (hmade : Disk.makeFolders (Engine.folderOf here (settings folder)) disk = .ok () made)
    (hcount : commands.length ≤ Word.limit) (hroom : HasRoom here folder disk commands) :
    Serves here folder [] [] disk commands :=
  (Stores.of_vacant hvacant hmade).serves commands hroom (by omega)

/-- Six runs on a folder that was not there: the third of two puts and a deletion is numbered
    two, so the compaction makes generation three, which is all that is left, and the deleted
    key has no value. -/
theorem serves_as_map_small :
    ∃ compacted d₁ d₂ d₃ d₄ d₅ d₆,
      Invocation.run [] ⟨some "/d", .put "a" "1"⟩ Disk.empty = .ok ⟨0, "OK\n"⟩ d₁
      ∧ Invocation.run [] ⟨some "/d", .put "b" "2"⟩ d₁ = .ok ⟨0, "OK\n"⟩ d₂
      ∧ Invocation.run [] ⟨some "/d", .delete "a"⟩ d₂ = .ok ⟨0, "OK\n"⟩ d₃
      ∧ Invocation.run [] ⟨some "/d", .compact⟩ d₃ = .ok ⟨0, compacted⟩ d₄
      ∧ Invocation.run [] ⟨some "/d", .generations⟩ d₄ = .ok ⟨0, "3\n"⟩ d₅
      ∧ Invocation.run [] ⟨some "/d", .get "a"⟩ d₅ = .ok ⟨0, "(nil)\n"⟩ d₆ := by
  have htried : Action.okWith (fun _ made => decide (made = Disk.empty.put ["d"] .folder))
      (Disk.makeFolders (Engine.folderOf [] (settings (some "/d")))) Disk.empty = true := by
    decide +kernel
  obtain ⟨_, made, hmade, hchecked⟩ := Action.of_okWith htried
  obtain rfl : made = Disk.empty.put ["d"] .folder := of_decide_eq_true hchecked
  have hfolder : (Disk.empty.put ["d"] .folder).HasFolder
      (Engine.folderOf [] (settings (some "/d"))) ["d"] := ⟨by decide +kernel, by decide +kernel⟩
  have hvacant : Generation.Vacant (Engine.folderOf [] (settings (some "/d"))) Disk.empty :=
    Generation.vacant_empty hmade hfolder rfl
  have hroom : HasRoom [] (some "/d") Disk.empty
      [.put "a" "1", .put "b" "2", .delete "a", .compact, .generations, .get "a"] :=
    (Stores.of_vacant hvacant hmade).hasRoom _ (by decide +kernel) (by decide)
  obtain ⟨-, _, _, d₁, h₁, ⟨rfl, rfl⟩, -, _, _, d₂, h₂, ⟨rfl, rfl⟩, -, _, _, d₃, h₃, ⟨rfl, rfl⟩,
      -, compacted, _, d₄, h₄, ⟨-, -, hcompacted⟩, -, _, _, d₅, h₅, ⟨rfl, rfl⟩,
      -, _, _, d₆, h₆, ⟨rfl, rfl⟩, -⟩ :=
    serves_as_map hvacant hmade (by decide) hroom
  obtain ⟨pairs, -, rfl, rfl⟩ := hcompacted (List.cons_ne_nil _ _)
  have hthree : String.join [line (Text.number 3)] = "3\n" := by decide +kernel
  exact ⟨_, d₁, d₂, d₃, d₄, d₅, d₆, h₁, h₂, h₃, h₄, hthree ▸ h₅, h₆⟩

end LayeredStore.Command
