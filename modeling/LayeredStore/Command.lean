import LayeredStore.Engine
import LayeredStore.Text.Utf8

namespace LayeredStore

/-!
# Commands

What can be asked of a store on the command line, and what is answered.

* `Command` — the commands;
* `Command.perform` — carries one out and gives the text that it prints.
-/

/-- A command on a store. -/
inductive Command
  /-- Show the value of a key. -/
  | get (key : String)
  /-- Give a key a value. -/
  | put (key value : String)
  /-- Delete a key. -/
  | delete (key : String)
  /-- List the live entries from one key on and before another. -/
  | scan (lower upper : Option String)
  /-- Flush the write buffer. -/
  | flush
  /-- Merge all generations into one. -/
  | compact
  /-- List the generations. -/
  | generations
  deriving DecidableEq, Repr

namespace Command

/-- A line of output. -/
def line (text : String) : String := text ++ "\n"

/-- The line that shows an entry: key and value with a tabulator between them. -/
def entryLine (entry : Entry) : String :=
  line (Text.decodeLossy entry.key ++ "\t" ++ Text.decodeLossy (entry.value.getD []))

/-- Reads from the engine, which stays as it is. -/
def read {α : Type} (look : Engine → Except Fault α) : Action (Engine × Disk) α := fun both =>
  Action.lift (look both.1) both

/-- Carries a command out. The answer is the text that the command prints; nothing
    is printed where it fails. -/
def perform : Command → Action (Engine × Disk) String
  | get key => do
    match ← read (·.get? (Bytes.ofText key)) with
    | some value => return line (Text.decodeLossy value)
    | none => return line "(nil)"
  | put key value => do
    Engine.put (Bytes.ofText key) (Bytes.ofText value)
    return line "OK"
  | delete key => do
    Engine.delete (Bytes.ofText key)
    return line "OK"
  | scan lower upper => do
    let entries ← read (·.range ⟨lower.map Bytes.ofText, upper.map Bytes.ofText⟩)
    return String.join (entries.map entryLine)
  | flush => do
    match ← Engine.flush with
    | some info =>
      return line ("flushed generation " ++ Text.number info.index ++ " ("
        ++ Text.number info.count ++ " entries)")
    | none => return line "nothing to flush"
  | compact => do
    match ← Engine.compact with
    | some info =>
      return line ("compacted into generation " ++ Text.number info.index ++ " ("
        ++ Text.number info.count ++ " entries, " ++ Text.number info.valuesBytes ++ " bytes)")
    | none => return line "nothing to compact"
  | generations => do
    let indices ← read fun engine => .ok engine.store.generations
    return String.join (indices.map fun index => line (Text.number index))

end Command

end LayeredStore
