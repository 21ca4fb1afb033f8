import LayeredStore.Command.Arguments

namespace LayeredStore.Command

/-!
# Runs

A run of the program carries out the command of a command line: it starts an
engine, performs the command and closes the engine, which stores what the command
wrote.

* `Outcome` — exit status and output of a run;
* `Invocation.run` — the run of a command that was read;
* `run` — the run of a command line.
-/

/-- What a run leaves to its caller. -/
structure Outcome where
  /-- The exit status. -/
  status : Nat
  /-- What was printed. -/
  output : String
  deriving DecidableEq, Repr

/-- The exit status after a fault. A result that does not fit in a machine word
    breaks the run off. -/
def exitStatus : Fault → Nat
  | .overflow _ => 101
  | _ => 1

/-- The version of the program. -/
def version : String := "0.1.0"

/-- The text that answers a request for the version. -/
def versionText : String := line ("strata-cli " ++ version)

/-- The text that answers a request for help. -/
def helpText : String :=
  line "Usage: strata-cli [--dir DIR] get KEY | put KEY VALUE | delete KEY"
    ++ line "         | scan [--from KEY] [--to KEY] | flush | compact | generations"

/-- What is printed and returned where no command is run. -/
def Notice.outcome : Notice → Outcome
  | version => ⟨0, versionText⟩
  | help => ⟨0, helpText⟩
  | misuse => ⟨2, ""⟩

/-- The settings of a run: the defaults, with the folder that was named. -/
def Invocation.config (invocation : Invocation) : Config :=
  { basePath := invocation.folder.getD ({} : Config).basePath }

/-- Carries out a command on the disk. A relative path starts at `here`. After a
    command that failed the engine is not closed; where closing fails, what the
    command printed stays. -/
def Invocation.run (here : Place) (invocation : Invocation) : Action Disk Outcome := fun disk =>
  match Engine.start disk here invocation.config with
  | .error fault => .ok ⟨exitStatus fault, ""⟩ disk
  | .ok engine =>
    match invocation.command.perform (engine, disk) with
    | .error fault (_, disk) => .ok ⟨exitStatus fault, ""⟩ disk
    | .ok output both =>
      match Engine.close both with
      | .error fault (_, disk) => .ok ⟨exitStatus fault, output⟩ disk
      | .ok _ (_, disk) => .ok ⟨0, output⟩ disk

/-- The run of a command line. -/
def run (here : Place) (words : List String) : Action Disk Outcome :=
  match Invocation.parse words with
  | .error notice => pure notice.outcome
  | .ok invocation => invocation.run here

end LayeredStore.Command
