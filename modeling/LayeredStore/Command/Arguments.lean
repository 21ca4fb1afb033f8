import LayeredStore.Command

namespace LayeredStore.Command

/-!
# Arguments

The words of a command line: options of the program, the name of a command, and
the command's own options and operands. An option of the program stands before
the command's name. A word that starts with a dash is an option, until a double
dash has been seen. No option is given twice.

* `Invocation`, `Notice` — what a command line asks for, or why it is not run;
* `Invocation.parse` — reads the words of a command line.
-/

/-- A store's folder and a command on it. -/
structure Invocation where
  /-- The folder, where one was named. -/
  folder : Option String
  command : Command
  deriving DecidableEq, Repr

/-- Why no command is run. -/
inductive Notice
  /-- The version was asked for. -/
  | version
  /-- Help was asked for. -/
  | help
  /-- The words make no sense. -/
  | misuse
  deriving DecidableEq, Repr

/-! ### Single words -/

/-- A word of a command line, by its shape. -/
inductive Argument
  /-- The double dash, behind which every word is an operand. -/
  | escape
  /-- An option by its long name, with the value behind an equals sign. -/
  | long (name : String) (attached : Option String)
  /-- Options by their short names; the rest may be the first one's value. -/
  | short (name : Char) (rest : List Char)
  /-- Any other word. -/
  | plain (text : String)
  deriving DecidableEq, Repr

/-- The shape of a word. A single dash is a plain word. -/
def Argument.ofText (text : String) : Argument :=
  match text.toList with
  | ['-', '-'] => .escape
  | '-' :: '-' :: rest =>
    let name := rest.takeWhile (· != '=')
    let attached := rest.dropWhile (· != '=')
    .long (String.ofList name)
      (if attached.isEmpty then none else some (String.ofList attached.tail))
  | '-' :: c :: rest => .short c rest
  | _ => .plain text

/-- Whether a word can be the value of an option that stands before it. -/
def Argument.isPlain : Argument → Bool
  | plain _ => true
  | _ => false

/-- The value that is attached to a short option, with or without an equals sign. -/
def attachedValue? : List Char → Option String
  | [] => none
  | '=' :: rest => some (String.ofList rest)
  | rest => some (String.ofList rest)

/-! ### The words of a command -/

/-- The options and operands that were given to a command. -/
structure Given where
  options : List (String × String) := []
  operands : List String := []
  /-- The option whose value is to come, if one is. -/
  pending : Option String := none
  /-- Whether the double dash was seen. -/
  escaped : Bool := false
  deriving DecidableEq, Repr

namespace Given

/-- Adds the value of an option, unless it has one. -/
def option (given : Given) (name value : String) : Except Notice Given :=
  if given.options.any (·.1 == name) then .error .misuse
  else .ok { given with options := given.options ++ [(name, value)], pending := none }

/-- Adds an operand, unless there are as many as the command takes. -/
def operand (limit : Nat) (given : Given) (text : String) : Except Notice Given :=
  if given.operands.length < limit then
    .ok { given with operands := given.operands ++ [text] }
  else .error .misuse

/-- Takes the next word of a command that has at most `limit` operands and knows the
    options `names`, each with a value. -/
def take (limit : Nat) (names : List String) (given : Given) (text : String) :
    Except Notice Given :=
  if given.escaped then given.operand limit text
  else match given.pending, Argument.ofText text with
    | some name, .plain value => given.option name value
    | some _, _ => .error .misuse
    | none, .plain value => given.operand limit value
    | none, .escape => .ok { given with escaped := true }
    | none, .short c _ => .error (if c = 'h' then .help else .misuse)
    | none, .long name attached =>
      if name ∈ names then
        match attached with
        | some value => given.option name value
        | none => .ok { given with pending := some name }
      else .error (if name = "help" ∧ attached = none then .help else .misuse)

/-- Reads the words of a command. -/
def ofWords (limit : Nat) (names words : List String) : Except Notice Given := do
  let given ← words.foldlM (take limit names) {}
  if given.pending.isSome then .error .misuse else .ok given

/-- The value of an option. -/
def value? (given : Given) (name : String) : Option String :=
  given.options.lookup name

end Given

/-- Reads the words behind the name of a command. `none` stands for a name that no
    command has. -/
def parse? (name : String) (words : List String) : Option (Except Notice Command) :=
  let read (limit : Nat) (names : List String) (make : Given → Option Command) :=
    some do
      match make (← Given.ofWords limit names words) with
      | some command => .ok command
      | none => .error .misuse
  let readKey (make : String → Command) :=
    read 1 [] fun given => given.operands.head?.map make
  if name = "get" then readKey .get
  else if name = "put" then
    read 2 [] fun given => match given.operands with
      | [key, value] => some (.put key value)
      | _ => none
  else if name = "delete" then readKey .delete
  else if name = "scan" then
    read 0 ["from", "to"] fun given => some (.scan (given.value? "from") (given.value? "to"))
  else if name = "flush" then read 0 [] fun _ => some .flush
  else if name = "compact" then read 0 [] fun _ => some .compact
  else if name = "generations" then read 0 [] fun _ => some .generations
  else none

/-! ### The whole command line -/

/-- What a word in front of the command's name stands for. -/
inductive Leading
  /-- The option that names the folder, with its value where that is attached. -/
  | folder (attached : Option String)
  /-- A word that ends the reading. -/
  | stop (notice : Notice)
  deriving DecidableEq, Repr

/-- The meaning of a word in front of the command's name. -/
def Leading.ofArgument : Argument → Leading
  | .long name attached =>
    if name = "dir" then .folder attached
    else if name = "version" ∧ attached = none then .stop .version
    else if name = "help" ∧ attached = none then .stop .help
    else .stop .misuse
  | .short c rest =>
    if c = 'd' then .folder (attachedValue? rest)
    else if c = 'V' then .stop .version
    else if c = 'h' then .stop .help
    else .stop .misuse
  | .plain _ => .stop .misuse
  | .escape => .stop .misuse

/-- What a request for help leads to. The words behind it may name one command, or
    the request itself. -/
def Notice.ofHelp : List String → Notice
  | [] => .help
  | [name] => if name = "help" ∨ (Command.parse? name []).isSome then .help else .misuse
  | _ => .misuse

namespace Invocation

/-- Reads the words of a command line when `folder` was named before them, or, where
    `pending`, when the name of the folder is to come. -/
def parseFrom (folder : Option String) (pending : Bool) : List String → Except Notice Invocation
  | [] => .error .misuse
  | text :: rest =>
    if pending then
      if (Argument.ofText text).isPlain then parseFrom (some text) false rest
      else .error .misuse
    else match Command.parse? text rest with
      | some command => command.map (⟨folder, ·⟩)
      | none =>
        if text = "help" then .error (.ofHelp rest)
        else match Leading.ofArgument (Argument.ofText text) with
          | .stop notice => .error notice
          | .folder attached =>
            if folder.isSome then .error .misuse
            else match attached with
              | some value => parseFrom (some value) false rest
              | none => parseFrom none true rest

/-- Reads the words of a command line. -/
def parse (words : List String) : Except Notice Invocation := parseFrom none false words

end Invocation

end LayeredStore.Command
