import LayeredStore.Text.Quoted

namespace LayeredStore

/-!
# Faults

Every way in which an operation of the store can fail. A missing key is not a
fault: look-ups answer with an option.

* `Fault` — the causes, with the causes of each family as types of their own;
* `Fault.message` — the sentence that reports a fault;
* `Fault.inspect` — the fault shown as a value, for diagnostics.
-/

/-- What the file system may refuse. -/
inductive SystemFault
  | notFound
  | notADirectory
  | isADirectory
  | alreadyExists
  | invalidInput
  | filesystemLoop
  | uncategorized
  deriving DecidableEq, Repr

/-- Why the files of a folder are not a set of generations. -/
inductive LayoutFault
  /-- There are more files of one kind than of the other. -/
  | unequal (folder : String) (values offsets : Nat)
  /-- As many of each kind, but the listed generations lack one of their files. -/
  | unpaired (folder : String) (generations : List Nat)
  /-- A layout that another party objects to. -/
  | reported (text : String)
  deriving DecidableEq, Repr

/-- Why bytes are not what the format asks for. -/
inductive Corruption
  /-- The stretch to be read would end beyond the last addressable byte. -/
  | unaddressable
  /-- The stretch of `length` bytes would end beyond the region's `size` bytes. -/
  | pastEnd (length size : Nat)
  /-- A value's length is negative and is not the mark of a tombstone. -/
  | negativeLength (length : Int)
  /-- An offsets file of `size` bytes does not consist of whole slots. -/
  | raggedOffsets (size : Nat)
  /-- Bytes that another party objects to. -/
  | reported (reason : String)
  deriving DecidableEq, Repr

/-- Why a configuration cannot be used. -/
inductive ConfigFault
  /-- The path of the store's folder is empty. -/
  | emptyPath
  /-- A setting that another party objects to. -/
  | reported (text : String)
  deriving DecidableEq, Repr

/-- Which result does not fit in a machine word. -/
inductive Overflow
  | sum
  | product
  deriving DecidableEq, Repr

/-- Everything that can go wrong. -/
inductive Fault
  /-- The file system refused an operation. -/
  | system (cause : SystemFault)
  /-- A folder does not hold a set of generations. -/
  | layout (cause : LayoutFault)
  /-- Bytes at `offset` break the format. -/
  | corrupt (offset : Nat) (cause : Corruption)
  /-- A write would need `needed` bytes of a file that has `capacity`. -/
  | exhausted (needed capacity : Nat)
  /-- The store was closed. -/
  | closed
  /-- A compaction replaced the generations, and they are not mapped yet. -/
  | stale
  /-- The configuration cannot be used. -/
  | config (cause : ConfigFault)
  /-- A size, index or offset left the range of a machine word. -/
  | overflow (cause : Overflow)
  deriving DecidableEq, Repr

/-! ### Messages -/

/-- The name of a refusal. -/
def SystemFault.name : SystemFault → String
  | notFound => "NotFound"
  | notADirectory => "NotADirectory"
  | isADirectory => "IsADirectory"
  | alreadyExists => "AlreadyExists"
  | invalidInput => "InvalidInput"
  | filesystemLoop => "FilesystemLoop"
  | uncategorized => "Uncategorized"

/-- The reason of a bad layout, in words. -/
def LayoutFault.text : LayoutFault → String
  | unequal folder values offsets =>
    folder ++ " must contain the same number of \"values\" and \"offsets\" files (found "
      ++ Text.number values ++ " and " ++ Text.number offsets ++ ")"
  | unpaired folder generations =>
    folder ++ " has unpaired generations " ++ Text.list (generations.map Text.number)
  | reported text => text

/-- The reason of a corruption, in words. -/
def Corruption.text : Corruption → String
  | unaddressable => "length overflows u64"
  | pastEnd length size =>
    "read of " ++ Text.number length ++ " bytes past region end " ++ Text.number size
  | negativeLength length => "negative value length " ++ Text.integer length
  | raggedOffsets size =>
    "offsets file length " ++ Text.number size ++ " is not a multiple of 8"
  | reported reason => reason

/-- The reason why a configuration cannot be used, in words. -/
def ConfigFault.text : ConfigFault → String
  | emptyPath => "base_path must not be empty"
  | reported text => text

/-- What happened when a result did not fit, in words. -/
def Overflow.text : Overflow → String
  | sum => "attempt to add with overflow"
  | product => "attempt to multiply with overflow"

namespace Fault

/-- The sentence that reports a fault. -/
def message : Fault → String
  | system cause => cause.name
  | layout cause => "Directory layout error: " ++ cause.text
  | corrupt offset cause =>
    "Corrupt table format at byte " ++ Text.number offset ++ ": " ++ cause.text
  | exhausted needed capacity =>
    "Write region exhausted: needed " ++ Text.number needed ++ " bytes, capacity "
      ++ Text.number capacity
  | closed => "Storage is closed"
  | stale => "Generation set changed by compaction, reload required"
  | config cause => "Configuration error: " ++ cause.text
  | overflow cause => cause.text

/-- The fault shown as a value, for diagnostics. -/
def inspect : Fault → String
  | system cause => Text.wrap "Io" cause.name
  | layout cause => Text.wrap "DirectoryLayout" (Text.quote cause.text)
  | corrupt offset cause =>
    Text.group "CorruptFormat"
      [("offset", Text.number offset), ("reason", Text.quote cause.text)]
  | exhausted needed capacity =>
    Text.group "CapacityExceeded"
      [("needed", Text.number needed), ("capacity", Text.number capacity)]
  | closed => "Closed"
  | stale => "ReloadRequired"
  | config cause => Text.wrap "Config" (Text.quote cause.text)
  | overflow cause => Text.wrap "Overflow" (Text.quote cause.text)

end Fault

end LayeredStore
