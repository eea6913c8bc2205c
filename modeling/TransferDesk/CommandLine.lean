import TransferDesk.Settings
/-!
# The command line

The arguments are a host, a port and options, in any order. An option is written `--name value` or
`--name=value`, and only the second form can have a value that starts with a dash; a lone dash is a
value. After `--` all arguments are positional.

A value is checked when the argument after it begins, so of two faults the one further left is
reported, except that an argument that cannot be understood at all is reported before the value in
front of it is checked.
-/

namespace TransferDesk

open TransferDesk.Text (readInteger)

/-- What the arguments say. -/
structure Options where
  host : Option String := none
  port : Option Nat := none
  /-- The path of a seed sheet. -/
  accounts : Option String := none
  framing : Option Framing := none
  bufferSize : Option Nat := none
  backlog : Option Nat := none
  workerThreads : Option Nat := none
deriving DecidableEq, Repr

/-- Why arguments are refused, or not acted upon. -/
inductive UsageFault where
  /-- A value is missing, or is none of those that are possible. -/
  | invalidValue
  /-- A number cannot be read or is out of range. -/
  | invalidNumber
  | unknownArgument
  | repeatedOption
  /-- A value is given to an option that takes none. -/
  | unneededValue
  | helpWanted
deriving DecidableEq, Repr

/-- What a value is for. -/
inductive Slot where
  | host
  | port
  | accounts
  | framing
  | bufferSize
  | backlog
  | workerThreads
deriving DecidableEq, Repr

/-- The option of a given name. -/
def Slot.ofName? (name : String) : Option Slot :=
  match name with
  | "accounts" => some .accounts
  | "framing" => some .framing
  | "buffer-size" => some .bufferSize
  | "backlog" => some .backlog
  | "worker-threads" => some .workerThreads
  | _ => none

/-- Reads a numeral for which a minus is allowed, and then checks its range. -/
def readRanged (lo hi : Int) (s : String) : Except UsageFault Nat :=
  match readInteger 10 (-9223372036854775808) 9223372036854775807 s.toList with
  | .error _ => .error .invalidNumber
  | .ok n => if lo ≤ n ∧ n ≤ hi then .ok n.toNat else .error .invalidNumber

/-- Reads a numeral for which a minus is not allowed, of up to 64 bits. -/
def readSize (s : String) : Except UsageFault Nat :=
  match readInteger 10 0 18446744073709551615 s.toList with
  | .error _ => .error .invalidNumber
  | .ok n => .ok n.toNat

/-- Reads the name of a way to cut a stream into frames. -/
def Framing.ofName (name : String) : Except UsageFault Framing :=
  match name with
  | "read" => .ok .byRead
  | "line" => .ok .byLine
  | _ => .error .invalidValue

namespace Options

/-- Puts a value into a slot. -/
def put (o : Options) (value : String) : Slot → Except UsageFault Options
  | .host => .ok { o with host := some value }
  | .port => (readRanged 1 65535 value).map fun n => { o with port := some n }
  | .accounts =>
    if value = "" then .error .invalidValue else .ok { o with accounts := some value }
  | .framing => (Framing.ofName value).map fun f => { o with framing := some f }
  | .bufferSize => (readSize value).map fun n => { o with bufferSize := some n }
  | .backlog => (readRanged 0 4294967295 value).map fun n => { o with backlog := some n }
  | .workerThreads => (readSize value).map fun n => { o with workerThreads := some n }

/-- Whether a slot has a value. -/
def has (o : Options) : Slot → Bool
  | .host => o.host.isSome
  | .port => o.port.isSome
  | .accounts => o.accounts.isSome
  | .framing => o.framing.isSome
  | .bufferSize => o.bufferSize.isSome
  | .backlog => o.backlog.isSome
  | .workerThreads => o.workerThreads.isSome

/-- The settings of the server. -/
def settings (o : Options) : Settings :=
  .create (o.host.getD "0.0.0.0") (o.port.getD 8080) (o.backlog.getD 128)
    (o.bufferSize.getD 1024) (o.framing.getD .byRead)

/-- The number of worker threads, or `none` for one per processor. -/
def threads (o : Options) : Option Nat :=
  match o.workerThreads with
  | some 0 => none
  | threads => threads

end Options

/-! ## Reading arguments -/

/-- What an argument in front of a `--` looks like. -/
inductive Argument where
  /-- All that follows is positional. -/
  | separator
  | help
  /-- A value for an option that takes none. -/
  | unneeded
  | unknown
  | option (slot : Slot) (value : Option String)
  | value (text : String)
deriving DecidableEq, Repr

/-- The argument with a given text. -/
def Argument.ofText (text : String) : Argument :=
  match text.toList with
  | ['-', '-'] => separator
  | '-' :: '-' :: body =>
    let name := String.ofList (body.takeWhile (· ≠ '='))
    let attached :=
      match body.dropWhile (· ≠ '=') with
      | [] => none
      | _ :: rest => some (String.ofList rest)
    if name = "help" then if attached.isSome then unneeded else help
    else
      match Slot.ofName? name with
      | some slot => option slot attached
      | none => unknown
  | ['-'] => value text
  | '-' :: 'h' :: _ => help
  | '-' :: _ => unknown
  | _ => value text

/-- The state between two arguments. -/
structure Usage where
  options : Options := {}
  /-- The slot that was begun last, with its value if that has been given. It is not checked yet. -/
  begun : Option (Slot × Option String) := none
  /-- The slots for positional arguments that are still free. -/
  free : List Slot := [.host, .port]
  /-- Whether a `--` has been read. -/
  separated : Bool := false
deriving DecidableEq, Repr

namespace Usage

/-- Checks the slot that was begun last and puts its value into the options. -/
def settle (u : Usage) : Except UsageFault Usage :=
  match u.begun with
  | none => .ok u
  | some (_, none) => .error .invalidValue
  | some (slot, some value) =>
    if u.options.has slot then .error .repeatedOption
    else (u.options.put value slot).map fun options => { u with options, begun := none }

/-- Begins a slot. -/
def begin (u : Usage) (slot : Slot) (value : Option String) : Except UsageFault Usage :=
  u.settle.map fun u => { u with begun := some (slot, value) }

/-- Takes a positional argument. -/
def position (u : Usage) (value : String) : Except UsageFault Usage :=
  match u.free with
  | [] => .error .unknownArgument
  | slot :: free => { u with free }.begin slot (some value)

/-- Takes an argument. -/
def take (u : Usage) (text : String) : Except UsageFault Usage :=
  if u.separated then u.position text
  else
    match Argument.ofText text with
    | .separator => .ok { u with separated := true }
    | .help => u.settle.bind fun _ => .error .helpWanted
    | .unneeded => .error .unneededValue
    | .unknown => .error .unknownArgument
    | .option slot none => u.begin slot none
    | .option slot (some value) => (u.begin slot (some value)).bind settle
    | .value value =>
      match u.begun with
      | some (slot, none) => .ok { u with begun := some (slot, some value) }
      | _ => u.position value

/-- Takes all arguments. -/
def takeAll (u : Usage) : List String → Except UsageFault Options
  | [] => u.settle.map Usage.options
  | text :: texts =>
    match u.take text with
    | .error fault => .error fault
    | .ok u => u.takeAll texts

end Usage

/-- Reads the arguments of a command line, without the name of the program. -/
def Options.ofArguments (arguments : List String) : Except UsageFault Options :=
  ({} : Usage).takeAll arguments

end TransferDesk
