import TransferDesk.Sheet.Loader
/-!
# Where a sheet is kept

A path names an entry of a `Disk`: names between slashes, followed one after the other from the root
if the path starts with a slash, and otherwise from the working directory. Only a directory can be
gone through, a name has at most 255 bytes and a path fewer than 4096.
-/

namespace TransferDesk.Sheet

/-- What a path can lead to. -/
inductive Entry where
  | directory
  | file (bytes : List UInt8)
deriving DecidableEq, Repr

/-- Files and directories, each with the names that lead to it from the root. -/
structure Disk where
  entries : List (List String × Entry)
  workingDirectory : List String
deriving DecidableEq, Repr

/-- Why a path leads to nothing. -/
inductive PathFault where
  | nulCharacter
  | notFound
  | notDirectory
  | nameTooLong
deriving DecidableEq, Repr

/-- The most bytes that a name may have. -/
def nameLimit : Nat := 255

/-- The fewest bytes that a path may not have. -/
def pathLimit : Nat := 4096

namespace Disk

/-- A disk with the usual directories, the empty device and nothing else. -/
def standard : Disk where
  workingDirectory := ["srv"]
  entries :=
    (["bin", "boot", "dev", "etc", "home", "lib", "lib64", "media", "mnt", "opt", "proc", "root",
      "run", "sbin", "srv", "sys", "tmp", "usr", "var"].map fun name => ([name], .directory)) ++
    (["bin", "include", "lib", "local", "sbin", "share"].map fun name =>
      (["usr", name], .directory)) ++
    (["cache", "lib", "log", "spool", "tmp"].map fun name => (["var", name], .directory)) ++
    [(["dev", "null"], .file [])]

/-- The entry with given names. The root is a directory on every disk. -/
def entry? (d : Disk) : List String → Option Entry
  | [] => some .directory
  | names => d.entries.lookup names

/-- Follows names from a place on the disk. -/
def follow (d : Disk) (here : List String) : List String → Except PathFault Entry
  | [] =>
    match d.entry? here with
    | some found => .ok found
    | none => .error .notFound
  | name :: names =>
    match d.entry? here with
    | none => .error .notFound
    | some (.file _) => .error .notDirectory
    | some .directory =>
      if name = "" ∨ name = "." then d.follow here names
      else if name = ".." then d.follow here.dropLast names
      else if nameLimit < name.utf8ByteSize then .error .nameTooLong
      else if (d.entry? (here ++ [name])).isSome then d.follow (here ++ [name]) names
      else .error .notFound

/-- The entry to which a path leads. -/
def find (d : Disk) (path : String) : Except PathFault Entry :=
  if path.toList.contains '\x00' then .error .nulCharacter
  else if path = "" then .error .notFound
  else if pathLimit ≤ path.utf8ByteSize then .error .nameTooLong
  else
    d.follow (if path.toList.head? = some '/' then [] else d.workingDirectory) (path.splitOn "/")

end Disk

/-- The fault of a path as a fault of the whole library. -/
def PathFault.toFault (path : String) : PathFault → Fault
  | nulCharacter => .ioFailure "file name contained an unexpected NUL byte"
  | notFound => .fileNotFound path
  | notDirectory => .ioFailure "Not a directory (os error 20)"
  | nameTooLong => .ioFailure "File name too long (os error 36)"

/-- The accounts of the sheet to which a path leads. -/
def accountsAt (d : Disk) (path : String) : Except Fault (List Account) :=
  match d.find path with
  | .error fault => .error (fault.toFault path)
  | .ok .directory => .error (.malformedSheet none "Is a directory (os error 21)")
  | .ok (.file bytes) => (accounts bytes).mapError SheetFault.toFault

end TransferDesk.Sheet
