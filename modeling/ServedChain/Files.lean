/-
  ServedChain — the files that the program reads, as a directory with files and
  further directories in it.

  `Directory.read` reads the file at a path.  What lies outside the directory is
  not known, except that the directories above it are there.
-/
import ServedChain.Bytes

namespace ServedChain

/-- Why a file cannot be read. -/
inductive FileError where
  | notFound
  | isDirectory
  | notDirectory
  | nameTooLong
  /-- The path has a null character -/
  | invalidPath
  deriving DecidableEq, Repr

def FileError.code : FileError → String
  | notFound => "ENOENT"
  | isDirectory => "EISDIR"
  | notDirectory => "ENOTDIR"
  | nameTooLong => "ENAMETOOLONG"
  | invalidPath => "ERR_INVALID_ARG_VALUE"

/-- A directory: the paths of what is in it, with the contents of files. -/
structure Directory where
  entries : List (String × Option Bytes)
  deriving DecidableEq, Repr

namespace Directory

/-- Bytes of the longest name. -/
def nameLimit : Nat := 255

/-- Bytes of the longest path. -/
def pathLimit : Nat := 4095

def names (path : String) : List String :=
  (path.splitOn "/").filter fun name => name ≠ "" ∧ name ≠ "."

inductive Entry where
  | file (contents : Bytes)
  | directory
  deriving DecidableEq, Repr

/-- What is at the place that some names lead to. -/
def entry? (directory : Directory) (place : List String) : Option Entry :=
  if place.isEmpty then some .directory
  else match directory.entries.find? fun (path, _) => names path == place with
    | some (_, some contents) => some (.file contents)
    | some (_, none) => some .directory
    | none =>
      if directory.entries.any fun (path, _) => place.isPrefixOf (names path) then some .directory
      else none

/-- The file that is reached from a place, `above` directories above the directory if it is not
    in it.  With `closed` a directory must come last. -/
def walk (directory : Directory) (closed : Bool) :
    (above : Nat) → (place : List String) → List String → Except FileError Bytes
  | _, _, [] => .error .isDirectory
  | above, place, name :: rest =>
    if nameLimit < name.utf8ByteSize then .error .nameTooLong
    else if name = ".." then
      if place.isEmpty then walk directory closed (above + 1) [] rest
      else walk directory closed above place.dropLast rest
    else if 0 < above then .error .notFound
    else match directory.entry? (place ++ [name]) with
      | none => .error .notFound
      | some .directory => walk directory closed above (place ++ [name]) rest
      | some (.file contents) =>
        if rest.isEmpty && !closed then .ok contents else .error .notDirectory

/-- The contents of the file at a path. -/
def read (directory : Directory) (path : String) : Except FileError Bytes :=
  if path.contains (Char.ofNat 0) then .error .invalidPath
  else if path.isEmpty then .error .notFound
  else if pathLimit < path.utf8ByteSize then .error .nameTooLong
  else
    let above := if path.startsWith "/" then 1 else 0
    let closed := path.endsWith "/" || path.endsWith "/."
    walk directory closed above [] (names path)

end Directory

end ServedChain
