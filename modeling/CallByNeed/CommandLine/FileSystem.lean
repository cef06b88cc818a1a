/-!
# Files

A path is walked name by name, from the root if it starts with a slash and from the working
directory otherwise.  An empty name and a single dot stay where they are, a double dot goes to the
parent, which for the root is the root itself, and any other name is looked up.  Each of these
steps starts from a directory, so a path that goes on behind a file leads nowhere, even if all
that follows is a slash.

A name of more than `nameLimit` bytes cannot be looked up, and a path of more than `pathLimit`
bytes is not walked at all.
-/

namespace CallByNeed.CommandLine

/-- Why a file cannot be read. -/
inductive ReadError where
  | notFound
  | permissionDenied
  | notADirectory
  | isADirectory
  | nameTooLong
  | invalidText
deriving DecidableEq, Repr

/-- The error in words. -/
def ReadError.message : ReadError → String
  | notFound => "No such file or directory (os error 2)"
  | permissionDenied => "Permission denied (os error 13)"
  | notADirectory => "Not a directory (os error 20)"
  | isADirectory => "Is a directory (os error 21)"
  | nameTooLong => "File name too long (os error 36)"
  | invalidText => "stream did not contain valid UTF-8"

/-- The text that bytes encode. -/
def decodeText (bytes : ByteArray) : Except ReadError String :=
  match String.fromUTF8? bytes with
  | some text => .ok text
  | none => .error .invalidText

/-- A place in a file system: the names that lead to it from the root. -/
abbrev Place := List String

/-- What stands at a place. -/
inductive Entry where
  | file (bytes : ByteArray)
  | directory

/-- Files by their places, and directories that are there whether they hold a file or not. -/
structure FileSystem where
  files : List (Place × ByteArray)
  directories : List Place
  /-- The directory in which the program runs. -/
  working : Place

namespace FileSystem

/-- Bytes of the longest name. -/
def nameLimit : Nat :=
  255

/-- Bytes of the longest path. -/
def pathLimit : Nat :=
  4095

/-- What stands at a place.  With a file or directory all directories above it are there. -/
def entry? (fs : FileSystem) (place : Place) : Option Entry :=
  match fs.files.lookup place with
  | some bytes => some (.file bytes)
  | none =>
    let known := fs.working :: fs.directories ++ fs.files.map Prod.fst
    if known.any place.isPrefixOf then some .directory else none

/-- The place that a name stands for in a directory. -/
def child (fs : FileSystem) (dir : Place) (name : String) : Except ReadError Place :=
  if name = "" || name = "." then .ok dir
  else if name = ".." then .ok dir.dropLast
  else if nameLimit < name.utf8ByteSize then .error .nameTooLong
  else if (fs.entry? (dir ++ [name])).isSome then .ok (dir ++ [name])
  else .error .notFound

/-- One step along a path. -/
def step (fs : FileSystem) (place : Place) (name : String) : Except ReadError Place :=
  match fs.entry? place with
  | some .directory => fs.child place name
  | some (.file _) => .error .notADirectory
  | none => .error .notFound

/-- The place to which a path leads. -/
def resolve (fs : FileSystem) (path : String) : Except ReadError Place :=
  if path = "" then .error .notFound
  else if pathLimit < path.utf8ByteSize then .error .nameTooLong
  else (path.splitOn "/").foldlM fs.step (if path.startsWith "/" then [] else fs.working)

/-- The text of the file to which a path leads. -/
def read (fs : FileSystem) (path : String) : Except ReadError String :=
  match fs.resolve path with
  | .error err => .error err
  | .ok place =>
    match fs.entry? place with
    | some (.file bytes) => decodeText bytes
    | some .directory => .error .isADirectory
    | none => .error .notFound

/-! ### A fresh working directory -/

/-- The directories at the root of every system. -/
def standardDirectories : List Place :=
  ["bin", "boot", "dev", "etc", "home", "lib", "media", "mnt", "opt", "proc", "root", "run", "sbin",
    "srv", "sys", "tmp", "usr", "var"].map fun name => [name]

/-- The place of a working directory that is made for one run. -/
def freshPlace : Place :=
  ["tmp", "work"]

/-- A system whose working directory holds the given files and nothing else.  Outside of it there
are the null device, which is empty, and the program's input, which can be read like a file. -/
def fresh (files : List (String × ByteArray)) (stdin : String) : FileSystem where
  files :=
    (["dev", "null"], ByteArray.empty) :: (["dev", "stdin"], stdin.toUTF8) ::
      files.map fun (path, bytes) =>
        (freshPlace ++ (path.splitOn "/").filter (fun name => name ≠ "" && name ≠ "."), bytes)
  directories := standardDirectories
  working := freshPlace

end FileSystem

end CallByNeed.CommandLine
