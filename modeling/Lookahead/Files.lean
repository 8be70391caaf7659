import Lookahead.Source.Feed

/-!
Files as the library sees them: a path leads to a file, to a directory, to the
standard input or to an error. A directory can be opened and fails when it is read.
A file can be read again and again, but the standard input only once.

`FileSystem` holds files in memory and resolves paths name by name.
-/
namespace Lookahead

inductive FileError where
  | notFound
  | noSuchDevice
  | permissionDenied
  | notADirectory
  | isADirectory
  | nameTooLong
  | nulInName
  | invalidUtf8
deriving DecidableEq, Repr

namespace FileError

/-- Number, kind and text of an error that the system reports. -/
def system? : FileError → Option (Nat × String × String)
  | .notFound => some (2, "NotFound", "No such file or directory")
  | .noSuchDevice => some (6, "Uncategorized", "No such device or address")
  | .permissionDenied => some (13, "PermissionDenied", "Permission denied")
  | .notADirectory => some (20, "NotADirectory", "Not a directory")
  | .isADirectory => some (21, "IsADirectory", "Is a directory")
  | .nameTooLong => some (36, "InvalidFilename", "File name too long")
  | .nulInName | .invalidUtf8 => none

/-- Kind and text of the other errors. -/
def other : FileError → String × String
  | .nulInName => ("InvalidInput", "file name contained an unexpected NUL byte")
  | _ => ("InvalidData", "stream did not contain valid UTF-8")

def message (e : FileError) : String :=
  match e.system? with
  | some (number, _, text) => s!"{text} (os error {number})"
  | none => e.other.2

/-- The long text, which names the kind of error. -/
def describe (e : FileError) : String :=
  match e.system? with
  | some (number, kind, text) =>
      "Os \x7b code: " ++ toString number ++ ", kind: " ++ kind ++ ", message: \"" ++ text ++
        "\" \x7d"
  | none => "Error \x7b kind: " ++ e.other.1 ++ ", message: \"" ++ e.other.2 ++ "\" \x7d"

end FileError

inductive FileEntry where
  | file (bytes : List UInt8)
  | directory
  | standardInput

/-- What every path leads to. -/
structure Files where
  find : String → Except FileError FileEntry
  /-- What is still to be read from the standard input. -/
  input : List UInt8 := []

namespace Files

/-- Opens a file or a directory for reading. -/
def openFeed (files : Files) (path : String) : Except FileError Feed :=
  (files.find path).map fun
    | .file bytes => .ofBytes bytes
    | .directory => .broken FileError.isADirectory.message
    | .standardInput => .ofBytes files.input

def decode (bytes : List UInt8) : Except FileError (List Char) :=
  match Utf8.decode? bytes with
  | some text => .ok text
  | none => .error .invalidUtf8

/-- The whole text of a file. -/
def readText (files : Files) (path : String) : Except FileError (List Char) :=
  match files.find path with
  | .error e => .error e
  | .ok (.file bytes) => decode bytes
  | .ok .directory => .error .isADirectory
  | .ok .standardInput => decode files.input

/-- The files after a path has been read. -/
def afterReading (files : Files) (path : String) : Files :=
  match files.find path with
  | .ok .standardInput => { files with input := [] }
  | _ => files

end Files

/-- A tree of files, and the directory in which paths start that do not start at its
root. A place is the list of the names that lead to it from the root. -/
structure FileSystem where
  /-- What is at a place; of several entries for one place the first one counts. -/
  entries : List (List String × Except FileError FileEntry)
  working : List String

namespace FileSystem

/-- The names on a path. -/
def components (path : String) : List String :=
  go [] [] path.toList
where
  go (finished : List String) (current : List Char) : List Char → List String
    | [] => (String.ofList current.reverse :: finished).reverse
    | '/' :: rest => go (String.ofList current.reverse :: finished) [] rest
    | c :: rest => go finished (c :: current) rest

/-- The place in which a path starts. -/
def start (s : FileSystem) (path : String) : List String :=
  if path.toList.head? == some '/' then [] else s.working

/-- The place that a path leads to if nothing on it is missing. The root is the
directory above itself. -/
def placeOf (s : FileSystem) (path : String) : List String :=
  (components path).foldl (fun place name =>
    if name = "" ∨ name = "." then place
    else if name = ".." then place.dropLast
    else place ++ [name]) (s.start path)

def add (s : FileSystem) (path : String) (entry : FileEntry) : FileSystem :=
  { s with entries := (s.placeOf path, .ok entry) :: s.entries }

/-- Puts a file where a path leads to, in place of the one that was there. -/
def write (s : FileSystem) (path : String) (bytes : List UInt8) : FileSystem :=
  s.add path (.file bytes)

def createDirectory (s : FileSystem) (path : String) : FileSystem := s.add path .directory

/-- What is at a place. What leads to an entry is a directory. -/
def get? (s : FileSystem) (place : List String) : Option (Except FileError FileEntry) :=
  match s.entries.lookup place with
  | some found => some found
  | none =>
      if s.entries.any fun entry => place.isPrefixOf entry.1 then some (.ok .directory) else none

/-- The greatest number of bytes in a name. -/
def nameLimit : Nat := 255

/-- The error of a name that a directory does not have. -/
def missing (name : String) : FileError :=
  if nameLimit < name.utf8ByteSize then .nameTooLong else .notFound

/-- Walks on from a directory. -/
def walk (s : FileSystem) (place : List String) : List String → Except FileError FileEntry
  | [] => .ok .directory
  | name :: rest =>
      if name = "" ∨ name = "." then s.walk place rest
      else if name = ".." then s.walk place.dropLast rest
      else
        match s.get? (place ++ [name]) with
        | none => .error (missing name)
        | some (.ok .directory) => s.walk (place ++ [name]) rest
        | some found => if rest.isEmpty then found else .error .notADirectory

/-- A path takes up to this number of bytes, with the one that ends it. -/
def pathLimit : Nat := 4096

def find (s : FileSystem) (path : String) : Except FileError FileEntry :=
  if path.toList.contains '\x00' then .error .nulInName
  else if path.isEmpty then .error .notFound
  else if pathLimit ≤ path.utf8ByteSize then .error .nameTooLong
  else s.walk (s.start path) (components path)

def toFiles (s : FileSystem) (input : List UInt8) : Files := ⟨s.find, input⟩

/-- Directories that can be relied on. -/
def directories : List (List String) :=
  [["bin"], ["dev"], ["etc"], ["home"], ["lib"], ["proc"], ["tmp"], ["usr", "bin"],
    ["usr", "lib"], ["var"]]

/-- Devices that can be relied on. There is no terminal. -/
def devices : List (List String × Except FileError FileEntry) :=
  [ (["dev", "null"], .ok (.file [])),
    (["dev", "tty"], .error .noSuchDevice),
    (["dev", "stdin"], .ok .standardInput),
    (["dev", "fd", "0"], .ok .standardInput),
    (["proc", "self", "fd", "0"], .ok .standardInput) ]

/-- An empty directory to work in. -/
def workplace : List String := ["tmp", "work"]

/-- A file system with what can be relied on, and nothing in the directory to work in. -/
def fresh : FileSystem where
  entries := devices ++ (workplace :: directories).map (·, .ok .directory)
  working := workplace

end FileSystem

end Lookahead
