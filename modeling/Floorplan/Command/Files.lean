/-!
# Floorplan.Command.Files

A working directory as a table of files, each under its path from there. Reading and writing fail
as they do on disk: where nothing is, where a directory is, or where a path leads through a file.
The directories above the working directory and the root are there, and nothing is known to be in
them. A walk along the names of a path that succeeds ends where the names alone lead
(`eq_foldl_of_walk`).
-/

namespace Floorplan
namespace Command

inductive FileFault where
  | notFound
  | notDirectory
  | isDirectory
  | nameTooLong
  | nulInName
  | notUtf8
  deriving DecidableEq

def FileFault.message : FileFault → String
  | notFound => "No such file or directory (os error 2)"
  | notDirectory => "Not a directory (os error 20)"
  | isDirectory => "Is a directory (os error 21)"
  | nameTooLong => "File name too long (os error 36)"
  | nulInName => "file name contained an unexpected NUL byte"
  | notUtf8 => "stream did not contain valid UTF-8"

/-- The names that lead to a file from the working directory. In front there may be names `..`,
which lead up from it, or the name `/` of the root. -/
abbrev Path := List String

namespace Path

def root : Path := ["/"]

/-- Whether a path is the working directory, one above it, or the root. -/
def isOuter (path : Path) : Bool := path == root || path.all (· == "..")

/-- Whether a path stays in the working directory. -/
def isInner (path : Path) : Bool := path.head? != some ".." && path.head? != some "/"

/-- The directory that a path is in; the root is in itself. -/
def up (path : Path) : Path :=
  if path == root then path
  else if path.isOuter then ".." :: path
  else path.dropLast

def step (path : Path) (name : String) : Path :=
  if name == "." then path
  else if name == ".." then path.up
  else path ++ [name]

/-- Where the names in the text of a path start from. -/
def start (text : String) : Path := if text.toList.head? == some '/' then root else []

/-- The names in the text of a path. -/
def names (text : String) : List String :=
  ((text.toList.splitOn '/').map String.ofList).filter (· != "")

/-- The path with a text, as it is if every name in it leads through a directory. -/
def ofText (text : String) : Path := (names text).foldl step (start text)

/-- Whether a text calls for a new entry under a name that has a slash behind it. -/
def namesDirectory (text : String) : Bool :=
  text.toList.getLast? == some '/' &&
    (names text).getLast?.any fun name => name != "." && name != ".."

/-- The bytes that a path and a name in it may have. -/
def textLimit : Nat := 4095

def nameLimit : Nat := 255

/-- What is wrong with the text of a path, wherever it leads. -/
def fault? (text : String) : Option FileFault :=
  if text.toList.contains '\x00' then some .nulInName
  else if text = "" then some .notFound
  else if textLimit < text.utf8ByteSize then some .nameTooLong
  else none

end Path

structure Files where
  entries : List (Path × List UInt8)
  deriving DecidableEq

inductive Node where
  | missing
  | directory
  | file (bytes : List UInt8)
  deriving DecidableEq

namespace Files

def get? (files : Files) (path : Path) : Option (List UInt8) :=
  (files.entries.find? fun entry => entry.1 == path).map Prod.snd

def node (files : Files) (path : Path) : Node :=
  if path.isOuter then .directory
  else
    match files.get? path with
    | some bytes => .file bytes
    | none =>
      if files.entries.any fun entry => path.isPrefixOf entry.1 then .directory else .missing

/-- Whether names can be looked up in a path. -/
def enter (files : Files) (path : Path) : Except FileFault Unit :=
  match files.node path with
  | .missing => .error .notFound
  | .file _ => .error .notDirectory
  | .directory => .ok ()

/-- The path that names lead to. All but the last must be directories. -/
def walk (files : Files) (path : Path) : List String → Except FileFault Path
  | [] => .ok path
  | name :: rest => do
    files.enter path
    if Path.nameLimit < name.utf8ByteSize then .error .nameTooLong
    else files.walk (path.step name) rest

theorem eq_foldl_of_walk {files : Files} {path target : Path} {names : List String}
    (h : files.walk path names = .ok target) : target = names.foldl Path.step path := by
  induction names generalizing path with
  | nil => cases h; rfl
  | cons name rest ih =>
    rw [walk] at h
    cases he : files.enter path with
    | error fault => rw [he] at h; cases h
    | ok u =>
      rw [he] at h
      by_cases hn : Path.nameLimit < name.utf8ByteSize
      · simp [hn, bind, Except.bind] at h
      · simp [hn, bind, Except.bind] at h
        exact ih h

def read (files : Files) (text : String) : Except FileFault (List UInt8) :=
  match Path.fault? text with
  | some fault => .error fault
  | none => do
    match files.node (← files.walk (Path.start text) (Path.names text)) with
    | .missing => .error .notFound
    | .directory => .error .isDirectory
    | .file bytes => if Path.namesDirectory text then .error .notDirectory else .ok bytes

def put (files : Files) (path : Path) (bytes : List UInt8) : Files :=
  ⟨files.entries.filter (fun entry => entry.1 != path) ++ [(path, bytes)]⟩

/-- Makes or replaces a file in a directory that is there. A slash behind its name is refused before
the name is looked up. -/
def write (files : Files) (text : String) (bytes : List UInt8) : Except FileFault Files :=
  match Path.fault? text with
  | some fault => .error fault
  | none => do
    let names := Path.names text
    if Path.namesDirectory text then
      files.enter (← files.walk (Path.start text) names.dropLast)
      .error .isDirectory
    else
      let path ← files.walk (Path.start text) names
      if files.node path = .directory then .error .isDirectory else .ok (files.put path bytes)

end Files
end Command
end Floorplan
