import Overlay.KeyedMap

/-!
Files by path. A command sees them through `Files`, which says how a file is read and written; the
file tree is the model of a directory in which nothing else happens.
-/

namespace Overlay

/-- Why a file cannot be opened. -/
inductive FileError
  | notFound
  | notADirectory
  | isADirectory
  | nameTooLong
  /-- A path cannot hold the character with number 0. -/
  | nulInPath
  /-- Any other reason, in the system's words. -/
  | other (message : String)
deriving DecidableEq

def FileError.message : FileError → String
  | .notFound => "No such file or directory (os error 2)"
  | .notADirectory => "Not a directory (os error 20)"
  | .isADirectory => "Is a directory (os error 21)"
  | .nameTooLong => "File name too long (os error 36)"
  | .nulInPath => "file name contained an unexpected NUL byte"
  | .other message => message

/-- How files are read and written. -/
structure Files (m : Type → Type) where
  /-- What stands in a file; `none` inside if it can be opened but holds no text, as a directory. -/
  read : (path : String) → m (Except FileError (Option String))
  /-- Replaces what stands in a file, which is created if there is none. -/
  write : (path text : String) → m (Except FileError Unit)

/-- The files of a directory by their path in it. A directory exists if a file stands in it. -/
structure FileTree where
  content : KeyedMap String String

namespace FileTree

/-- What a path leads to, with the path written without detours. -/
inductive Place
  | file (path : String)
  | directory
  | missing (path : String)
  /-- Its last name is longer than any file's. -/
  | unnamable

/-- The path whose names are listed last first. -/
def join (names : List String) : String :=
  "/".intercalate names.reverse

/-- The longest name of a file in bytes. -/
def longestName : Nat :=
  255

/-- The longest path in bytes. -/
def longestPath : Nat :=
  4095

/-- What stands at a path without detours. -/
def placeAt (t : FileTree) (names : List String) : Place :=
  let path := join names
  if names = [] then .directory
  else if names.head?.any fun n => longestName < n.utf8ByteSize then .unnamable
  else if t.content.contains path then .file path
  else if t.content.keys.any fun k => (path ++ "/").toList.isPrefixOf k.toList then .directory
  else .missing path

/-- Follows a path outside of the tree, where there are directories above but nothing in them. -/
def outside (names : List String) : Except FileError Place :=
  if names.all fun n => n = "." || n = ".." then .ok .directory else .error .notFound

/-- Follows a path by name; `here` is the directory reached so far. -/
def follow (t : FileTree) (here : List String) : List String → Except FileError Place
  | [] => .ok (t.placeAt here)
  | name :: rest =>
    match t.placeAt here with
    | .missing _ => .error .notFound
    | .file _ => .error .notADirectory
    | .unnamable => .error .nameTooLong
    | .directory =>
      if name = "." then follow t here rest
      else if name = ".." then
        match here with
        | [] => outside rest
        | _ :: above => follow t above rest
      else follow t (name :: here) rest

/-- What a path leads to. -/
def find (t : FileTree) (path : String) : Except FileError Place :=
  let names := (path.toList.splitOn '/').map String.ofList
  let steps := names.filter fun n => n ≠ ""
  if path = "" then .error .notFound
  else if path.toList.contains '\x00' then .error .nulInPath
  else if longestPath < path.utf8ByteSize then .error .nameTooLong
  else if names.head? = some "" then outside steps
  else t.follow [] steps

/-- The path is written as that of a directory. -/
def asDirectory (path : String) : Bool :=
  path.toList.getLast? = some '/'

def read (t : FileTree) (path : String) : Except FileError (Option String) := do
  match ← t.find path with
  | .file name => if asDirectory path then throw .notADirectory else return t.content.get? name
  | .directory => return none
  | .missing _ => throw .notFound
  | .unnamable => throw .nameTooLong

/-- Writing creates what is missing, but never a directory. -/
def write (t : FileTree) (path text : String) : Except FileError FileTree := do
  let place ← t.find path
  if asDirectory path then throw .isADirectory
  match place with
  | .file name | .missing name => return ⟨t.content.insert name text⟩
  | .directory => throw .isADirectory
  | .unnamable => throw .nameTooLong

/-- Reading and writing in a file tree that is kept as state. -/
def access : Files (StateM FileTree) where
  read path t := (t.read path, t)
  write path text t :=
    match t.write path text with
    | .ok t => (.ok (), t)
    | .error e => (.error e, t)

/-- The files of `after` that `before` does not have, or has with another text. -/
def changes (before after : FileTree) : List (String × String) :=
  after.content.entries.filter fun (path, text) => before.content.get? path ≠ some text

end FileTree

end Overlay
