/-!
# Files

A tree of text files, and what comes of reading and writing a path in it. A path leads from
directory to directory; its components must be directories that exist, the last one apart.
-/

namespace Staging

/-- Why a file could not be read or written. The reasons are those that the system tells apart, as
they end up in the words of a complaint. -/
inductive FileError where
  | noEntry
  | notDirectory
  | isDirectory
  | nameTooLong
  /-- Any other reason, in words. -/
  | other (reason : String)
deriving DecidableEq, Repr

def FileError.message : FileError → String
  | .noEntry => "No such file or directory (os error 2)"
  | .notDirectory => "Not a directory (os error 20)"
  | .isDirectory => "Is a directory (os error 21)"
  | .nameTooLong => "File name too long (os error 36)"
  | .other reason => reason

/-- Somewhere to read texts from and to write them to. Commands are written against this class, and
so run on the disk of the system as well as on a tree in memory. -/
class Disk (m : Type → Type) where
  read : String → m (Except FileError String)
  write : String → String → m (Except FileError Unit)

/-- Files by the components of their paths, and the directory from which paths start that do not
start from the root. -/
structure FileTree where
  files : List (List String × String) := []
  current : List String := []

namespace FileTree

def file? (t : FileTree) (place : List String) : Option String := t.files.lookup place

/-- Is there a directory? The root, the current directory and all directories above a file exist. -/
def isDirectory (t : FileTree) (place : List String) : Bool :=
  place.isEmpty || place.isPrefixOf t.current ||
    t.files.any fun f => place.isPrefixOf f.1 && place.length < f.1.length

/-- Goes from a directory to one of its entries. What is entered must be a directory, because a
component of a path follows it. -/
def enter (t : FileTree) (place : List String) (name : String) :
    Except FileError (List String) :=
  if !t.isDirectory place then
    .error (if (t.file? place).isSome then .notDirectory else .noEntry)
  else if 255 < name.utf8ByteSize then .error .nameTooLong
  else if name == "" || name == "." then .ok place
  else if name == ".." then .ok place.dropLast
  else .ok (place ++ [name])

/-- The components of a path, and the directory it starts from. -/
def components (t : FileTree) (path : String) : List String × List String :=
  (if path.startsWith "/" then [] else t.current, path.splitOn "/")

/-- The place that a path leads to. There need not be anything at it: a file that is written may be
new. -/
def resolve (t : FileTree) (path : String) : Except FileError (List String) :=
  if path.isEmpty then .error .noEntry
  else if 4095 < path.utf8ByteSize then .error .nameTooLong
  else
    let (start, names) := t.components path
    names.foldlM t.enter start

def read (t : FileTree) (path : String) : Except FileError String := do
  let place ← t.resolve path
  match t.file? place with
  | some text => return text
  | none => .error (if t.isDirectory place then .isDirectory else .noEntry)

/-- The directory in which the last name of a path stands, slashes after that name left aside. -/
def parent (t : FileTree) (path : String) : Except FileError (List String) := do
  let (start, names) := t.components path
  let named := (names.reverse.dropWhile (· == "")).reverse
  let directory ← named.dropLast.foldlM t.enter start
  t.enter directory ""

/-- The tree with another text at a path. A path that ends in a slash asks for a directory, which
can not be written as a file whether it exists or not. -/
def write (t : FileTree) (path text : String) : Except FileError FileTree := do
  if path.isEmpty then .error .noEntry
  else if 4095 < path.utf8ByteSize then .error .nameTooLong
  else if path.endsWith "/" then do
    let _ ← t.parent path
    .error .isDirectory
  else
    let place ← t.resolve path
    if t.isDirectory place then .error .isDirectory
    else return { t with files := (place, text) :: t.files.filter fun f => f.1 != place }

instance : Disk (StateM FileTree) where
  read path := do return (← get).read path
  write path text := do
    match (← get).write path text with
    | .ok t =>
      set t
      return .ok ()
    | .error e => return .error e

end FileTree

end Staging
