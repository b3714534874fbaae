import CallAtlas.FileSystem.Path
import CallAtlas.Text.Order
import CallAtlas.Tree.Rows
/-!
A file system as a value: which items stand at which locations. A location is the list
of names that leads to it from the top directory, which is always there. Source files
carry the syntax tree that a parser finds in them, so that reading a file gives both.

There are regular files, directories and symbolic links, without permissions, times or second
names, and nobody else writes to them.
-/
namespace CallAtlas

/-- What the system answers when an operation cannot be done. -/
inductive OsError where
  | notFound
  | alreadyExists
  | notDirectory
  | isDirectory
  | nameTooLong
  | tooManyLinks
  /-- A path with a NUL character is refused before it is looked at. -/
  | nulCharacter
  /-- What the device answers, in its own words: it is full, worn out or not to be written to. -/
  | device (text : String)
  deriving DecidableEq, Repr

def OsError.message : OsError → String
  | notFound => "No such file or directory (os error 2)"
  | alreadyExists => "File exists (os error 17)"
  | notDirectory => "Not a directory (os error 20)"
  | isDirectory => "Is a directory (os error 21)"
  | nameTooLong => "File name too long (os error 36)"
  | tooManyLinks => "Too many levels of symbolic links (os error 40)"
  | nulCharacter => "file name contained an unexpected NUL byte"
  | device text => text

/-- The names that lead to a place from the top directory. -/
abbrev Location := List String

/-- A regular file: its bytes, and the syntax tree of the text they spell. -/
structure File where
  bytes : List UInt8
  tree : Tree Text.Span := .blank
  deriving Repr

inductive Item where
  | file (file : File)
  | directory
  /-- A symbolic link with the path it leads to. -/
  | link (target : String)
  deriving Repr

/-- Items by location. The top directory is not listed. -/
structure FileSystem where
  items : List (Location × Item) := []
  /-- Where relative paths start. -/
  workingDirectory : Location := []
  deriving Repr

namespace FileSystem

def item? (fs : FileSystem) (location : Location) : Option Item :=
  if location = [] then some .directory else fs.items.lookup location

/-- Puts an item at a location, in place of what is there. -/
def put (fs : FileSystem) (location : Location) (item : Item) : FileSystem :=
  if fs.items.any (·.1 == location) then
    { fs with items := fs.items.map fun entry =>
        if entry.1 = location then (location, item) else entry }
  else { fs with items := fs.items ++ [(location, item)] }

def erase (fs : FileSystem) (location : Location) : FileSystem :=
  { fs with items := fs.items.filter fun entry => entry.1 != location }

def listing (fs : FileSystem) (location : Location) : List (String × Item) :=
  (fs.items.filterMap fun (place, item) =>
    if place.dropLast = location then place.getLast?.map (·, item) else none).mergeSort
      fun a b => Text.noLater a.1 b.1

def directories (fs : FileSystem) : List Location :=
  [] :: fs.items.filterMap fun
    | (location, .directory) => some location
    | _ => none

end FileSystem

end CallAtlas
