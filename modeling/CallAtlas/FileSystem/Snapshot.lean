import CallAtlas.FileSystem.Edit
import CallAtlas.Json
import CallAtlas.Text.Bytes
/-!
File systems given as a list of entries, and told as one. An entry is a path and what to put
there: a source with its syntax tree, a directory, or a link. Entries are laid in order, each after
the directories that lead to it.

In the list of what is below a directory a link counts as what it leads to, so what is below a link
to a directory is listed under the link. A link back up is gone through again, until the path to it
leads through too many links to be a directory any more.
-/
namespace CallAtlas

structure Entry where
  path : String
  item : Item
  deriving Repr

/-- A row of a tree: depth, kind, field or null, start, stop, and one for a named node. -/
def Tree.Row.ofJson? : Json → Option Tree.Row
  | .array [depth, .string kind, field, start, stop, named] => do
    return {
      depth := ← depth.natural?
      kind
      field := match field with | .string name => some name | _ => none
      span := ⟨← start.natural?, ← stop.natural?⟩
      named := named.natural? = some 1 }
  | _ => none

namespace Entry

/-- The bytes of a source, given as text or as hexadecimal digits. -/
def bytesOfJson (value : Json) : List UInt8 :=
  match value.textMember? "hex" with
  | some digits => (Text.Hex.bytes? digits.toList).getD []
  | none => ((value.textMember? "source").getD "").toUTF8.toList

def rowsOfJson (value : Json) : List Tree.Row :=
  match value.member? "tree" with
  | some (.array rows) => rows.filterMap Tree.Row.ofJson?
  | _ => []

/-- An entry written as an object: it has a path, and is a link, a directory or a source. -/
def ofJson? (value : Json) : Option Entry :=
  (value.textMember? "path").map fun path =>
    match value.textMember? "symlink", value.member? "dir" with
    | some target, _ => ⟨path, .link target⟩
    | none, some (.bool true) => ⟨path, .directory⟩
    | none, _ => ⟨path, .file ⟨bytesOfJson value, .ofRows (rowsOfJson value)⟩⟩

end Entry

namespace FileSystem

/-- Puts an entry in place. One that cannot be put there is left out. -/
def lay (fs : FileSystem) (entry : Entry) : FileSystem :=
  match entry.item with
  | .directory => (fs.makeDirectories entry.path).1
  | .link target =>
    let (reached, _) := fs.makeDirectories (Path.parent entry.path)
    (reached.makeLink entry.path target).toOption.getD reached
  | .file file =>
    let (reached, _) := fs.makeDirectories (Path.parent entry.path)
    (reached.write entry.path file).1

def layAll (fs : FileSystem) (entries : List Entry) : FileSystem :=
  entries.foldl lay fs

/-- What is below the directory that a path leads to, down to some number of levels. -/
def contentsWithin (fs : FileSystem) : (levels : Nat) → (path : String) → List String
  | 0, _ => []
  | levels + 1, path =>
    match fs.locate path with
    | .error _ => []
    | .ok location =>
      (fs.listing location).flatMap fun (name, _) =>
        let entry := Path.join path name
        if fs.isDirectory entry then
          (name ++ "/") :: (fs.contentsWithin levels entry).map (name ++ "/" ++ ·)
        else [name]

/-- What is below the directory that a path leads to: paths relative to it, with a slash after
those of directories. Each level makes the path longer, and a path that is too long leads
nowhere, so there are no more levels than a path may have bytes. -/
def contents (fs : FileSystem) (path : String) : List String :=
  fs.contentsWithin (maxPath + 1) path

end FileSystem

end CallAtlas
