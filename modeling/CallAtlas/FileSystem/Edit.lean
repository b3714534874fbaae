import CallAtlas.FileSystem.Lookup
/-!
Changing a file system: making directories and links, writing and removing files.

Apart from what paths and items rule out, the device may refuse. It may refuse to make a directory,
and it may refuse any of the steps in which a file is written; what had arrived in the file by then
stays there. When it does so is given from outside. Taking a file away is not refused, and there
are no permissions.
-/
namespace CallAtlas

/-- The steps in which a file is written. -/
inductive WriteStep where
  | creating
  | filling
  | flushing
  deriving DecidableEq, Repr

/-- The step at which the writing of a file stopped, and why. -/
structure Refusal where
  step : WriteStep
  cause : OsError
  deriving DecidableEq, Repr

/-- A refusal by the device, and how many bytes of the file had arrived by then. -/
structure Fault extends Refusal where
  arrived : Nat
  deriving DecidableEq, Repr

namespace FileSystem

/-- The directory in which the last name of a path is to be looked up. -/
def holder (fs : FileSystem) (path : String) : Except OsError Location :=
  match pathError? path with
  | some cause => .error cause
  | none =>
    followLinks fs .follow maxLinks (fs.startOf path)
      ((Path.names path).dropLast.map Path.Step.ofName ++ [.slash])

/-- The location for something new, where nothing may stand, not even a link. -/
def newLocation (fs : FileSystem) (path : String) : Except OsError Location :=
  match fs.holder path with
  | .error cause => .error cause
  | .ok place =>
    match (Path.names path).getLast? with
    | none => .error .alreadyExists
    | some name =>
      if name = "." ∨ name = ".." then .error .alreadyExists
      else if maxName < name.utf8ByteSize then .error .nameTooLong
      else match fs.item? (place ++ [name]) with
        | some _ => .error .alreadyExists
        | none => .ok (place ++ [name])

/-- What the device says to each directory that it is to make. -/
abbrev DirectoryFaults := String → Option OsError

def makeDirectory (fs : FileSystem) (path : String) (faults : DirectoryFaults := fun _ => none) :
    Except OsError FileSystem :=
  match fs.newLocation path, faults path with
  | .error cause, _ => .error cause
  | .ok _, some cause => .error cause
  | .ok location, none => .ok (fs.put location .directory)

/-- Makes a symbolic link. Its target has to be writable as a path, whether or not anything is
there. A link is no directory, so a slash after its name leads nowhere. -/
def makeLink (fs : FileSystem) (path target : String) : Except OsError FileSystem :=
  match pathError? target with
  | some cause => .error cause
  | none =>
    match fs.newLocation path with
    | .error cause => .error cause
    | .ok location =>
      if Path.asksDirectory path then .error .notFound
      else .ok (fs.put location (.link target))

/-- Makes a directory after those that lead to it. A directory that is there already will do.
On failure, what was made on the way stays. -/
def makeDirectoriesUp (fs : FileSystem) (faults : DirectoryFaults) :
    List String → FileSystem × Except OsError Unit
  | [] => (fs, .ok ())
  | path :: above =>
    match fs.makeDirectory path faults with
    | .ok made => (made, .ok ())
    | .error .notFound =>
      match fs.makeDirectoriesUp faults above with
      | (reached, .error cause) => (reached, .error cause)
      | (reached, .ok ()) =>
        match reached.makeDirectory path faults with
        | .ok made => (made, .ok ())
        | .error cause =>
          if reached.isDirectory path then (reached, .ok ()) else (reached, .error cause)
    | .error cause => if fs.isDirectory path then (fs, .ok ()) else (fs, .error cause)

/-- Makes a directory and those that lead to it, where they are missing. The empty path means
the place where paths start, which is there. -/
def makeDirectories (fs : FileSystem) (path : String) (faults : DirectoryFaults := fun _ => none) :
    FileSystem × Except OsError Unit :=
  if path = "" then (fs, .ok ()) else fs.makeDirectoriesUp faults (path :: Path.parents path)

/-- The location that a file written to `path` goes to. -/
def fileLocation (fs : FileSystem) (path : String) : Except OsError Location :=
  match fs.locate path .create with
  | .error cause => .error cause
  | .ok location =>
    match fs.item? location with
    | some .directory => .error .isDirectory
    | _ => .ok location

/-- Writes a file, in place of one that is there. Once it is made it stays, with the bytes that
arrive. -/
def write (fs : FileSystem) (path : String) (file : File) (fault : Option Fault := none) :
    FileSystem × Except Refusal Unit :=
  match fs.fileLocation path, fault with
  | .error cause, _ => (fs, .error ⟨.creating, cause⟩)
  | .ok location, none => (fs.put location (.file file), .ok ())
  | .ok location, some fault =>
    if fault.step = .creating then (fs, .error fault.toRefusal)
    else (fs.put location (.file { file with bytes := file.bytes.take fault.arrived }),
      .error fault.toRefusal)

/-- Takes a path out of its directory. A link is taken away itself, not what it leads to. -/
def remove (fs : FileSystem) (path : String) : Except OsError FileSystem :=
  match fs.locate path .keep with
  | .error cause => .error cause
  | .ok location =>
    match fs.item? location with
    | some .directory => .error .isDirectory
    | _ => .ok (fs.erase location)

end FileSystem

end CallAtlas
