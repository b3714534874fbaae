import CallAtlas.FileSystem
/-!
Following a path to a location. Each name is looked up in the directory reached so far; a
symbolic link in the way is replaced by the steps of its target, at most forty times in
one path. What happens at the last name is for the operation to say.
-/
namespace CallAtlas.FileSystem

def maxName : Nat := 255

def maxPath : Nat := 4095

/-- The most symbolic links that one path may lead through. -/
def maxLinks : Nat := 40

/-- What to do at the last name of a path. -/
inductive LastStep where
  /-- Go where a link leads; the item has to be there. -/
  | follow
  /-- Stay at a link; the item has to be there. -/
  | keep
  /-- Go where a link leads; nothing need be there yet. What is to be made is no directory, so
  a slash after the name is refused before the name is looked up, also at the end of the
  target of a link. -/
  | create
  deriving DecidableEq, Repr

/-- Follows steps from a directory on. At a link the rest of the way is left to `onLink`. -/
def follow (fs : FileSystem) (last : LastStep)
    (onLink : Location → List Path.Step → Except OsError Location) :
    Location → List Path.Step → Except OsError Location
  | place, [] => .ok place
  | place, .stay :: rest => follow fs last onLink place rest
  | place, .slash :: rest => follow fs last onLink place rest
  | place, .up :: rest => follow fs last onLink place.dropLast rest
  | place, .enter name :: rest =>
    if rest = [.slash] ∧ last = .create then .error .isDirectory
    else if maxName < name.utf8ByteSize then .error .nameTooLong
    else match fs.item? (place ++ [name]) with
      | none =>
        if rest = [] ∧ last = .create then .ok (place ++ [name]) else .error .notFound
      | some .directory => follow fs last onLink (place ++ [name]) rest
      | some (.file _) => if rest = [] then .ok (place ++ [name]) else .error .notDirectory
      | some (.link target) =>
        if rest = [] ∧ last = .keep then .ok (place ++ [name])
        else onLink (if Path.isAbsolute target then [] else place) (Path.steps target ++ rest)

/-- Follows steps through at most `links` symbolic links. -/
def followLinks (fs : FileSystem) (last : LastStep) :
    (links : Nat) → Location → List Path.Step → Except OsError Location
  | 0 => follow fs last fun _ _ => .error .tooManyLinks
  | links + 1 => follow fs last (followLinks fs last links)

/-- What is wrong with a path whatever is in the file system. -/
def pathError? (path : String) : Option OsError :=
  if path.toList.contains (Char.ofNat 0) then some .nulCharacter
  else if path = "" then some .notFound
  else if maxPath < path.utf8ByteSize then some .nameTooLong
  else none

/-- Where paths of this form start. -/
def startOf (fs : FileSystem) (path : String) : Location :=
  if Path.isAbsolute path then [] else fs.workingDirectory

def locate (fs : FileSystem) (path : String) (last : LastStep := .follow) :
    Except OsError Location :=
  match pathError? path with
  | some cause => .error cause
  | none => followLinks fs last maxLinks (fs.startOf path) (Path.steps path)

def stat (fs : FileSystem) (path : String) : Except OsError Item :=
  match fs.locate path with
  | .error cause => .error cause
  | .ok location =>
    match fs.item? location with
    | some item => .ok item
    | none => .error .notFound

def isThere (fs : FileSystem) (path : String) : Bool :=
  match fs.stat path with
  | .ok _ => true
  | .error _ => false

def isDirectory (fs : FileSystem) (path : String) : Bool :=
  match fs.stat path with
  | .ok .directory => true
  | _ => false

def isFile (fs : FileSystem) (path : String) : Bool :=
  match fs.stat path with
  | .ok (.file _) => true
  | _ => false

def read (fs : FileSystem) (path : String) : Except OsError File :=
  match fs.stat path with
  | .ok (.file file) => .ok file
  | .ok .directory => .error .isDirectory
  | .ok (.link _) => .error .tooManyLinks
  | .error cause => .error cause

end CallAtlas.FileSystem
