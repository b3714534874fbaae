import CallAtlas.Text.Cut
/-!
Paths as they are written: names divided by slashes. A name `.` stays where it is, `..`
goes up, and slashes may be repeated. A slash at the end asks for a directory.
-/
namespace CallAtlas.Path

def isAbsolute (path : String) : Bool :=
  path.toList.head? == some '/'

/-- Whether a path ends in a slash. -/
def asksDirectory (path : String) : Bool :=
  path.toList.getLast? == some '/'

/-- The names in a path, `.` and `..` among them. -/
def names (path : String) : List String :=
  (Text.split '/' path).filter (· != "")

inductive Step where
  /-- A name `.`, which stays in the directory reached so far. -/
  | stay
  /-- A name `..`, which goes up. -/
  | up
  /-- Any other name, which is looked up. -/
  | enter (name : String)
  /-- A slash at the end: what was reached has to be a directory. -/
  | slash
  deriving DecidableEq, Repr

def Step.ofName (name : String) : Step :=
  if name = "." then stay else if name = ".." then up else enter name

def steps (path : String) : List Step :=
  (names path).map Step.ofName ++ if asksDirectory path then [.slash] else []

/-- `relative`, taken from `base` on. -/
def join (base relative : String) : String :=
  if isAbsolute relative || base == "" then relative
  else if asksDirectory base then base ++ relative
  else base ++ "/" ++ relative

/-- The names in a path that lead somewhere. -/
def components (path : String) : List String :=
  (names path).filter (· != ".")

/-- A path taken apart: the top for an absolute path, `.` for one that starts with it, and then the
names that lead somewhere. -/
def parts (path : String) : List String :=
  (if isAbsolute path then ["/"] else if (names path).head? == some "." then ["."] else []) ++
    components path

/-- `path` as it is written from `base` on; nothing if it is `base` itself or does not start so. -/
def relative? (base path : String) : Option String :=
  match (parts base).isPrefixOf? (parts path) with
  | none | some [] => none
  | some rest => some (Text.join "/" rest)

/-- The path with the given components, from the same starting point as `path`. -/
def ofComponents (path : String) (components : List String) : String :=
  (if isAbsolute path then "/" else "") ++ Text.join "/" components

/-- The paths of the directories that lead to `path`, nearest first. -/
def parents (path : String) : List String :=
  let upTo := components path
  ((List.range upTo.length).drop 1).reverse.map fun count =>
    ofComponents path (upTo.take count)

/-- The directory that `path` is in; empty if that is where paths start. -/
def parent (path : String) : String :=
  (parents path).headD ""

/-- The name that a path ends in. A path that ends by going up has none. -/
def fileName? (path : String) : Option String :=
  match (components path).getLast? with
  | some name => if name = ".." then none else some name
  | none => none

/-- The extension of a file name: what follows its last dot, unless that dot comes first. -/
def nameExtension? (name : String) : Option String :=
  match Text.cutLast? "." name with
  | some (stem, extension) => if stem = "" then none else some extension
  | none => none

end CallAtlas.Path
