import CallAtlas.SymbolTable
import CallAtlas.Tree
/-!
How the trees of a language are read. A dialect says what each node means on its own:
whether it opens the scope of an owner, whether it names a function, which variables it
binds and what it calls. The two passes interpret that in document order. The owner in
force at a node comes from the scoping rule; the caller is the function that was
entered last, whether or not the call stands inside it; a variable has the type it was
bound to last, anywhere in the file.

Trees are given. Nothing is parsed here, and no grammar is assumed: a dialect reads whatever
nodes there are, those of a source with mistakes in it as well.
-/
namespace CallAtlas

/-- How the owner in force at a node is found. -/
inductive Scoping where
  /-- A node may open a scope for the nodes below it. The owner of that scope may be without
  a name, and then there is none in force. -/
  | lexical (opens : TextTree → Option (Option String))
  /-- A node may set the owner for everything after it. -/
  | flat (sets : TextTree → Option String)

/-- A node, and the owner in force where it stands. -/
structure Visit where
  owner : Option String
  node : TextTree

namespace Scoping

mutual

/-- The visits of a tree under lexical scoping, in document order. -/
def lexicalVisits (opens : TextTree → Option (Option String)) (owner : Option String) :
    TextTree → List Visit
  | .node kind field named label children =>
    let here : TextTree := .node kind field named label children
    ⟨owner, here⟩ :: lexicalVisitsAll opens ((opens here).getD owner) children

def lexicalVisitsAll (opens : TextTree → Option (Option String)) (owner : Option String) :
    List TextTree → List Visit
  | [] => []
  | tree :: rest => lexicalVisits opens owner tree ++ lexicalVisitsAll opens owner rest

end

/-- The visits of nodes in turn, when a node sets the owner for those after it. -/
def flatVisits (sets : TextTree → Option String) (owner : Option String) :
    List TextTree → List Visit
  | [] => []
  | node :: rest => ⟨owner, node⟩ :: flatVisits sets (sets node <|> owner) rest

/-- Every node of a tree with the owner in force there, in document order. -/
def visits (scoping : Scoping) (tree : TextTree) : List Visit :=
  match scoping with
  | lexical opens => lexicalVisits opens none tree
  | flat sets => flatVisits sets none tree.preorder

end Scoping

inductive Placement where
  /-- To the owner in force. -/
  | enclosing
  /-- To nobody. -/
  | free
  /-- To the owner it is written with. -/
  | under (owner : String)
  deriving DecidableEq, Repr

/-- What a node calls the function it introduces. -/
structure FunctionName where
  placement : Placement
  name : String
  deriving DecidableEq, Repr

def FunctionName.owner (function : FunctionName) (scope : Option String) : Option String :=
  match function.placement with
  | .enclosing => scope
  | .free => none
  | .under owner => some owner

def FunctionName.id (function : FunctionName) (scope : Option String) : String :=
  qualify (function.owner scope) function.name

def FunctionName.definition (function : FunctionName) (scope : Option String) (file : String) :
    Definition :=
  .ofName function.name (function.owner scope) file

/-- How a call names what it calls. -/
inductive Callee where
  /-- A member of the owner in force if there is one of that name, otherwise the name itself. -/
  | plain (name : String)
  /-- Exactly this qualified name. -/
  | named (id : String)
  /-- A method of what a receiver stands for. -/
  | member (receiver method : String)
  /-- A method of the owner in force. -/
  | ownMember (method : String)
  /-- The method that a variable holds. -/
  | held (name : String)
  deriving DecidableEq, Repr

/-- What a node does to the variables, and what it calls. -/
inductive Site where
  /-- A variable gets a type. -/
  | bind (name type : String)
  /-- A variable gets a method of what a receiver stands for at this place. -/
  | hold (name receiver method : String)
  /-- A call; if `knownOnly`, it counts only when the callee is defined. -/
  | call (callee : Callee) (knownOnly : Bool)
  deriving DecidableEq, Repr

/-- How the trees of a language are read. -/
structure Dialect where
  /-- The owner in force, for naming definitions. -/
  definitionScope : Scoping
  /-- The owner in force, for resolving calls. -/
  callScope : Scoping := definitionScope
  /-- The function that a node introduces. -/
  function? : TextTree → Option FunctionName
  /-- What a node binds and calls, in order. -/
  sites : TextTree → List Site
  /-- The receiver that stands for the owner in force. -/
  selfWord : Option String := none
  /-- Whether a receiver of unknown type is taken for the name of one. -/
  literalReceivers : Bool := false
  /-- Whether a variable only takes a type that owns a definition. -/
  bindsOwnersOnly : Bool := false

namespace Dialect

/-- The functions a file defines, in document order. -/
def definitions (dialect : Dialect) (tree : TextTree) (file : String) : List Definition :=
  (dialect.definitionScope.visits tree).filterMap fun visit =>
    (dialect.function? visit.node).map (·.definition visit.owner file)

/-- What the call pass knows at a place in a file. -/
structure CallState where
  /-- The function entered last. -/
  caller : Option String := none
  /-- The types of variables, latest first. -/
  types : List (String × String) := []
  /-- The methods that variables hold, latest first. -/
  held : List (String × String) := []
  /-- The calls found so far. -/
  calls : Array Call := #[]
  deriving Repr

/-- What a receiver stands for: the owner in force, or the type its variable got last. -/
def receiverType? (dialect : Dialect) (owner : Option String) (types : List (String × String))
    (receiver : String) : Option String :=
  if dialect.selfWord = some receiver then owner else types.lookup receiver

/-- The qualified name of what a call names, if it can be told. -/
def resolve? (dialect : Dialect) (known : Knowledge) (owner : Option String)
    (state : CallState) : Callee → Option String
  | .plain name =>
    match owner with
    | some owner =>
      let member := qualify (some owner) name
      some (if known.defines member then member else name)
    | none => some name
  | .named id => some id
  | .member receiver method =>
    match dialect.receiverType? owner state.types receiver with
    | some type => some (qualify (some type) method)
    | none => if dialect.literalReceivers then some (qualify (some receiver) method) else none
  | .ownMember method => owner.map fun owner => qualify (some owner) method
  | .held name => state.held.lookup name

/-- Adds a call from the function entered last. Outside any function there is no caller, and
a function's call to itself is left out. -/
def CallState.record (state : CallState) (callee : String) : CallState :=
  match state.caller with
  | some caller =>
    if caller = callee then state else { state with calls := state.calls.push ⟨caller, callee⟩ }
  | none => state

def siteStep (dialect : Dialect) (known : Knowledge) (owner : Option String)
    (state : CallState) : Site → CallState
  | .bind name type =>
    if dialect.bindsOwnersOnly && !known.owns type then state
    else { state with types := (name, type) :: state.types }
  | .hold name receiver method =>
    match dialect.receiverType? owner state.types receiver with
    | some type => { state with held := (name, qualify (some type) method) :: state.held }
    | none => state
  | .call callee knownOnly =>
    match dialect.resolve? known owner state callee with
    | some id => if knownOnly && !known.defines id then state else state.record id
    | none => state

/-- Takes note of one node: first the function it introduces, then its sites. -/
def callStep (dialect : Dialect) (known : Knowledge) (state : CallState) (visit : Visit) :
    CallState :=
  let entered :=
    match dialect.function? visit.node with
    | some function => { state with caller := some (function.id visit.owner) }
    | none => state
  (dialect.sites visit.node).foldl (dialect.siteStep known visit.owner) entered

/-- The calls of a file, given what is defined in all of them, in document order. -/
def calls (dialect : Dialect) (known : Knowledge) (tree : TextTree) : List Call :=
  ((dialect.callScope.visits tree).foldl (dialect.callStep known) {}).calls.toList

end Dialect

end CallAtlas
