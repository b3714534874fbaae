import CallAtlas.Dialect
/-!
Java. Classes, interfaces and enums own methods. A local variable has the type its
declaration or a constructor call gives it. A call without a receiver goes to a method
of the enclosing type if it has one of that name.
-/
namespace CallAtlas.Dialect.Java

def isOwnerKind (kind : String) : Bool :=
  kind == "class_declaration" || kind == "interface_declaration" || kind == "enum_declaration"

def opens (node : TextTree) : Option (Option String) :=
  if isOwnerKind node.kind then some (node.childText? "name") else none

def function? (node : TextTree) : Option FunctionName :=
  if node.kind = "method_declaration" then
    (node.childText? "name").map fun name => ⟨.enclosing, name⟩
  else none

/-- From a type down to its name, past type arguments. -/
def typeName : Tree.Descent where
  goal := fun kind => kind == "type_identifier" || kind == "scoped_type_identifier"
  wrapper := (· == "generic_type")
  into := none
  orNamed := true

def typeText? (node : TextTree) : Option String :=
  (node.descend typeName).map Tree.text

def created? (node : TextTree) : Option String :=
  if node.kind = "object_creation_expression" then (node.child? "type").bind typeText? else none

/-- `x = new T(...)` binds `x` to `T`. -/
def assignment (node : TextTree) : List Site :=
  match node.child? "left", node.child? "right" with
  | some left, some right =>
    match created? right with
    | some type => [.bind left.text type]
    | none => []
  | _, _ => []

/-- One variable of a declaration: bound to what is made for it, otherwise to the declared type. -/
def declarator? (declared : Option String) (node : TextTree) : Option Site :=
  match node.childText? "name" with
  | some name =>
    (((node.child? "value").bind created?) <|> declared).map fun type => .bind name type
  | none => none

/-- `T x = ...;` binds every variable it declares. -/
def declaration (node : TextTree) : List Site :=
  let declared := (node.child? "type").bind typeText?
  (node.childrenUnder "declarator").filterMap (declarator? declared)

/-- Receiver and method of a call in which no child is marked as the object: identifiers are
read in turn, the last being the method and the one before it the receiver. -/
def unmarked : Option String × Option String → List TextTree → Option String × Option String
  | found, [] => found
  | (receiver, method), child :: rest =>
    if child.kind = "identifier" then unmarked (method <|> receiver, some child.text) rest
    else if child.kind = "field_access" then unmarked (some child.text, method) rest
    else unmarked (receiver, method) rest

def receiverAndMethod (node : TextTree) : Option String × Option String :=
  match node.child? "object" with
  | some object => (some object.text, node.childText? "name")
  | none => unmarked (none, none) node.children

def invocation (node : TextTree) : List Site :=
  match receiverAndMethod node with
  | (some receiver, some method) => [.call (.member receiver method) false]
  | (none, some method) => [.call (.plain method) false]
  | (_, none) => []

def sites (node : TextTree) : List Site :=
  if node.kind = "assignment_expression" then assignment node
  else if node.kind = "local_variable_declaration" then declaration node
  else if node.kind = "method_invocation" then invocation node
  else []

end CallAtlas.Dialect.Java

namespace CallAtlas.Dialect

def java : Dialect where
  definitionScope := .lexical Java.opens
  function? := Java.function?
  sites := Java.sites
  selfWord := some "this"
  literalReceivers := true

end CallAtlas.Dialect
