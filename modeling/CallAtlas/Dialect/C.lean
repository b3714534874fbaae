import CallAtlas.Dialect
/-!
C. A struct with a body owns the functions after it, up to the next such struct. A
member call counts when the type of its receiver is known, a plain call when the
function is.
-/
namespace CallAtlas.Dialect.C

/-- `struct Name { ... }` sets the owner. -/
def sets (node : TextTree) : Option String :=
  if node.kind = "struct_specifier" ∧ (node.child? "body").isSome then node.childText? "name"
  else none

/-- From a declarator to the identifier it declares. -/
def identifier : Tree.Descent where
  goal := (· == "identifier")
  wrapper := fun _ => true
  into := some "declarator"
  orNamed := true

def function? (node : TextTree) : Option FunctionName :=
  if node.kind = "function_definition" then
    ((node.child? "declarator").bind (·.descend identifier)).map fun name =>
      ⟨.enclosing, name.text⟩
  else none

/-- The struct or type name that a declaration gives. -/
def typeText? (node : TextTree) : Option String :=
  match node.child? "type" with
  | some type =>
    if type.kind = "type_identifier" then some type.text
    else (type.children.find? (·.kind == "type_identifier")).map Tree.text
  | none => none

/-- A declaration or parameter binds its variables. A prototype declares none. -/
def declaration (node : TextTree) : List Site :=
  match typeText? node with
  | some type =>
    (node.childrenUnder "declarator").filterMap fun declarator =>
      if declarator.kind = "function_declarator" then none
      else (declarator.descend identifier).map fun name => .bind name.text type
  | none => []

def call (node : TextTree) : List Site :=
  match node.child? "function" with
  | some function =>
    if function.kind = "field_expression" then
      match function.childText? "argument", function.childText? "field" with
      | some receiver, some method => [.call (.member receiver method) false]
      | _, _ => []
    else if function.kind = "identifier" then [.call (.named function.text) true]
    else []
  | none => []

def sites (node : TextTree) : List Site :=
  if node.kind = "declaration" ∨ node.kind = "parameter_declaration" then declaration node
  else if node.kind = "call_expression" then call node
  else []

end CallAtlas.Dialect.C

namespace CallAtlas.Dialect

def c : Dialect where
  definitionScope := .flat C.sets
  function? := C.function?
  sites := C.sites

end CallAtlas.Dialect
