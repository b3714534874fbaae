import CallAtlas.Dialect
/-!
JavaScript. Classes own their methods; function declarations belong to nobody. A
variable that is given `new T()` has the type `T`.
-/
namespace CallAtlas.Dialect.JavaScript

def opens (node : TextTree) : Option (Option String) :=
  if node.kind = "class_declaration" then some (node.childText? "name") else none

def function? (node : TextTree) : Option FunctionName :=
  if node.kind = "method_definition" then
    (node.childText? "name").map fun name => ⟨.enclosing, name⟩
  else if node.kind = "function_declaration" then
    (node.childText? "name").map fun name => ⟨.free, name⟩
  else none

/-- `x = new T(...)` binds `x` to `T`. -/
def binding (target value : TextTree) : List Site :=
  if target.kind = "identifier" ∧ value.kind = "new_expression" then
    match value.child? "constructor" <|> value.firstNamed? with
    | some constructor => [.bind target.text constructor.text]
    | none => []
  else []

/-- The binding made by a node that holds target and value under two fields. -/
def bindingUnder (node : TextTree) (target value : String) : List Site :=
  match node.child? target, node.child? value with
  | some target, some value => binding target value
  | _, _ => []

def call (node : TextTree) : List Site :=
  match node.child? "function" with
  | some function =>
    if function.kind = "member_expression" then
      match function.childText? "object", function.childText? "property" with
      | some object, some property => [.call (.member object property) false]
      | _, _ => []
    else if function.text = "" then []
    else [.call (.named function.text) false]
  | none => []

def sites (node : TextTree) : List Site :=
  if node.kind = "variable_declarator" then bindingUnder node "name" "value"
  else if node.kind = "assignment_expression" then bindingUnder node "left" "right"
  else if node.kind = "call_expression" then call node
  else []

end CallAtlas.Dialect.JavaScript

namespace CallAtlas.Dialect

def javaScript : Dialect where
  definitionScope := .lexical JavaScript.opens
  function? := JavaScript.function?
  sites := JavaScript.sites
  selfWord := some "this"
  literalReceivers := true

end CallAtlas.Dialect
