import CallAtlas.Dialect
import CallAtlas.Text.Cut
/-!
PHP. Classes and interfaces own their functions. After `$f = $obj->run`, the variable
`$f` holds the method that `$obj` had then, and `$f()` calls it. Every call counts only
when the callee is defined.
-/
namespace CallAtlas.Dialect.Php

def opens (node : TextTree) : Option (Option String) :=
  if node.kind = "class_declaration" ∨ node.kind = "interface_declaration" then
    some (node.childText? "name")
  else none

def function? (node : TextTree) : Option FunctionName :=
  if node.kind = "function_definition" ∨ node.kind = "method_declaration" then
    (node.childText? "name").map fun name => ⟨.enclosing, name⟩
  else none

/-- A name without its namespace. -/
def shortName (name : String) : String :=
  Text.lastSegment "\\" name

def isNameKind (kind : String) : Bool :=
  kind == "name" || kind == "qualified_name"

/-- The class that `new T(...)` makes: the last name among the children. -/
def created? (node : TextTree) : Option String :=
  (node.children.reverse.find? fun child => isNameKind child.kind).map fun name =>
    shortName name.text

def assignment (node : TextTree) : List Site :=
  match node.child? "left", node.child? "right" with
  | some left, some right =>
    if right.kind = "object_creation_expression" then
      match created? right with
      | some type => [.bind left.text type]
      | none => []
    else if right.kind = "member_access_expression" ∨ right.kind = "member_call_expression" then
      match right.childText? "object", right.childText? "name" with
      | some object, some method => [.hold left.text object method]
      | _, _ => []
    else []
  | _, _ => []

def functionCall (node : TextTree) : List Site :=
  match node.child? "function" with
  | some function =>
    if function.kind = "variable_name" then [.call (.held function.text) true]
    else if isNameKind function.kind then [.call (.named (shortName function.text)) true]
    else []
  | none => []

def memberCall (node : TextTree) : List Site :=
  match node.childText? "object", node.childText? "name" with
  | some object, some method => [.call (.member object method) true]
  | _, _ => []

/-- `self::m()`, `static::m()` and `Type::m()`. -/
def scopedCall (node : TextTree) : List Site :=
  match node.childText? "scope", node.childText? "name" with
  | some scope, some method =>
    if scope = "self" ∨ scope = "static" then [.call (.ownMember method) true]
    else [.call (.named (qualify (some (shortName scope)) method)) true]
  | _, _ => []

def sites (node : TextTree) : List Site :=
  if node.kind = "assignment_expression" then assignment node
  else if node.kind = "function_call_expression" then functionCall node
  else if node.kind = "member_call_expression" then memberCall node
  else if node.kind = "scoped_call_expression" then scopedCall node
  else []

end CallAtlas.Dialect.Php

namespace CallAtlas.Dialect

def php : Dialect where
  definitionScope := .lexical Php.opens
  function? := Php.function?
  sites := Php.sites
  selfWord := some "$this"

end CallAtlas.Dialect
