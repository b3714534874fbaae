import CallAtlas.Dialect
import CallAtlas.Text.Cut
/-!
C++. The name of a function is the one in its declarator, so that a declaration in a
class, a definition there and a definition `Owner::name` outside it mean the same
function. For resolving calls, the body of `Owner::name` lies in the scope of `Owner`.
-/
namespace CallAtlas.Dialect.Cpp

def isOwnerKind (kind : String) : Bool :=
  kind == "class_specifier" || kind == "struct_specifier"

/-- Owner and name of a `::` path, by its last two segments; a path without a segment before
the name has no owner. -/
def splitPath (path : String) : Option String × String :=
  match Text.cutLast? "::" path with
  | some (scope, name) =>
    let owner := Text.trim (Text.lastSegment "::" scope)
    (if owner = "" then none else some owner, Text.trim name)
  | none => (none, Text.trim path)

def ofPath (path : String) : FunctionName :=
  match splitPath path with
  | (some owner, name) => ⟨.under owner, name⟩
  | (none, name) => ⟨.enclosing, name⟩

def isNameKind (kind : String) : Bool :=
  kind == "field_identifier" || kind == "identifier" || kind == "qualified_identifier"

def declared? (declarator : TextTree) : Option FunctionName :=
  (declarator.children.find? fun child => isNameKind child.kind).map fun name => ofPath name.text

def function? (node : TextTree) : Option FunctionName :=
  if node.kind = "function_declarator" then declared? node else none

/-- From a declarator to that of the function it wraps. -/
def functionDeclarator : Tree.Descent where
  goal := (· == "function_declarator")
  wrapper := fun _ => true
  into := some "declarator"
  orNamed := false

/-- The owner that a function definition is written with. -/
def writtenOwner? (definition : TextTree) : Option String :=
  match ((definition.child? "declarator").bind (·.descend functionDeclarator)).bind declared? with
  | some ⟨.under owner, _⟩ => some owner
  | _ => none

def opensClass (node : TextTree) : Option (Option String) :=
  if isOwnerKind node.kind then some (node.childText? "name") else none

/-- Classes, and definitions written with their owner. -/
def opensBody (node : TextTree) : Option (Option String) :=
  if isOwnerKind node.kind then some (node.childText? "name")
  else if node.kind = "function_definition" then (writtenOwner? node).map some
  else none

/-- From a declarator to the variable it declares. -/
def variableName : Tree.Descent where
  goal := (· == "identifier")
  wrapper := fun kind =>
    kind == "init_declarator" || kind == "pointer_declarator" || kind == "reference_declarator"
  into := some "declarator"
  orNamed := true

/-- The name of a type; of a template, the name without its arguments. -/
def typeText (node : TextTree) : String :=
  if node.kind = "template_type" then (node.childText? "name").getD node.text else node.text

/-- The type that an initial value makes with `new`. -/
def created? (declarator : TextTree) : Option String :=
  match declarator.child? "value" with
  | some value =>
    if value.kind = "new_expression" then (value.child? "type").map typeText else none
  | none => none

/-- `T x;` and `T* x = ...;` bind each variable, to what `new` makes for it in preference. -/
def declaration (node : TextTree) : List Site :=
  match node.child? "type" with
  | some type =>
    (node.childrenUnder "declarator").filterMap fun declarator =>
      (declarator.descend variableName).map fun name =>
        .bind name.text ((created? declarator).getD (typeText type))
  | none => []

def call (node : TextTree) : List Site :=
  match node.child? "function" with
  | some function =>
    if function.kind = "field_expression" then
      match function.childText? "argument", function.childText? "field" with
      | some object, some method => [.call (.member object method) false]
      | _, _ => []
    else if function.kind = "identifier" then [.call (.plain function.text) false]
    else if function.kind = "qualified_identifier" then
      let (owner, name) := splitPath function.text
      [.call (.named (qualify owner name)) false]
    else [.call (.named function.text) false]
  | none => []

def sites (node : TextTree) : List Site :=
  if node.kind = "declaration" then declaration node
  else if node.kind = "call_expression" then call node
  else []

end CallAtlas.Dialect.Cpp

namespace CallAtlas.Dialect

def cpp : Dialect where
  definitionScope := .lexical Cpp.opensClass
  callScope := .lexical Cpp.opensBody
  function? := Cpp.function?
  sites := Cpp.sites
  selfWord := some "this"
  literalReceivers := true

end CallAtlas.Dialect
