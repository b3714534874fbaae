import CallAtlas.Dialect
import CallAtlas.Text.Cut
/-!
Python. Classes own the functions in their bodies. `x = T()` gives `x` the type `T` if
`T` owns a function. A call is read from the text of what is called: up to the last dot
it is the receiver, after it the method.
-/
namespace CallAtlas.Dialect.Python

def opens (node : TextTree) : Option (Option String) :=
  if node.kind = "class_definition" then some (node.childText? "name") else none

def function? (node : TextTree) : Option FunctionName :=
  if node.kind = "function_definition" then
    (node.childText? "name").map fun name => ⟨.enclosing, name⟩
  else none

/-- `x = T(...)` binds `x` to `T`. -/
def assignment (node : TextTree) : List Site :=
  match node.child? "left", node.child? "right" with
  | some left, some right =>
    match right.child? "function" with
    | some function =>
      if left.kind = "identifier" ∧ right.kind = "call" ∧ function.kind = "identifier" then
        [.bind left.text function.text]
      else []
    | none => []
  | _, _ => []

/-- A call by the text of what is called. -/
def callee (called : String) : Callee :=
  match Text.cutLast? "." called with
  | some (receiver, method) => .member receiver method
  | none => .plain called

def sites (node : TextTree) : List Site :=
  if node.kind = "assignment" then assignment node
  else if node.kind = "call" then
    match node.childText? "function" with
    | some called => [.call (callee called) true]
    | none => []
  else []

end CallAtlas.Dialect.Python

namespace CallAtlas.Dialect

def python : Dialect where
  definitionScope := .lexical Python.opens
  function? := Python.function?
  sites := Python.sites
  selfWord := some "self"
  literalReceivers := true
  bindsOwnersOnly := true

end CallAtlas.Dialect
