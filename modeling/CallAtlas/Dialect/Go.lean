import CallAtlas.Dialect
/-!
Go. Functions and methods alike go by their own name, and a call by the text of what is
called.
-/
namespace CallAtlas.Dialect.Go

def function? (node : TextTree) : Option FunctionName :=
  if node.kind = "function_declaration" ∨ node.kind = "method_declaration" then
    (node.childText? "name").map fun name => ⟨.free, name⟩
  else none

def sites (node : TextTree) : List Site :=
  if node.kind = "call_expression" then
    match node.childText? "function" with
    | some called => [.call (.named called) false]
    | none => []
  else []

end CallAtlas.Dialect.Go

namespace CallAtlas.Dialect

def go : Dialect where
  definitionScope := .lexical fun _ => none
  function? := Go.function?
  sites := Go.sites

end CallAtlas.Dialect
