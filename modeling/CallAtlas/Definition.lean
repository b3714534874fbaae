/-!
Definitions and calls: what the two passes over a source file find. A function is known
by its qualified name, which is its own name after that of its owner and a dot.
-/
namespace CallAtlas

/-- The qualified name of `name` under an owner. Without an owner it is `name` itself; an
owner whose name is empty is still an owner. -/
def qualify : Option String → String → String
  | some owner, name => owner ++ "." ++ name
  | none, name => name

/-- A function or method with a name. -/
structure Definition where
  /-- The qualified name. -/
  id : String
  /-- The class, struct or interface it belongs to. -/
  owner : Option String
  /-- The file it was found in, relative to the scanned root. -/
  file : String
  deriving DecidableEq, Repr

def Definition.ofName (name : String) (owner : Option String) (file : String) : Definition :=
  ⟨qualify owner name, owner, file⟩

structure Call where
  caller : String
  callee : String
  deriving DecidableEq, Hashable, Repr

def Call.render (call : Call) : String :=
  call.caller ++ " -> " ++ call.callee

end CallAtlas
