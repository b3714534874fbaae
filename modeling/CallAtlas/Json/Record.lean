import CallAtlas.CallGraph
import CallAtlas.Json
import CallAtlas.Language
/-!
Records read from JSON. A record is an object with a member for each field, of which those
that may be absent can be left out and unknown ones are passed over, or an array of
exactly its fields in order. An enumerated value is its name, or an object that maps the
name to null.
-/
namespace CallAtlas

namespace Json

/-- The values of the named fields of a record; `none` inside for one left out. -/
def fields? (names : List String) : Json → Option (List (Option Json))
  | object members => some (names.map fun name => members.lookup name)
  | array elements => if elements.length = names.length then some (elements.map some) else none
  | _ => none

def text? : Option Json → Option String
  | some (string value) => some value
  | _ => none

/-- A field that holds a value or null, or is left out. -/
def optional? {α : Type} (read : Json → Option α) : Option Json → Option (Option α)
  | none => some none
  | some null => some none
  | some value => (read value).map some

/-- A field that holds a text or null, or is left out. -/
def optionalText? : Option Json → Option (Option String) :=
  optional? fun value => text? (some value)

/-- The name of an enumerated value. -/
def variant? : Json → Option String
  | string name => some name
  | object [(name, null)] => some name
  | _ => none

end Json

def Definition.ofJson? (value : Json) : Option Definition :=
  match value.fields? ["id", "class", "file_path"] with
  | some [id, owner, file] => do
    return ⟨← Json.text? id, ← Json.optionalText? owner, ← Json.text? file⟩
  | _ => none

def Call.ofJson? (value : Json) : Option Call :=
  match value.fields? ["caller", "callee"] with
  | some [caller, callee] => do return ⟨← Json.text? caller, ← Json.text? callee⟩
  | _ => none

def Language.ofJson? (value : Json) : Option Language :=
  value.variant?.bind Language.ofKey?

def CallGraph.Attributes.ofJson? (value : Json) : Option CallGraph.Attributes :=
  match value.fields? ["owner", "file_path"] with
  | some [owner, file] => do return ⟨← Json.optionalText? owner, ← Json.text? file⟩
  | _ => none

def CallGraph.Node.ofJson? (value : Json) : Option CallGraph.Node :=
  match value.fields? ["id", "attributes"] with
  | some [id, attributes] => do
    return ⟨← Json.text? id, ← Json.optional? CallGraph.Attributes.ofJson? attributes⟩
  | _ => none

end CallAtlas
