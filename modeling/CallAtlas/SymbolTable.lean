import Std.Data.HashMap
import Std.Data.HashSet
import CallAtlas.Definition
/-!
The table of known definitions. A qualified name keeps the place of its first
definition and the content of its last one. Owners are remembered apart: a name that
ever owned a definition counts as an owner for good.
-/
namespace CallAtlas

/-- Definitions by qualified name, in order of first insertion. -/
structure SymbolTable where
  /-- The definitions, in order of first insertion of their names. -/
  definitions : Array Definition := #[]
  /-- The place of each qualified name in `definitions`. -/
  slots : Std.HashMap String Nat := ∅
  /-- The names that owned an inserted definition. -/
  owners : Std.HashSet String := ∅

namespace SymbolTable

def empty : SymbolTable := {}

/-- Records a definition, in the place of an earlier one of the same name if there is one. -/
def insert (table : SymbolTable) (definition : Definition) : SymbolTable :=
  let owners :=
    match definition.owner with
    | some owner => table.owners.insert owner
    | none => table.owners
  match table.slots[definition.id]? with
  | some slot =>
    { table with definitions := table.definitions.setIfInBounds slot definition, owners }
  | none =>
    { definitions := table.definitions.push definition
      slots := table.slots.insert definition.id table.definitions.size
      owners }

def extend (table : SymbolTable) (definitions : List Definition) : SymbolTable :=
  definitions.foldl insert table

def ofList (definitions : List Definition) : SymbolTable :=
  empty.extend definitions

def resolve? (table : SymbolTable) (id : String) : Option Definition :=
  table.slots[id]?.bind (table.definitions[·]?)

def contains (table : SymbolTable) (id : String) : Bool :=
  table.slots.contains id

/-- Whether a name owned some definition. -/
def isOwner (table : SymbolTable) (name : String) : Bool :=
  table.owners.contains name

def toList (table : SymbolTable) : List Definition :=
  table.definitions.toList

def size (table : SymbolTable) : Nat :=
  table.definitions.size

def isEmpty (table : SymbolTable) : Bool :=
  table.definitions.isEmpty

end SymbolTable

/-- What the resolution of calls asks of a table: nothing but these two questions. -/
structure Knowledge where
  /-- Whether a qualified name is defined. -/
  defines : String → Bool
  /-- Whether a name owned some definition. -/
  owns : String → Bool

def SymbolTable.knowledge (table : SymbolTable) : Knowledge :=
  ⟨table.contains, table.isOwner⟩

end CallAtlas
