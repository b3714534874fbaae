import Std.Data.HashMap
import CallAtlas.SymbolTable
/-!
The call graph: a directed multigraph whose nodes are qualified names in order of first
mention. A node that was defined carries its owner and file; one that only stands at the
end of a call is bare. Every call is an edge of its own.

The index is a hash map that is only ever asked for one name, so no order of its own shows.
-/
namespace CallAtlas

structure CallGraph.Attributes where
  /-- The class, struct or interface it belongs to. -/
  owner : Option String
  /-- The file it was found in, relative to the scanned root. -/
  file : String
  deriving DecidableEq, Repr

structure CallGraph.Node where
  /-- The qualified name. -/
  id : String
  /-- Absent from a bare node. -/
  attributes : Option CallGraph.Attributes
  deriving DecidableEq, Repr

namespace CallGraph.Node

def isBare (node : CallGraph.Node) : Bool :=
  node.attributes.isNone

def owner? (node : CallGraph.Node) : Option String :=
  node.attributes.bind (·.owner)

def file? (node : CallGraph.Node) : Option String :=
  node.attributes.map (·.file)

end CallGraph.Node

/-- Directed multigraph of callers and callees. -/
structure CallGraph where
  /-- The nodes, in order of first mention. -/
  nodes : Array CallGraph.Node := #[]
  /-- The place of each qualified name in `nodes`. -/
  index : Std.HashMap String Nat := ∅
  /-- The calls as places of caller and callee, in order. -/
  endpoints : Array (Nat × Nat) := #[]

namespace CallGraph

def empty : CallGraph := {}

def contains (graph : CallGraph) (id : String) : Bool :=
  graph.index.contains id

def nodeCount (graph : CallGraph) : Nat :=
  graph.nodes.size

def edgeCount (graph : CallGraph) : Nat :=
  graph.endpoints.size

/-- The place of a node, which is added as a bare one if it is missing. -/
def ensureNode (graph : CallGraph) (id : String) : CallGraph × Nat :=
  match graph.index[id]? with
  | some place => (graph, place)
  | none =>
    ({ graph with
        nodes := graph.nodes.push ⟨id, none⟩
        index := graph.index.insert id graph.nodes.size }, graph.nodes.size)

/-- Adds a defined node. One that is there takes over owner and file. -/
def addDefinition (graph : CallGraph) (definition : Definition) : CallGraph :=
  let (graph, place) := graph.ensureNode definition.id
  { graph with nodes := graph.nodes.modify place fun node =>
      { node with attributes := some ⟨definition.owner, definition.file⟩ } }

/-- Adds one edge, after its ends. -/
def addCall (graph : CallGraph) (call : Call) : CallGraph :=
  let (graph, caller) := graph.ensureNode call.caller
  let (graph, callee) := graph.ensureNode call.callee
  { graph with endpoints := graph.endpoints.push (caller, callee) }

/-- The edges as calls between qualified names, in order. -/
def edges (graph : CallGraph) : List Call :=
  graph.endpoints.toList.filterMap fun (caller, callee) =>
    match graph.nodes[caller]?, graph.nodes[callee]? with
    | some caller, some callee => some ⟨caller.id, callee.id⟩
    | _, _ => none

def addDefinitions (graph : CallGraph) (table : SymbolTable) : CallGraph :=
  table.toList.foldl addDefinition graph

def addCalls (graph : CallGraph) (calls : List Call) : CallGraph :=
  calls.foldl addCall graph

def build (table : SymbolTable) (calls : List Call) : CallGraph :=
  (empty.addDefinitions table).addCalls calls

end CallGraph

end CallAtlas
