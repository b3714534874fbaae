import CallAtlas.CallGraph
import CallAtlas.Text.Csv
/-!
The flat table of a call graph: a row for each node, with one callee. Of several callees
of a node the last one stands; the others are lost.
-/
namespace CallAtlas.CallGraph

def lastCallees (graph : CallGraph) : Std.HashMap String String :=
  graph.edges.foldl (fun callees call => callees.insert call.caller call.callee) ∅

def flatHeader : List String := ["id", "class", "file_path", "source", "target"]

/-- The row of a node. Source and target are empty if it calls nothing. -/
def flatRow (callees : Std.HashMap String String) (node : Node) : List String :=
  let owner := node.owner?.getD ""
  let file := node.file?.getD ""
  match callees[node.id]? with
  | some callee => [node.id, owner, file, node.id, callee]
  | none => [node.id, owner, file, "", ""]

/-- The rows of the table, header first. -/
def flatRows (graph : CallGraph) : List (List String) :=
  flatHeader :: graph.nodes.toList.map (flatRow graph.lastCallees)

def flatTable (graph : CallGraph) : String :=
  Text.Csv.render graph.flatRows

end CallAtlas.CallGraph
