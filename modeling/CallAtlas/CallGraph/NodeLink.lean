import CallAtlas.CallGraph
import CallAtlas.Json
/-!
The node-link document of a call graph. Defined nodes show class, file and name, bare
nodes only their name. Parallel links are told apart by keys that count from zero for
each pair of ends.
-/
namespace CallAtlas.CallGraph

/-- An edge with a key that sets it apart from parallel ones. -/
structure Link where
  source : String
  target : String
  key : Nat
  deriving DecidableEq, Repr

/-- Numbers calls, given how often each pair came before. -/
def keyed (seen : Std.HashMap Call Nat) : List Call → List Link
  | [] => []
  | call :: rest =>
    let key := seen.getD call 0
    ⟨call.caller, call.callee, key⟩ :: keyed (seen.insert call (key + 1)) rest

/-- The edges with their keys, in order. -/
def links (graph : CallGraph) : List Link :=
  keyed ∅ graph.edges

/-- The members of a node, in alphabetical order. -/
def Node.toJson (node : Node) : Json :=
  .object <|
    match node.attributes with
    | some attributes =>
      [("class", .ofOption attributes.owner), ("file_path", .string attributes.file),
        ("id", .string node.id)]
    | none => [("id", .string node.id)]

def Link.toJson (link : Link) : Json :=
  .object [("source", .string link.source), ("target", .string link.target),
    ("key", .ofNat link.key)]

def nodeLink (graph : CallGraph) : Json :=
  .object [
    ("directed", .bool true),
    ("multigraph", .bool true),
    ("graph", .object []),
    ("nodes", .array (graph.nodes.toList.map Node.toJson)),
    ("links", .array (graph.links.map Link.toJson))]

end CallAtlas.CallGraph
