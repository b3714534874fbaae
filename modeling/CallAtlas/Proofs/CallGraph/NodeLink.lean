import CallAtlas.CallGraph.NodeLink
import CallAtlas.Proofs.Json.RoundTrip
/-!
The node-link document keeps the whole graph. `readNodeLink?` reads nodes and edges back
from the text of a document, whatever texts stand as names, owners and files. A bare node is
known by the absence of a file, and one without an owner by its null class. The keys of the
links say nothing that their order does not, so they are checked and dropped.
-/
namespace CallAtlas

/-- Values that are read back one by one are read back as a list. -/
theorem mapM_map_of_inverse {α β : Type} {write : α → β} {read : β → Option α}
    (inverse : ∀ value, read (write value) = some value) (values : List α) :
    (values.map write).mapM read = some values := by
  induction values with
  | nil => rfl
  | cons value rest ih => simp [inverse, ih]

namespace Json

def elements? : Json → Option (List Json)
  | array elements => some elements
  | _ => none

@[simp]
theorem natural?_ofNat (n : Nat) : natural? (ofNat n) = some n := by
  simp [ofNat, natural?]

end Json

namespace CallGraph

def Node.ofEntry? (value : Json) : Option Node := do
  let id ← value.textMember? "id"
  match value.member? "file_path" with
  | none => return ⟨id, none⟩
  | some _ => return ⟨id, some ⟨value.textMember? "class", ← value.textMember? "file_path"⟩⟩

def Link.ofEntry? (value : Json) : Option Link := do
  let source ← value.textMember? "source"
  let target ← value.textMember? "target"
  let key ← (← value.member? "key").natural?
  return ⟨source, target, key⟩

def Link.call (link : Link) : Call :=
  ⟨link.source, link.target⟩

def ofNodeLink? (document : Json) : Option (List Node × List Call) := do
  let nodes ← (← (← document.member? "nodes").elements?).mapM Node.ofEntry?
  let links ← (← (← document.member? "links").elements?).mapM Link.ofEntry?
  return (nodes, links.map Link.call)

/-- The nodes and the edges of the text of a node-link document. -/
def readNodeLink? (text : String) : Option (List Node × List Call) :=
  (Json.parse? text).bind ofNodeLink?

theorem Node.ofEntry?_toJson (node : Node) : Node.ofEntry? node.toJson = some node := by
  obtain ⟨id, attributes⟩ := node
  match attributes with
  | none => rfl
  | some ⟨none, file⟩ => rfl
  | some ⟨some owner, file⟩ => rfl

theorem Link.ofEntry?_toJson (link : Link) : Link.ofEntry? link.toJson = some link := by
  have source : link.toJson.textMember? "source" = some link.source := rfl
  have target : link.toJson.textMember? "target" = some link.target := rfl
  have key : link.toJson.member? "key" = some (.ofNat link.key) := rfl
  rw [Link.ofEntry?, source, target, key]
  simp only [Option.bind_eq_bind, Option.bind_some, Json.natural?_ofNat]
  rfl

/-- Keys set links apart and leave their ends alone. -/
theorem map_call_keyed (seen : Std.HashMap Call Nat) (calls : List Call) :
    (keyed seen calls).map Link.call = calls := by
  induction calls generalizing seen with
  | nil => rfl
  | cons call rest ih =>
    rw [keyed, List.map_cons, ih]
    rfl

theorem ofNodeLink?_nodeLink (graph : CallGraph) :
    ofNodeLink? graph.nodeLink = some (graph.nodes.toList, graph.edges) := by
  have nodes := mapM_map_of_inverse Node.ofEntry?_toJson graph.nodes.toList
  have links := mapM_map_of_inverse Link.ofEntry?_toJson graph.links
  have nodesFound : graph.nodeLink.member? "nodes" =
      some (.array (graph.nodes.toList.map Node.toJson)) := rfl
  have linksFound : graph.nodeLink.member? "links" =
      some (.array (graph.links.map Link.toJson)) := rfl
  have calls : graph.links.map Link.call = graph.edges := map_call_keyed ∅ graph.edges
  rw [ofNodeLink?, nodesFound, linksFound]
  simp only [Json.elements?, Option.bind_eq_bind, Option.bind_some, nodes, links, calls]
  rfl

/-- The document depends on nodes and edges alone, not on the index or on places. -/
theorem nodeLink_congr {first second : CallGraph} (nodes : first.nodes = second.nodes)
    (edges : first.edges = second.edges) : first.nodeLink = second.nodeLink := by
  rw [nodeLink, nodeLink, links, links, nodes, edges]

theorem readNodeLink?_render (graph : CallGraph) :
    readNodeLink? graph.nodeLink.render = some (graph.nodes.toList, graph.edges) := by
  rw [readNodeLink?, Json.parse?_render]
  exact ofNodeLink?_nodeLink graph

/-- The text of a graph is read back as its nodes and edges, each in order, and so two graphs
have one text exactly if they have the same nodes and the same edges. -/
theorem nodeLink_lossless (first second : CallGraph) :
    readNodeLink? first.nodeLink.render = some (first.nodes.toList, first.edges) ∧
      (first.nodeLink.render = second.nodeLink.render ↔
        first.nodes = second.nodes ∧ first.edges = second.edges) := by
  refine ⟨readNodeLink?_render first, fun same => ?_, fun ⟨nodes, edges⟩ => ?_⟩
  · have read := readNodeLink?_render first
    rw [same, readNodeLink?_render, Option.some.injEq, Prod.mk.injEq] at read
    exact ⟨Array.toList_inj.1 read.1.symm, read.2.symm⟩
  · rw [nodeLink_congr nodes edges]

end CallGraph

end CallAtlas
