import Mathlib.Data.List.Induction
import CallAtlas.CallGraph.Flat
import CallAtlas.Proofs.Text.Csv
/-!
What the flat table says. Callees are gathered in a map in which a later call of a name takes
the place of an earlier one, so a name is found with the callee of its last call
(`lastCallees_getElem?`). The text of the table is read back as one row for each node, in the
order of the nodes, each with that callee.
-/
namespace CallAtlas.CallGraph

def lastCallee? (calls : List Call) (id : String) : Option String :=
  (calls.filter (·.caller == id)).getLast?.map (·.callee)

theorem lastCallee?_concat (calls : List Call) (call : Call) (id : String) :
    lastCallee? (calls ++ [call]) id =
      if call.caller = id then some call.callee else lastCallee? calls id := by
  by_cases same : call.caller = id <;> simp [lastCallee?, same]

/-- Of several callees of a name the last one stands. -/
theorem lastCallees_getElem? (graph : CallGraph) (id : String) :
    graph.lastCallees[id]? = lastCallee? graph.edges id := by
  unfold lastCallees
  generalize graph.edges = calls
  induction calls using List.reverseRecOn with
  | nil => simp [lastCallee?]
  | append_singleton calls call ih =>
    rw [List.foldl_append, List.foldl_cons, List.foldl_nil, Std.HashMap.getElem?_insert,
      lastCallee?_concat, ih]
    simp only [beq_iff_eq]

/-- The row of a node, as the calls of the graph decide it. -/
theorem flatRow_lastCallees (graph : CallGraph) (node : Node) :
    flatRow graph.lastCallees node =
      [node.id, node.owner?.getD "", node.file?.getD ""] ++
        match lastCallee? graph.edges node.id with
        | some callee => [node.id, callee]
        | none => ["", ""] := by
  rw [flatRow, lastCallees_getElem?]
  cases lastCallee? graph.edges node.id <;> rfl

theorem flatRows_filled (graph : CallGraph) : ∀ fields ∈ graph.flatRows, fields ≠ [] := by
  intro fields among
  rcases List.mem_cons.mp among with rfl | among
  · simp [flatHeader]
  · obtain ⟨node, -, rfl⟩ := List.mem_map.mp among
    simp [flatRow_lastCallees]

/-- The table is read back as its header and a row of five fields for each node: what it is
called, whose it is, where it stands, and its last call. -/
theorem flatTable_read_back (graph : CallGraph) :
    Text.Csv.read? graph.flatTable =
      some (["id", "class", "file_path", "source", "target"] ::
        graph.nodes.toList.map fun node =>
          [node.id, node.owner?.getD "", node.file?.getD ""] ++
            match lastCallee? graph.edges node.id with
            | some callee => [node.id, callee]
            | none => ["", ""]) := by
  rw [flatTable, Text.Csv.read?_render graph.flatRows_filled, flatRows, flatHeader,
    List.map_congr_left fun node _ => graph.flatRow_lastCallees node]

end CallAtlas.CallGraph
