import CallAtlas.Proofs.CallGraph.Flat
import CallAtlas.Proofs.CallGraph.History
/-!
Building a graph in another order. Graphs that follow the same definitions and mention the same
names have the same nodes in some order (`Follows.nodes_perm`). So it makes no difference to
nodes and edges whether the definitions of a table go in before the calls or after them. What
differs is where the nodes stand: in the order in which their names come up.
-/
namespace CallAtlas

/-- The names at the ends of calls, each caller before its callee. -/
def Call.ends (calls : List Call) : List String :=
  calls.flatMap fun call => [call.caller, call.callee]

/-- What a table says of a name is what its last definition of that name says: it has no other. -/
theorem SymbolTable.Consistent.lastDefinition?_toList {table : SymbolTable}
    (consistent : table.Consistent) (id : String) :
    lastDefinition? table.toList id = table.resolve? id := by
  cases last : lastDefinition? table.toList id with
  | none =>
    have undefined := (lastDefinition?_eq_none_iff _ _).mp last
    cases resolved : table.resolve? id with
    | none => rfl
    | some definition =>
      obtain ⟨listed, named⟩ := consistent.resolve?_eq_some_iff.mp resolved
      exact absurd named (undefined definition listed)
  | some definition =>
    exact (consistent.resolve?_eq_some_iff.mpr (lastDefinition?_eq_some last)).symm

/-- A name that a table cannot resolve is one that it does not know. -/
theorem SymbolTable.Consistent.isNone_resolve? {table : SymbolTable} (consistent : table.Consistent)
    (id : String) : (table.resolve? id).isNone = !table.contains id := by
  rw [contains, Std.HashMap.contains_eq_isSome_getElem?]
  cases stored : table.slots[id]? with
  | none => simp [resolve?, stored]
  | some slot =>
    obtain ⟨definition, held, -⟩ := consistent.slot_holds stored
    simp [resolve?, stored, held]

namespace CallGraph

variable {graph one two : CallGraph} {names others : List String}
  {definitions : List Definition} {calls : List Call}

theorem Follows.addCalls (follows : graph.Follows names definitions calls) (more : List Call) :
    (graph.addCalls more).Follows (names ++ Call.ends more) definitions (calls ++ more) := by
  induction more generalizing graph names calls with
  | nil => simpa [CallGraph.addCalls, Call.ends] using follows
  | cons call rest ih =>
    have step := ih (follows.addCall call)
    rwa [List.append_assoc, List.append_assoc, List.singleton_append] at step

theorem Follows.foldl_addDefinition (follows : graph.Follows names definitions calls)
    (more : List Definition) :
    (more.foldl CallGraph.addDefinition graph).Follows (names ++ more.map (·.id))
      (definitions ++ more) calls := by
  induction more generalizing graph names definitions with
  | nil => simpa using follows
  | cons definition rest ih =>
    have step := ih (follows.addDefinition definition)
    rwa [List.append_assoc, List.append_assoc, List.singleton_append] at step

theorem Follows.addDefinitions (follows : graph.Follows names definitions calls)
    (table : SymbolTable) :
    (graph.addDefinitions table).Follows (names ++ table.ids) (definitions ++ table.toList) calls :=
  follows.foldl_addDefinition table.toList

/-- Graphs that mention the same names and define them alike have the same nodes. -/
theorem Follows.nodes_perm (first : one.Follows names definitions calls)
    (second : two.Follows others definitions calls) (same : ∀ id, id ∈ names ↔ id ∈ others) :
    one.nodes.toList.Perm two.nodes.toList := by
  have reordered : names.eraseDups.Perm others.eraseDups := by
    apply (List.perm_ext_iff_of_nodup (nodup_eraseDups names) (nodup_eraseDups others)).mpr
    intro id
    rw [List.mem_eraseDups, List.mem_eraseDups]
    exact same id
  rw [first.nodes, second.nodes]
  exact reordered.map _

/-- Where the definitions are those of a table, a node carries what the table says of its name. -/
theorem Follows.attributes_of_table {table : SymbolTable} (consistent : table.Consistent)
    (follows : graph.Follows names table.toList calls) {node : Node}
    (among : node ∈ graph.nodes.toList) :
    node.attributes = (table.resolve? node.id).map fun definition =>
      ⟨definition.owner, definition.file⟩ := by
  rw [follows.nodes, nodesOf, List.mem_map] at among
  obtain ⟨id, -, rfl⟩ := among
  rw [consistent.lastDefinition?_toList]

/-- Two graphs of a table and a list of calls say the same: their nodes differ at most in
where they stand. -/
structure BuiltAlike (table : SymbolTable) (calls : List Call) (one two : CallGraph) : Prop where
  /-- The edges are the calls, in the same order in both. -/
  edges : one.edges = calls ∧ two.edges = calls
  /-- Every node of the one is a node of the other, with the same attributes. -/
  nodes : one.nodes.toList.Perm two.nodes.toList
  /-- No name has two nodes. -/
  distinct : one.ids.Nodup ∧ two.ids.Nodup
  /-- A node carries what the table says of its name. -/
  attributes : ∀ node ∈ one.nodes.toList, node.attributes =
    (table.resolve? node.id).map fun definition => ⟨definition.owner, definition.file⟩
  bare : ∀ node ∈ one.nodes.toList, node.isBare = true ↔ table.contains node.id = false
  nodeCount : one.nodeCount = two.nodeCount
  edgeCount : one.edgeCount = two.edgeCount
  lastCallees : one.lastCallees = two.lastCallees

theorem Follows.builtAlike {table : SymbolTable} (consistent : table.Consistent)
    (first : one.Follows names table.toList calls)
    (second : two.Follows others table.toList calls) (same : ∀ id, id ∈ names ↔ id ∈ others) :
    BuiltAlike table calls one two := by
  have nodes := first.nodes_perm second same
  have settled : ∀ node ∈ one.nodes.toList, node.attributes =
      (table.resolve? node.id).map fun definition => ⟨definition.owner, definition.file⟩ :=
    fun node among => first.attributes_of_table consistent among
  constructor
  · exact ⟨first.edges, second.edges⟩
  · exact nodes
  · exact ⟨first.consistent.indexed.nodup, second.consistent.indexed.nodup⟩
  · exact settled
  · intro node among
    rw [Node.isBare, settled node among, Option.isNone_map, consistent.isNone_resolve?,
      Bool.not_eq_true']
  · rw [CallGraph.nodeCount, CallGraph.nodeCount, ← Array.length_toList, nodes.length_eq,
      Array.length_toList]
  · rw [first.edgeCount, second.edgeCount]
  · rw [CallGraph.lastCallees, CallGraph.lastCallees, first.edges, second.edges]

/-- Whether calls or definitions go in first, the graph is the same up to the order of its
nodes, which is that of first mention. -/
theorem built_alike_in_either_order (insertions : List SymbolTable.Operation)
    (calls : List Call) :
    let table := SymbolTable.run insertions
    let callsFirst := (empty.addCalls calls).addDefinitions table
    let definitionsFirst := build table calls
    BuiltAlike table calls callsFirst definitionsFirst ∧
      callsFirst.ids = (Call.ends calls ++ table.ids).eraseDups ∧
      definitionsFirst.ids = (table.ids ++ Call.ends calls).eraseDups := by
  intro table callsFirst definitionsFirst
  have consistent : table.Consistent := (SymbolTable.follows_run insertions).consistent
  have first : callsFirst.Follows (Call.ends calls ++ table.ids) table.toList calls :=
    (Follows.empty.addCalls calls).addDefinitions table
  have second : definitionsFirst.Follows (table.ids ++ Call.ends calls) table.toList calls :=
    (Follows.empty.addDefinitions table).addCalls calls
  refine ⟨first.builtAlike consistent second ?_, first.ids, second.ids⟩
  intro id
  rw [List.mem_append, List.mem_append, or_comm]

end CallGraph

end CallAtlas
