import CallAtlas.Proofs.CallGraph.Consistency
import CallAtlas.Proofs.SymbolTable.History
/-!
A call graph is determined by the operations that made it: its nodes by the names they
mention and by the definitions among them, its edges by the calls. Each operation keeps the
three in step (`Follows.ensureNode`, `Follows.addDefinition`, `Follows.addCall`), so a graph
made by any sequence of operations can be read off that sequence
(`run_accountsFor_operations`).
-/
namespace CallAtlas.CallGraph

variable {graph : CallGraph} {names : List String} {definitions : List Definition}
  {calls : List Call}

/-- A definition settles the node of its name and leaves the others as they are. -/
theorem nodes_addDefinition (consistent : graph.Consistent) (definition : Definition) :
    (graph.addDefinition definition).nodes.toList =
      (graph.ensureNode definition.id).1.nodes.toList.map fun node =>
        if node.id = definition.id then .ofDefinition definition else node := by
  have made := ensured consistent definition.id
  apply List.ext_getElem?
  intro place
  simp only [addDefinition, Array.getElem?_toList, Array.getElem?_modify, List.getElem?_map]
  cases at_place : (graph.ensureNode definition.id).1.nodes[place]? with
  | none => simp
  | some node =>
    have here : (graph.ensureNode definition.id).1.ids[place]? = some node.id := by
      rw [getElem?_ids, at_place, Option.map_some]
    by_cases same : node.id = definition.id
    · -- The node of that name stands where it was looked up, names being distinct.
      rw [same] at here
      have stored := (made.consistent.indexed definition.id place).mpr here
      rw [(made.consistent.indexed definition.id _).mpr made.found, Option.some.injEq] at stored
      simp [stored, same, Node.ofDefinition]
    · have elsewhere : (graph.ensureNode definition.id).2 ≠ place := by
        rintro rfl
        rw [made.found, Option.some.injEq] at here
        exact same here.symm
      simp [elsewhere, same]

/-- The nodes that a history leaves: the names in order of first mention, each with what its
last definition says. -/
def nodesOf (names : List String) (definitions : List Definition) : List Node :=
  names.eraseDups.map fun id =>
    ⟨id, (lastDefinition? definitions id).map fun definition =>
      ⟨definition.owner, definition.file⟩⟩

theorem map_id_nodesOf (names : List String) (definitions : List Definition) :
    (nodesOf names definitions).map (·.id) = names.eraseDups := by
  simp [nodesOf, Function.comp_def]

/-- A name that is mentioned without a definition gets a bare node, unless it has one. -/
theorem nodesOf_mention (known : ∀ definition ∈ definitions, definition.id ∈ names)
    (id : String) :
    nodesOf (names ++ [id]) definitions =
      if id ∈ names then nodesOf names definitions
      else nodesOf names definitions ++ [⟨id, none⟩] := by
  unfold nodesOf
  rw [eraseDups_concat]
  split
  · rfl
  · next fresh =>
    have undefined : lastDefinition? definitions id = none := by
      rw [lastDefinition?_eq_none_iff]
      rintro definition among rfl
      exact fresh (known definition among)
    simp [undefined]

/-- A definition settles the node of its name. -/
theorem nodesOf_define (names : List String) (definitions : List Definition)
    (definition : Definition) :
    nodesOf names (definitions ++ [definition]) =
      (nodesOf names definitions).map fun node =>
        if node.id = definition.id then .ofDefinition definition else node := by
  unfold nodesOf
  rw [List.map_map]
  apply List.map_congr_left
  intro id _
  rw [lastDefinition?_concat, Function.comp_apply]
  by_cases same : id = definition.id
  · simp [same, Node.ofDefinition]
  · simp [same, Ne.symm same]

/-- A graph agrees with what was mentioned, defined and called so far. -/
structure Follows (graph : CallGraph) (names : List String) (definitions : List Definition)
    (calls : List Call) : Prop where
  consistent : graph.Consistent
  mentioned : ∀ definition ∈ definitions, definition.id ∈ names
  nodes : graph.nodes.toList = nodesOf names definitions
  edges : graph.edges = calls
  edgeCount : graph.edgeCount = calls.length

namespace Follows

theorem empty : Follows .empty [] [] [] where
  consistent := consistent_empty
  mentioned := by simp
  nodes := rfl
  edges := rfl
  edgeCount := rfl

theorem ids (follows : graph.Follows names definitions calls) :
    graph.ids = names.eraseDups := by
  rw [CallGraph.ids, follows.nodes, map_id_nodesOf]

theorem ensureNode (follows : graph.Follows names definitions calls) (id : String) :
    (graph.ensureNode id).1.Follows (names ++ [id]) definitions calls := by
  have made := ensured follows.consistent id
  constructor
  · exact made.consistent
  · intro definition among
    exact List.mem_append_left _ (follows.mentioned definition among)
  · rw [made.nodes, nodesOf_mention follows.mentioned]
    simp only [follows.ids, List.mem_eraseDups, follows.nodes]
  · rw [follows.consistent.edges_of_grown made.ids_grow made.endpoints]
    exact follows.edges
  · rw [CallGraph.edgeCount, made.endpoints]
    exact follows.edgeCount

theorem addDefinition (follows : graph.Follows names definitions calls)
    (definition : Definition) :
    (graph.addDefinition definition).Follows (names ++ [definition.id])
      (definitions ++ [definition]) calls := by
  have between := follows.ensureNode definition.id
  constructor
  · exact follows.consistent.addDefinition definition
  · intro other among
    rcases List.mem_append.mp among with old | new
    · exact between.mentioned other old
    · rw [List.mem_singleton.mp new]
      exact List.mem_append_right _ (List.mem_singleton_self _)
  · rw [nodes_addDefinition follows.consistent, between.nodes, nodesOf_define]
  · have grown : (graph.ensureNode definition.id).1.ids <+:
        (graph.addDefinition definition).ids := by
      rw [ids_addDefinition]
    rw [between.consistent.edges_of_grown grown (endpoints_addDefinition graph definition)]
    exact between.edges
  · exact between.edgeCount

theorem addCall (follows : graph.Follows names definitions calls) (call : Call) :
    (graph.addCall call).Follows (names ++ [call.caller, call.callee]) definitions
      (calls ++ [call]) := by
  have between := (follows.ensureNode call.caller).ensureNode call.callee
  rw [List.append_assoc] at between
  obtain ⟨consistent, edges, -⟩ := addCall_spec follows.consistent call
  constructor
  · exact consistent
  · exact between.mentioned
  · rw [addCall_eq]
    exact between.nodes
  · rw [edges, follows.edges]
  · have count := between.edgeCount
    simp only [addCall_eq, join, CallGraph.edgeCount, Array.size_push, List.length_append,
      List.length_singleton] at count ⊢
    omega

end Follows

inductive Operation where
  | addDefinition (definition : Definition)
  | ensureNode (id : String)
  | addCall (call : Call)
  deriving DecidableEq, Repr

namespace Operation

def apply (graph : CallGraph) : Operation → CallGraph
  | addDefinition definition => graph.addDefinition definition
  | ensureNode id => (graph.ensureNode id).1
  | addCall call => graph.addCall call

/-- The names that an operation mentions, the caller before the callee. -/
def mentions : Operation → List String
  | addDefinition definition => [definition.id]
  | ensureNode id => [id]
  | addCall call => [call.caller, call.callee]

def definition? : Operation → Option Definition
  | addDefinition definition => some definition
  | _ => none

def call? : Operation → Option Call
  | addCall call => some call
  | _ => none

end Operation

def run (operations : List Operation) : CallGraph :=
  operations.foldl Operation.apply empty

theorem run_concat (operations : List Operation) (operation : Operation) :
    run (operations ++ [operation]) = operation.apply (run operations) := by
  rw [run, List.foldl_append]
  rfl

theorem Follows.apply (follows : graph.Follows names definitions calls) (operation : Operation) :
    (operation.apply graph).Follows (names ++ operation.mentions)
      (definitions ++ operation.definition?.toList) (calls ++ operation.call?.toList) := by
  cases operation with
  | addDefinition definition =>
    have step := follows.addDefinition definition
    rwa [← List.append_nil calls] at step
  | ensureNode id =>
    have step := follows.ensureNode id
    rwa [← List.append_nil definitions, ← List.append_nil calls] at step
  | addCall call =>
    have step := follows.addCall call
    rwa [← List.append_nil definitions] at step

theorem follows_run (operations : List Operation) :
    (run operations).Follows (operations.flatMap (·.mentions))
      (operations.filterMap (·.definition?)) (operations.filterMap (·.call?)) := by
  induction operations using List.reverseRecOn with
  | nil => exact .empty
  | append_singleton before operation ih =>
    simp only [List.filterMap_eq_flatMap_toList, List.flatMap_append, List.flatMap_singleton]
      at ih ⊢
    rw [run_concat]
    exact ih.apply operation

/-- Later operations add names behind those that are there. -/
theorem ids_run_append (before after : List Operation) :
    (run before).ids <+: (run (before ++ after)).ids := by
  rw [(follows_run before).ids, (follows_run (before ++ after)).ids, List.flatMap_append,
    List.eraseDups_append]
  exact List.prefix_append _ _

/-- A place that was handed out for a name keeps it. -/
theorem found_run_append (before after : List Operation) (id : String) :
    (run (before ++ .ensureNode id :: after)).ids[((run before).ensureNode id).2]? = some id := by
  have made := ensured (follows_run before).consistent id
  have next : run (before ++ [.ensureNode id]) = ((run before).ensureNode id).1 :=
    run_concat before (.ensureNode id)
  obtain ⟨more, grown⟩ := ids_run_append (before ++ [.ensureNode id]) after
  obtain ⟨inside, -⟩ := List.getElem?_eq_some_iff.mp made.found
  rw [List.append_assoc, List.singleton_append, next] at grown
  rw [← grown, List.getElem?_append_left inside]
  exact made.found

/-- What a graph says, read off the operations that made it. -/
structure AccountsFor (graph : CallGraph) (operations : List Operation) : Prop where
  /-- A place in the index is in range and holds a node of its name. -/
  place_holds : ∀ (id : String) (place : Nat), graph.index[id]? = some place →
    ∃ node, graph.nodes[place]? = some node ∧ node.id = id
  /-- The name of a node leads to the place of that node. -/
  place_found : ∀ (place : Nat) (node : Node), graph.nodes[place]? = some node →
    graph.index[node.id]? = some place
  distinct : (graph.nodes.toList.map (·.id)).Nodup
  /-- Nodes stand in order of first mention. -/
  order : graph.nodes.toList.map (·.id) = (operations.flatMap (·.mentions)).eraseDups
  /-- A place that was handed out for a name is that of its node for good. -/
  permanent : ∀ before id after, operations = before ++ .ensureNode id :: after →
    ∃ node, graph.nodes[((run before).ensureNode id).2]? = some node ∧ node.id = id
  bare : ∀ node ∈ graph.nodes.toList, node.isBare = true ↔
    ∀ definition ∈ operations.filterMap (·.definition?), definition.id ≠ node.id
  /-- A defined node carries what its last definition says. -/
  attributes : ∀ node ∈ graph.nodes.toList, node.attributes =
    (lastDefinition? (operations.filterMap (·.definition?)) node.id).map fun definition =>
      ⟨definition.owner, definition.file⟩
  /-- The edges are the calls, all of them and in order. -/
  edges : graph.edges = operations.filterMap (·.call?)
  edgeCount : graph.edgeCount = (operations.filterMap (·.call?)).length
  inside : ∀ ends ∈ graph.endpoints.toList,
    ends.1 < graph.nodeCount ∧ ends.2 < graph.nodeCount

/-- Whatever is done to a graph, it accounts for all of it. -/
theorem run_accountsFor_operations (operations : List Operation) :
    (run operations).AccountsFor operations := by
  have follows := follows_run operations
  have settled : ∀ node ∈ (run operations).nodes.toList, node.attributes =
      (lastDefinition? (operations.filterMap (·.definition?)) node.id).map fun definition =>
        ⟨definition.owner, definition.file⟩ := by
    intro node among
    rw [follows.nodes, nodesOf, List.mem_map] at among
    obtain ⟨id, -, rfl⟩ := among
    rfl
  refine ⟨?_, ?_, follows.consistent.indexed.nodup, follows.ids, ?_, ?_, settled, follows.edges,
    follows.edgeCount, ?_⟩
  · intro id place stored
    have listed := (follows.consistent.indexed id place).mp stored
    rwa [getElem?_ids, Option.map_eq_some_iff] at listed
  · intro place node held
    rw [follows.consistent.indexed, getElem?_ids, held, Option.map_some]
  · rintro before id after rfl
    have found := found_run_append before after id
    rwa [getElem?_ids, Option.map_eq_some_iff] at found
  · intro node among
    rw [Node.isBare, settled node among, Option.isNone_map, Option.isNone_iff_eq_none,
      lastDefinition?_eq_none_iff]
  · intro ends among
    have bound := follows.consistent.inside ends among
    rwa [length_ids] at bound

end CallAtlas.CallGraph
