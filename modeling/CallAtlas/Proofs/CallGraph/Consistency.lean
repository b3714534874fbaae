import CallAtlas.CallGraph
import CallAtlas.Proofs.Index
/-!
The parts of a call graph fit together: the index gives the place of every node and of
nothing else, and both ends of every edge are places of nodes. Every operation keeps this.
It follows that nodes never share a name, that an operation on a known name adds no node,
and that the edges read back are the calls that were added.
-/
namespace CallAtlas.CallGraph

/-- The names of the nodes, in order of first mention. -/
def ids (graph : CallGraph) : List String :=
  graph.nodes.toList.map (·.id)

structure Consistent (graph : CallGraph) : Prop where
  indexed : Indexes graph.index graph.ids
  inside : ∀ ends ∈ graph.endpoints.toList,
    ends.1 < graph.ids.length ∧ ends.2 < graph.ids.length

variable {graph after : CallGraph}

theorem length_ids (graph : CallGraph) : graph.ids.length = graph.nodes.size := by
  simp [ids]

@[simp]
theorem getElem?_ids (graph : CallGraph) (place : Nat) :
    graph.ids[place]? = graph.nodes[place]?.map (·.id) := by
  simp [ids]

theorem consistent_empty : empty.Consistent where
  indexed := Indexes.nil
  inside := by simp [empty]

def callBetween? (ids : List String) (ends : Nat × Nat) : Option Call :=
  match ids[ends.1]?, ids[ends.2]? with
  | some caller, some callee => some ⟨caller, callee⟩
  | _, _ => none

theorem edges_eq (graph : CallGraph) :
    graph.edges = graph.endpoints.toList.filterMap (callBetween? graph.ids) := by
  unfold edges
  refine List.filterMap_congr fun ends _ => ?_
  simp only [callBetween?, getElem?_ids]
  cases graph.nodes[ends.1]? <;> cases graph.nodes[ends.2]? <;> rfl

/-- The ends of an edge are names of nodes. -/
theorem ends_of_mem_edges {call : Call} (among : call ∈ graph.edges) :
    call.caller ∈ graph.ids ∧ call.callee ∈ graph.ids := by
  rw [edges_eq, List.mem_filterMap] at among
  obtain ⟨ends, -, between⟩ := among
  unfold callBetween? at between
  split at between
  · next caller callee at_caller at_callee =>
    cases between
    exact ⟨List.mem_of_getElem? at_caller, List.mem_of_getElem? at_callee⟩
  · cases between

/-- Places keep their names when nodes are added behind them. -/
theorem callBetween?_append {ids : List String} {ends : Nat × Nat}
    (inside : ends.1 < ids.length ∧ ends.2 < ids.length) (more : List String) :
    callBetween? (ids ++ more) ends = callBetween? ids ends := by
  simp only [callBetween?, List.getElem?_append_left inside.1, List.getElem?_append_left inside.2]

/-- What it takes for a graph to come from another one by making sure of a node. -/
structure Ensured (graph : CallGraph) (id : String) (after : CallGraph) (place : Nat) : Prop where
  consistent : after.Consistent
  found : after.ids[place]? = some id
  nodes : after.nodes.toList =
    if id ∈ graph.ids then graph.nodes.toList else graph.nodes.toList ++ [⟨id, none⟩]
  endpoints : after.endpoints = graph.endpoints

theorem ensured (consistent : graph.Consistent) (id : String) :
    Ensured graph id (graph.ensureNode id).1 (graph.ensureNode id).2 := by
  cases known : graph.index[id]? with
  | some place =>
    have at_place := (consistent.indexed id place).mp known
    simp only [ensureNode, known]
    refine ⟨consistent, at_place, ?_, rfl⟩
    rw [if_pos (List.mem_of_getElem? at_place)]
  | none =>
    have fresh := (consistent.indexed.getElem?_eq_none_iff id).mp known
    simp only [ensureNode, known]
    refine ⟨⟨?_, ?_⟩, ?_, ?_, rfl⟩
    · simpa [ids] using consistent.indexed.push fresh
    · intro ends among
      have ⟨left, right⟩ := consistent.inside ends among
      simp only [length_ids, Array.size_push] at left right ⊢
      omega
    · simp
    · simp [if_neg fresh]

namespace Ensured

variable {id : String} {place : Nat}

theorem ids_eq (made : Ensured graph id after place) :
    after.ids = if id ∈ graph.ids then graph.ids else graph.ids ++ [id] := by
  rw [ids, made.nodes]
  split
  · rfl
  · rw [List.map_append]
    rfl

theorem ids_grow (made : Ensured graph id after place) : graph.ids <+: after.ids := by
  rw [made.ids_eq]
  split
  · exact List.prefix_rfl
  · exact List.prefix_append _ _

theorem nodes_of_mem (made : Ensured graph id after place) (known : id ∈ graph.ids) :
    after.nodes.toList = graph.nodes.toList := by
  rw [made.nodes, if_pos known]

end Ensured

theorem Consistent.edges_of_grown (consistent : graph.Consistent)
    (grown : graph.ids <+: after.ids) (same : after.endpoints = graph.endpoints) :
    after.edges = graph.edges := by
  obtain ⟨more, grown⟩ := grown
  rw [edges_eq, edges_eq, same, ← grown]
  exact List.filterMap_congr fun ends among => callBetween?_append (consistent.inside ends among) more

def Node.ofDefinition (definition : Definition) : Node :=
  ⟨definition.id, some ⟨definition.owner, definition.file⟩⟩

theorem ids_addDefinition (graph : CallGraph) (definition : Definition) :
    (graph.addDefinition definition).ids = (graph.ensureNode definition.id).1.ids := by
  apply List.ext_getElem?
  intro place
  simp only [getElem?_ids, addDefinition, Array.getElem?_modify]
  split
  · cases (graph.ensureNode definition.id).1.nodes[place]? <;> rfl
  · rfl

@[simp]
theorem index_addDefinition (graph : CallGraph) (definition : Definition) :
    (graph.addDefinition definition).index = (graph.ensureNode definition.id).1.index := rfl

@[simp]
theorem endpoints_addDefinition (graph : CallGraph) (definition : Definition) :
    (graph.addDefinition definition).endpoints = (graph.ensureNode definition.id).1.endpoints := rfl

theorem Consistent.addDefinition (consistent : graph.Consistent) (definition : Definition) :
    (graph.addDefinition definition).Consistent := by
  have made := ensured consistent definition.id
  constructor
  · rw [ids_addDefinition, index_addDefinition]
    exact made.consistent.indexed
  · rw [ids_addDefinition, endpoints_addDefinition]
    exact made.consistent.inside

theorem nodes_addDefinition_fresh (consistent : graph.Consistent) {definition : Definition}
    (fresh : definition.id ∉ graph.ids) :
    (graph.addDefinition definition).nodes.toList =
      graph.nodes.toList ++ [.ofDefinition definition] := by
  have unknown := (consistent.indexed.getElem?_eq_none_iff definition.id).mpr fresh
  apply List.ext_getElem?
  intro place
  simp only [addDefinition, ensureNode, unknown, Array.getElem?_toList, Array.getElem?_modify,
    Array.getElem?_push, List.getElem?_append, Array.length_toList]
  rcases Nat.lt_trichotomy place graph.nodes.size with inside | rfl | outside
  · simp [inside, Nat.ne_of_lt inside, Nat.ne_of_gt inside]
  · simp [Node.ofDefinition]
  · have beyond : [Node.ofDefinition definition][place - graph.nodes.size]? = none := by
      rw [List.getElem?_eq_none]
      simp only [List.length_singleton]
      omega
    have not_inside : ¬ place < graph.nodes.size := by omega
    simp [beyond, not_inside, Nat.ne_of_gt outside, Nat.ne_of_lt outside]

/-- Definitions of new and distinct names become nodes one for one and in their order. -/
theorem nodes_addDefinitions (consistent : graph.Consistent) (definitions : List Definition)
    (distinct : (graph.ids ++ definitions.map (·.id)).Nodup) :
    (definitions.foldl CallGraph.addDefinition graph).Consistent ∧
      (definitions.foldl CallGraph.addDefinition graph).nodes.toList =
        graph.nodes.toList ++ definitions.map .ofDefinition ∧
      (definitions.foldl CallGraph.addDefinition graph).endpoints = graph.endpoints := by
  induction definitions generalizing graph with
  | nil => exact ⟨consistent, (List.append_nil _).symm, rfl⟩
  | cons definition rest ih =>
    have fresh : definition.id ∉ graph.ids := by
      intro known
      exact (List.nodup_append.mp distinct).2.2 _ known _ (List.mem_cons_self ..) rfl
    have nodes := nodes_addDefinition_fresh consistent fresh
    have names : (graph.addDefinition definition).ids = graph.ids ++ [definition.id] := by
      rw [ids, nodes, List.map_append]
      rfl
    obtain ⟨kept, listed, ends⟩ := ih (consistent.addDefinition definition) (by
      rw [names, List.append_assoc]
      exact distinct)
    refine ⟨kept, ?_, ?_⟩
    · rw [List.foldl_cons, listed, nodes, List.append_assoc]
      rfl
    · rw [List.foldl_cons, ends, endpoints_addDefinition]
      exact (ensured consistent definition.id).endpoints

def join (graph : CallGraph) (caller callee : Nat) : CallGraph :=
  { graph with endpoints := graph.endpoints.push (caller, callee) }

@[simp]
theorem ids_join (graph : CallGraph) (caller callee : Nat) :
    (graph.join caller callee).ids = graph.ids := rfl

theorem edges_join {caller callee : Nat} {call : Call}
    (at_caller : graph.ids[caller]? = some call.caller)
    (at_callee : graph.ids[callee]? = some call.callee) :
    (graph.join caller callee).edges = graph.edges ++ [call] := by
  rw [edges_eq, ids_join, join, Array.toList_push, List.filterMap_append, ← edges_eq]
  simp [callBetween?, at_caller, at_callee]

theorem Consistent.join (consistent : graph.Consistent) {caller callee : Nat}
    (caller_inside : caller < graph.ids.length) (callee_inside : callee < graph.ids.length) :
    (graph.join caller callee).Consistent where
  indexed := consistent.indexed
  inside := by
    intro ends among
    rw [CallGraph.join, Array.toList_push, List.mem_append, List.mem_singleton] at among
    rcases among with old | rfl
    · exact consistent.inside ends old
    · exact ⟨caller_inside, callee_inside⟩

theorem addCall_eq (graph : CallGraph) (call : Call) :
    graph.addCall call =
      ((graph.ensureNode call.caller).1.ensureNode call.callee).1.join
        (graph.ensureNode call.caller).2
        ((graph.ensureNode call.caller).1.ensureNode call.callee).2 := rfl

/-- A call adds one edge, and no node if both of its ends are there. -/
theorem addCall_spec (consistent : graph.Consistent) (call : Call) :
    (graph.addCall call).Consistent ∧
      (graph.addCall call).edges = graph.edges ++ [call] ∧
      (call.caller ∈ graph.ids → call.callee ∈ graph.ids →
        (graph.addCall call).nodes.toList = graph.nodes.toList) := by
  have first := ensured consistent call.caller
  have second := ensured first.consistent call.callee
  rw [addCall_eq]
  generalize (graph.ensureNode call.caller).1.ensureNode call.callee = last at second ⊢
  generalize graph.ensureNode call.caller = between at first second ⊢
  -- Making sure of the callee leaves the caller where it was found.
  have at_caller : last.1.ids[between.2]? = some call.caller := by
    obtain ⟨more, grown⟩ := second.ids_grow
    obtain ⟨inside, -⟩ := List.getElem?_eq_some_iff.mp first.found
    rw [← grown, List.getElem?_append_left inside]
    exact first.found
  have caller_inside := (List.getElem?_eq_some_iff.mp at_caller).1
  have callee_inside := (List.getElem?_eq_some_iff.mp second.found).1
  refine ⟨second.consistent.join caller_inside callee_inside, ?_, ?_⟩
  · rw [edges_join at_caller second.found]
    rw [consistent.edges_of_grown (first.ids_grow.trans second.ids_grow)
      (second.endpoints.trans first.endpoints)]
  · intro caller_known callee_known
    have still : call.callee ∈ between.1.ids := first.ids_grow.mem callee_known
    exact (second.nodes_of_mem still).trans (first.nodes_of_mem caller_known)

/-- The edges are the calls that were added, whatever their ends; calls between known names add
nothing else. -/
theorem addCalls_spec (consistent : graph.Consistent) (calls : List Call) :
    (graph.addCalls calls).Consistent ∧
      (graph.addCalls calls).edges = graph.edges ++ calls ∧
      ((∀ call ∈ calls, call.caller ∈ graph.ids ∧ call.callee ∈ graph.ids) →
        (graph.addCalls calls).nodes.toList = graph.nodes.toList) := by
  induction calls generalizing graph with
  | nil => exact ⟨consistent, (List.append_nil _).symm, fun _ => rfl⟩
  | cons call rest ih =>
    obtain ⟨kept, edges, nodes⟩ := addCall_spec consistent call
    obtain ⟨rest_kept, rest_edges, rest_nodes⟩ := ih kept
    refine ⟨rest_kept, ?_, ?_⟩
    · rw [addCalls, List.foldl_cons, ← addCalls, rest_edges, edges, List.append_assoc]
      rfl
    · intro known
      have ⟨caller, callee⟩ := known call (List.mem_cons_self ..)
      have same := nodes caller callee
      have names : (graph.addCall call).ids = graph.ids := by rw [ids, same, ids]
      refine (rest_nodes fun other among => ?_).trans same
      rw [names]
      exact known other (List.mem_cons_of_mem _ among)

/-- A graph built from distinct definitions and calls between them has these nodes and edges. -/
theorem build_spec {table : SymbolTable} (distinct : (table.toList.map (·.id)).Nodup)
    (calls : List Call) :
    (build table calls).edges = calls ∧
      ((∀ call ∈ calls, call.caller ∈ table.toList.map (·.id) ∧
          call.callee ∈ table.toList.map (·.id)) →
        (build table calls).nodes.toList = table.toList.map .ofDefinition) := by
  obtain ⟨kept, nodes, ends⟩ := nodes_addDefinitions consistent_empty table.toList distinct
  have names : (empty.addDefinitions table).ids = table.toList.map (·.id) := by
    rw [ids, addDefinitions, nodes]
    simp [empty, Node.ofDefinition]
  obtain ⟨-, edges, same⟩ := addCalls_spec kept calls
  constructor
  · rw [build, addDefinitions, edges, edges_eq, ends]
    rfl
  · intro known
    rw [build, addDefinitions, same, nodes]
    · rfl
    · rw [← addDefinitions, names]
      exact known

end CallAtlas.CallGraph
