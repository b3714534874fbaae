import CallAtlas.Layout
import CallAtlas.Proofs.CallGraph.History
/-!
What a layout sees of the edges. An edge counts at both of its ends alike, and an edge from a node
to itself not at all. So a row of neighbours is the tally of the nodes at the other ends of the
edges of its node (`neighbors_getElem?`), and nothing is left in it of the direction of an edge.
Counts are exact and turn into floating point only where a pull is computed. Turning edges round
where they stand, and putting loops in or taking them out, changes no row and so no position
(`spring_of_redrawn`). Every node has a position (`size_spring`), but nothing is said about where.
-/
namespace CallAtlas

/-- The number of edges between two places, whichever way they run. -/
def CallGraph.edgesBetween (graph : CallGraph) (place other : Nat) : Nat :=
  graph.endpoints.toList.count (place, other) + graph.endpoints.toList.count (other, place)

theorem CallGraph.edgesBetween_comm (graph : CallGraph) (place other : Nat) :
    graph.edgesBetween place other = graph.edgesBetween other place :=
  Nat.add_comm ..

namespace Layout

variable {graph : CallGraph}

/-- One more edge to a neighbour that is listed raises its count; any other one comes last. -/
theorem addNeighbor_map {places : List Nat} (distinct : places.Nodup) (count : Nat → Nat)
    (target : Nat) :
    addNeighbor (places.map fun place => (place, count place)) target =
      if target ∈ places then
        places.map fun place => (place, if place = target then count place + 1 else count place)
      else places.map (fun place => (place, count place)) ++ [(target, 1)] := by
  induction places with
  | nil => rfl
  | cons place rest ih =>
    obtain ⟨fresh, distinct⟩ := List.nodup_cons.mp distinct
    rw [List.map_cons, addNeighbor]
    by_cases same : place = target
    · subst same
      -- The place stands nowhere else, so no other count changes.
      have others : ∀ other ∈ rest, other ≠ place := by
        rintro other among rfl
        exact fresh among
      simpa using fun other among => (others other among).elim
    · rw [if_neg same, ih distinct]
      by_cases known : target ∈ rest <;> simp [same, Ne.symm same, known]

/-- The tally of a list of places: each once, where it first comes up, with how often it does. -/
theorem foldl_addNeighbor (places : List Nat) :
    places.foldl addNeighbor [] =
      places.eraseDups.map fun place => (place, places.count place) := by
  -- From the end, as a row grows at its end.
  induction places using List.reverseRecOn with
  | nil => rfl
  | append_singleton places place ih =>
    rw [List.foldl_append, List.foldl_cons, List.foldl_nil, ih,
      addNeighbor_map (nodup_eraseDups places), eraseDups_concat]
    simp only [List.mem_eraseDups, List.count_append, List.count_singleton]
    by_cases known : place ∈ places
    · rw [if_pos known, if_pos known]
      refine List.map_congr_left fun other _ => ?_
      by_cases same : other = place
      · simp [same]
      · simp [same, Ne.symm same]
    · rw [if_neg known, if_neg known, List.map_append]
      congr 1
      · refine List.map_congr_left fun other among => ?_
        have apart : place ≠ other := by
          rintro rfl
          exact known (List.mem_eraseDups.mp among)
        simp [apart]
      · simp [List.count_eq_zero.mpr known]

/-- The place that an edge joins to a given one. A loop joins none. -/
def partner? (place : Nat) (ends : Nat × Nat) : Option Nat :=
  if ends.1 = ends.2 then none
  else if ends.1 = place then some ends.2
  else if ends.2 = place then some ends.1
  else none

def partners (place : Nat) (endpoints : List (Nat × Nat)) : List Nat :=
  endpoints.filterMap (partner? place)

theorem partner?_eq_some_iff {place other : Nat} {ends : Nat × Nat} :
    partner? place ends = some other ↔
      other ≠ place ∧ (ends = (place, other) ∨ ends = (other, place)) := by
  obtain ⟨source, target⟩ := ends
  simp only [partner?, Prod.mk.injEq]
  grind

@[simp]
theorem partner?_loop (place spot : Nat) : partner? place (spot, spot) = none := by
  simp [partner?]

/-- An edge joins the same places whichever way it runs. -/
theorem partner?_swap (place source target : Nat) :
    partner? place (target, source) = partner? place (source, target) := by
  ext other
  simp only [partner?_eq_some_iff, Prod.mk.injEq]
  tauto

/-- An edge adds its other end to the row of each of its ends and leaves all other rows alone. -/
theorem getElem?_joinEnds (rows : Array (List (Nat × Nat))) (ends : Nat × Nat) (place : Nat) :
    (joinEnds rows ends)[place]? =
      rows[place]?.map fun row => (partner? place ends).toList.foldl addNeighbor row := by
  unfold joinEnds partner?
  by_cases loop : ends.1 = ends.2
  · simp [loop]
  · simp only [if_neg loop, Array.getElem?_modify]
    by_cases first : ends.1 = place
    · have second : ends.2 ≠ place := fun same => loop (first.trans same.symm)
      simp [first, second]
    · by_cases second : ends.2 = place <;> simp [first, second]

theorem getElem?_foldl_joinEnds (endpoints : List (Nat × Nat)) (rows : Array (List (Nat × Nat)))
    (place : Nat) :
    (endpoints.foldl joinEnds rows)[place]? =
      rows[place]?.map fun row => (partners place endpoints).foldl addNeighbor row := by
  induction endpoints generalizing rows with
  | nil => simp [partners]
  | cons ends rest ih =>
    rw [List.foldl_cons, ih, getElem?_joinEnds, Option.map_map]
    congr 1
    funext row
    cases joined : partner? place ends <;> simp [partners, joined]

/-- The row of a node is the tally of the nodes that edges join to it. -/
theorem neighbors_getElem? (graph : CallGraph) (place : Nat) :
    (neighbors graph)[place]? =
      if place < graph.nodeCount then
        let joined := partners place graph.endpoints.toList
        some (joined.eraseDups.map fun other => (other, joined.count other))
      else none := by
  rw [neighbors, ← Array.foldl_toList, getElem?_foldl_joinEnds, Array.getElem?_replicate]
  split
  · rw [Option.map_some, foldl_addNeighbor]
  · rfl

/-- Every edge between two places joins the one to the other, once. -/
theorem count_partners (graph : CallGraph) {place other : Nat} (apart : other ≠ place) :
    (partners place graph.endpoints.toList).count other = graph.edgesBetween place other := by
  rw [partners, List.count_filterMap, CallGraph.edgesBetween]
  induction graph.endpoints.toList with
  | nil => rfl
  | cons ends rest ih =>
    rw [List.countP_cons, List.count_cons, List.count_cons, ih]
    simp only [beq_iff_eq, partner?_eq_some_iff, apart, true_and, ne_eq, not_false_eq_true]
    by_cases away : ends = (place, other)
    · simp [away, apart]
      omega
    · by_cases back : ends = (other, place)
      · simp [back, apart]
        omega
      · simp [away, back]

/-- Only what an edge joins to a place is listed for it, and never the place itself. -/
theorem mem_partners {place other : Nat} {endpoints : List (Nat × Nat)} :
    other ∈ partners place endpoints ↔
      other ≠ place ∧ ((place, other) ∈ endpoints ∨ (other, place) ∈ endpoints) := by
  simp only [partners, List.mem_filterMap, partner?_eq_some_iff]
  constructor
  · rintro ⟨ends, among, apart, rfl | rfl⟩
    · exact ⟨apart, .inl among⟩
    · exact ⟨apart, .inr among⟩
  · rintro ⟨apart, among | among⟩
    · exact ⟨_, among, apart, .inl rfl⟩
    · exact ⟨_, among, apart, .inr rfl⟩

theorem size_neighbors (graph : CallGraph) : (neighbors graph).size = graph.nodeCount := by
  have inside (place : Nat) : place < (neighbors graph).size ↔ place < graph.nodeCount := by
    rw [← Nat.not_le, ← Array.getElem?_eq_none_iff, neighbors_getElem?]
    by_cases within : place < graph.nodeCount <;> simp [within]
  have least := inside (neighbors graph).size
  have greatest := inside graph.nodeCount
  omega

theorem row_eq_tally {place : Nat} {row : List (Nat × Nat)} (found : (neighbors graph)[place]? = some row) :
    row = (partners place graph.endpoints.toList).eraseDups.map fun other =>
      (other, (partners place graph.endpoints.toList).count other) := by
  rw [neighbors_getElem?] at found
  split at found
  · exact (Option.some.inj found).symm
  · cases found

/-- A row lists what edges join to its node, with the number of edges between. -/
theorem mem_row_iff {place : Nat} {row : List (Nat × Nat)}
    (found : (neighbors graph)[place]? = some row) (other weight : Nat) :
    (other, weight) ∈ row ↔ other ≠ place ∧ 0 < graph.edgesBetween place other ∧
      weight = graph.edgesBetween place other := by
  rw [row_eq_tally found, List.mem_map]
  simp only [List.mem_eraseDups, Prod.mk.injEq]
  constructor
  · rintro ⟨_, joined, rfl, rfl⟩
    have apart := (mem_partners.mp joined).1
    have counted := count_partners graph apart
    refine ⟨apart, ?_, counted⟩
    rw [← counted]
    exact List.count_pos_iff.mpr joined
  · rintro ⟨apart, positive, rfl⟩
    have counted := count_partners graph apart
    rw [← counted] at positive
    exact ⟨other, List.count_pos_iff.mp positive, rfl, counted⟩

/-- Edges run between nodes. -/
theorem other_inside (consistent : graph.Consistent) {place other : Nat}
    (joined : 0 < graph.edgesBetween place other) : other < graph.nodeCount := by
  have bounds := consistent.inside
  rw [CallGraph.length_ids] at bounds
  rcases Nat.add_pos_iff_pos_or_pos.mp joined with away | back
  · exact (bounds _ (List.count_pos_iff.mp away)).2
  · exact (bounds _ (List.count_pos_iff.mp back)).1

/-- The rows list the neighbours of each node. -/
structure ListsNeighbors (graph : CallGraph) (rows : Array (List (Nat × Nat))) : Prop where
  /-- There is a row for each node. -/
  size : rows.size = graph.nodeCount
  /-- No neighbour is listed twice. -/
  distinct : ∀ (place : Nat) row, rows[place]? = some row → (row.map (·.1)).Nodup
  /-- What is listed is every other node that an edge joins to this one, with the number of edges
  between the two. -/
  listed : ∀ (place : Nat) row, rows[place]? = some row → ∀ other weight,
    (other, weight) ∈ row ↔ other < graph.nodeCount ∧ other ≠ place ∧
      0 < graph.edgesBetween place other ∧ weight = graph.edgesBetween place other
  /-- Two nodes list each other, with the same number. -/
  symmetric : ∀ (place other : Nat) row back, rows[place]? = some row → rows[other]? = some back →
    ∀ weight, (other, weight) ∈ row ↔ (place, weight) ∈ back

theorem listsNeighbors (consistent : graph.Consistent) :
    ListsNeighbors graph (neighbors graph) where
  size := size_neighbors graph
  distinct place row found := by
    rw [row_eq_tally found, List.map_map]
    simpa [Function.comp_def] using nodup_eraseDups (partners place graph.endpoints.toList)
  listed place row found other weight := by
    rw [mem_row_iff found]
    refine ⟨fun ⟨apart, joined, same⟩ => ⟨?_, apart, joined, same⟩, fun ⟨_, rest⟩ => rest⟩
    exact other_inside consistent joined
  symmetric place other row back found also weight := by
    rw [mem_row_iff found, mem_row_iff also, graph.edgesBetween_comm, ne_comm]

theorem size_relax (distance : Float) (rows : Array (List (Nat × Nat))) (temperature : Float)
    (points : Array Point) : (relax distance rows temperature points).size = points.size := by
  simp [relax]

theorem size_cool (distance : Float) (rows : Array (List (Nat × Nat))) (cooling : Float)
    (iterations : Nat) (temperature : Float) (points : Array Point) :
    (cool distance rows cooling iterations temperature points).size = points.size := by
  induction iterations generalizing temperature points with
  | zero => rfl
  | succ iterations ih => rw [cool, ih, size_relax]

theorem size_rescale (points : Array Point) : (rescale points).size = points.size := by
  simp only [rescale]
  split <;> simp

/-- Every node has a place. -/
theorem size_spring (graph : CallGraph) : (spring graph).size = graph.nodeCount := by
  rw [spring]
  split
  next none => rw [none]; rfl
  · split
    next one => rw [one]; rfl
    · rw [size_rescale, size_cool, circle, Array.size_map, Array.size_range]

/-- An edge list is drawn anew: some of its edges are turned round where they stand, and loops are
put in or taken out anywhere. -/
inductive Redrawn : List (Nat × Nat) → List (Nat × Nat) → Prop where
  | nil : Redrawn [] []
  | keep (ends : Nat × Nat) {before after : List (Nat × Nat)} :
    Redrawn before after → Redrawn (ends :: before) (ends :: after)
  | turn (source target : Nat) {before after : List (Nat × Nat)} :
    Redrawn before after → Redrawn ((source, target) :: before) ((target, source) :: after)
  | loopIn (place : Nat) {before after : List (Nat × Nat)} :
    Redrawn before after → Redrawn before ((place, place) :: after)
  | loopOut (place : Nat) {before after : List (Nat × Nat)} :
    Redrawn before after → Redrawn ((place, place) :: before) after

theorem Redrawn.partners_eq {before after : List (Nat × Nat)} (redrawn : Redrawn before after)
    (place : Nat) : partners place after = partners place before := by
  induction redrawn with
  | nil => rfl
  | keep ends _ ih =>
    simp only [partners, List.filterMap_cons] at ih ⊢
    rw [ih]
  | turn source target _ ih =>
    simp only [partners, List.filterMap_cons, partner?_swap place source target] at ih ⊢
    rw [ih]
  | loopIn spot _ ih => simpa [partners] using ih
  | loopOut spot _ ih => simpa [partners] using ih

/-- Rows keep even the order of the neighbours in them. -/
theorem neighbors_of_redrawn {one two : CallGraph} (same : two.nodeCount = one.nodeCount)
    (redrawn : Redrawn one.endpoints.toList two.endpoints.toList) :
    neighbors two = neighbors one := by
  apply Array.ext_getElem?
  intro place
  rw [neighbors_getElem?, neighbors_getElem?, same, redrawn.partners_eq]

/-- Every step of a layout is computed from the number of nodes and the rows of neighbours. -/
theorem spring_of_redrawn {one two : CallGraph} (same : two.nodeCount = one.nodeCount)
    (redrawn : Redrawn one.endpoints.toList two.endpoints.toList) (distance : Float)
    (iterations : Nat) : spring two distance iterations = spring one distance iterations := by
  rw [spring, spring, same, neighbors_of_redrawn same redrawn]

/-- A layout sees an undirected graph with weights: neighbours are the nodes that edges join,
whichever way they run, weighed by the number of edges. So neither the direction of an edge nor a
loop makes a difference to it. -/
theorem layout_sees_undirected_edges (operations : List CallGraph.Operation) :
    let graph := CallGraph.run operations
    ListsNeighbors graph (neighbors graph) ∧
      ∀ other : CallGraph, other.nodes = graph.nodes →
        Redrawn graph.endpoints.toList other.endpoints.toList →
          neighbors other = neighbors graph ∧ ∀ distance iterations,
            spring other distance iterations = spring graph distance iterations := by
  intro graph
  refine ⟨listsNeighbors (CallGraph.follows_run operations).consistent, ?_⟩
  intro other nodes redrawn
  have same : other.nodeCount = graph.nodeCount := congrArg Array.size nodes
  exact ⟨neighbors_of_redrawn same redrawn, spring_of_redrawn same redrawn⟩

/-- Two calls that answer each other, and a third one. -/
def answered : List CallGraph.Operation :=
  [.addCall ⟨"a", "b"⟩, .addCall ⟨"b", "a"⟩, .addCall ⟨"b", "c"⟩]

/-- The same nodes with the first and the last call turned round and a loop before the last. -/
def answeredAnew : List CallGraph.Operation :=
  [.ensureNode "a", .addCall ⟨"b", "a"⟩, .addCall ⟨"b", "a"⟩, .addCall ⟨"a", "a"⟩,
    .addCall ⟨"c", "b"⟩]

/-- A turned call and a loop move nothing. -/
theorem answeredAnew_laid_out_alike :
    (CallGraph.run answeredAnew).nodes = (CallGraph.run answered).nodes ∧
      (CallGraph.run answered).endpoints = #[(0, 1), (1, 0), (1, 2)] ∧
      (CallGraph.run answeredAnew).endpoints = #[(1, 0), (1, 0), (0, 0), (2, 1)] ∧
      Redrawn [(0, 1), (1, 0), (1, 2)] [(1, 0), (1, 0), (0, 0), (2, 1)] ∧
      neighbors (CallGraph.run answeredAnew) = neighbors (CallGraph.run answered) ∧
      spring (CallGraph.run answeredAnew) 1.5 100 = spring (CallGraph.run answered) 1.5 100 := by
  have once : (CallGraph.run answered).endpoints = #[(0, 1), (1, 0), (1, 2)] ∧
      (CallGraph.run answered).nodes = #[⟨"a", none⟩, ⟨"b", none⟩, ⟨"c", none⟩] := by
    simp [answered, CallGraph.run, CallGraph.Operation.apply, CallGraph.addCall,
      CallGraph.ensureNode, CallGraph.empty, Std.HashMap.getElem_insert]
  have anew : (CallGraph.run answeredAnew).endpoints = #[(1, 0), (1, 0), (0, 0), (2, 1)] ∧
      (CallGraph.run answeredAnew).nodes = #[⟨"a", none⟩, ⟨"b", none⟩, ⟨"c", none⟩] := by
    simp [answeredAnew, CallGraph.run, CallGraph.Operation.apply, CallGraph.addCall,
      CallGraph.ensureNode, CallGraph.empty, Std.HashMap.getElem_insert]
  have nodes := anew.2.trans once.2.symm
  have redrawn : Redrawn [(0, 1), (1, 0), (1, 2)] [(1, 0), (1, 0), (0, 0), (2, 1)] :=
    .turn 0 1 (.keep (1, 0) (.loopIn 0 (.turn 1 2 .nil)))
  obtain ⟨rows, places⟩ := (layout_sees_undirected_edges answered).2 _ nodes (by
    rw [once.1, anew.1]
    exact redrawn)
  exact ⟨nodes, once.1, anew.1, redrawn, rows, places 1.5 100⟩

end Layout

end CallAtlas
