import CallAtlas.Proofs.CallGraph.History
import CallAtlas.Proofs.CallGraph.NodeLink
/-!
Keys of links. While the calls of a graph are numbered, the map of what was seen holds for each
call how often it came before, so parallel links get the keys 0, 1, 2 and so on, whatever stands
between them (`map_key_keyed`). That sets every link of a document apart from all others, and both
ends of a link are names of one listed node each.
-/
namespace CallAtlas.CallGraph

/-- The keys of parallel links go on from what was counted before. -/
theorem map_key_keyed (seen : Std.HashMap Call Nat) (calls : List Call) (call : Call) :
    ((keyed seen calls).filter (·.call = call)).map (·.key) =
      List.range' (seen.getD call 0) (calls.count call) := by
  induction calls generalizing seen with
  | nil => rfl
  | cons first rest ih =>
    have head : (⟨first.caller, first.callee, seen.getD first 0⟩ : Link).call = first := rfl
    rw [keyed, List.filter_cons, head]
    by_cases same : first = call
    · subst same
      rw [if_pos (decide_eq_true rfl), List.map_cons, ih, Std.HashMap.getD_insert_self,
        List.count_cons_self, List.range'_succ]
    · rw [if_neg (by simpa using same), ih, List.count_cons_of_ne same,
        Std.HashMap.getD_insert, if_neg (by simpa using same)]

theorem map_key_links (graph : CallGraph) (call : Call) :
    (graph.links.filter (·.call = call)).map (·.key) = List.range (graph.edges.count call) := by
  rw [links, map_key_keyed, Std.HashMap.getD_empty, List.range_eq_range']

/-- Links between the same ends have different keys. -/
theorem nodup_links (graph : CallGraph) : graph.links.Nodup := by
  rw [List.nodup_iff_count_le_one]
  intro link
  calc graph.links.count link
      = (graph.links.filter (·.call = link.call)).count link :=
        (List.count_filter (by simp)).symm
    _ ≤ ((graph.links.filter (·.call = link.call)).map (·.key)).count link.key :=
        List.count_le_count_map
    _ ≤ 1 := by
        rw [map_key_links]
        exact List.nodup_iff_count_le_one.mp List.nodup_range link.key

def linksOf? (document : Json) : Option (List Link) := do
  (← (← document.member? "links").elements?).mapM Link.ofEntry?

theorem linksOf?_nodeLink (graph : CallGraph) : linksOf? graph.nodeLink = some graph.links := by
  have found : graph.nodeLink.member? "links" = some (.array (graph.links.map Link.toJson)) := rfl
  rw [linksOf?, found]
  exact mapM_map_of_inverse Link.ofEntry?_toJson graph.links

/-- Links that show the edges of a graph and can be told apart. -/
structure ToldApart (edges : List Call) (nodes : List Node) (links : List Link) : Prop where
  /-- The links are the edges, in order. -/
  calls : links.map Link.call = edges
  /-- The keys of parallel links count from zero, in order. -/
  keys : ∀ call, (links.filter (·.call = call)).map (·.key) = List.range (edges.count call)
  /-- No two links agree in source, target and key. -/
  distinct : links.Nodup
  /-- Exactly one node has the name at an end of a link. -/
  ends : ∀ link ∈ links, (nodes.map (·.id)).count link.source = 1 ∧
    (nodes.map (·.id)).count link.target = 1

/-- A node-link document lists the edges of its graph in order, and parallel ones are told apart by
keys that count from zero. -/
theorem nodeLink_tells_links_apart (operations : List Operation) :
    let graph := run operations
    ∃ nodes links, ofNodeLink? graph.nodeLink = some (nodes, graph.edges) ∧
      linksOf? graph.nodeLink = some links ∧ ToldApart graph.edges nodes links := by
  intro graph
  refine ⟨graph.nodes.toList, graph.links, ofNodeLink?_nodeLink graph, linksOf?_nodeLink graph, ?_⟩
  have distinct : graph.ids.Nodup := (follows_run operations).consistent.indexed.nodup
  have calls : graph.links.map Link.call = graph.edges := map_call_keyed ∅ graph.edges
  refine ⟨calls, graph.map_key_links, graph.nodup_links, ?_⟩
  intro link among
  have edge : link.call ∈ graph.edges := calls ▸ List.mem_map_of_mem among
  have ⟨source, target⟩ := ends_of_mem_edges edge
  exact ⟨List.count_eq_one_of_mem distinct source, List.count_eq_one_of_mem distinct target⟩

end CallAtlas.CallGraph
