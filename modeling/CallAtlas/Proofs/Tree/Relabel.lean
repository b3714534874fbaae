import CallAtlas.Proofs.Tree.Place
/-!
Trees of the same shape. Giving every node another label changes neither where the nodes stand nor
in which order, so the places of the new tree are the old ones with their nodes relabelled
(`places_map`).
-/
namespace CallAtlas.Tree

variable {α β : Type} (f : α → β)

theorem mapAll_eq (trees : List (Tree α)) : mapAll f trees = trees.map (map f) := by
  induction trees with
  | nil => rfl
  | cons tree rest ih => rw [mapAll, ih, List.map_cons]

@[simp]
theorem kind_map (tree : Tree α) : (tree.map f).kind = tree.kind := by
  cases tree
  rfl

@[simp]
theorem field_map (tree : Tree α) : (tree.map f).field = tree.field := by
  cases tree
  rfl

@[simp]
theorem label_map (tree : Tree α) : (tree.map f).label = f tree.label := by
  cases tree
  rfl

@[simp]
theorem children_map (tree : Tree α) : (tree.map f).children = tree.children.map (map f) := by
  cases tree
  exact mapAll_eq f _

@[simp]
theorem child?_map (tree : Tree α) (name : String) :
    (tree.map f).child? name = (tree.child? name).map (map f) := by
  rw [child?, children_map, List.find?_map, child?]
  simp only [Function.comp_def, field_map]

def Place.map (place : Place α) : Place β :=
  ⟨place.position, place.ancestors.map (Tree.map f), place.node.map f⟩

theorem placesFrom_map :
    (∀ (tree : Tree α) position ancestors,
      placesFrom position (ancestors.map (map f)) (tree.map f) =
        (placesFrom position ancestors tree).map (Place.map f)) ∧
    ∀ (trees : List (Tree α)) position ancestors i,
      placesAll position (ancestors.map (map f)) i (trees.map (map f)) =
        (placesAll position ancestors i trees).map (Place.map f) := by
  refine forestInduction ?_ ?_ ?_
  · intro tree below position ancestors
    rw [placesFrom_eq, placesFrom_eq, List.map_cons, children_map, ← List.map_cons,
      below position (tree :: ancestors) 0]
    rfl
  · intro position ancestors i
    rfl
  · intro tree rest here later position ancestors i
    rw [List.map_cons, placesAll, placesAll, List.map_append, here, later]

/-- Relabelling keeps every node where it stands. -/
theorem places_map (tree : Tree α) : (tree.map f).places = tree.places.map (Place.map f) :=
  (placesFrom_map f).1 tree [] []

theorem before_map (tree : Tree α) (place : Place α) :
    (tree.map f).before (place.map f) = (tree.before place).map (Place.map f) := by
  rw [before, places_map, List.filter_map]
  rfl

theorem exists_place {tree node : Tree α} {position : List Nat}
    (found : tree.at? position = some node) : ∃ place ∈ tree.places, place.node = node :=
  ⟨⟨position, tree.above position, node⟩,
    (tree.places_inDocumentOrder.exact _).mpr ⟨found, rfl⟩, rfl⟩

/-- What stands above a place stands at a place itself. -/
theorem exists_place_of_ancestor {tree node : Tree α} {place : Place α}
    (listed : place ∈ tree.places) (above : node ∈ place.ancestors) :
    ∃ other ∈ tree.places, other.node = node := by
  rw [((tree.places_inDocumentOrder.exact place).mp listed).2] at above
  obtain ⟨k, -, found⟩ := List.mem_filterMap.mp above
  exact exists_place found

theorem at?_append (tree : Tree α) (position below : List Nat) :
    tree.at? (position ++ below) = (tree.at? position).bind (·.at? below) := by
  induction position generalizing tree with
  | nil => rfl
  | cons i rest ih =>
    rw [List.cons_append, at?, at?, Option.bind_assoc]
    congr 1
    funext child
    exact ih child

/-- A child of what stands at a place stands at a place itself. -/
theorem exists_place_of_child {tree child : Tree α} {place : Place α}
    (listed : place ∈ tree.places) (below : child ∈ place.node.children) :
    ∃ other ∈ tree.places, other.node = child := by
  have found := ((tree.places_inDocumentOrder.exact place).mp listed).1
  obtain ⟨i, held⟩ := List.mem_iff_getElem?.mp below
  have reached : tree.at? (place.position ++ [i]) = some child := by
    rw [at?_append, found]
    simp [at?, held]
  exact exists_place reached

end CallAtlas.Tree
