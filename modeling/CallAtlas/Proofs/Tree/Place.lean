import CallAtlas.Tree
/-!
Where the nodes of a tree stand. A position is the list of child numbers that leads from
the root to a node, and document order is the lexicographic order of positions: a node
before what is below it, and that before its later siblings.

`places` lists every node once, with its position and its ancestors. That it does so is
stated against `at?`, which goes down one position at a time and knows nothing of any
listing (`places_inDocumentOrder`).
-/
namespace CallAtlas.Tree

variable {α : Type}

def at? : Tree α → List Nat → Option (Tree α)
  | tree, [] => some tree
  | tree, i :: below => tree.children[i]?.bind fun child => child.at? below

/-- A node where it stands. -/
structure Place (α : Type) where
  /-- The child numbers that lead to it from the root. -/
  position : List Nat
  /-- The nodes above it, nearest first. -/
  ancestors : List (Tree α)
  node : Tree α

mutual

/-- The places of a tree that itself stands at `position` below `ancestors`. -/
def placesFrom (position : List Nat) (ancestors : List (Tree α)) : Tree α → List (Place α)
  | node kind field named label children =>
    let here := node kind field named label children
    ⟨position, ancestors, here⟩ :: placesAll position (here :: ancestors) 0 children

/-- The places of siblings, the first of which is child number `i`. -/
def placesAll (position : List Nat) (ancestors : List (Tree α)) :
    Nat → List (Tree α) → List (Place α)
  | _, [] => []
  | i, tree :: rest =>
    placesFrom (position ++ [i]) ancestors tree ++ placesAll position ancestors (i + 1) rest

end

def places (tree : Tree α) : List (Place α) :=
  placesFrom [] [] tree

/-- Induction over a tree: a node is settled once its children are. -/
@[elab_as_elim]
theorem byChildren {motive : Tree α → Prop}
    (settle : ∀ tree : Tree α, (∀ child ∈ tree.children, motive child) → motive tree) :
    ∀ tree, motive tree
  | node kind field named label children => settle _ fun child _member => byChildren settle child
termination_by tree => sizeOf tree
decreasing_by
  have smaller := List.sizeOf_lt_of_mem _member
  simp only [Tree.children, node.sizeOf_spec] at smaller ⊢
  omega

/-- Induction over trees and lists of trees together. -/
theorem forestInduction {ofTree : Tree α → Prop} {ofForest : List (Tree α) → Prop}
    (node : ∀ tree, ofForest tree.children → ofTree tree) (nil : ofForest [])
    (cons : ∀ tree rest, ofTree tree → ofForest rest → ofForest (tree :: rest)) :
    (∀ tree, ofTree tree) ∧ ∀ trees, ofForest trees := by
  have forest : ∀ trees, (∀ tree ∈ trees, ofTree tree) → ofForest trees := by
    intro trees each
    induction trees with
    | nil => exact nil
    | cons tree rest ih =>
      exact cons tree rest (each tree (by simp)) (ih fun tree member => each tree (by simp [member]))
  have every : ∀ tree, ofTree tree := by
    intro tree
    induction tree using byChildren with
    | settle tree ih => exact node tree (forest _ ih)
  exact ⟨every, fun trees => forest trees fun tree _ => every tree⟩

theorem placesFrom_eq (position : List Nat) (ancestors : List (Tree α)) (tree : Tree α) :
    placesFrom position ancestors tree =
      ⟨position, ancestors, tree⟩ :: placesAll position (tree :: ancestors) 0 tree.children := by
  cases tree
  rfl

theorem preorder_eq (tree : Tree α) : tree.preorder = tree :: preorderAll tree.children := by
  cases tree
  rfl

/-- The listing of siblings is cut into the listings of each of them. -/
theorem mem_placesAll_iff {position : List Nat} {ancestors : List (Tree α)} {i : Nat}
    {trees : List (Tree α)} {place : Place α} :
    place ∈ placesAll position ancestors i trees ↔
      ∃ j tree, trees[j]? = some tree ∧
        place ∈ placesFrom (position ++ [i + j]) ancestors tree := by
  induction trees generalizing i with
  | nil => simp [placesAll]
  | cons first rest ih =>
    simp only [placesAll, List.mem_append, ih]
    constructor
    · rintro (here | ⟨j, tree, found, later⟩)
      · exact ⟨0, first, rfl, here⟩
      · refine ⟨j + 1, tree, found, ?_⟩
        rwa [show i + (j + 1) = i + 1 + j by omega]
    · rintro ⟨j, tree, found, member⟩
      cases j with
      | zero =>
        rw [List.getElem?_cons_zero, Option.some.injEq] at found
        subst found
        exact .inl member
      | succ j =>
        refine .inr ⟨j, tree, found, ?_⟩
        rwa [show i + 1 + j = i + (j + 1) by omega]

/-- The nodes strictly above a position, nearest first. -/
def above (tree : Tree α) (position : List Nat) : List (Tree α) :=
  (List.range position.length).reverse.filterMap fun k => tree.at? (position.take k)

theorem above_cons {tree child : Tree α} {i : Nat} (below : List Nat)
    (found : tree.children[i]? = some child) :
    tree.above (i :: below) = child.above below ++ [tree] := by
  have lower : ∀ k, tree.at? ((i :: below).take (k + 1)) = child.at? (below.take k) := by
    intro k
    simp [at?, found]
  simp only [above, List.length_cons, List.range_succ_eq_map, List.reverse_cons,
    List.filterMap_append, ← List.map_reverse, List.filterMap_map, Function.comp_def,
    Nat.succ_eq_add_one, lower]
  rfl

/-- A listing of places holds every node of the tree exactly where it stands, in document
order. Positions rise strictly, so no node is listed twice. -/
structure InDocumentOrder (tree : Tree α) (places : List (Place α)) : Prop where
  rising : (places.map (·.position)).Pairwise (· < ·)
  exact : ∀ place, place ∈ places ↔
    tree.at? place.position = some place.node ∧ place.ancestors = tree.above place.position

theorem mem_placesFrom_iff (tree : Tree α) :
    ∀ (position : List Nat) (ancestors : List (Tree α)) (place : Place α),
      place ∈ placesFrom position ancestors tree ↔
        ∃ below, place.position = position ++ below ∧ tree.at? below = some place.node ∧
          place.ancestors = tree.above below ++ ancestors := by
  induction tree using byChildren with
  | settle tree ih =>
    intro position ancestors place
    rw [placesFrom_eq, List.mem_cons, mem_placesAll_iff]
    constructor
    · rintro (rfl | ⟨i, child, found, member⟩)
      · exact ⟨[], by simp, rfl, rfl⟩
      · obtain ⟨below, rests, node, up⟩ :=
          (ih child (List.mem_of_getElem? found) _ _ _).mp member
        refine ⟨i :: below, by simp [rests], by simp [at?, found, node], ?_⟩
        rw [up, above_cons below found, List.append_assoc]
        rfl
    · rintro ⟨below, rests, node, up⟩
      cases below with
      | nil =>
        left
        rw [at?, Option.some.injEq] at node
        cases place
        simp_all [above]
      | cons i below =>
        right
        rw [at?] at node
        obtain ⟨child, found, node⟩ := Option.bind_eq_some_iff.mp node
        refine ⟨i, child, found, (ih child (List.mem_of_getElem? found) _ _ _).mpr ?_⟩
        refine ⟨below, by simp [rests], node, ?_⟩
        rw [up, above_cons below found, List.append_assoc]
        rfl

/-- Siblings are listed one after the other if each of them is listed in order. -/
theorem rising_placesAll (position : List Nat) (ancestors : List (Tree α))
    (trees : List (Tree α))
    (each : ∀ tree ∈ trees, ∀ position,
      ((placesFrom position ancestors tree).map (·.position)).Pairwise (· < ·)) :
    ∀ i, ((placesAll position ancestors i trees).map (·.position)).Pairwise (· < ·) := by
  induction trees with
  | nil => simp [placesAll]
  | cons first rest ih =>
    intro i
    simp only [placesAll, List.map_append, List.pairwise_append]
    refine ⟨each first (by simp) _, ih (fun tree member => each tree (by simp [member])) _, ?_⟩
    -- what is below child `i` comes before what is below a later child
    intro a inFirst b inRest
    obtain ⟨one, one_mem, rfl⟩ := List.mem_map.mp inFirst
    obtain ⟨two, two_mem, rfl⟩ := List.mem_map.mp inRest
    obtain ⟨j, tree, found, two_mem⟩ := mem_placesAll_iff.mp two_mem
    obtain ⟨left, oneAt, -⟩ := (mem_placesFrom_iff _ _ _ _).mp one_mem
    obtain ⟨right, twoAt, -⟩ := (mem_placesFrom_iff _ _ _ _).mp two_mem
    rw [oneAt, twoAt, List.append_assoc, List.append_assoc]
    apply List.append_left_lt
    exact List.cons_lt_cons_iff.mpr (.inl (by omega))

theorem rising_placesFrom (tree : Tree α) :
    ∀ (position : List Nat) (ancestors : List (Tree α)),
      ((placesFrom position ancestors tree).map (·.position)).Pairwise (· < ·) := by
  induction tree using byChildren with
  | settle tree ih =>
    intro position ancestors
    simp only [placesFrom_eq, List.map_cons, List.pairwise_cons]
    refine ⟨?_, rising_placesAll position _ _ (fun child member at_ => ih child member at_ _) 0⟩
    intro later member
    obtain ⟨place, place_mem, rfl⟩ := List.mem_map.mp member
    obtain ⟨j, child, found, place_mem⟩ := mem_placesAll_iff.mp place_mem
    obtain ⟨below, placed, -⟩ := (mem_placesFrom_iff _ _ _ _).mp place_mem
    rw [placed, List.append_assoc]
    have deeper : position ++ [] < position ++ ([0 + j] ++ below) :=
      List.append_left_lt (List.nil_lt_cons _ _)
    rwa [List.append_nil] at deeper

/-- `places` is the listing of a tree in document order. -/
theorem places_inDocumentOrder (tree : Tree α) : tree.InDocumentOrder tree.places where
  rising := rising_placesFrom tree [] []
  exact place := by
    rw [places, mem_placesFrom_iff]
    simp only [List.nil_append, List.append_nil]
    constructor
    · rintro ⟨below, rfl, found⟩
      exact found
    · intro found
      exact ⟨place.position, rfl, found⟩

def before (tree : Tree α) (place : Place α) : List (Place α) :=
  tree.places.filter fun other => other.position < place.position

/-- What comes before a place is what is listed before it. -/
theorem before_eq {tree : Tree α} {early late : List (Place α)} {place : Place α}
    (split : tree.places = early ++ place :: late) : tree.before place = early := by
  have rising := tree.places_inDocumentOrder.rising
  rw [split, List.map_append, List.map_cons, List.pairwise_append, List.pairwise_cons] at rising
  obtain ⟨-, ⟨upward, -⟩, across⟩ := rising
  have lower : ∀ other ∈ early, other.position < place.position := fun other listed =>
    across _ (List.mem_map_of_mem listed) _ List.mem_cons_self
  have higher : ∀ other ∈ place :: late, ¬ other.position < place.position := by
    intro other listed
    rcases List.mem_cons.mp listed with rfl | listed
    · exact List.lt_irrefl _
    · exact List.lt_asymm (upward _ (List.mem_map_of_mem listed))
  rw [before, split, List.filter_append, List.filter_eq_self.mpr (by simpa using lower),
    List.filter_eq_nil_iff.mpr (by simpa using higher), List.append_nil]

end CallAtlas.Tree
