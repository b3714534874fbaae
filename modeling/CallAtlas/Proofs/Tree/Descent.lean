import CallAtlas.Proofs.Tree.Place
/-!
Going down from a node to the one it is about. `descend` runs through the children of a node to
find where to go on; here the way is told one node at a time (`Descent.Reaches`), and
`descend_eq_some_iff` says that the two arrive at the same node.
-/
namespace CallAtlas.Tree

variable {α : Type}

def Descent.next? (way : Descent) (tree : Tree α) : Option (Tree α) :=
  match way.into.bind tree.child? with
  | some next => some next
  | none => if way.orNamed then tree.firstNamed? else none

/-- A descent from one node arrives at another. -/
inductive Descent.Reaches (way : Descent) : Tree α → Tree α → Prop
  | arrived {tree : Tree α} (goal : way.goal tree.kind = true) : way.Reaches tree tree
  | past {tree next target : Tree α} (other : way.goal tree.kind = false)
      (wraps : way.wrapper tree.kind = true) (down : way.next? tree = some next)
      (onward : way.Reaches next target) : way.Reaches tree target

theorem Descent.mem_of_next? {way : Descent} {tree next : Tree α}
    (down : way.next? tree = some next) : next ∈ tree.children := by
  unfold next? at down
  split at down
  · next found =>
    cases down
    obtain ⟨field, -, found⟩ := Option.bind_eq_some_iff.mp found
    exact List.mem_of_find?_eq_some found
  · split at down
    · exact List.mem_of_find?_eq_some down
    · cases down

/-- A descent into a field, or else into the first named child. -/
theorem Descent.next?_of_orNamed {way : Descent} {field : String} (into : way.into = some field)
    (orNamed : way.orNamed = true) {tree next : Tree α} :
    way.next? tree = some next ↔ tree.child? field = some next ∨
      tree.child? field = none ∧ tree.firstNamed? = some next := by
  unfold next?
  rw [into, orNamed, Option.bind_some]
  cases tree.child? field <;> simp

/-- A descent into a field only. -/
theorem Descent.next?_of_field {way : Descent} {field : String} (into : way.into = some field)
    (only : way.orNamed = false) {tree next : Tree α} :
    way.next? tree = some next ↔ tree.child? field = some next := by
  unfold next?
  rw [into, only, Option.bind_some]
  cases tree.child? field <;> simp

theorem descendField_eq (way : Descent) (trees : List (Tree α)) :
    descendField way trees =
      (way.into.bind fun name => trees.find? (·.field == some name)).map (descend way) := by
  induction trees with
  | nil => cases way.into <;> rfl
  | cons tree rest ih =>
    rw [descendField, ih]
    cases way.into with
    | none => rfl
    | some name => cases here : tree.field == some name <;> simp [here]

theorem descendNamed_eq (way : Descent) (trees : List (Tree α)) :
    descendNamed way trees = (trees.find? (·.named)).bind (descend way) := by
  induction trees with
  | nil => rfl
  | cons tree rest ih =>
    rw [descendNamed, ih]
    cases here : tree.named <;> simp [here]

/-- A descent stops at a goal, and goes past a wrapper into its next child. -/
theorem descend_eq (way : Descent) (tree : Tree α) :
    tree.descend way =
      if way.goal tree.kind then some tree
      else if way.wrapper tree.kind then (way.next? tree).bind (descend way)
      else none := by
  rw [descend_node, descendField_eq, descendNamed_eq]
  have same : (way.into.bind fun name => tree.children.find? (·.field == some name)) =
      way.into.bind tree.child? := rfl
  rw [same]
  unfold Descent.next? firstNamed?
  cases way.into.bind tree.child? with
  | some next => rfl
  | none => cases way.orNamed <;> rfl

theorem reaches_of_descend (way : Descent) (tree : Tree α) :
    ∀ target, tree.descend way = some target → way.Reaches tree target := by
  induction tree using byChildren with
  | settle tree ih =>
    intro target arrives
    rw [descend_eq] at arrives
    split at arrives
    · next goal =>
      cases arrives
      exact .arrived goal
    · next other =>
      split at arrives
      · next wraps =>
        obtain ⟨next, down, arrives⟩ := Option.bind_eq_some_iff.mp arrives
        have onward := ih next (Descent.mem_of_next? down) target arrives
        exact .past (Bool.eq_false_iff.mpr other) wraps down onward
      · cases arrives

theorem Descent.Reaches.descend_eq {way : Descent} {tree target : Tree α}
    (reaches : way.Reaches tree target) : tree.descend way = some target := by
  induction reaches with
  | arrived goal => rw [Tree.descend_eq, if_pos goal]
  | past other wraps down onward ih =>
    rw [Tree.descend_eq, other, wraps, down]
    exact ih

theorem descend_eq_some_iff {way : Descent} {tree target : Tree α} :
    tree.descend way = some target ↔ way.Reaches tree target :=
  ⟨reaches_of_descend way tree target, Descent.Reaches.descend_eq⟩

theorem text_descend_eq_some_iff {way : Descent} {tree : TextTree} {text : String} :
    (tree.descend way).map Tree.text = some text ↔
      ∃ target, way.Reaches tree target ∧ target.text = text := by
  rw [Option.map_eq_some_iff]
  simp only [descend_eq_some_iff]

end CallAtlas.Tree
