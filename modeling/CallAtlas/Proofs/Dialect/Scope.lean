import CallAtlas.Dialect
import CallAtlas.Proofs.Tree.Place
/-!
Scopes read off the ancestors of a node. Under lexical scoping the owner in force at a node
is that of the nearest ancestor that opens a scope, and there is none in force if that
ancestor has no name, whatever stands further up.
-/
namespace CallAtlas

/-- The owner of the nearest scope among the ancestors of a node. -/
def enclosing (opens : TextTree → Option (Option String)) (ancestors : List TextTree) :
    Option String :=
  (ancestors.findSome? opens).join

def visitAt (opens : TextTree → Option (Option String)) (place : Tree.Place String) : Visit :=
  ⟨enclosing opens place.ancestors, place.node⟩

theorem enclosing_cons (opens : TextTree → Option (Option String)) (node : TextTree)
    (ancestors : List TextTree) :
    enclosing opens (node :: ancestors) = (opens node).getD (enclosing opens ancestors) := by
  rw [enclosing, List.findSome?_cons]
  cases opens node <;> rfl

/-- The owner in force below some nodes, nearest first: that of the nearest one that opens a scope,
and none if no node does. -/
inductive InForce (opens : TextTree → Option String → Prop) :
    List TextTree → Option String → Prop
  | outside : InForce opens [] none
  | opened {node : TextTree} {outer : List TextTree} {owner : Option String}
      (here : opens node owner) : InForce opens (node :: outer) owner
  | passed {node : TextTree} {outer : List TextTree} {owner : Option String}
      (closed : ∀ name, ¬ opens node name) (around : InForce opens outer owner) :
      InForce opens (node :: outer) owner

theorem inForce_iff {opens? : TextTree → Option (Option String)}
    {opens : TextTree → Option String → Prop}
    (reads : ∀ node owner, opens? node = some owner ↔ opens node owner)
    (ancestors : List TextTree) (owner : Option String) :
    InForce opens ancestors owner ↔ enclosing opens? ancestors = owner := by
  constructor
  · intro force
    induction force with
    | outside => rfl
    | opened here => rw [enclosing_cons, (reads _ _).mpr here, Option.getD_some]
    | @passed node outer owner closed around ih =>
      have silent : opens? node = none :=
        Option.eq_none_iff_forall_ne_some.mpr fun name here => closed name ((reads _ _).mp here)
      rw [enclosing_cons, silent, ih, Option.getD_none]
  · intro nearest
    subst nearest
    induction ancestors with
    | nil => exact .outside
    | cons node outer ih =>
      rw [enclosing_cons]
      cases here : opens? node with
      | some name => exact .opened ((reads _ _).mp here)
      | none =>
        refine .passed (fun name opened => ?_) ih
        rw [(reads _ _).mpr opened] at here
        cases here

theorem lexicalVisits_places (opens : TextTree → Option (Option String)) :
    (∀ tree position ancestors,
      Scoping.lexicalVisits opens (enclosing opens ancestors) tree =
        (Tree.placesFrom position ancestors tree).map (visitAt opens)) ∧
    ∀ trees position ancestors i,
      Scoping.lexicalVisitsAll opens (enclosing opens ancestors) trees =
        (Tree.placesAll position ancestors i trees).map (visitAt opens) := by
  refine Tree.forestInduction ?_ ?_ ?_
  · intro tree below position ancestors
    rw [Tree.placesFrom_eq, List.map_cons, ← below position (tree :: ancestors), enclosing_cons]
    cases tree
    rfl
  · intro position ancestors i
    rfl
  · intro tree rest here later position ancestors i
    rw [Scoping.lexicalVisitsAll, Tree.placesAll, List.map_append, ← here, ← later]

/-- Lexical scoping visits every node with the owner of its nearest enclosing scope. -/
theorem visits_lexical (opens : TextTree → Option (Option String)) (tree : TextTree) :
    (Scoping.lexical opens).visits tree = tree.places.map (visitAt opens) :=
  (lexicalVisits_places opens).1 tree [] []

end CallAtlas
