import CallAtlas.Dialect
import CallAtlas.Proofs.Tree.Place
import Mathlib.Data.List.Forall2
/-!
Depth-first traversal with a stack of scopes. A step looks at one node and changes the
context; if it opens a scope, that scope is closed after the children of the node.

Three facts about every traversal are proved from one fact about its step: what a pair of
steps preserves, the two traversals preserve in lockstep (`arrivals_lockstep`); a step that
opens what it says restores the scopes it found (`owners_traverse`); and what a step only
ever adds to is, at the end, what was added at each node in turn (`log_traverse`).
-/
namespace CallAtlas.Traversal

variable {σ τ : Type}

/-- What a traversal carries from node to node. -/
structure Context (σ : Type) where
  /-- The scopes around the node, innermost first; one whose owner has no name is `none`. -/
  owners : List (Option String)
  /-- What was gathered so far. -/
  gathered : σ

/-- Whether a step opened a scope. -/
inductive Opened where
  | nothing
  | scope
  deriving DecidableEq, Repr

abbrev Step (σ : Type) := TextTree → Context σ → Context σ × Opened

namespace Context

def start (gathered : σ) : Context σ := ⟨[], gathered⟩

/-- The owner in force: that of the innermost scope, if it has a name. -/
def owner (context : Context σ) : Option String :=
  context.owners.head?.join

/-- Opens a scope, to be closed after the children. -/
def enter (context : Context σ) (name : Option String) : Context σ × Opened :=
  ({ context with owners := name :: context.owners }, .scope)

/-- Puts one scope in the place of all others. -/
def replace (context : Context σ) (name : String) : Context σ :=
  { context with owners := [some name] }

def leave (context : Context σ) : Context σ :=
  { context with owners := context.owners.tail }

def close (context : Context σ) : Opened → Context σ
  | .scope => context.leave
  | .nothing => context

end Context

mutual

def traverse (step : Step σ) : TextTree → Context σ → Context σ
  | .node kind field named label children, context =>
    let (inside, opened) := step (.node kind field named label children) context
    (traverseAll step children inside).close opened

def traverseAll (step : Step σ) : List TextTree → Context σ → Context σ
  | [], context => context
  | tree :: rest, context => traverseAll step rest (traverse step tree context)

end

structure Arrival (σ : Type) where
  node : TextTree
  context : Context σ

mutual

/-- The arrivals of a traversal, in the order in which they happen. -/
def arrivals (step : Step σ) : TextTree → Context σ → List (Arrival σ)
  | .node kind field named label children, context =>
    let here : TextTree := .node kind field named label children
    ⟨here, context⟩ :: arrivalsAll step children (step here context).1

def arrivalsAll (step : Step σ) : List TextTree → Context σ → List (Arrival σ)
  | [], _ => []
  | tree :: rest, context =>
    arrivals step tree context ++ arrivalsAll step rest (traverse step tree context)

end

theorem traverse_eq (step : Step σ) (tree : TextTree) (context : Context σ) :
    traverse step tree context =
      (traverseAll step tree.children (step tree context).1).close (step tree context).2 := by
  cases tree
  rfl

theorem arrivals_eq (step : Step σ) (tree : TextTree) (context : Context σ) :
    arrivals step tree context =
      ⟨tree, context⟩ :: arrivalsAll step tree.children (step tree context).1 := by
  cases tree
  rfl

theorem arrivals_nodes (step : Step σ) :
    (∀ tree context, (arrivals step tree context).map (·.node) = Tree.preorder tree) ∧
      ∀ trees context, (arrivalsAll step trees context).map (·.node) = Tree.preorderAll trees := by
  refine Tree.forestInduction ?_ ?_ ?_
  · intro tree below context
    rw [arrivals_eq, Tree.preorder_eq, List.map_cons, below]
  · intro context
    rfl
  · intro tree rest here later context
    rw [arrivalsAll, List.map_append, here, later, Tree.preorderAll]

/-- A traversal comes to every node once, in document order. -/
theorem map_node_arrivals (step : Step σ) (tree : TextTree) (context : Context σ) :
    (arrivals step tree context).map (·.node) = tree.preorder :=
  (arrivals_nodes step).1 tree context

section Lockstep

variable {one : Step σ} {two : Step τ} {Agree : Context σ → Context τ → Prop}

theorem lockstep
    (steps : ∀ node left right, Agree left right →
      Agree (one node left).1 (two node right).1 ∧ (one node left).2 = (two node right).2)
    (leaves : ∀ left right, Agree left right → Agree left.leave right.leave) :
    (∀ tree left right, Agree left right →
      Agree (traverse one tree left) (traverse two tree right) ∧
      List.Forall₂ (fun a b => a.node = b.node ∧ Agree a.context b.context)
        (arrivals one tree left) (arrivals two tree right)) ∧
    ∀ trees left right, Agree left right →
      Agree (traverseAll one trees left) (traverseAll two trees right) ∧
      List.Forall₂ (fun a b => a.node = b.node ∧ Agree a.context b.context)
        (arrivalsAll one trees left) (arrivalsAll two trees right) := by
  refine Tree.forestInduction ?_ ?_ ?_
  · intro tree below left right agree
    obtain ⟨inside, opened⟩ := steps tree left right agree
    obtain ⟨after, arrived⟩ := below _ _ inside
    rw [traverse_eq, traverse_eq, arrivals_eq, arrivals_eq, opened]
    refine ⟨?_, .cons ⟨rfl, agree⟩ arrived⟩
    cases (two tree right).2 with
    | nothing => exact after
    | scope => exact leaves _ _ after
  · intro left right agree
    exact ⟨agree, .nil⟩
  · intro tree rest here later left right agree
    obtain ⟨between, first⟩ := here left right agree
    obtain ⟨after, others⟩ := later _ _ between
    exact ⟨after, List.rel_append first others⟩

/-- Two traversals whose steps, and the closing of a scope, keep up a relation between their
contexts come to the same nodes in contexts that are so related. -/
theorem arrivals_lockstep
    (steps : ∀ node left right, Agree left right →
      Agree (one node left).1 (two node right).1 ∧ (one node left).2 = (two node right).2)
    (leaves : ∀ left right, Agree left right → Agree left.leave right.leave)
    (tree : TextTree) (left : Context σ) (right : Context τ) (agree : Agree left right) :
    List.Forall₂ (fun a b => a.node = b.node ∧ Agree a.context b.context)
      (arrivals one tree left) (arrivals two tree right) :=
  ((lockstep steps leaves).1 tree left right agree).2

end Lockstep

section Restoring

variable {step : Step σ}

/-- A step opens at most the one scope it reports, and closes none. -/
def Balanced (step : Step σ) : Prop :=
  ∀ node context, ((step node context).1.close (step node context).2).owners = context.owners

theorem owners_close_congr {left right : Context σ} (same : left.owners = right.owners)
    (opened : Opened) : (left.close opened).owners = (right.close opened).owners := by
  cases opened with
  | nothing => exact same
  | scope => exact congrArg List.tail same

theorem balanced_restores (balanced : Balanced step) :
    (∀ tree context, (traverse step tree context).owners = context.owners) ∧
      ∀ trees context, (traverseAll step trees context).owners = context.owners := by
  refine Tree.forestInduction ?_ ?_ ?_
  · intro tree below context
    rw [traverse_eq, owners_close_congr (below _), balanced]
  · intro context
    rfl
  · intro tree rest here later context
    rw [traverseAll, later, here]

/-- Leaving a node restores the scopes that were open before it. -/
theorem owners_traverse (balanced : Balanced step) (tree : TextTree) (context : Context σ) :
    (traverse step tree context).owners = context.owners :=
  (balanced_restores balanced).1 tree context

end Restoring

section Growing

variable {α : Type} {step : Step σ} {log : σ → List α} {added : Arrival σ → List α}

theorem gathered_close (context : Context σ) (opened : Opened) :
    (context.close opened).gathered = context.gathered := by
  cases opened <;> rfl

/-- A step adds to what `log` shows, and changes none of it. -/
def Grows (step : Step σ) (log : σ → List α) (added : Arrival σ → List α) : Prop :=
  ∀ node context,
    log (step node context).1.gathered = log context.gathered ++ added ⟨node, context⟩

theorem log_grows (grows : Grows step log added) :
    (∀ tree context, log (traverse step tree context).gathered =
      log context.gathered ++ (arrivals step tree context).flatMap added) ∧
    ∀ trees context, log (traverseAll step trees context).gathered =
      log context.gathered ++ (arrivalsAll step trees context).flatMap added := by
  refine Tree.forestInduction ?_ ?_ ?_
  · intro tree below context
    rw [traverse_eq, gathered_close, below, grows, arrivals_eq, List.flatMap_cons,
      List.append_assoc]
  · intro context
    simp [traverseAll, arrivalsAll]
  · intro tree rest here later context
    rw [traverseAll, later, here, arrivalsAll, List.flatMap_append, List.append_assoc]

/-- What a step only adds to ends up as all that was added, arrival by arrival. -/
theorem log_traverse (grows : Grows step log added) (tree : TextTree) (context : Context σ) :
    log (traverse step tree context).gathered =
      log context.gathered ++ (arrivals step tree context).flatMap added :=
  (log_grows grows).1 tree context

theorem log_earlier (grows : Grows step log added) :
    (∀ tree context, ∀ arrival ∈ arrivals step tree context,
      log arrival.context.gathered <+: log (traverse step tree context).gathered) ∧
    ∀ trees context, ∀ arrival ∈ arrivalsAll step trees context,
      log arrival.context.gathered <+: log (traverseAll step trees context).gathered := by
  refine Tree.forestInduction ?_ ?_ ?_
  · intro tree below context arrival member
    rw [arrivals_eq] at member
    rcases List.mem_cons.mp member with rfl | member
    · rw [log_traverse grows]
      exact List.prefix_append _ _
    · rw [traverse_eq, gathered_close]
      exact below _ arrival member
  · intro context arrival member
    cases member
  · intro tree rest here later context arrival member
    rcases List.mem_append.mp member with first | others
    · refine (here context arrival first).trans ?_
      rw [traverseAll, (log_grows grows).2]
      exact List.prefix_append _ _
    · exact later _ arrival others

/-- What was there when the traversal came to a node is still there, in front, at the end. -/
theorem log_arrival_front (grows : Grows step log added) {tree : TextTree}
    {context : Context σ} {arrival : Arrival σ}
    (member : arrival ∈ arrivals step tree context) :
    log arrival.context.gathered <+: log (traverse step tree context).gathered :=
  (log_earlier grows).1 tree context arrival member

end Growing

section Visiting

variable {opens : TextTree → Option (Option String)} {sets : TextTree → Option String}
  {act : σ → Visit → σ}

/-- Acts on the node where it stands, then opens the scope that the node has for those below it. -/
def lexicalStep (opens : TextTree → Option (Option String)) (act : σ → Visit → σ) : Step σ :=
  fun node context =>
    let acted := { context with gathered := act context.gathered ⟨context.owner, node⟩ }
    match opens node with
    | some name => acted.enter name
    | none => (acted, .nothing)

/-- Acts on the node where it stands, then sets the owner for everything after it. -/
def flatStep (sets : TextTree → Option String) (act : σ → Visit → σ) : Step σ :=
  fun node context =>
    let acted := { context with gathered := act context.gathered ⟨context.owner, node⟩ }
    match sets node with
    | some name => (acted.replace name, .nothing)
    | none => (acted, .nothing)

theorem balanced_lexicalStep : Balanced (lexicalStep opens act) := by
  intro node context
  unfold lexicalStep
  cases opens node <;> rfl

theorem owner_lexicalStep (node : TextTree) (context : Context σ) :
    (lexicalStep opens act node context).1.owner = (opens node).getD context.owner := by
  unfold lexicalStep
  cases opens node <;> rfl

theorem gathered_lexicalStep (node : TextTree) (context : Context σ) :
    (lexicalStep opens act node context).1.gathered =
      act context.gathered ⟨context.owner, node⟩ := by
  unfold lexicalStep
  cases opens node <;> rfl

theorem owner_congr {left right : Context σ} (same : left.owners = right.owners) :
    left.owner = right.owner := by
  rw [Context.owner, Context.owner, same]

theorem lexical_visits :
    (∀ tree context, (traverse (lexicalStep opens act) tree context).gathered =
      (Scoping.lexicalVisits opens context.owner tree).foldl act context.gathered) ∧
    ∀ trees context, (traverseAll (lexicalStep opens act) trees context).gathered =
      (Scoping.lexicalVisitsAll opens context.owner trees).foldl act context.gathered := by
  refine Tree.forestInduction ?_ ?_ ?_
  · intro tree below context
    rw [traverse_eq, gathered_close, below, owner_lexicalStep, gathered_lexicalStep]
    cases tree
    rfl
  · intro context
    rfl
  · intro tree rest here later context
    -- the scopes are as before `tree`, so its siblings are visited in the same one
    have restored : (traverse (lexicalStep opens act) tree context).owner = context.owner :=
      owner_congr (owners_traverse balanced_lexicalStep tree context)
    rw [traverseAll, later, here, restored, Scoping.lexicalVisitsAll, List.foldl_append]

/-- A traversal with a stack of scopes visits each node with the owner that lexical scoping
gives it. -/
theorem gathered_traverse_lexical (tree : TextTree) (context : Context σ) :
    (traverse (lexicalStep opens act) tree context).gathered =
      (Scoping.lexicalVisits opens context.owner tree).foldl act context.gathered :=
  lexical_visits.1 tree context

def ownerAfter (sets : TextTree → Option String) (owner : Option String)
    (nodes : List TextTree) : Option String :=
  nodes.foldl (fun owner node => sets node <|> owner) owner

theorem flatVisits_append (owner : Option String) (before after : List TextTree) :
    Scoping.flatVisits sets owner (before ++ after) =
      Scoping.flatVisits sets owner before ++
        Scoping.flatVisits sets (ownerAfter sets owner before) after := by
  induction before generalizing owner with
  | nil => rfl
  | cons node rest ih =>
    simp only [List.cons_append, Scoping.flatVisits, ih]
    rfl

theorem owner_flatStep (node : TextTree) (context : Context σ) :
    (flatStep sets act node context).1.owner = (sets node <|> context.owner) := by
  unfold flatStep
  cases sets node <;> rfl

theorem gathered_flatStep (node : TextTree) (context : Context σ) :
    (flatStep sets act node context).1.gathered =
      act context.gathered ⟨context.owner, node⟩ := by
  unfold flatStep
  cases sets node <;> rfl

theorem opened_flatStep (node : TextTree) (context : Context σ) :
    (flatStep sets act node context).2 = .nothing := by
  unfold flatStep
  cases sets node <;> rfl

theorem flat_visits :
    (∀ tree context,
      (traverse (flatStep sets act) tree context).owner =
        ownerAfter sets context.owner (Tree.preorder tree) ∧
      (traverse (flatStep sets act) tree context).gathered =
        (Scoping.flatVisits sets context.owner (Tree.preorder tree)).foldl act
          context.gathered) ∧
    ∀ trees context,
      (traverseAll (flatStep sets act) trees context).owner =
        ownerAfter sets context.owner (Tree.preorderAll trees) ∧
      (traverseAll (flatStep sets act) trees context).gathered =
        (Scoping.flatVisits sets context.owner (Tree.preorderAll trees)).foldl act
          context.gathered := by
  refine Tree.forestInduction ?_ ?_ ?_
  · intro tree below context
    rw [traverse_eq, opened_flatStep, Tree.preorder_eq]
    obtain ⟨owner, gathered⟩ := below (flatStep sets act tree context).1
    rw [owner_flatStep] at owner gathered
    rw [gathered_flatStep] at gathered
    exact ⟨owner, gathered⟩
  · intro context
    exact ⟨rfl, rfl⟩
  · intro tree rest here later context
    obtain ⟨owner, gathered⟩ := here context
    obtain ⟨lastOwner, allGathered⟩ := later (traverse (flatStep sets act) tree context)
    rw [owner] at lastOwner allGathered
    rw [gathered] at allGathered
    rw [traverseAll, Tree.preorderAll, flatVisits_append, List.foldl_append]
    refine ⟨?_, allGathered⟩
    rw [lastOwner, ownerAfter, ownerAfter, ownerAfter, List.foldl_append]

/-- A traversal that replaces its one scope visits each node with the owner set last. -/
theorem gathered_traverse_flat (tree : TextTree) (context : Context σ) :
    (traverse (flatStep sets act) tree context).gathered =
      (Scoping.flatVisits sets context.owner tree.preorder).foldl act context.gathered :=
  (flat_visits.1 tree context).2

end Visiting

end CallAtlas.Traversal
