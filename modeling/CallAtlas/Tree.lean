/-!
Concrete syntax trees. A node has a kind, the field under which its parent holds it, a
mark that tells named nodes from bare tokens, a label and its children in document
order. Parsers label nodes with spans of the source; the passes over a tree read it
with the text of each span as label.
-/
namespace CallAtlas

/-- A syntax tree with labels of type `α`. -/
inductive Tree (α : Type) where
  | node (kind : String) (field : Option String) (named : Bool) (label : α)
      (children : List (Tree α))
  deriving Repr

namespace Tree

variable {α β : Type}

def kind : Tree α → String
  | node kind .. => kind

/-- The field under which the parent holds this node. -/
def field : Tree α → Option String
  | node _ field .. => field

def named : Tree α → Bool
  | node _ _ named .. => named

def label : Tree α → α
  | node _ _ _ label _ => label

def children : Tree α → List (Tree α)
  | node _ _ _ _ children => children

mutual

/-- The tree of the same shape with other labels. -/
def map (f : α → β) : Tree α → Tree β
  | node kind field named label children => node kind field named (f label) (mapAll f children)

def mapAll (f : α → β) : List (Tree α) → List (Tree β)
  | [] => []
  | tree :: rest => map f tree :: mapAll f rest

end

mutual

/-- The node and all nodes below it, in document order. -/
def preorder : Tree α → List (Tree α)
  | node kind field named label children =>
    node kind field named label children :: preorderAll children

def preorderAll : List (Tree α) → List (Tree α)
  | [] => []
  | tree :: rest => preorder tree ++ preorderAll rest

end

def child? (tree : Tree α) (name : String) : Option (Tree α) :=
  tree.children.find? (·.field == some name)

def childrenUnder (tree : Tree α) (name : String) : List (Tree α) :=
  tree.children.filter (·.field == some name)

/-- The first child that is not a bare token. -/
def firstNamed? (tree : Tree α) : Option (Tree α) :=
  tree.children.find? (·.named)

/-- How to go down from a node to the one it is about: past nodes that only wrap it, into
the child under a field or, failing that, into the first named child. -/
structure Descent where
  /-- Kinds at which the descent has arrived. -/
  goal : String → Bool
  /-- Kinds it goes past. -/
  wrapper : String → Bool
  /-- The field it prefers. -/
  into : Option String
  /-- Whether the first named child will do. -/
  orNamed : Bool

mutual

/-- The node at which a descent arrives, if it does. -/
def descend (way : Descent) : Tree α → Option (Tree α)
  | node kind field named label children =>
    if way.goal kind then some (node kind field named label children)
    else if way.wrapper kind then
      match descendField way children with
      | some arrived => arrived
      | none => if way.orNamed then descendNamed way children else none
    else none

/-- Where the descent arrives through the first child under the preferred field; `none` if
there is no such child. -/
def descendField (way : Descent) : List (Tree α) → Option (Option (Tree α))
  | [] => none
  | tree :: rest =>
    if way.into.isSome && tree.field == way.into then some (descend way tree)
    else descendField way rest

def descendNamed (way : Descent) : List (Tree α) → Option (Tree α)
  | [] => none
  | tree :: rest => if tree.named then descend way tree else descendNamed way rest

end

/-- One step of a descent. -/
theorem descend_node (way : Descent) (tree : Tree α) :
    tree.descend way =
      if way.goal tree.kind then some tree
      else if way.wrapper tree.kind then
        match descendField way tree.children with
        | some arrived => arrived
        | none => if way.orNamed then descendNamed way tree.children else none
      else none := by
  cases tree
  rfl

end Tree

/-- A tree whose nodes carry the text they stand for. -/
abbrev TextTree := Tree String

namespace Tree

abbrev text (tree : TextTree) : String := tree.label

def childText? (tree : TextTree) (name : String) : Option String :=
  (tree.child? name).map text

end Tree

end CallAtlas
