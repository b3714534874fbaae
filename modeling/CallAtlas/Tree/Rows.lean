import CallAtlas.Tree
import CallAtlas.Text.Span
/-!
Trees written as rows in document order. Each row gives the depth of its node; the
children of a node are the rows one deeper that follow it, up to the next row that is
not deeper than the node itself.
-/
namespace CallAtlas.Tree

open Text (Span)

/-- One node of a tree, without its children. -/
structure Row where
  depth : Nat
  kind : String
  field : Option String
  span : Span
  named : Bool
  deriving DecidableEq, Repr

/-- Puts a row in front of the trees that follow it: those that are deeper, up to the first
that is not, become its children. -/
def placeRow (row : Row) (following : List (Nat × Tree Span)) : List (Nat × Tree Span) :=
  let (below, after) := following.span (row.depth < ·.1)
  (row.depth, node row.kind row.field row.named row.span (below.map (·.2))) :: after

/-- A node without kind, text or children: what an empty list of rows stands for. -/
def blank : Tree Span := node "" none true ⟨0, 0⟩ []

def ofRows (rows : List Row) : Tree Span :=
  match rows.foldr placeRow [] with
  | (_, tree) :: _ => tree
  | [] => blank

/-- The tree with each span replaced by the text it covers in `source`. -/
def read (tree : Tree Span) (source : String) : TextTree :=
  let chars := source.toList
  tree.map fun span => span.text chars

end CallAtlas.Tree
