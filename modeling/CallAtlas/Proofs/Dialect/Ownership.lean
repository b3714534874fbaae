import CallAtlas.Proofs.Dialect.Scope
import CallAtlas.Proofs.Dialect.Steps
import CallAtlas.Proofs.Text.Cut
/-!
Who owns what. The definition pass keeps a stack of scopes; here its result is read off the
tree without any state. A node that introduces a function gives one definition, owned by its
nearest ancestor of an owning kind. An ancestor without a name still counts as the nearest
one, and then the function has no owner.
-/
namespace CallAtlas

open Traversal Dialect

namespace Language

/-- The name of the nearest ancestor of an owning kind. -/
def nearestOwner (language : Language) (ancestors : List TextTree) : Option String :=
  (ancestors.find? fun node => node.kind ∈ language.kinds.owners).bind (·.childText? "name")

def definitionAt (language : Language) (file : String) (place : Tree.Place String) :
    Option Definition :=
  if place.node.kind ∈ language.kinds.members then
    (language.nameIn place.node).map fun (written, name) =>
      .ofName name (written <|> language.nearestOwner place.ancestors) file
  else if place.node.kind ∈ language.kinds.free then
    (language.nameIn place.node).map fun (_, name) => .ofName name none file
  else none

@[simp]
theorem enclosing_ownerIn (language : Language) (ancestors : List TextTree) :
    enclosing language.ownerIn ancestors = language.nearestOwner ancestors := by
  induction ancestors with
  | nil => rfl
  | cons node rest ih =>
    rw [enclosing_cons, ih, nearestOwner, nearestOwner, List.find?_cons, ownerIn]
    by_cases owner : node.kind ∈ language.kinds.owners <;> simp [owner]

theorem definition_written (written : Option String × String) (owner : Option String)
    (file : String) :
    (Language.written written).definition owner file =
      .ofName written.2 (written.1 <|> owner) file := by
  rcases written with ⟨_ | writtenOwner, name⟩ <;> rfl

/-- What a node introduces in the scope that lexical scoping gives it is what it gives where it
stands. -/
theorem definition_visitAt (language : Language) (file : String) (place : Tree.Place String) :
    (language.functionIn (visitAt language.ownerIn place).node).map
        (·.definition (visitAt language.ownerIn place).owner file) =
      language.definitionAt file place := by
  simp only [visitAt, enclosing_ownerIn, functionIn, definitionAt]
  split
  · rw [Option.map_map]
    congr 1
    funext written
    exact definition_written written _ file
  · split
    · rw [Option.map_map]
      rfl
    · rfl

/-- Go has no members, and a JavaScript function declaration is none. -/
theorem owner_definitionAt_free {language : Language} {file : String} {place : Tree.Place String}
    {definition : Definition}
    (free : language = .go ∨ language = .javaScript ∧ place.node.kind = "function_declaration")
    (given : language.definitionAt file place = some definition) : definition.owner = none := by
  have no_member : place.node.kind ∉ language.kinds.members := by
    rcases free with rfl | ⟨rfl, kind⟩
    · exact List.not_mem_nil
    · rw [kind]
      decide
  rw [definitionAt, if_neg no_member] at given
  split at given
  · obtain ⟨name, -, rfl⟩ := Option.map_eq_some_iff.mp given
    rfl
  · cases given

/-- A declarator gives the function that its path names. -/
theorem definitionAt_cpp {place : Tree.Place String} {path : TextTree} (file : String)
    (kind : place.node.kind = "function_declarator")
    (named : place.node.children.find? (Cpp.isNameKind ·.kind) = some path) :
    cpp.definitionAt file place = some (.ofName (Cpp.splitPath path.text).2
      ((Cpp.splitPath path.text).1 <|> cpp.nearestOwner place.ancestors) file) := by
  have member : place.node.kind ∈ cpp.kinds.members := by
    rw [kind]
    decide
  rw [definitionAt, if_pos member, nameIn, named]
  rfl

end Language

/-- The definitions of a file, told from its tree alone. -/
structure OwnedByAncestry (language : Language) (tree : TextTree) (file : String) : Prop where
  /-- The places of a tree are all its nodes, each once, in document order. -/
  order : tree.InDocumentOrder tree.places
  /-- Every place that gives a definition gives one, and there are no others. -/
  definitions : language.dialect.definitions tree file =
    tree.places.filterMap (language.definitionAt file)
  /-- Go functions and JavaScript function declarations have no owner. -/
  free : ∀ place definition,
    (language = .go ∨ language = .javaScript ∧ place.node.kind = "function_declaration") →
      language.definitionAt file place = some definition → definition.owner = none
  /-- A C++ declarator written `Owner::name` takes that owner, and any other one the nearest. -/
  written : ∀ place path, language = .cpp → place.node.kind = "function_declarator" →
    place.node.children.find? (Cpp.isNameKind ·.kind) = some path →
      (∀ owner name, Cpp.WrittenUnder path.text owner name →
        language.definitionAt file place = some (.ofName name (some owner) file)) ∧
      ((∀ owner name, ¬ Cpp.WrittenUnder path.text owner name) →
        (language.definitionAt file place).map (·.owner) =
          some (language.nearestOwner place.ancestors))
  /-- These are what the traversal with a stack of scopes finds. -/
  walked : (language.definitionWalk file tree).gathered = language.dialect.definitions tree file
  /-- Leaving a node restores the scopes that were open before it. -/
  restored : ∀ node context,
    (traverse (language.definitionStep file) node context).owners = context.owners

/-- In every language with nested scopes, functions belong to their nearest owning ancestor. -/
theorem definitions_by_ancestry (language : Language) (lexical : language ≠ .c)
    (tree : TextTree) (file : String) : OwnedByAncestry language tree file where
  order := tree.places_inDocumentOrder
  definitions := by
    rw [Dialect.definitions, language.definitionScope_eq lexical, visits_lexical,
      List.filterMap_map]
    simp only [Language.function?_eq, Function.comp_def, Language.definition_visitAt]
  free place definition free given := Language.owner_definitionAt_free free given
  written place path cpp kind named := by
    subst cpp
    rw [Language.definitionAt_cpp file kind named]
    constructor
    · intro owner name is_path
      rw [(Cpp.splitPath_eq_some_iff _ _ _).mpr is_path]
      rfl
    · intro unwritten
      have ownerless : (Cpp.splitPath path.text).1 = none := by
        rw [Option.eq_none_iff_forall_ne_some]
        intro owner written
        exact unwritten owner _ ((Cpp.splitPath_eq_some_iff _ _ _).mp (Prod.ext written rfl))
      rw [ownerless]
      rfl
  walked := language.gathered_definitionWalk file tree
  restored node context := by
    rw [definitionStep_eq lexical]
    exact owners_traverse balanced_lexicalStep node context

/-- `class A { struct { void f(); }; void g(); };` and `void A::h();`, without punctuation. -/
def unnamedInside : TextTree :=
  .node "translation_unit" none true "" [
    .node "class_specifier" none true "class A { struct { void f(); }; void g(); }" [
      .node "type_identifier" (some "name") true "A" [],
      .node "struct_specifier" none true "struct { void f(); }" [
        .node "function_declarator" none true "f()" [
          .node "field_identifier" (some "declarator") true "f" []]],
      .node "function_declarator" none true "g()" [
        .node "field_identifier" (some "declarator") true "g" []]],
    .node "function_declarator" none true "A::h()" [
      .node "qualified_identifier" (some "declarator") true "A::h" []]]

/-- The struct without a name hides the class, and leaving it brings the class back. -/
theorem unnamedInside_owned : Language.cpp ≠ .c ∧
    Language.cpp.dialect.definitions unnamedInside "a.cpp" =
      [⟨"f", none, "a.cpp"⟩, ⟨"A.g", some "A", "a.cpp"⟩, ⟨"A.h", some "A", "a.cpp"⟩] ∧
    OwnedByAncestry .cpp unnamedInside "a.cpp" :=
  ⟨by decide, by decide, definitions_by_ancestry .cpp (by decide) unnamedInside "a.cpp"⟩

end CallAtlas
