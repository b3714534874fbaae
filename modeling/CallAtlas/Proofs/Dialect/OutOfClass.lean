import CallAtlas.Dialect.Cpp
import CallAtlas.Proofs.Dialect.CallPass
import CallAtlas.Proofs.Dialect.Scope
/-!
Where the two passes of C++ part. The body of `Owner::f` is a scope of `Owner` for resolving
calls but not for naming definitions. A function that is declared inside such a body by a
plain name `g` is therefore `Owner.g` as a caller, and `g`, or a member of the class around
the body, as a definition. Nowhere else do the passes give a function two names
(`scopes_agree_or`), so a caller is missing from the definitions of its file exactly when
such a declaration makes a call and nothing else in the file has its name.
-/
namespace CallAtlas.Dialect.Cpp

/-- The nearest scope around a node is the body of a definition written with an owner. What is
further out than this definition is `outer`. -/
def InBodyOf (owner : String) (ancestors outer : List TextTree) : Prop :=
  ∃ inner definition, ancestors = inner ++ definition :: outer ∧
    (∀ node ∈ inner, opensBody node = none) ∧
    definition.kind = "function_definition" ∧ writtenOwner? definition = some owner

/-- A function with a plain name in a body that is not of the class around it. -/
structure Stray (place : Tree.Place String) (owner name : String) : Prop where
  plain : function? place.node = some ⟨.enclosing, name⟩
  outside : ∃ outer, InBodyOf owner place.ancestors outer ∧ enclosing opensClass outer ≠ some owner

theorem opensBody_of_owner {node : TextTree} (owner : isOwnerKind node.kind = true) :
    opensBody node = opensClass node := by
  simp [opensBody, opensClass, owner]

theorem opensClass_of_definition {node : TextTree} (kind : node.kind = "function_definition") :
    opensClass node = none := by
  simp [opensClass, isOwnerKind, kind]

theorem opensBody_of_written {node : TextTree} {owner : String}
    (kind : node.kind = "function_definition") (written : writtenOwner? node = some owner) :
    opensBody node = some (some owner) := by
  simp [opensBody, isOwnerKind, kind, written]

theorem opensClass_eq_none {node : TextTree} (closed : opensBody node = none) :
    opensClass node = none := by
  unfold opensBody at closed
  unfold opensClass
  split at closed
  · cases closed
  · next other => rw [if_neg other]

theorem enclosing_append {opens : TextTree → Option (Option String)} {inner : List TextTree}
    (closed : ∀ node ∈ inner, opens node = none) (outer : List TextTree) :
    enclosing opens (inner ++ outer) = enclosing opens outer := by
  rw [enclosing, List.findSome?_append, List.findSome?_eq_none_iff.mpr closed]
  rfl

/-- In the body of `Owner::f` the call pass is in the scope of `Owner`, and the definition pass
where it was outside. -/
theorem InBodyOf.scopes {owner : String} {ancestors outer : List TextTree}
    (within : InBodyOf owner ancestors outer) :
    enclosing opensBody ancestors = some owner ∧
      enclosing opensClass ancestors = enclosing opensClass outer := by
  obtain ⟨inner, definition, rfl, closed, kind, written⟩ := within
  constructor
  · rw [enclosing_append closed, enclosing_cons, opensBody_of_written kind written]
    rfl
  · rw [enclosing_append fun node among => opensClass_eq_none (closed node among), enclosing_cons,
      opensClass_of_definition kind]
    rfl

/-- The passes are in the same scope, unless the nearest one is a body of another owner. -/
theorem scopes_agree_or (ancestors : List TextTree) :
    enclosing opensBody ancestors = enclosing opensClass ancestors ∨
      ∃ owner outer, InBodyOf owner ancestors outer ∧ enclosing opensClass outer ≠ some owner := by
  induction ancestors with
  | nil => exact .inl rfl
  | cons node rest ih =>
    by_cases owns : isOwnerKind node.kind = true
    · left
      rw [enclosing_cons, enclosing_cons, opensBody_of_owner owns]
      simp [opensClass, owns]
    cases opened : opensBody node with
    | none =>
      rw [enclosing_cons, enclosing_cons, opened, opensClass_eq_none opened]
      refine ih.imp id ?_
      rintro ⟨owner, outer, ⟨inner, definition, rfl, closed, body⟩, other⟩
      refine ⟨owner, outer, ⟨node :: inner, definition, rfl, ?_, body⟩, other⟩
      exact List.forall_mem_cons.mpr ⟨opened, closed⟩
    | some scope =>
      have body : node.kind = "function_definition" ∧ (writtenOwner? node).map some = some scope := by
        rw [opensBody, if_neg owns] at opened
        split at opened
        · next kind => exact ⟨kind, opened⟩
        · cases opened
      obtain ⟨kind, written⟩ := body
      obtain ⟨owner, written, -⟩ := Option.map_eq_some_iff.mp written
      have within : InBodyOf owner (node :: rest) rest :=
        ⟨[], node, rfl, by simp, kind, written⟩
      by_cases same : enclosing opensClass rest = some owner
      · left
        rw [within.scopes.1, within.scopes.2, same]
      · exact .inr ⟨owner, rest, within, same⟩

/-- Calls are found at a later place, and no other function is introduced on the way there. -/
def CallsFrom (known : Knowledge) (tree : TextTree) (place : Tree.Place String) : Prop :=
  ∃ before between site rest,
    tree.places = before ++ place :: between ++ site :: rest ∧
    (∀ passed ∈ between, function? passed.node = none) ∧
    cpp.callsAt known ((before ++ place :: between).map (visitAt opensBody))
      (visitAt opensBody site) ≠ []

theorem sites_of_function {node : TextTree} {function : FunctionName}
    (introduced : function? node = some function) : sites node = [] := by
  unfold function? at introduced
  split at introduced
  · next kind => simp [sites, kind]
  · cases introduced

def callerAt? (place : Tree.Place String) : Option String :=
  (function? place.node).map (·.id (enclosing opensBody place.ancestors))

/-- A node that makes calls introduces no function, so the caller stands strictly before it. -/
theorem caller_before_site {known : Knowledge} {before : List (Tree.Place String)}
    {site : Tree.Place String} {call : Call}
    (found : call ∈ cpp.callsAt known (before.map (visitAt opensBody)) (visitAt opensBody site)) :
    (before.filterMap callerAt?).getLast? = some call.caller := by
  have silent : callerAt? site = none := by
    unfold callerAt?
    cases here : function? site.node with
    | none => rfl
    | some function =>
      rw [cpp.callsAt_eq_nil known _ (sites_of_function here)] at found
      cases found
  have outgoing := (cpp.caller_of_mem_callsAt known found).1
  rw [← List.map_singleton, ← List.map_append, List.filterMap_map,
    show cpp.entered? ∘ visitAt opensBody = callerAt? from rfl, List.filterMap_append] at outgoing
  simpa [silent] using outgoing

/-- The functions that make calls, by the names they have as callers. -/
theorem exists_caller_iff (known : Knowledge) (tree : TextTree) (id : String) :
    (∃ call ∈ cpp.calls known tree, call.caller = id) ↔
      ∃ place, CallsFrom known tree place ∧ callerAt? place = some id := by
  have visits : cpp.callScope.visits tree = tree.places.map (visitAt opensBody) :=
    visits_lexical opensBody tree
  constructor
  · rintro ⟨call, member, rfl⟩
    obtain ⟨early, visit, late, split, found⟩ := (cpp.mem_calls_iff known tree call).mp member
    rw [visits] at split
    obtain ⟨before, later, places, rfl, onward⟩ := List.map_eq_append_iff.mp split
    obtain ⟨site, rest, rfl, rfl, -⟩ := List.map_eq_cons_iff.mp onward
    obtain ⟨first, place, between, rfl, caller, passed⟩ :=
      getLast?_filterMap_eq_some_iff.mp (caller_before_site found)
    refine ⟨place, ⟨first, between, site, rest, places, ?_, List.ne_nil_of_mem found⟩, caller⟩
    intro other among
    exact Option.map_eq_none_iff.mp (passed other among)
  · rintro ⟨place, ⟨before, between, site, rest, places, passed, some_calls⟩, caller⟩
    obtain ⟨call, found⟩ := List.exists_mem_of_ne_nil _ some_calls
    refine ⟨call, (cpp.mem_calls_iff known tree call).mpr ?_, ?_⟩
    · refine ⟨_, _, rest.map (visitAt opensBody), ?_, found⟩
      rw [visits, places, List.map_append]
      rfl
    · have silent : ∀ other ∈ between, callerAt? other = none := by
        intro other among
        rw [callerAt?, passed other among]
        rfl
      have final := getLast?_filterMap_eq_some_iff.mpr ⟨before, place, between, rfl, caller, silent⟩
      rw [caller_before_site found, Option.some.injEq] at final
      exact final

def registeredAt? (file : String) (place : Tree.Place String) : Option Definition :=
  (function? place.node).map (·.definition (enclosing opensClass place.ancestors) file)

theorem definitions_eq_registered (tree : TextTree) (file : String) :
    cpp.definitions tree file = tree.places.filterMap (registeredAt? file) := by
  rw [definitions, show cpp.definitionScope = .lexical opensClass from rfl, visits_lexical,
    List.filterMap_map]
  rfl

theorem exists_definition_iff (tree : TextTree) (file id : String) :
    (∃ definition ∈ cpp.definitions tree file, definition.id = id) ↔
      ∃ place ∈ tree.places, ∃ function, function? place.node = some function ∧
        function.id (enclosing opensClass place.ancestors) = id := by
  rw [definitions_eq_registered]
  constructor
  · rintro ⟨definition, member, rfl⟩
    obtain ⟨place, among, made⟩ := List.mem_filterMap.mp member
    obtain ⟨function, here, rfl⟩ := Option.map_eq_some_iff.mp made
    exact ⟨place, among, function, here, rfl⟩
  · rintro ⟨place, among, function, here, rfl⟩
    exact ⟨_, List.mem_filterMap.mpr ⟨place, among, by rw [registeredAt?, here]; rfl⟩, rfl⟩

/-- Every caller in a file is defined there exactly when each stray function that makes a call
has its caller's name by some other definition of the file. -/
theorem callers_defined_iff_no_stray (tree : TextTree) (file : String) (table : SymbolTable) :
    (∀ call ∈ cpp.calls table.knowledge tree,
        ∃ definition ∈ cpp.definitions tree file, definition.id = call.caller) ↔
      ∀ place owner name, Stray place owner name → CallsFrom table.knowledge tree place →
        ∃ definition ∈ cpp.definitions tree file, definition.id = qualify (some owner) name := by
  constructor
  · intro defined place owner name stray calls
    obtain ⟨outer, within, -⟩ := stray.outside
    have caller : callerAt? place = some (qualify (some owner) name) := by
      rw [callerAt?, stray.plain, within.scopes.1]
      rfl
    obtain ⟨call, member, name⟩ :=
      (exists_caller_iff table.knowledge tree _).mpr ⟨place, calls, caller⟩
    rw [← name]
    exact defined call member
  · intro strays call member
    obtain ⟨place, calls, caller⟩ :=
      (exists_caller_iff table.knowledge tree _).mp ⟨call, member, rfl⟩
    obtain ⟨function, here, caller⟩ := Option.map_eq_some_iff.mp caller
    rw [← caller]
    have among : place ∈ tree.places := by
      obtain ⟨before, between, site, rest, places, -⟩ := calls
      simp [places]
    rcases function with ⟨_ | _ | owner, name⟩
    · rcases scopes_agree_or place.ancestors with agree | ⟨owner, outer, within, other⟩
      · rw [agree]
        exact (exists_definition_iff tree file _).mpr ⟨place, among, _, here, rfl⟩
      · rw [within.scopes.1]
        exact strays place owner name ⟨here, outer, within, other⟩ calls
    all_goals exact (exists_definition_iff tree file _).mpr ⟨place, among, _, here, rfl⟩

/-- `void B::h() {}` and `void A::f() { void g(); B::h(); }`, without punctuation. -/
def prototypeInBody : TextTree :=
  .node "translation_unit" none true "" [
    .node "function_definition" none true "void B::h() {}" [
      .node "function_declarator" (some "declarator") true "B::h()" [
        .node "qualified_identifier" (some "declarator") true "B::h" []]],
    .node "function_definition" none true "void A::f() { void g(); B::h(); }" [
      .node "function_declarator" (some "declarator") true "A::f()" [
        .node "qualified_identifier" (some "declarator") true "A::f" []],
      .node "compound_statement" (some "body") true "{ void g(); B::h(); }" [
        .node "declaration" none true "void g();" [
          .node "primitive_type" (some "type") true "void" [],
          .node "function_declarator" (some "declarator") true "g()" [
            .node "identifier" (some "declarator") true "g" []]],
        .node "expression_statement" none true "B::h();" [
          .node "call_expression" none true "B::h()" [
            .node "qualified_identifier" (some "function") true "B::h" []]]]]]

/-- The prototype is defined as `g` and calls as `A.g`, which is nowhere defined. -/
theorem prototypeInBody_strays :
    (cpp.definitions prototypeInBody "x.cpp").map (·.id) = ["B.h", "A.f", "g"] ∧
      ¬ ∀ call ∈ cpp.calls (SymbolTable.ofList (cpp.definitions prototypeInBody "x.cpp")).knowledge
          prototypeInBody,
        ∃ definition ∈ cpp.definitions prototypeInBody "x.cpp", definition.id = call.caller := by
  have ids : (cpp.definitions prototypeInBody "x.cpp").map (·.id) = ["B.h", "A.f", "g"] := by
    decide
  have calls (known : Knowledge) : cpp.calls known prototypeInBody = [⟨"A.g", "B.h"⟩] := rfl
  refine ⟨ids, fun defined => ?_⟩
  obtain ⟨definition, listed, id⟩ := defined ⟨"A.g", "B.h"⟩ (by rw [calls]; simp)
  have known := List.mem_map_of_mem (f := (·.id)) listed
  rw [ids, id] at known
  revert known
  decide

end CallAtlas.Dialect.Cpp
