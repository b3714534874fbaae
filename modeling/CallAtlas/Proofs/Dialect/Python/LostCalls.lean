import CallAtlas.Proofs.Dialect.Python.Spacing
import CallAtlas.Proofs.SymbolTable.Consistency
/-!
Python calls that are lost to spacing. Where something stands around the dot of a call, the callee
has a gap in it, so it is not defined and the call is left out. `calls_lost_to_spacing` says that a
file makes the calls that its tree tells, without those, and when two spellings of one tree make the
same calls (`SpelledTwice`).
-/
namespace CallAtlas.Dialect.Python

open Text

/-- The call at a place, when this is what is called there. -/
def callOf (known : Knowledge) (tree : TextTree) (place : Tree.Place String)
    (called : Option (Option String × String)) : Option Call :=
  match called, Language.python.callerAt tree place with
  | some called, some caller =>
    let callee := Language.python.calleeAt known tree place called
    if !known.defines callee then none
    else if caller = callee then none
    else some ⟨caller, callee⟩
  | _, _ => none

def callByParts (known : Knowledge) (tree : TextTree) (place : Tree.Place String) : Option Call :=
  callOf known tree place (calledByParts? place.node)

section Calls

variable {tree : TextTree} {known : Knowledge}

/-- The pass finds at each place the call that the text tells there. -/
theorem calls_eq_callOf (known : Knowledge) (tree : TextTree) :
    Language.python.dialect.calls known tree =
      tree.places.filterMap fun place => callOf known tree place (called? place.node) := by
  have covered : Language.python ∈ Language.receiverStyle := by decide
  rw [calls_eq_flatMap_places _ _ (Language.scopes_eq covered), List.filterMap_eq_flatMap_toList]
  congr 1
  funext place
  exact Language.callsAt_eq_callAt covered known tree place

/-- The two readings differ only where an attribute is called. -/
theorem called?_eq_of_plain {node : TextTree} (plain : ∀ function, ¬ CallsAttribute node function) :
    called? node = calledByParts? node := by
  unfold calledByParts?
  cases held : node.child? "function" with
  | none =>
    unfold called?
    simp [Tree.childText?, held]
  | some function =>
    have other : ¬ (node.kind = "call" ∧ function.kind = "attribute") := by
      intro kinds
      obtain ⟨kind, dotted⟩ := kinds
      exact plain function ⟨kind, held, dotted⟩
    simp [other]

/-- A node that calls no attribute is not loose. -/
theorem isLoose_eq_false_of_plain {node : TextTree}
    (plain : ∀ function, ¬ CallsAttribute node function) : isLoose node = false := by
  unfold isLoose
  split
  · next function held =>
    split
    · by_cases calls : node.kind = "call" ∧ function.kind = "attribute"
      · exact absurd ⟨calls.1, held, calls.2⟩ (plain function)
      · rcases not_and_or.mp calls with other | other <;> simp [other]
    · rfl
  · rfl

/-- At a place the pass finds the call that the tree tells, and none if something stands around
the dot. -/
theorem callOf_called? (tidy : Tidy tree) (plain : ∀ id, known.defines id = true → Gapless id)
    {place : Tree.Place String} (listed : place ∈ tree.places) :
    callOf known tree place (called? place.node) =
      if isLoose place.node then none else callByParts known tree place := by
  by_cases dotted : ∃ function, CallsAttribute place.node function
  · obtain ⟨function, calls⟩ := dotted
    obtain ⟨receiver, before, after, method, spelled⟩ := tidy.attributes place listed function calls
    cases loose : isLoose place.node with
    | true =>
      obtain ⟨called, read, gapped⟩ := not_gapless_calleeAt tidy known listed calls spelled loose
      have unknown : known.defines (Language.python.calleeAt known tree place called) = false := by
        cases defined : known.defines (Language.python.calleeAt known tree place called) with
        | false => rfl
        | true => exact absurd (plain _ defined) gapped
      unfold callOf
      rw [read]
      cases Language.python.callerAt tree place with
      | none => rfl
      | some caller => simp [unknown]
    | false =>
      obtain ⟨close, tight⟩ := (spelled.isLoose_eq_false_iff calls).mp loose
      obtain ⟨front, back, read, -, parts, -⟩ := spelled.called? calls
      obtain ⟨rfl, rfl⟩ := parts tight
      subst close
      rw [String.append_empty, String.append_empty, String.empty_append] at read
      rw [read, callByParts, spelled.calledByParts? calls]
      rfl
  · have noneCalled : ∀ function, ¬ CallsAttribute place.node function :=
      fun function calls => dotted ⟨function, calls⟩
    rw [isLoose_eq_false_of_plain noneCalled, called?_eq_of_plain noneCalled]
    rfl

/-- Leaving out elements changes a list exactly if they would have been there. -/
theorem filterMap_unless_eq_iff {α β : Type} (leftOut : α → Bool) (f : α → Option β)
    (elements : List α) :
    elements.filterMap (fun element => if leftOut element then none else f element) =
        elements.filterMap f ↔
      ∀ element ∈ elements, leftOut element = true → f element = none := by
  induction elements with
  | nil => simp
  | cons element rest ih =>
    rw [List.filterMap_cons, List.filterMap_cons, List.forall_mem_cons, ← ih]
    have fewer : (rest.filterMap fun element => if leftOut element then none else f element).length
        ≤ (rest.filterMap f).length := by
      clear ih
      induction rest with
      | nil => simp
      | cons first more shorter =>
        rw [List.filterMap_cons, List.filterMap_cons]
        cases leftOut first <;> cases f first <;> simp <;> omega
    cases leftOut element with
    | false => cases f element <;> simp
    | true =>
      cases f element with
      | none => simp
      | some found =>
        simp only [if_true, reduceCtorEq, imp_false, not_true_eq_false, false_and, iff_false]
        intro same
        have length := congrArg List.length same
        rw [List.length_cons] at length
        omega

end Calls

section Spellings

/-- A tree in two spellings that may differ inside of called attributes, and in texts that are not
read by themselves. -/
structure SpelledTwice (twice : Tree (String × String)) : Prop where
  identifiers : ∀ place ∈ twice.places, place.node.kind = "identifier" →
    place.node.label.1 = place.node.label.2
  names : ∀ place ∈ twice.places,
    place.node.kind = "class_definition" ∨ place.node.kind = "function_definition" →
      ∀ name, place.node.child? "name" = some name → name.label.1 = name.label.2
  called : ∀ place ∈ twice.places, place.node.kind = "call" →
    ∀ function, place.node.child? "function" = some function →
      if function.kind = "attribute" then
        ∀ field ∈ ["object", "attribute"], ∀ part, function.child? field = some part →
          part.label.1 = part.label.2
      else function.label.1 = function.label.2

variable {twice : Tree (String × String)} {place : Tree.Place (String × String)}

theorem childText?_map_eq {node : Tree (String × String)} {field : String}
    (same : ∀ part, node.child? field = some part → part.label.1 = part.label.2) :
    (node.map Prod.fst).childText? field = (node.map Prod.snd).childText? field := by
  unfold Tree.childText?
  rw [Tree.child?_map, Tree.child?_map]
  cases held : node.child? field with
  | none => rfl
  | some part => simpa using same part held

theorem SpelledTwice.nearestOwner_eq (spelled : SpelledTwice twice) (listed : place ∈ twice.places) :
    Language.python.nearestOwner (place.map Prod.fst).ancestors =
      Language.python.nearestOwner (place.map Prod.snd).ancestors := by
  unfold Language.nearestOwner
  simp only [Tree.Place.map, List.find?_map, Function.comp_def, Tree.kind_map]
  cases found : place.ancestors.find? fun node => node.kind ∈ Language.python.kinds.owners with
  | none => rfl
  | some node =>
    have kind : node.kind = "class_definition" := by
      have kind := List.find?_some found
      simpa [Language.kinds] using kind
    obtain ⟨other, among, rfl⟩ :=
      Tree.exists_place_of_ancestor listed (List.mem_of_find?_eq_some found)
    exact childText?_map_eq (spelled.names other among (.inl kind))

theorem SpelledTwice.functionAt_eq (spelled : SpelledTwice twice) (listed : place ∈ twice.places) :
    Language.python.functionAt (place.map Prod.fst) =
      Language.python.functionAt (place.map Prod.snd) := by
  unfold Language.functionAt
  rw [spelled.nearestOwner_eq listed]
  simp only [Tree.Place.map, Tree.kind_map]
  split
  · next member =>
    have kind : place.node.kind = "function_definition" := by simpa [Language.kinds] using member
    rw [childText?_map_eq (spelled.names place listed (.inr kind))]
  · next other => simp [Language.kinds]

theorem SpelledTwice.callerAt_eq (spelled : SpelledTwice twice)
    (place : Tree.Place (String × String)) :
    Language.python.callerAt (twice.map Prod.fst) (place.map Prod.fst) =
      Language.python.callerAt (twice.map Prod.snd) (place.map Prod.snd) := by
  unfold Language.callerAt
  rw [Tree.before_map, Tree.before_map, List.filterMap_map, List.filterMap_map]
  congr 1
  refine List.filterMap_congr fun other earlier => ?_
  exact spelled.functionAt_eq (Tree.mem_before_iff.mp earlier).1

theorem SpelledTwice.constructions_eq (spelled : SpelledTwice twice)
    (listed : place ∈ twice.places) :
    constructions (place.node.map Prod.fst) = constructions (place.node.map Prod.snd) := by
  have same {part : Tree (String × String)} {other : Tree.Place (String × String)}
      (among : other ∈ twice.places) (below : part ∈ other.node.children)
      (kind : part.kind = "identifier") : part.label.1 = part.label.2 := by
    obtain ⟨spot, spotListed, rfl⟩ := Tree.exists_place_of_child among below
    exact spelled.identifiers spot spotListed kind
  unfold constructions
  simp only [Tree.kind_map, Tree.child?_map]
  split
  · cases left : place.node.child? "left" with
    | none => rfl
    | some target =>
      cases right : place.node.child? "right" with
      | none => rfl
      | some value =>
        simp only [Option.map_some, Option.bind_some, Tree.child?_map]
        cases function : value.child? "function" with
        | none => rfl
        | some made =>
          simp only [Option.map_some, Tree.kind_map, Tree.text, Tree.label_map]
          split
          · next kinds =>
            obtain ⟨beside, besideListed, rfl⟩ :=
              Tree.exists_place_of_child listed (List.mem_of_find?_eq_some right)
            rw [same listed (List.mem_of_find?_eq_some left) kinds.1,
              same besideListed (List.mem_of_find?_eq_some function) kinds.2.2]
          · rfl
  · rfl

theorem SpelledTwice.typeAt_eq (spelled : SpelledTwice twice) (known : Knowledge)
    (place : Tree.Place (String × String)) (text : String) :
    Language.python.typeAt known (twice.map Prod.fst) (place.map Prod.fst) text =
      Language.python.typeAt known (twice.map Prod.snd) (place.map Prod.snd) text := by
  have bindings : ((twice.map Prod.fst).before (place.map Prod.fst)).flatMap
        (fun other => Language.python.bindingsIn known other.node) =
      ((twice.map Prod.snd).before (place.map Prod.snd)).flatMap
        (fun other => Language.python.bindingsIn known other.node) := by
    rw [Tree.before_map, Tree.before_map, List.flatMap_map, List.flatMap_map]
    refine List.flatMap_congr fun other earlier => ?_
    simp only [Language.bindingsIn, Tree.Place.map]
    rw [spelled.constructions_eq (Tree.mem_before_iff.mp earlier).1]
  unfold Language.typeAt
  rw [bindings]

theorem SpelledTwice.calledByParts?_eq (spelled : SpelledTwice twice)
    (listed : place ∈ twice.places) :
    calledByParts? (place.node.map Prod.fst) = calledByParts? (place.node.map Prod.snd) := by
  have called := spelled.called place listed
  unfold calledByParts? called?
  simp only [Tree.kind_map, Tree.child?_map, Tree.childText?]
  cases held : place.node.child? "function" with
  | none => rfl
  | some function =>
    simp only [Option.map_some, Tree.kind_map]
    by_cases kind : place.node.kind = "call"
    · have agrees := called kind function held
      by_cases dotted : function.kind = "attribute"
      · rw [if_pos dotted] at agrees
        have object := childText?_map_eq (agrees "object" (by simp))
        have name := childText?_map_eq (agrees "attribute" (by simp))
        unfold Tree.childText? at object name
        simp only [kind, dotted, and_self, if_true, object, name]
      · rw [if_neg dotted] at agrees
        simp only [kind, dotted, and_false, if_false, if_true, Tree.text, Tree.label_map, agrees]
    · simp [kind]

/-- What the tree tells is the same in both spellings. -/
theorem SpelledTwice.callByParts_eq (spelled : SpelledTwice twice) (known : Knowledge)
    (listed : place ∈ twice.places) :
    callByParts known (twice.map Prod.fst) (place.map Prod.fst) =
      callByParts known (twice.map Prod.snd) (place.map Prod.snd) := by
  have owner := spelled.nearestOwner_eq listed
  have type := spelled.typeAt_eq known place
  have callee (called : Option String × String) :
      Language.python.calleeAt known (twice.map Prod.fst) (place.map Prod.fst) called =
        Language.python.calleeAt known (twice.map Prod.snd) (place.map Prod.snd) called := by
    obtain ⟨receiver, name⟩ := called
    cases receiver with
    | none => simp only [Language.calleeAt, Language.memberOrName, owner]
    | some receiver => simp only [Language.calleeAt, Language.receiverAt, owner, type]
  have called : calledByParts? (place.map Prod.fst).node = calledByParts? (place.map Prod.snd).node :=
    spelled.calledByParts?_eq listed
  unfold callByParts callOf
  rw [called]
  simp only [callee, spelled.callerAt_eq place]

/-- Two spellings make the same calls if nothing is lost that is only lost in one. -/
theorem SpelledTwice.calls_eq (spelled : SpelledTwice twice) {known : Knowledge}
    (plain : ∀ id, known.defines id = true → Gapless id) (first : Tidy (twice.map Prod.fst))
    (second : Tidy (twice.map Prod.snd))
    (kept : ∀ place ∈ twice.places,
      isLoose (place.node.map Prod.fst) ≠ isLoose (place.node.map Prod.snd) →
        callByParts known (twice.map Prod.fst) (place.map Prod.fst) = none) :
    Language.python.dialect.calls known (twice.map Prod.fst) =
      Language.python.dialect.calls known (twice.map Prod.snd) := by
  rw [calls_eq_callOf, calls_eq_callOf, Tree.places_map, Tree.places_map, List.filterMap_map,
    List.filterMap_map]
  refine List.filterMap_congr fun place listed => ?_
  have among (f : String × String → String) : place.map f ∈ (twice.map f).places :=
    Tree.places_map f twice ▸ List.mem_map_of_mem listed
  have same := spelled.callByParts_eq known listed
  simp only [Function.comp_def]
  rw [callOf_called? first plain (among _), callOf_called? second plain (among _), ← same]
  by_cases alike : isLoose (place.map Prod.fst).node = isLoose (place.map Prod.snd).node
  · rw [alike]
  · rw [kept place listed alike, ite_self, ite_self]

end Spellings

/-- A Python file makes the calls that its tree tells, without those that are written with something
around the dot. -/
theorem calls_lost_to_spacing (tree : TextTree) (tidy : Tidy tree) (table : SymbolTable) :
    (∀ place ∈ tree.places, ∀ function receiver before after method,
      CallsAttribute place.node function → Spelled function receiver before after method →
        ∃ called, called? place.node = some called ∧
          (Language.python.calleeAt table.knowledge tree place called =
              qualify (some (Language.python.receiverAt table.knowledge tree place receiver))
                method ↔
            before = "" ∧ after = "")) ∧
      ((∀ id, table.contains id = true → Gapless id) →
        Language.python.dialect.calls table.knowledge tree = tree.places.filterMap (fun place =>
          if isLoose place.node then none else callByParts table.knowledge tree place) ∧
        (Language.python.dialect.calls table.knowledge tree =
            tree.places.filterMap (callByParts table.knowledge tree) ↔
          ∀ place ∈ tree.places, isLoose place.node = true →
            callByParts table.knowledge tree place = none) ∧
        ∀ twice, twice.map Prod.fst = tree → SpelledTwice twice → Tidy (twice.map Prod.snd) →
          (∀ place ∈ twice.places,
            isLoose (place.node.map Prod.fst) ≠ isLoose (place.node.map Prod.snd) →
              callByParts table.knowledge tree (place.map Prod.fst) = none) →
          Language.python.dialect.calls table.knowledge tree =
            Language.python.dialect.calls table.knowledge (twice.map Prod.snd)) := by
  constructor
  · intro place listed function receiver before after method calls spelled
    exact calleeAt_eq_iff tidy table.knowledge listed calls spelled
  · intro plain
    have calls : Language.python.dialect.calls table.knowledge tree =
        tree.places.filterMap fun place =>
          if isLoose place.node then none else callByParts table.knowledge tree place := by
      rw [calls_eq_callOf]
      exact List.filterMap_congr fun place listed => callOf_called? tidy plain listed
    refine ⟨calls, ?_, ?_⟩
    · rw [calls]
      exact filterMap_unless_eq_iff (isLoose ·.node) (callByParts table.knowledge tree) tree.places
    · intro twice same spelled second kept
      subst same
      exact spelled.calls_eq plain tidy second kept

/-- `class Foo:` with `def bar(self): (self.baz())` and `def baz(self): pass`, and with something
before the dot. -/
def selfCall (gap : String) : TextTree :=
  .node "module" none true "" [
    .node "class_definition" none true "" [
      .node "identifier" (some "name") true "Foo" [],
      .node "block" (some "body") true "" [
        .node "function_definition" none true "" [
          .node "identifier" (some "name") true "bar" [],
          .node "parenthesized_expression" none true ("(self" ++ gap ++ ".baz())") [
            .node "call" none true ("self" ++ gap ++ ".baz()") [
              .node "attribute" (some "function") true ("self" ++ gap ++ ".baz") [
                .node "identifier" (some "object") true "self" [],
                .node "identifier" (some "attribute") true "baz" []]]]],
        .node "function_definition" none true "" [
          .node "identifier" (some "name") true "baz" []]]]]

theorem spelled_selfCall {gap : String} (spaced : IsSpacing gap.toList) :
    Spelled (.node "attribute" (some "function") true ("self" ++ gap ++ ".baz") [
      .node "identifier" (some "object") true "self" [],
      .node "identifier" (some "attribute") true "baz" []]) "self" gap "" "baz" where
  kind := rfl
  object := rfl
  name := rfl
  text := by
    change "self" ++ gap ++ ".baz" = _
    rw [String.append_empty, show ".baz" = "." ++ "baz" from rfl, ← String.append_assoc]
  front := spaced
  back := .nothing
  undotted := by decide

theorem tidy_selfCall {gap : String} (spaced : IsSpacing gap.toList) : Tidy (selfCall gap) where
  identifiers := by
    have names : ∀ name ∈ ["Foo", "bar", "self", "baz"], Gapless name := by decide
    simp only [selfCall, Tree.places, Tree.placesFrom, Tree.placesAll, List.append_nil,
      List.cons_append, List.nil_append, List.forall_mem_cons]
    simp [Tree.kind, Tree.text, Tree.label, names]
  classes := by
    have gapless : Gapless "Foo" := by decide
    simp only [selfCall, Tree.places, Tree.placesFrom, Tree.placesAll, List.append_nil,
      List.cons_append, List.nil_append, List.forall_mem_cons]
    simp [Tree.kind, Tree.childText?, Tree.child?, Tree.children, Tree.field, Tree.text, Tree.label,
      gapless]
  attributes := by
    have spelled := spelled_selfCall spaced
    simp only [selfCall, Tree.places, Tree.placesFrom, Tree.placesAll, List.append_nil,
      List.cons_append, List.nil_append, List.forall_mem_cons]
    simp [CallsAttribute, Tree.kind, Tree.child?, Tree.children, Tree.field]
    exact ⟨_, _, _, _, spelled⟩

def selfTable : SymbolTable :=
  .ofList (Language.python.dialect.definitions (selfCall "") "foo.py")

theorem defines_selfTable :
    selfTable.knowledge.defines = fun id => decide (id ∈ ["Foo.bar", "Foo.baz"]) := by
  have ids : (Language.python.dialect.definitions (selfCall "") "foo.py").map (·.id) =
      ["Foo.bar", "Foo.baz"] := by decide
  funext id
  rw [Bool.eq_iff_iff, ← ids]
  change SymbolTable.contains _ id = true ↔ _
  rw [selfTable, (SymbolTable.consistent_ofList _).contains_iff, SymbolTable.mem_ids_ofList]
  simp

theorem plain_selfTable (id : String) (defined : selfTable.contains id = true) : Gapless id := by
  change selfTable.knowledge.defines id = true at defined
  rw [defines_selfTable, decide_eq_true_eq] at defined
  have names : ∀ name ∈ ["Foo.bar", "Foo.baz"], Gapless name := by decide
  exact names id defined

/-- Written closely, the call is found. -/
theorem selfCall_found : Tidy (selfCall "") ∧
    (∀ id, selfTable.contains id = true → Gapless id) ∧
    (∀ place ∈ (selfCall "").places, isLoose place.node = true →
      callByParts selfTable.knowledge (selfCall "") place = none) ∧
    Language.python.dialect.calls selfTable.knowledge (selfCall "") =
      (selfCall "").places.filterMap (callByParts selfTable.knowledge (selfCall "")) := by
  have tidy : Tidy (selfCall "") := tidy_selfCall .nothing
  have close : ∀ place ∈ (selfCall "").places, isLoose place.node = true →
      callByParts selfTable.knowledge (selfCall "") place = none := by
    have noneLoose : ∀ place ∈ (selfCall "").places, isLoose place.node = false := by decide
    intro place listed loose
    rw [noneLoose place listed] at loose
    cases loose
  obtain ⟨-, lost⟩ := calls_lost_to_spacing (selfCall "") tidy selfTable
  obtain ⟨-, found, -⟩ := lost plain_selfTable
  exact ⟨tidy, plain_selfTable, close, found.mpr close⟩

/-- With the dot on the next line the call is lost, though the tree tells it as before. -/
theorem brokenLine_lost : Tidy (selfCall "\n            ") ∧
    SymbolTable.ofList (Language.python.dialect.definitions (selfCall "\n            ") "foo.py") =
      selfTable ∧
    (selfCall "\n            ").places.filterMap
        (callByParts selfTable.knowledge (selfCall "\n            ")) = [⟨"Foo.bar", "Foo.baz"⟩] ∧
    Language.python.dialect.calls selfTable.knowledge (selfCall "\n            ") = [] ∧
    Language.python.dialect.calls selfTable.knowledge (selfCall "") =
      [⟨"Foo.bar", "Foo.baz"⟩] := by
  have spaced : IsSpacing "\n            ".toList := .of_gaps (by decide)
  refine ⟨tidy_selfCall spaced, rfl, ?_⟩
  have defines := defines_selfTable
  generalize selfTable.knowledge = known at defines ⊢
  obtain ⟨_, owns⟩ := known
  cases defines
  exact ⟨rfl, rfl, rfl⟩

end CallAtlas.Dialect.Python
