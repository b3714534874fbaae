import CallAtlas.Proofs.Dialect.FoundAt
import CallAtlas.Proofs.Dialect.Stateless
import CallAtlas.Proofs.Tree.Descent
/-!
What a C file defines and calls, told from the tree alone. An owner is a matter of position and
not of nesting: a function belongs to the last struct with a name and a body before it, wherever
that stands. A member call needs a variable of known type, and its type is that of the last
declaration or parameter before the call. A plain call needs a function of that very name.

`definitions_and_calls_by_position` says that the two passes find these and no others.
-/
namespace CallAtlas.Dialect.C

def DefinesStruct (node : TextTree) (name : String) : Prop :=
  node.kind = "struct_specifier" ∧ (∃ body, node.child? "body" = some body) ∧
    node.childText? "name" = some name

/-- The owner at a place is the last struct before it. -/
inductive OwnerAt (tree : TextTree) (place : Tree.Place String) : Option String → Prop
  | struct {name : String}
      (last : tree.LastBefore place (fun earlier => DefinesStruct earlier.node) name) :
      OwnerAt tree place (some name)
  | nobody (first : tree.NoneBefore place fun earlier => DefinesStruct earlier.node) :
      OwnerAt tree place none

/-- The identifier to which a declarator leads. A declarator that is none itself wraps another one,
which it holds under `declarator` or else, as parentheses do, as its first named child. -/
inductive LeadsTo : TextTree → TextTree → Prop
  | identifier {node : TextTree} (kind : node.kind = "identifier") : LeadsTo node node
  | declarator {node inner found : TextTree} (kind : node.kind ≠ "identifier")
      (held : node.child? "declarator" = some inner) (onward : LeadsTo inner found) :
      LeadsTo node found
  | wrapped {node inner found : TextTree} (kind : node.kind ≠ "identifier")
      (bare : node.child? "declarator" = none) (first : node.firstNamed? = some inner)
      (onward : LeadsTo inner found) : LeadsTo node found

def Declares (declarator : TextTree) (name : String) : Prop :=
  ∃ found, LeadsTo declarator found ∧ found.text = name

/-- A definition of a function, by the name to which its declarators lead. -/
def DefinesFunction (node : TextTree) (name : String) : Prop :=
  node.kind = "function_definition" ∧ ∃ declarator, node.child? "declarator" = some declarator ∧
    Declares declarator name

def DefinitionMeant (tree : TextTree) (file : String) (place : Tree.Place String)
    (definition : Definition) : Prop :=
  ∃ owner name, DefinesFunction place.node name ∧ OwnerAt tree place owner ∧
    .ofName name owner file = definition

def Introduces (tree : TextTree) (place : Tree.Place String) (id : String) : Prop :=
  ∃ owner name, DefinesFunction place.node name ∧ OwnerAt tree place owner ∧
    qualify owner name = id

/-- The type that a declaration names: its type is a name, or the first name in it counts. -/
inductive NamesType (node : TextTree) : String → Prop
  | plain {type : TextTree} (held : node.child? "type" = some type)
      (kind : type.kind = "type_identifier") : NamesType node type.text
  | inside {type name : TextTree} (held : node.child? "type" = some type)
      (kind : type.kind ≠ "type_identifier")
      (first : type.children.find? (·.kind == "type_identifier") = some name) :
      NamesType node name.text

/-- A declaration or a parameter gives its type to each variable that one of its declarators
declares. A prototype declares none. -/
def Gives (name : String) (node : TextTree) (type : String) : Prop :=
  (node.kind = "declaration" ∨ node.kind = "parameter_declaration") ∧ NamesType node type ∧
    ∃ declarator ∈ node.childrenUnder "declarator",
      declarator.kind ≠ "function_declarator" ∧ Declares declarator name

/-- What is called where a function expression stands in a call. -/
inductive Calls (known : Knowledge) (tree : TextTree) (place : Tree.Place String)
    (function : TextTree) : String → Prop
  | plain (kind : function.kind = "identifier") (defined : known.defines function.text = true) :
      Calls known tree place function function.text
  | member {receiver method type : String} (kind : function.kind = "field_expression")
      (argument : function.childText? "argument" = some receiver)
      (field : function.childText? "field" = some method)
      (last : tree.LastBefore place (fun earlier => Gives receiver earlier.node) type) :
      Calls known tree place function (qualify (some type) method)

structure CallMeant (known : Knowledge) (tree : TextTree) (place : Tree.Place String)
    (call : Call) : Prop where
  kind : place.node.kind = "call_expression"
  callee : ∃ function, place.node.child? "function" = some function ∧
    Calls known tree place function call.callee
  caller : tree.LastBefore place (Introduces tree) call.caller
  other : call.caller ≠ call.callee

section Owners

theorem sets_eq_some_iff (node : TextTree) (name : String) :
    sets node = some name ↔ DefinesStruct node name := by
  unfold sets DefinesStruct
  rw [← Option.isSome_iff_exists]
  split
  · next both => simp [both]
  · next lacking =>
    constructor
    · intro set
      cases set
    · intro ⟨kind, body, _⟩
      exact absurd ⟨kind, body⟩ lacking

/-- The slot of the pass holds the last struct before a place. -/
theorem ownerAt_iff (tree : TextTree) (place : Tree.Place String) (owner : Option String) :
    c.callScope.ownerAt tree place = owner ↔ OwnerAt tree place owner := by
  have reads : ∀ (earlier : Tree.Place String) name,
      sets earlier.node = some name ↔ DefinesStruct earlier.node name :=
    fun earlier => sets_eq_some_iff earlier.node
  have slot : c.callScope.ownerAt tree place =
      ((tree.before place).filterMap fun earlier => sets earlier.node).getLast? := rfl
  rw [slot]
  cases owner with
  | none =>
    rw [Tree.getLast?_before_eq_none_iff reads]
    constructor
    · exact .nobody
    · intro owned
      cases owned with
      | nobody first => exact first
  | some name =>
    rw [Tree.getLast?_before_eq_some_iff reads]
    constructor
    · exact .struct
    · intro owned
      cases owned with
      | struct last => exact last

end Owners

section Functions

theorem next?_identifier_iff (node inner : TextTree) :
    identifier.next? node = some inner ↔ node.child? "declarator" = some inner ∨
      node.child? "declarator" = none ∧ node.firstNamed? = some inner :=
  Tree.Descent.next?_of_orNamed rfl rfl

/-- The pass goes down declarators to the same identifier. -/
theorem descend_identifier_iff (declarator found : TextTree) :
    declarator.descend identifier = some found ↔ LeadsTo declarator found := by
  rw [Tree.descend_eq_some_iff]
  constructor
  · intro reaches
    induction reaches with
    | arrived goal => exact .identifier (beq_iff_eq.mp goal)
    | past other _ down _ ih =>
      have kind := beq_eq_false_iff_ne.mp other
      rcases (next?_identifier_iff _ _).mp down with held | ⟨bare, first⟩
      · exact .declarator kind held ih
      · exact .wrapped kind bare first ih
  · intro leads
    induction leads with
    | identifier kind => exact .arrived (beq_iff_eq.mpr kind)
    | declarator kind held _ ih =>
      exact .past (beq_eq_false_iff_ne.mpr kind) rfl
        ((next?_identifier_iff _ _).mpr (.inl held)) ih
    | wrapped kind bare first _ ih =>
      exact .past (beq_eq_false_iff_ne.mpr kind) rfl
        ((next?_identifier_iff _ _).mpr (.inr ⟨bare, first⟩)) ih

theorem descends_iff (declarator : TextTree) (name : String) :
    (declarator.descend identifier).map Tree.text = some name ↔ Declares declarator name := by
  rw [Option.map_eq_some_iff]
  simp only [descend_identifier_iff]
  rfl

/-- A function is named in the scope where it stands. -/
theorem function?_eq_some_iff (node : TextTree) (function : FunctionName) :
    c.function? node = some function ↔
      ∃ name, DefinesFunction node name ∧ function = ⟨.enclosing, name⟩ := by
  change C.function? node = some function ↔ _
  unfold C.function? DefinesFunction
  split
  · next kind =>
    rw [Option.map_eq_some_iff]
    constructor
    · intro ⟨found, reached, same⟩
      obtain ⟨declarator, held, down⟩ := Option.bind_eq_some_iff.mp reached
      exact ⟨found.text, ⟨kind, declarator, held, found, (descend_identifier_iff _ _).mp down, rfl⟩,
        same.symm⟩
    · intro ⟨name, ⟨_, declarator, held, found, leads, text⟩, same⟩
      refine ⟨found, ?_, by rw [same, text]⟩
      rw [held, Option.bind_some]
      exact (descend_identifier_iff _ _).mpr leads
  · next other => simp [other]

/-- Both passes meet a function with the owner at its place. -/
theorem exists_function_iff (tree : TextTree) (place : Tree.Place String)
    (named : FunctionName → Option String → Prop) :
    (∃ function, c.function? place.node = some function ∧
        named function (c.callScope.ownerAt tree place)) ↔
      ∃ owner name, DefinesFunction place.node name ∧ OwnerAt tree place owner ∧
        named ⟨.enclosing, name⟩ owner := by
  constructor
  · intro ⟨function, introduced, here⟩
    obtain ⟨name, defined, same⟩ := (function?_eq_some_iff _ _).mp introduced
    subst same
    exact ⟨_, name, defined, (ownerAt_iff tree place _).mp rfl, here⟩
  · intro ⟨owner, name, defined, owned, here⟩
    refine ⟨⟨.enclosing, name⟩, (function?_eq_some_iff _ _).mpr ⟨name, defined, rfl⟩, ?_⟩
    rw [(ownerAt_iff tree place owner).mpr owned]
    exact here

theorem entered?_eq_some_iff (tree : TextTree) (place : Tree.Place String) (id : String) :
    c.entered? (c.callScope.visit tree place) = some id ↔ Introduces tree place id := by
  unfold entered?
  rw [Option.map_eq_some_iff]
  exact exists_function_iff tree place fun function owner => function.id owner = id

theorem definitionMeant_iff (tree : TextTree) (file : String) (place : Tree.Place String)
    (definition : Definition) :
    (∃ function, c.function? place.node = some function ∧
        function.definition (c.definitionScope.ownerAt tree place) file = definition) ↔
      DefinitionMeant tree file place definition :=
  exists_function_iff tree place fun function owner => function.definition owner file = definition

end Functions

section Forms

def form? (function : TextTree) : Option (Callee × Bool) :=
  if function.kind = "field_expression" then
    match function.childText? "argument", function.childText? "field" with
    | some receiver, some method => some (.member receiver method, false)
    | _, _ => none
  else if function.kind = "identifier" then some (.named function.text, true)
  else none

def formIn? (node : TextTree) : Option (Callee × Bool) :=
  if node.kind = "call_expression" then (node.child? "function").bind form? else none

theorem formIn?_eq_some_iff (node : TextTree) (read : Callee × Bool) :
    formIn? node = some read ↔ node.kind = "call_expression" ∧
      ∃ function, node.child? "function" = some function ∧ form? function = some read := by
  unfold formIn?
  split
  · next kind => simp [kind, Option.bind_eq_some_iff]
  · next kind => simp [kind]

theorem call_eq (node : TextTree) :
    call node = (((node.child? "function").bind form?).map fun read =>
      Site.call read.1 read.2).toList := by
  unfold call
  cases node.child? "function" with
  | none => rfl
  | some function =>
    rw [Option.bind_some, form?]
    dsimp only
    split
    · cases function.childText? "argument" <;> cases function.childText? "field" <;> rfl
    · split <;> rfl

/-- A node declares variables, or its one site is the call that is read off it. -/
theorem sites_eq (node : TextTree) :
    c.sites node =
      if node.kind = "declaration" ∨ node.kind = "parameter_declaration" then declaration node
      else ((formIn? node).map fun read => Site.call read.1 read.2).toList := by
  change C.sites node = _
  unfold C.sites formIn?
  split
  · rfl
  · split
    · rw [call_eq]
    · rfl

/-- The variables of a declaration all get the type that it names. -/
theorem declaration_eq (node : TextTree) {type : String} (named : typeText? node = some type) :
    declaration node = (node.childrenUnder "declarator").filterMap fun declarator =>
      (if declarator.kind = "function_declarator" then none
        else (declarator.descend identifier).map Tree.text).map fun name => .bind name type := by
  unfold declaration
  simp only [named]
  congr 1
  funext declarator
  split
  · rfl
  · rw [Option.map_map]
    rfl

theorem readsCalls : c.ReadsCalls formIn? := by
  apply ReadsCalls.of_sites
  · intro node site listed
    exact Language.function?_of_sites (show site ∈ Language.c.dialect.sites node from listed)
  · intro node
    rw [sites_eq]
    split
    · next kind =>
      refine .inr ⟨?_, ?_⟩
      · unfold formIn?
        rw [if_neg]
        intro call
        simp [call] at kind
      · cases named : typeText? node with
        | none => simp [declaration, named]
        | some type =>
          rw [declaration_eq node named]
          intro site listed
          obtain ⟨declarator, -, binds⟩ := List.mem_filterMap.mp listed
          obtain ⟨name, -, same⟩ := Option.map_eq_some_iff.mp binds
          simp [← same]
    · exact .inl rfl

end Forms

section Variables

theorem typeText?_eq_some_iff (node : TextTree) (type : String) :
    typeText? node = some type ↔ NamesType node type := by
  unfold typeText?
  constructor
  · intro named
    split at named
    · next held =>
      split at named
      · next kind =>
        cases named
        exact .plain held kind
      · next kind =>
        obtain ⟨name, first, text⟩ := Option.map_eq_some_iff.mp named
        subst text
        exact .inside held kind first
    · cases named
  · intro names
    cases names with
    | plain held kind => simp [held, kind]
    | inside held kind first => simp [held, kind, first]

/-- A declaration gives types as the pass reads it. -/
theorem boundTo?_eq_some_iff (known : Knowledge) (name : String) (node : TextTree)
    (type : String) : c.boundTo? known name node = some type ↔ Gives name node type := by
  unfold Gives
  by_cases kind : node.kind = "declaration" ∨ node.kind = "parameter_declaration"
  · have sites : c.sites node = declaration node := by rw [sites_eq, if_pos kind]
    cases named : typeText? node with
    | none =>
      rw [c.boundTo?_eq_none known (by simp [sites, declaration, named]), ← typeText?_eq_some_iff]
      simp [named]
    | some found =>
      rw [declaration_eq node named] at sites
      have declares (declarator : TextTree) :
          (if declarator.kind = "function_declarator" then none
            else (declarator.descend identifier).map Tree.text) = some name ↔
            declarator.kind ≠ "function_declarator" ∧ Declares declarator name := by
        rw [← descends_iff]
        split <;> simp [*]
      rw [c.boundTo?_declarators_alike known _ _ found rfl sites, ← typeText?_eq_some_iff, named]
      simp only [declares, Option.some.injEq, kind, true_and]
  · have silent : c.boundTo? known name node = none := by
      apply c.boundTo?_eq_none
      rw [sites_eq, if_neg kind]
      cases formIn? node <;> simp
    simp [silent, kind]

/-- The type of a receiver is the one that it was given last. -/
theorem receiverType?_iff (known : Knowledge) (tree : TextTree) (place : Tree.Place String)
    (receiver type : String) :
    c.receiverType? (c.callScope.ownerAt tree place) (c.stateAt known tree place).types receiver =
        some type ↔
      tree.LastBefore place (fun earlier => Gives receiver earlier.node) type := by
  unfold receiverType?
  rw [if_neg (by simp [c]), lookup_types_stateAt]
  exact Tree.getLast?_before_eq_some_iff fun earlier =>
    boundTo?_eq_some_iff known receiver earlier.node

end Variables

section Callees

variable (known : Knowledge) (tree : TextTree) (place : Tree.Place String)

/-- The pass resolves a function expression to what is called there. -/
theorem resolves_iff (function : TextTree) (callee : String) :
    (∃ form knownOnly, form? function = some (form, knownOnly) ∧
      c.ResolvesAt known tree place form knownOnly callee) ↔
      Calls known tree place function callee := by
  have typed := receiverType?_iff known tree place
  constructor
  · intro ⟨form, knownOnly, read, resolved, defined⟩
    unfold form? at read
    split at read
    · next kind =>
      split at read
      · next receiver method argument field =>
        cases read
        obtain ⟨type, stands, same⟩ := (c.resolve?_member_eq_some_iff known rfl ..).mp resolved
        subst same
        exact .member kind argument field ((typed receiver type).mp stands)
      · cases read
    · split at read
      · next kind =>
        cases read
        cases resolved
        exact .plain kind (defined rfl)
      · cases read
  · intro calls
    cases calls with
    | plain kind defined =>
      exact ⟨.named function.text, true, by simp [form?, kind], rfl, fun _ => defined⟩
    | @member receiver method type kind argument field last =>
      refine ⟨.member receiver method, false, by simp [form?, kind, argument, field], ?_, by simp⟩
      exact (c.resolve?_member_eq_some_iff known rfl ..).mpr
        ⟨type, (typed receiver type).mpr last, rfl⟩

/-- The call that the pass makes at a place is the one that is meant there. -/
theorem callMadeAt_iff (call : Call) :
    c.CallMadeAt known tree formIn? place call ↔ CallMeant known tree place call := by
  have caller := c.caller_stateAt_iff known tree (entered?_eq_some_iff tree) place call.caller
  constructor
  · intro ⟨⟨form, knownOnly, here, resolved⟩, entered, other⟩
    obtain ⟨kind, function, held, formed⟩ := (formIn?_eq_some_iff _ _).mp here
    have calls := (resolves_iff known tree place _ _).mp ⟨form, knownOnly, formed, resolved⟩
    exact ⟨kind, ⟨function, held, calls⟩, caller.mp entered, other⟩
  · intro ⟨kind, ⟨function, held, calls⟩, entered, other⟩
    obtain ⟨form, knownOnly, formed, resolved⟩ := (resolves_iff known tree place _ _).mpr calls
    have here := (formIn?_eq_some_iff _ _).mpr ⟨kind, function, held, formed⟩
    exact ⟨⟨form, knownOnly, here, resolved⟩, caller.mpr entered, other⟩

end Callees

/-- A C file defines the functions that stand at its places and makes the calls that are meant
there, both in document order. -/
theorem definitions_and_calls_by_position (tree : TextTree) (file : String)
    (table : SymbolTable) :
    tree.Yields (DefinitionMeant tree file) (c.definitions tree file) ∧
      tree.Yields (CallMeant table.knowledge tree) (c.calls table.knowledge tree) := by
  constructor
  · exact (c.yields_definitions tree file).congr (definitionMeant_iff tree file)
  · exact (c.yields_calls table.knowledge tree readsCalls).congr
      (callMadeAt_iff table.knowledge tree)

/-- `*(items[2]) = 0` in a declaration, without its tokens. -/
def wrappedItems : TextTree :=
  .node "init_declarator" (some "declarator") true "*(items[2]) = 0" [
    .node "pointer_declarator" (some "declarator") true "*(items[2])" [
      .node "*" none false "*" [],
      .node "parenthesized_declarator" (some "declarator") true "(items[2])" [
        .node "(" none false "(" [],
        .node "array_declarator" none true "items[2]" [
          .node "identifier" (some "declarator") true "items" [],
          .node "number_literal" (some "size") true "2" []]]],
    .node "number_literal" (some "value") true "0" []]

/-- `struct List { int n; };` and `List *make(void) { List *(items[2]) = 0; items->push(); }`,
without punctuation. -/
def listFile : TextTree :=
  .node "translation_unit" none true "" [
    .node "struct_specifier" none true "struct List { int n; }" [
      .node "type_identifier" (some "name") true "List" [],
      .node "field_declaration_list" (some "body") true "{ int n; }" []],
    .node "function_definition" none true "List *make(void)" [
      .node "type_identifier" (some "type") true "List" [],
      .node "pointer_declarator" (some "declarator") true "*make(void)" [
        .node "function_declarator" (some "declarator") true "make(void)" [
          .node "identifier" (some "declarator") true "make" []]],
      .node "compound_statement" (some "body") true "" [
        .node "declaration" none true "List *(items[2]) = 0;" [
          .node "type_identifier" (some "type") true "List" [],
          wrappedItems],
        .node "call_expression" none true "items->push()" [
          .node "field_expression" (some "function") true "items->push" [
            .node "identifier" (some "argument") true "items" [],
            .node "field_identifier" (some "field") true "push" []]]]]]

/-- The way goes through an initialised, a pointer, a parenthesised and an array declarator. -/
theorem wrappedItems_declares : Declares wrappedItems "items" :=
  ⟨_, .declarator (by decide) rfl (.declarator (by decide) rfl (.wrapped (by decide) rfl rfl
    (.declarator (by decide) rfl (.identifier rfl)))), rfl⟩

/-- The function and the variable are found at the ends of their declarators. -/
theorem listFile_found :
    Declares wrappedItems "items" ∧
      listFile.Yields (DefinitionMeant listFile "l.c") [.ofName "make" (some "List") "l.c"] ∧
      listFile.Yields (CallMeant SymbolTable.empty.knowledge listFile)
        [⟨"List.make", "List.push"⟩] := by
  have found := definitions_and_calls_by_position listFile "l.c" .empty
  have definitions : c.definitions listFile "l.c" = [.ofName "make" (some "List") "l.c"] := by
    decide
  have calls : c.calls SymbolTable.empty.knowledge listFile = [⟨"List.make", "List.push"⟩] := by
    decide
  rw [definitions, calls] at found
  exact ⟨wrappedItems_declares, found⟩

end CallAtlas.Dialect.C
