import CallAtlas.Proofs.Dialect.FoundAt
import CallAtlas.Proofs.Dialect.Stateless
import CallAtlas.Proofs.Tree.Descent
/-!
What a call means in C++, told from the tree alone. Two sorts of nodes give an owner to what is
below them: a class or struct its name, and a definition that is written `Owner::name` that owner,
which stands in a declarator some levels further down. The caller of a call is the last function
that a declarator named before it, with the owner it was written with or else the one in force
there. A variable has the type of the last declaration of it.

`calls_resolved_by_scope` says that the pass, with its stack of scopes, its slot for the caller
and its map of variables, finds the calls that are told in this way and no others.
-/
namespace CallAtlas.Dialect.Cpp

open Text

def IsName (node : TextTree) : Prop :=
  node.kind = "field_identifier" ∨ node.kind = "identifier" ∨ node.kind = "qualified_identifier"

/-- The path by which a declarator names a function: the first name among its children. -/
def HasPath (declarator : TextTree) (path : String) : Prop :=
  ∃ earlier name later, declarator.children = earlier ++ name :: later ∧ IsName name ∧
    (∀ other ∈ earlier, ¬ IsName other) ∧ name.text = path

/-- A declarator is that of a function, or wraps one that is. -/
inductive Wraps : TextTree → TextTree → Prop
  | itself {node : TextTree} (kind : node.kind = "function_declarator") : Wraps node node
  | further {node inner function : TextTree} (kind : node.kind ≠ "function_declarator")
      (held : node.child? "declarator" = some inner) (onward : Wraps inner function) :
      Wraps node function

/-- The declarators of a definition lead to a function that is written under an owner. -/
def WrittenIn (definition : TextTree) (owner : String) : Prop :=
  ∃ outer function path name, definition.child? "declarator" = some outer ∧
    Wraps outer function ∧ HasPath function path ∧ WrittenUnder path owner name

/-- The scope that a node opens for what is below it. That of a class may be without a name. -/
inductive Opens (node : TextTree) : Option String → Prop
  | ofClass (kind : node.kind = "class_specifier" ∨ node.kind = "struct_specifier") :
      Opens node (node.childText? "name")
  | ofBody {owner : String} (kind : node.kind = "function_definition")
      (written : WrittenIn node owner) : Opens node (some owner)

/-- The qualified name that a path stands for: under the owner that it is written with, or else
under the one of the scope. -/
inductive PathNames (scope : Option String) (path : String) : String → Prop
  | written {owner name : String} (written : WrittenUnder path owner name) :
      PathNames scope path (qualify (some owner) name)
  | plain {segment : String} (unwritten : ∀ owner name, ¬ WrittenUnder path owner name)
      (last : IsLastSegment path segment) : PathNames scope path (qualify scope (trim segment))

def Introduces (place : Tree.Place String) (id : String) : Prop :=
  place.node.kind = "function_declarator" ∧ ∃ path scope, HasPath place.node path ∧
    InForce Opens place.ancestors scope ∧ PathNames scope path id

/-- A declarator around the one of a variable. -/
def IsWrapper (node : TextTree) : Prop :=
  node.kind = "init_declarator" ∨ node.kind = "pointer_declarator" ∨
    node.kind = "reference_declarator"

/-- The identifier to which a declarator leads. What it wraps it holds under `declarator` or else,
as references do, as its first named child. -/
inductive LeadsTo : TextTree → TextTree → Prop
  | identifier {node : TextTree} (kind : node.kind = "identifier") : LeadsTo node node
  | declarator {node inner found : TextTree} (wrapper : IsWrapper node)
      (held : node.child? "declarator" = some inner) (onward : LeadsTo inner found) :
      LeadsTo node found
  | wrapped {node inner found : TextTree} (wrapper : IsWrapper node)
      (bare : node.child? "declarator" = none) (first : node.firstNamed? = some inner)
      (onward : LeadsTo inner found) : LeadsTo node found

def Declares (declarator : TextTree) (name : String) : Prop :=
  ∃ found, LeadsTo declarator found ∧ found.text = name

/-- An initial value makes an object of a type with `new`. -/
def Makes (declarator type : TextTree) : Prop :=
  ∃ value, declarator.child? "value" = some value ∧ value.kind = "new_expression" ∧
    value.child? "type" = some type

/-- The name of a type. That of a template goes without its arguments. -/
inductive NamesType (type : TextTree) : String → Prop
  | template {name : String} (kind : type.kind = "template_type")
      (held : type.childText? "name" = some name) : NamesType type name
  | nameless (kind : type.kind = "template_type") (bare : type.childText? "name" = none) :
      NamesType type type.text
  | plain (kind : type.kind ≠ "template_type") : NamesType type type.text

/-- The type of what a declarator declares: what `new` makes outweighs what is declared. -/
inductive HasType (declared declarator : TextTree) : String → Prop
  | made {made : TextTree} {name : String} (makes : Makes declarator made)
      (names : NamesType made name) : HasType declared declarator name
  | declared {name : String} (plain : ∀ made, ¬ Makes declarator made)
      (names : NamesType declared name) : HasType declared declarator name

/-- A declaration gives a variable the type that the last of its declarators for it has. -/
def Gives (name : String) (node : TextTree) (type : String) : Prop :=
  node.kind = "declaration" ∧ ∃ declared earlier declarator later,
    node.child? "type" = some declared ∧
    node.childrenUnder "declarator" = earlier ++ declarator :: later ∧
    Declares declarator name ∧ HasType declared declarator type ∧
    ∀ other ∈ later, ¬ Declares other name

/-- What the receiver of a member call stands for, which is itself if nothing else is known. -/
inductive ReceiverIs (tree : TextTree) (place : Tree.Place String) (receiver : String) :
    String → Prop
  | known {type : String} (stands : StandsFor "this" Opens Gives tree place receiver type) :
      ReceiverIs tree place receiver type
  | literal (unknown : ∀ type, ¬ StandsFor "this" Opens Gives tree place receiver type) :
      ReceiverIs tree place receiver receiver

/-- What is called where a function expression stands in a call. -/
inductive Calls (known : Knowledge) (tree : TextTree) (place : Tree.Place String)
    (function : TextTree) : String → Prop
  | member {object method type : String} (kind : function.kind = "field_expression")
      (argument : function.childText? "argument" = some object)
      (field : function.childText? "field" = some method)
      (receiver : ReceiverIs tree place object type) :
      Calls known tree place function (qualify (some type) method)
  | own {owner : String} (kind : function.kind = "identifier")
      (scope : InForce Opens place.ancestors (some owner))
      (defined : known.defines (qualify (some owner) function.text) = true) :
      Calls known tree place function (qualify (some owner) function.text)
  | plain (kind : function.kind = "identifier")
      (foreign : ∀ owner, InForce Opens place.ancestors (some owner) →
        known.defines (qualify (some owner) function.text) = false) :
      Calls known tree place function function.text
  | path {id : String} (kind : function.kind = "qualified_identifier")
      (names : PathNames none function.text id) : Calls known tree place function id
  | other (kind : function.kind ∉ ["field_expression", "identifier", "qualified_identifier"]) :
      Calls known tree place function function.text

structure CallMeant (known : Knowledge) (tree : TextTree) (place : Tree.Place String)
    (call : Call) : Prop where
  kind : place.node.kind = "call_expression"
  callee : ∃ function, place.node.child? "function" = some function ∧
    Calls known tree place function call.callee
  caller : tree.LastBefore place Introduces call.caller
  other : call.caller ≠ call.callee

section Paths

theorem ofPath_eq_under_iff (path owner name : String) :
    ofPath path = ⟨.under owner, name⟩ ↔ WrittenUnder path owner name := by
  rw [← splitPath_eq_some_iff]
  unfold ofPath
  rcases splitPath path with ⟨_ | written, last⟩ <;> simp

theorem splitPath_name (path : String) :
    (splitPath path).2 = trim (lastSegment "::" path) := by
  unfold splitPath lastSegment
  cases cutLast? "::" path <;> rfl

/-- A path stands for the function that it names. -/
theorem pathNames_iff (scope : Option String) (path id : String) :
    PathNames scope path id ↔ (ofPath path).id scope = id := by
  have last : IsLastSegment path (lastSegment "::" path) := (isLastSegment_iff _ _).mpr rfl
  constructor
  · intro names
    cases names with
    | written written =>
      rw [(ofPath_eq_under_iff _ _ _).mpr written]
      rfl
    | @plain segment unwritten last =>
      rw [isLastSegment_iff] at last
      subst last
      cases parts : splitPath path with
      | mk written name =>
        cases written with
        | some owner => exact absurd ((splitPath_eq_some_iff _ _ _).mp parts) (unwritten owner name)
        | none =>
          rw [← splitPath_name, ofPath, parts]
          rfl
  · intro named
    subst named
    cases parts : splitPath path with
    | mk written name =>
      cases written with
      | some owner =>
        have written := (splitPath_eq_some_iff _ _ _).mp parts
        rw [(ofPath_eq_under_iff _ _ _).mpr written]
        exact .written written
      | none =>
        have unwritten : ∀ owner name, ¬ WrittenUnder path owner name := by
          intro owner name written
          rw [(splitPath_eq_some_iff _ _ _).mpr written] at parts
          cases parts
        have plain : (ofPath path).id scope = qualify scope (trim (lastSegment "::" path)) := by
          rw [← splitPath_name, ofPath, parts]
          rfl
        rw [plain]
        exact .plain unwritten last

theorem isNameKind_iff (node : TextTree) : isNameKind node.kind = true ↔ IsName node := by
  simp [isNameKind, IsName, or_assoc]

/-- The name that the pass finds first is the path of the declarator. -/
theorem hasPath_iff (declarator : TextTree) (path : String) :
    HasPath declarator path ↔
      ∃ name, declarator.children.find? (isNameKind ·.kind) = some name ∧ name.text = path := by
  have first (name : TextTree) : declarator.children.find? (isNameKind ·.kind) = some name ↔
      ∃ earlier later, declarator.children = earlier ++ name :: later ∧ IsName name ∧
        ∀ other ∈ earlier, ¬ IsName other := by
    rw [List.find?_eq_some_iff_append]
    simp only [← isNameKind_iff, Bool.not_eq_true, Bool.not_eq_eq_eq_not, Bool.not_true]
    grind
  unfold HasPath
  constructor
  · intro ⟨earlier, name, later, split, isName, others, text⟩
    exact ⟨name, (first name).mpr ⟨earlier, later, split, isName, others⟩, text⟩
  · intro ⟨name, found, text⟩
    obtain ⟨earlier, later, split, isName, others⟩ := (first name).mp found
    exact ⟨earlier, name, later, split, isName, others, text⟩

theorem declared?_eq_some_iff (declarator : TextTree) (function : FunctionName) :
    declared? declarator = some function ↔
      ∃ path, HasPath declarator path ∧ ofPath path = function := by
  unfold declared?
  rw [Option.map_eq_some_iff]
  simp only [hasPath_iff]
  constructor
  · intro ⟨name, found, named⟩
    exact ⟨name.text, ⟨name, found, rfl⟩, named⟩
  · intro ⟨path, ⟨name, found, text⟩, named⟩
    exact ⟨name, found, text ▸ named⟩

end Paths

section Scopes

/-- The pass goes down declarators to the same function. -/
theorem descend_functionDeclarator_iff (outer function : TextTree) :
    outer.descend functionDeclarator = some function ↔ Wraps outer function := by
  rw [Tree.descend_eq_some_iff]
  constructor
  · intro reaches
    induction reaches with
    | arrived goal => exact .itself (beq_iff_eq.mp goal)
    | past other _ down _ ih =>
      exact .further (beq_eq_false_iff_ne.mp other)
        ((Tree.Descent.next?_of_field rfl rfl).mp down) ih
  · intro wraps
    induction wraps with
    | itself kind => exact .arrived (beq_iff_eq.mpr kind)
    | further kind held _ ih =>
      exact .past (beq_eq_false_iff_ne.mpr kind) rfl
        ((Tree.Descent.next?_of_field rfl rfl).mpr held) ih

theorem writtenOwner?_eq_some_iff (definition : TextTree) (owner : String) :
    writtenOwner? definition = some owner ↔ WrittenIn definition owner := by
  have reached (function : FunctionName) :
      ((definition.child? "declarator").bind (·.descend functionDeclarator)).bind declared? =
          some function ↔
        ∃ outer declarator path, definition.child? "declarator" = some outer ∧
          Wraps outer declarator ∧ HasPath declarator path ∧ ofPath path = function := by
    simp only [Option.bind_eq_some_iff, descend_functionDeclarator_iff, declared?_eq_some_iff]
    grind
  unfold writtenOwner? WrittenIn
  constructor
  · intro written
    split at written
    · next name found =>
      cases written
      obtain ⟨outer, declarator, path, held, down, here, named⟩ := (reached _).mp found
      exact ⟨outer, declarator, path, name, held, down, here,
        (ofPath_eq_under_iff _ _ _).mp named⟩
    · cases written
  · intro ⟨outer, declarator, path, name, held, down, here, written⟩
    rw [(reached _).mpr
      ⟨outer, declarator, path, held, down, here, (ofPath_eq_under_iff _ _ _).mpr written⟩]

theorem opensBody_eq_some_iff (node : TextTree) (owner : Option String) :
    opensBody node = some owner ↔ Opens node owner := by
  have ownerKind : isOwnerKind node.kind = true ↔
      node.kind = "class_specifier" ∨ node.kind = "struct_specifier" := by
    simp [isOwnerKind]
  unfold opensBody
  constructor
  · intro opened
    split at opened
    · next kind =>
      cases opened
      exact .ofClass (ownerKind.mp kind)
    · split at opened
      · next kind =>
        obtain ⟨name, written, same⟩ := Option.map_eq_some_iff.mp opened
        subst same
        exact .ofBody kind ((writtenOwner?_eq_some_iff node name).mp written)
      · cases opened
  · intro opened
    cases opened with
    | ofClass kind => rw [if_pos (ownerKind.mpr kind)]
    | ofBody kind written =>
      have plain : ¬ isOwnerKind node.kind = true := by simp [isOwnerKind, kind]
      rw [if_neg plain, if_pos kind, (writtenOwner?_eq_some_iff _ _).mpr written]
      rfl

/-- The owner in force at a place is that of the nearest scope around it. -/
theorem ownerAt_iff (tree : TextTree) (place : Tree.Place String) (owner : Option String) :
    cpp.callScope.ownerAt tree place = owner ↔ InForce Opens place.ancestors owner := by
  rw [inForce_iff opensBody_eq_some_iff]
  rfl

theorem entered?_eq_some_iff (tree : TextTree) (place : Tree.Place String) (id : String) :
    cpp.entered? (cpp.callScope.visit tree place) = some id ↔ Introduces place id := by
  have function : cpp.function? place.node =
      if place.node.kind = "function_declarator" then declared? place.node else none := rfl
  unfold entered? Introduces
  rw [Option.map_eq_some_iff]
  change (∃ named, cpp.function? place.node = some named ∧
    named.id (cpp.callScope.ownerAt tree place) = id) ↔ _
  rw [function]
  constructor
  · intro ⟨named, here, name⟩
    split at here
    · next kind =>
      obtain ⟨path, hasPath, same⟩ := (declared?_eq_some_iff _ _).mp here
      subst same
      exact ⟨kind, path, _, hasPath, (ownerAt_iff tree place _).mp rfl,
        (pathNames_iff _ _ _).mpr name⟩
    · cases here
  · intro ⟨kind, path, scope, hasPath, force, names⟩
    rw [if_pos kind]
    refine ⟨ofPath path, (declared?_eq_some_iff _ _).mpr ⟨path, hasPath, rfl⟩, ?_⟩
    rw [(ownerAt_iff tree place scope).mpr force]
    exact (pathNames_iff _ _ _).mp names

end Scopes

section Forms

def form? (function : TextTree) : Option Callee :=
  if function.kind = "field_expression" then
    match function.childText? "argument", function.childText? "field" with
    | some object, some method => some (.member object method)
    | _, _ => none
  else if function.kind = "identifier" then some (.plain function.text)
  else if function.kind = "qualified_identifier" then
    some (.named ((ofPath function.text).id none))
  else some (.named function.text)

/-- A form by the kind of the expression it is read off. -/
theorem form?_eq_some_iff (function : TextTree) (form : Callee) :
    form? function = some form ↔
      (function.kind = "field_expression" ∧ ∃ object method,
        function.childText? "argument" = some object ∧
          function.childText? "field" = some method ∧ form = .member object method) ∨
      (function.kind = "identifier" ∧ form = .plain function.text) ∨
      (function.kind = "qualified_identifier" ∧ form = .named ((ofPath function.text).id none)) ∨
      function.kind ∉ ["field_expression", "identifier", "qualified_identifier"] ∧
        form = .named function.text := by
  unfold form?
  by_cases member : function.kind = "field_expression"
  · cases function.childText? "argument" <;> cases function.childText? "field" <;>
      simp [member, eq_comm]
  · by_cases plain : function.kind = "identifier"
    · simp [plain, eq_comm]
    · by_cases path : function.kind = "qualified_identifier" <;>
        simp [member, plain, path, eq_comm]

def formIn? (node : TextTree) : Option (Callee × Bool) :=
  if node.kind = "call_expression" then ((node.child? "function").bind form?).map (·, false)
  else none

theorem formIn?_eq_some_iff (node : TextTree) (form : Callee) (knownOnly : Bool) :
    formIn? node = some (form, knownOnly) ↔
      node.kind = "call_expression" ∧ knownOnly = false ∧
        ∃ function, node.child? "function" = some function ∧ form? function = some form := by
  unfold formIn?
  split
  · next kind =>
    simp only [Option.map_eq_some_iff, Option.bind_eq_some_iff, Prod.mk.injEq]
    constructor
    · intro ⟨found, ⟨function, held, formed⟩, same, unasked⟩
      exact ⟨kind, unasked.symm, function, held, same ▸ formed⟩
    · intro ⟨_, unasked, function, held, formed⟩
      exact ⟨form, ⟨function, held, formed⟩, rfl, unasked.symm⟩
  · next kind => simp [kind]

theorem call_eq (node : TextTree) :
    call node = (((node.child? "function").bind form?).map fun form =>
      Site.call form false).toList := by
  unfold call
  cases node.child? "function" with
  | none => rfl
  | some function =>
    rw [Option.bind_some, form?]
    dsimp only
    split
    · cases function.childText? "argument" <;> cases function.childText? "field" <;> rfl
    · split
      · rfl
      · split
        · have id : (ofPath function.text).id none =
              qualify (splitPath function.text).1 (splitPath function.text).2 := by
            unfold ofPath
            rcases splitPath function.text with ⟨_ | owner, name⟩ <;> rfl
          rw [id]
          rfl
        · rfl

/-- A node is a declaration, or its one site is the call that is read off it. -/
theorem sites_eq (node : TextTree) :
    cpp.sites node = if node.kind = "declaration" then declaration node
      else ((formIn? node).map fun read => Site.call read.1 read.2).toList := by
  change Cpp.sites node = _
  unfold Cpp.sites formIn?
  split
  · rfl
  · split
    · rw [call_eq, Option.map_map]
      rfl
    · rfl

theorem readsCalls : cpp.ReadsCalls formIn? := by
  apply ReadsCalls.of_sites
  · intro node site listed
    exact Language.function?_of_sites (show site ∈ Language.cpp.dialect.sites node from listed)
  · intro node
    rw [sites_eq]
    split
    · next kind =>
      refine .inr ⟨by simp [formIn?, kind], ?_⟩
      unfold declaration
      split
      · intro site listed
        obtain ⟨declarator, -, binds⟩ := List.mem_filterMap.mp listed
        obtain ⟨name, -, same⟩ := Option.map_eq_some_iff.mp binds
        simp [← same]
      · simp
    · exact .inl rfl

end Forms

section Variables

theorem next?_variableName_iff (node inner : TextTree) :
    variableName.next? node = some inner ↔ node.child? "declarator" = some inner ∨
      node.child? "declarator" = none ∧ node.firstNamed? = some inner :=
  Tree.Descent.next?_of_orNamed rfl rfl

theorem wrapper_iff (node : TextTree) : variableName.wrapper node.kind = true ↔ IsWrapper node := by
  simp [variableName, IsWrapper, or_assoc]

theorem not_identifier_of_isWrapper {node : TextTree} (wrapper : IsWrapper node) :
    variableName.goal node.kind = false := by
  rcases wrapper with kind | kind | kind <;> simp [variableName, kind]

/-- The pass goes down declarators to the same identifier. -/
theorem descend_variableName_iff (declarator found : TextTree) :
    declarator.descend variableName = some found ↔ LeadsTo declarator found := by
  rw [Tree.descend_eq_some_iff]
  constructor
  · intro reaches
    induction reaches with
    | arrived goal => exact .identifier (beq_iff_eq.mp goal)
    | past _ wraps down _ ih =>
      have wrapper := (wrapper_iff _).mp wraps
      rcases (next?_variableName_iff _ _).mp down with held | ⟨bare, first⟩
      · exact .declarator wrapper held ih
      · exact .wrapped wrapper bare first ih
  · intro leads
    induction leads with
    | identifier kind => exact .arrived (beq_iff_eq.mpr kind)
    | declarator wrapper held _ ih =>
      exact .past (not_identifier_of_isWrapper wrapper) ((wrapper_iff _).mpr wrapper)
        ((next?_variableName_iff _ _).mpr (.inl held)) ih
    | wrapped wrapper bare first _ ih =>
      exact .past (not_identifier_of_isWrapper wrapper) ((wrapper_iff _).mpr wrapper)
        ((next?_variableName_iff _ _).mpr (.inr ⟨bare, first⟩)) ih

theorem descends_iff (declarator : TextTree) (name : String) :
    (declarator.descend variableName).map Tree.text = some name ↔ Declares declarator name := by
  rw [Option.map_eq_some_iff]
  simp only [descend_variableName_iff]
  rfl

theorem typeText_eq_iff (type : TextTree) (name : String) :
    typeText type = name ↔ NamesType type name := by
  unfold typeText
  constructor
  · intro same
    subst same
    split
    · next kind =>
      cases held : type.childText? "name" with
      | none => exact .nameless kind held
      | some name => exact .template kind held
    · next kind => exact .plain kind
  · intro names
    cases names with
    | template kind held => simp [kind, held]
    | nameless kind bare => simp [kind, bare]
    | plain kind => simp [kind]

theorem created?_eq_some_iff (declarator : TextTree) (type : String) :
    created? declarator = some type ↔ ∃ made, Makes declarator made ∧ NamesType made type := by
  simp only [← typeText_eq_iff]
  unfold created? Makes
  cases declarator.child? "value" with
  | none => simp
  | some value => by_cases kind : value.kind = "new_expression" <;> simp [kind]

theorem hasType_iff (declared declarator : TextTree) (type : String) :
    HasType declared declarator type ↔
      (created? declarator).getD (typeText declared) = type := by
  constructor
  · intro has
    cases has with
    | made makes names =>
      rw [(created?_eq_some_iff _ _).mpr ⟨_, makes, names⟩, Option.getD_some]
    | declared plain names =>
      have nothing : created? declarator = none := by
        apply Option.eq_none_iff_forall_ne_some.mpr
        intro found here
        obtain ⟨made, makes, -⟩ := (created?_eq_some_iff _ _).mp here
        exact plain made makes
      rw [nothing, Option.getD_none]
      exact (typeText_eq_iff _ _).mpr names
  · intro same
    subst same
    cases here : created? declarator with
    | none =>
      refine .declared (fun made makes => ?_) ((typeText_eq_iff _ _).mp rfl)
      rw [(created?_eq_some_iff _ _).mpr ⟨made, makes, (typeText_eq_iff _ _).mp rfl⟩] at here
      cases here
    | some found =>
      obtain ⟨made, makes, names⟩ := (created?_eq_some_iff _ _).mp here
      exact .made makes names

/-- A declaration gives types as the pass reads it. -/
theorem boundTo?_eq_some_iff (known : Knowledge) (name : String) (node : TextTree)
    (type : String) : cpp.boundTo? known name node = some type ↔ Gives name node type := by
  by_cases kind : node.kind = "declaration"
  · have sites : cpp.sites node = declaration node := by rw [sites_eq, if_pos kind]
    unfold declaration at sites
    cases declared : node.child? "type" with
    | none =>
      rw [declared] at sites
      rw [cpp.boundTo?_eq_none known (by simp [sites])]
      simp [Gives, declared]
    | some declaredType =>
      rw [declared] at sites
      rw [cpp.boundTo?_declarators known (node.childrenUnder "declarator")
        (fun declarator => (declarator.descend variableName).map Tree.text)
        (fun declarator => (created? declarator).getD (typeText declaredType)) rfl
        (by simp [sites, Function.comp_def])]
      simp only [descends_iff, ← hasType_iff, ne_eq]
      simp [Gives, kind, declared]
  · have silent : cpp.boundTo? known name node = none := by
      apply cpp.boundTo?_eq_none
      rw [sites_eq, if_neg kind]
      cases formIn? node <;> simp
    simp [silent, Gives, kind]

end Variables

section Callees

variable (known : Knowledge) (tree : TextTree) (place : Tree.Place String)

/-- What a receiver is, as the pass resolves it. -/
theorem receiverIs_iff (receiver type : String) :
    ReceiverIs tree place receiver type ↔
      (cpp.receiverType? (cpp.callScope.ownerAt tree place) (cpp.stateAt known tree place).types
        receiver).getD receiver = type := by
  have reads (type : String) :
      cpp.receiverType? (cpp.callScope.ownerAt tree place) (cpp.stateAt known tree place).types
          receiver = some type ↔ StandsFor "this" Opens Gives tree place receiver type :=
    receiverType?_eq_some_iff cpp known rfl rfl opensBody_eq_some_iff (boundTo?_eq_some_iff known)
      place receiver type
  cases found : cpp.receiverType? (cpp.callScope.ownerAt tree place)
      (cpp.stateAt known tree place).types receiver with
  | some here =>
    have stands := (reads here).mp found
    constructor
    · intro is
      cases is with
      | known other =>
        rw [(reads type).mpr other] at found
        exact (Option.some.inj found).symm
      | literal unknown => exact absurd stands (unknown here)
    · intro same
      subst same
      exact .known stands
  | none =>
    have unknown : ∀ type, ¬ StandsFor "this" Opens Gives tree place receiver type := by
      intro type stands
      rw [(reads type).mpr stands] at found
      cases found
    constructor
    · intro is
      cases is with
      | known stands => exact absurd stands (unknown type)
      | literal => rfl
    · intro same
      subst same
      exact .literal unknown

/-- A member call is resolved through what its receiver is. -/
theorem resolve?_member_iff (object method callee : String) :
    cpp.resolve? known (cpp.callScope.ownerAt tree place) (cpp.stateAt known tree place)
        (.member object method) = some callee ↔
      ∃ type, ReceiverIs tree place object type ∧ qualify (some type) method = callee := by
  have resolved : cpp.resolve? known (cpp.callScope.ownerAt tree place)
      (cpp.stateAt known tree place) (.member object method) =
        some (qualify (some ((cpp.receiverType? (cpp.callScope.ownerAt tree place)
          (cpp.stateAt known tree place).types object).getD object)) method) := by
    unfold resolve?
    dsimp only
    cases cpp.receiverType? (cpp.callScope.ownerAt tree place)
      (cpp.stateAt known tree place).types object <;> rfl
  rw [resolved, Option.some.injEq]
  simp only [receiverIs_iff known]
  exact ⟨fun same => ⟨_, rfl, same⟩, fun ⟨_, is, same⟩ => is ▸ same⟩

/-- A plain call goes to a member of the owner in force if that is defined, or else to the name. -/
theorem resolve?_plain_iff (name callee : String) :
    cpp.resolve? known (cpp.callScope.ownerAt tree place) (cpp.stateAt known tree place)
        (.plain name) = some callee ↔
      (∃ owner, InForce Opens place.ancestors (some owner) ∧
        known.defines (qualify (some owner) name) = true ∧ qualify (some owner) name = callee) ∨
      (∀ owner, InForce Opens place.ancestors (some owner) →
        known.defines (qualify (some owner) name) = false) ∧ name = callee := by
  simp only [← ownerAt_iff tree place]
  cases cpp.callScope.ownerAt tree place with
  | none => simp [resolve?]
  | some owner =>
    cases defined : known.defines (qualify (some owner) name) <;> simp [resolve?, defined]

/-- The pass resolves a function expression to what is called there. -/
theorem resolves_iff (function : TextTree) (callee : String) :
    (∃ form, form? function = some form ∧
      cpp.resolve? known (cpp.callScope.ownerAt tree place) (cpp.stateAt known tree place) form =
        some callee) ↔ Calls known tree place function callee := by
  constructor
  · intro ⟨form, read, resolved⟩
    rcases (form?_eq_some_iff function form).mp read with
      ⟨kind, object, method, argument, field, rfl⟩ | ⟨kind, rfl⟩ | ⟨kind, rfl⟩ | ⟨kind, rfl⟩
    · obtain ⟨type, receiver, rfl⟩ := (resolve?_member_iff ..).mp resolved
      exact .member kind argument field receiver
    · rcases (resolve?_plain_iff ..).mp resolved with ⟨owner, scope, defined, rfl⟩ | ⟨foreign, rfl⟩
      · exact .own kind scope defined
      · exact .plain kind foreign
    · exact .path kind ((pathNames_iff ..).mpr (Option.some.inj resolved))
    · cases resolved
      exact .other kind
  · intro calls
    cases calls with
    | @member object method type kind argument field receiver =>
      exact ⟨.member object method,
        (form?_eq_some_iff ..).mpr (.inl ⟨kind, object, method, argument, field, rfl⟩),
        (resolve?_member_iff ..).mpr ⟨type, receiver, rfl⟩⟩
    | @own owner kind scope defined =>
      exact ⟨.plain function.text, (form?_eq_some_iff ..).mpr (.inr (.inl ⟨kind, rfl⟩)),
        (resolve?_plain_iff ..).mpr (.inl ⟨owner, scope, defined, rfl⟩)⟩
    | plain kind foreign =>
      exact ⟨.plain function.text, (form?_eq_some_iff ..).mpr (.inr (.inl ⟨kind, rfl⟩)),
        (resolve?_plain_iff ..).mpr (.inr ⟨foreign, rfl⟩)⟩
    | path kind names =>
      exact ⟨.named ((ofPath function.text).id none),
        (form?_eq_some_iff ..).mpr (.inr (.inr (.inl ⟨kind, rfl⟩))),
        congrArg some ((pathNames_iff ..).mp names)⟩
    | other kind =>
      exact ⟨.named function.text, (form?_eq_some_iff ..).mpr (.inr (.inr (.inr ⟨kind, rfl⟩))), rfl⟩

/-- The call that the pass makes at a place is the one that is meant there. -/
theorem callMadeAt_iff (call : Call) :
    cpp.CallMadeAt known tree formIn? place call ↔ CallMeant known tree place call := by
  have caller := cpp.caller_stateAt_iff known tree (entered?_eq_some_iff tree) place call.caller
  constructor
  · intro ⟨⟨form, knownOnly, here, resolved, _⟩, entered, other⟩
    obtain ⟨kind, -, function, held, formed⟩ := (formIn?_eq_some_iff _ _ _).mp here
    exact ⟨kind, ⟨function, held, (resolves_iff known tree place _ _).mp ⟨form, formed, resolved⟩⟩,
      caller.mp entered, other⟩
  · intro ⟨kind, ⟨function, held, calls⟩, entered, other⟩
    obtain ⟨form, formed, resolved⟩ := (resolves_iff known tree place _ _).mpr calls
    have here := (formIn?_eq_some_iff _ _ _).mpr ⟨kind, rfl, function, held, formed⟩
    exact ⟨⟨form, false, here, resolved, by simp⟩, caller.mpr entered, other⟩

end Callees

/-- The calls of a C++ file are those that are meant at its places, in document order, each told
from the tree and the table alone. -/
theorem calls_resolved_by_scope (tree : TextTree) (table : SymbolTable) :
    tree.Yields (CallMeant table.knowledge tree) (cpp.calls table.knowledge tree) :=
  (cpp.yields_calls table.knowledge tree readsCalls).congr
    (callMadeAt_iff table.knowledge tree)

/-- `Tray<int>`. -/
def trayType : TextTree :=
  .node "template_type" (some "type") true "Tray<int>" [
    .node "type_identifier" (some "name") true "Tray" []]

/-- `*t = new Box` in a declaration. -/
def madePointer : TextTree :=
  .node "init_declarator" (some "declarator") true "*t = new Box" [
    .node "pointer_declarator" (some "declarator") true "*t" [
      .node "*" none false "*" [],
      .node "identifier" (some "declarator") true "t" []],
    .node "new_expression" (some "value") true "new Box" [
      .node "type_identifier" (some "type") true "Box" []]]

/-- `&r = s` in a declaration. -/
def boundReference : TextTree :=
  .node "init_declarator" (some "declarator") true "&r = s" [
    .node "reference_declarator" (some "declarator") true "&r" [
      .node "&" none false "&" [],
      .node "identifier" none true "r" []],
    .node "identifier" (some "value") true "s" []]

/-- `Box *Shop::make() { Tray<int> *t = new Box, &r = s; t->open(); r.open(); this->sell(); }`,
without punctuation. -/
def makeBody : TextTree :=
  .node "function_definition" none true "Box *Shop::make()" [
    .node "type_identifier" (some "type") true "Box" [],
    .node "pointer_declarator" (some "declarator") true "*Shop::make()" [
      .node "*" none false "*" [],
      .node "function_declarator" (some "declarator") true "Shop::make()" [
        .node "qualified_identifier" (some "declarator") true "Shop::make" [],
        .node "parameter_list" (some "parameters") true "()" []]],
    .node "compound_statement" (some "body") true "" [
      .node "declaration" none true "Tray<int> *t = new Box, &r = s;" [
        trayType, madePointer, boundReference],
      .node "call_expression" none true "t->open()" [
        .node "field_expression" (some "function") true "t->open" [
          .node "identifier" (some "argument") true "t" [],
          .node "field_identifier" (some "field") true "open" []]],
      .node "call_expression" none true "r.open()" [
        .node "field_expression" (some "function") true "r.open" [
          .node "identifier" (some "argument") true "r" [],
          .node "field_identifier" (some "field") true "open" []]],
      .node "call_expression" none true "this->sell()" [
        .node "field_expression" (some "function") true "this->sell" [
          .node "this" (some "argument") true "this" [],
          .node "field_identifier" (some "field") true "sell" []]]]]

/-- The variables are found below a pointer and a reference, what `new` makes outweighs the
template, and the owner is read off the path some declarators down. -/
theorem makeBody_means :
    (Declares madePointer "t" ∧ HasType trayType madePointer "Box") ∧
      (Declares boundReference "r" ∧ HasType trayType boundReference "Tray") ∧
      WrittenIn makeBody "Shop" := by
  refine ⟨⟨?_, ?_⟩, ⟨?_, ?_⟩, ?_⟩
  · exact ⟨_, .declarator (.inl rfl) rfl (.declarator (.inr (.inl rfl)) rfl (.identifier rfl)), rfl⟩
  · exact .made ⟨_, rfl, rfl, rfl⟩ (.plain (by decide))
  · exact ⟨_, .declarator (.inl rfl) rfl (.wrapped (.inr (.inr rfl)) rfl rfl (.identifier rfl)), rfl⟩
  · refine .declared ?_ (.template rfl rfl)
    intro made ⟨value, held, kind, _⟩
    cases held
    revert kind
    decide
  · refine ⟨_, _, "Shop::make", "make", rfl, .further (by decide) rfl (.itself rfl),
      ⟨[], _, _, rfl, .inr (.inr rfl), by simp, rfl⟩, ?_⟩
    exact (splitPath_eq_some_iff _ _ _).mp (by decide)

/-- The three calls go out from the function that is written under its owner. -/
theorem makeBody_calls :
    ((Declares madePointer "t" ∧ HasType trayType madePointer "Box") ∧
      (Declares boundReference "r" ∧ HasType trayType boundReference "Tray") ∧
      WrittenIn makeBody "Shop") ∧
    makeBody.Yields (CallMeant SymbolTable.empty.knowledge makeBody)
      [⟨"Shop.make", "Box.open"⟩, ⟨"Shop.make", "Tray.open"⟩, ⟨"Shop.make", "Shop.sell"⟩] := by
  have calls : cpp.calls SymbolTable.empty.knowledge makeBody =
      [⟨"Shop.make", "Box.open"⟩, ⟨"Shop.make", "Tray.open"⟩, ⟨"Shop.make", "Shop.sell"⟩] := by
    decide
  have found := calls_resolved_by_scope makeBody .empty
  rw [calls] at found
  exact ⟨makeBody_means, found⟩

end CallAtlas.Dialect.Cpp
