import CallAtlas.Proofs.Dialect.FoundAt
import CallAtlas.Proofs.Dialect.Stateless
import CallAtlas.Proofs.Text.Cut
import Mathlib.Data.List.Infix
/-!
What a call means in PHP, told from the tree alone. A variable can be called: after
`$f = $obj->run` it holds the method `run` of the type that `$obj` had at that assignment. What it
holds is settled there. A later `$obj = new Other()` does not change it, and neither does an
assignment to `$f` of another shape.

`calls_resolved_through_aliases` says that the pass, which keeps one map for the types of variables
and one for what they hold, finds the calls that are told in this way and no others.
-/
namespace CallAtlas.Dialect.Php

open Text

/-- A class or interface opens a scope for what is below it, perhaps without a name. -/
def Opens (node : TextTree) (owner : Option String) : Prop :=
  (node.kind = "class_declaration" ∨ node.kind = "interface_declaration") ∧
    node.childText? "name" = owner

def Introduces (place : Tree.Place String) (id : String) : Prop :=
  (place.node.kind = "function_definition" ∨ place.node.kind = "method_declaration") ∧
    ∃ name owner, place.node.childText? "name" = some name ∧
      InForce Opens place.ancestors owner ∧ id = qualify owner name

/-- A name without its namespace, which ends with the last backslash. -/
def IsShortName (name short : String) : Prop :=
  '\\' ∉ short.toList ∧ (name = short ∨ ∃ space, name = space ++ "\\" ++ short)

def IsName (node : TextTree) : Prop :=
  node.kind = "name" ∨ node.kind = "qualified_name"

def Assigns (node : TextTree) (name : String) (value : TextTree) : Prop :=
  node.kind = "assignment_expression" ∧ node.childText? "left" = some name ∧
    node.child? "right" = some value

/-- An expression makes an object of the class that the last name in it gives. -/
def Makes (expression : TextTree) (type : String) : Prop :=
  expression.kind = "object_creation_expression" ∧
    ∃ earlier name later, expression.children = earlier ++ name :: later ∧ IsName name ∧
      (∀ other ∈ later, ¬ IsName other) ∧ IsShortName name.text type

/-- An assignment gives a variable the class of the object that its value makes. -/
def Gives (name : String) (node : TextTree) (type : String) : Prop :=
  ∃ value, Assigns node name value ∧ Makes value type

/-- An assignment takes a member off a receiver, whether or not it calls it. -/
def Takes (node : TextTree) (name receiver method : String) : Prop :=
  ∃ value, Assigns node name value ∧
    (value.kind = "member_access_expression" ∨ value.kind = "member_call_expression") ∧
    value.childText? "object" = some receiver ∧ value.childText? "name" = some method

/-- The method that a variable is given to hold at a place. The receiver stands for a type
there. -/
def Holds (tree : TextTree) (place : Tree.Place String) (name target : String) : Prop :=
  ∃ receiver method type, Takes place.node name receiver method ∧
    StandsFor "$this" Opens Gives tree place receiver type ∧ qualify (some type) method = target

inductive Calls (tree : TextTree) (place : Tree.Place String) : String → Prop
  | held {function : TextTree} {target : String}
      (kind : place.node.kind = "function_call_expression")
      (called : place.node.child? "function" = some function)
      (isVariable : function.kind = "variable_name")
      (last : tree.LastBefore place (fun earlier => Holds tree earlier function.text) target) :
      Calls tree place target
  | function {function : TextTree} {name : String}
      (kind : place.node.kind = "function_call_expression")
      (called : place.node.child? "function" = some function) (isName : IsName function)
      (short : IsShortName function.text name) : Calls tree place name
  | member {receiver method type : String} (kind : place.node.kind = "member_call_expression")
      (object : place.node.childText? "object" = some receiver)
      (name : place.node.childText? "name" = some method)
      (stands : StandsFor "$this" Opens Gives tree place receiver type) :
      Calls tree place (qualify (some type) method)
  | own {word method owner : String} (kind : place.node.kind = "scoped_call_expression")
      (scope : place.node.childText? "scope" = some word)
      (name : place.node.childText? "name" = some method)
      (itself : word = "self" ∨ word = "static")
      (inside : InForce Opens place.ancestors (some owner)) :
      Calls tree place (qualify (some owner) method)
  | foreign {path method type : String} (kind : place.node.kind = "scoped_call_expression")
      (scope : place.node.childText? "scope" = some path)
      (name : place.node.childText? "name" = some method)
      (other : ¬ (path = "self" ∨ path = "static")) (short : IsShortName path type) :
      Calls tree place (qualify (some type) method)

structure CallMeant (known : Knowledge) (tree : TextTree) (place : Tree.Place String)
    (call : Call) : Prop where
  callee : Calls tree place call.callee
  defined : known.defines call.callee = true
  caller : tree.LastBefore place Introduces call.caller
  other : call.caller ≠ call.callee

section Names

theorem isNameKind_iff (node : TextTree) : isNameKind node.kind = true ↔ IsName node := by
  simp [isNameKind, IsName]

theorem shortName_eq_iff (name short : String) :
    shortName name = short ↔ IsShortName name short := by
  have some_char : "\\".toList ≠ [] := by decide
  have occurs (text : List Char) : "\\".toList <:+: text ↔ '\\' ∈ text :=
    List.singleton_infix_iff '\\' text
  unfold shortName lastSegment IsShortName
  cases cut : cutLast? "\\" name with
  | none =>
    have plain : '\\' ∉ name.toList := by
      rw [cutLast?_eq_none_iff some_char, occurs] at cut
      exact cut
    constructor
    · intro same
      subst same
      exact ⟨plain, .inl rfl⟩
    · intro ⟨_, whole⟩
      rcases whole with same | ⟨space, joined⟩
      · exact same
      · exact absurd (by simp [joined]) plain
  | some sides =>
    obtain ⟨before, after⟩ := sides
    obtain ⟨joined, last⟩ := (cutLast?_eq_some_iff some_char).mp cut
    constructor
    · intro same
      subst same
      refine ⟨fun later => last ((occurs _).mpr later), .inr ⟨before, ?_⟩⟩
      apply String.toList_inj.mp
      rw [joined]
      simp
    · intro ⟨plain, whole⟩
      rcases whole with same | ⟨space, split⟩
      · subst same
        exact absurd (by simp [joined]) plain
      · -- no backslash follows this one either, so it is the one of the cut
        have here : cutLast? "\\" name = some (space, short) := by
          apply (cutLast?_eq_some_iff some_char).mpr
          exact ⟨by simp [split], fun later => plain ((occurs _).mp later)⟩
        rw [here] at cut
        cases cut
        rfl

end Names

section Scopes

theorem opens_eq_some_iff (node : TextTree) (owner : Option String) :
    opens node = some owner ↔ Opens node owner := by
  unfold opens Opens
  split
  · next kind => simp [kind]
  · next kind => simp [kind]

/-- The owner in force at a place is that of the nearest class or interface around it. -/
theorem ownerAt_iff (tree : TextTree) (place : Tree.Place String) (owner : Option String) :
    php.callScope.ownerAt tree place = owner ↔ InForce Opens place.ancestors owner := by
  rw [inForce_iff opens_eq_some_iff]
  rfl

theorem entered?_eq_some_iff (tree : TextTree) (place : Tree.Place String) (id : String) :
    php.entered? (php.callScope.visit tree place) = some id ↔ Introduces place id := by
  have function (named : FunctionName) : php.function? place.node = some named ↔
      (place.node.kind = "function_definition" ∨ place.node.kind = "method_declaration") ∧
        ∃ name, place.node.childText? "name" = some name ∧ ⟨.enclosing, name⟩ = named := by
    change Php.function? place.node = some named ↔ _
    unfold Php.function?
    split
    · next kind => simp [kind]
    · next kind => simp [kind]
  unfold entered? Introduces
  rw [Option.map_eq_some_iff]
  constructor
  · intro ⟨named, here, same⟩
    obtain ⟨kind, name, held, made⟩ := (function named).mp here
    subst made
    exact ⟨kind, name, _, held, (ownerAt_iff tree place _).mp rfl, same.symm⟩
  · intro ⟨kind, name, owner, held, force, same⟩
    refine ⟨⟨.enclosing, name⟩, (function _).mpr ⟨kind, name, held, rfl⟩, ?_⟩
    rw [same, ← (ownerAt_iff tree place owner).mpr force]
    rfl

end Scopes

section Assignments

/-- A node binds, takes or calls one thing at most. -/
theorem sites_length_le_one (node : TextTree) : (php.sites node).length ≤ 1 := by
  change (Php.sites node).length ≤ 1
  unfold Php.sites assignment functionCall memberCall scopedCall
  grind

theorem created?_eq_some_iff (expression : TextTree) (type : String) :
    (expression.kind = "object_creation_expression" ∧ created? expression = some type) ↔
      Makes expression type := by
  unfold Makes created?
  rw [Option.map_eq_some_iff]
  constructor
  · intro ⟨kind, name, found, short⟩
    obtain ⟨isName, after, before, split, others⟩ := List.find?_eq_some_iff_append.mp found
    refine ⟨kind, before.reverse, name, after.reverse, ?_, (isNameKind_iff _).mp isName, ?_,
      (shortName_eq_iff _ _).mp short⟩
    · rw [← List.reverse_reverse expression.children, split]
      simp
    · intro other later isName
      have not_name := others other (List.mem_reverse.mp later)
      rw [(isNameKind_iff other).mpr isName] at not_name
      cases not_name
  · intro ⟨kind, earlier, name, later, split, isName, others, short⟩
    refine ⟨kind, name, ?_, (shortName_eq_iff _ _).mpr short⟩
    apply List.find?_eq_some_iff_append.mpr
    refine ⟨(isNameKind_iff _).mpr isName, later.reverse, earlier.reverse, by simp [split], ?_⟩
    intro other listed
    have not_name := mt (isNameKind_iff other).mp (others other (List.mem_reverse.mp listed))
    simpa using not_name

theorem mem_sites_of_assignment {node : TextTree} {site : Site}
    (calls : ∀ form knownOnly, site ≠ .call form knownOnly) :
    site ∈ php.sites node ↔ node.kind = "assignment_expression" ∧ site ∈ assignment node := by
  change site ∈ Php.sites node ↔ _
  unfold Php.sites functionCall memberCall scopedCall
  grind

theorem mem_sites_bind_iff (name : String) (node : TextTree) (type : String) :
    Site.bind name type ∈ php.sites node ↔ Gives name node type := by
  rw [mem_sites_of_assignment (by simp)]
  unfold Gives Assigns
  simp only [← created?_eq_some_iff]
  constructor
  · intro ⟨kind, listed⟩
    unfold assignment at listed
    split at listed
    · next left right target value =>
      split at listed
      · next makes =>
        split at listed
        · next made =>
          cases List.mem_singleton.mp listed
          exact ⟨right, ⟨kind, by simp [Tree.childText?, target], value⟩, makes, made⟩
        · cases listed
      · split at listed
        · split at listed <;> simp at listed
        · cases listed
    · cases listed
  · intro ⟨right, ⟨kind, target, value⟩, makes, made⟩
    obtain ⟨left, held, text⟩ := Option.map_eq_some_iff.mp target
    exact ⟨kind, by simp [assignment, held, value, makes, made, text]⟩

theorem mem_sites_hold_iff (node : TextTree) (name receiver method : String) :
    Site.hold name receiver method ∈ php.sites node ↔ Takes node name receiver method := by
  rw [mem_sites_of_assignment (by simp)]
  unfold Takes Assigns
  constructor
  · intro ⟨kind, listed⟩
    unfold assignment at listed
    split at listed
    · next left right target value =>
      split at listed
      · split at listed <;> simp at listed
      · split at listed
        · next takes =>
          split at listed
          · next object member =>
            cases List.mem_singleton.mp listed
            exact ⟨right, ⟨kind, by simp [Tree.childText?, target], value⟩, takes, object, member⟩
          · cases listed
        · cases listed
    · cases listed
  · intro ⟨right, ⟨kind, target, value⟩, takes, object, member⟩
    obtain ⟨left, held, text⟩ := Option.map_eq_some_iff.mp target
    have makes : right.kind ≠ "object_creation_expression" := by
      rcases takes with takes | takes <;> simp [takes]
    exact ⟨kind, by simp [assignment, held, value, makes, takes, object, member, text]⟩

/-- An assignment gives types as the pass reads it. -/
theorem boundTo?_eq_some_iff (known : Knowledge) (name : String) (node : TextTree)
    (type : String) : php.boundTo? known name node = some type ↔ Gives name node type := by
  rw [boundTo?_of_sole sites_length_le_one known rfl, mem_sites_bind_iff]

end Assignments

section Receivers

variable (known : Knowledge) (tree : TextTree) (place : Tree.Place String)

/-- What a receiver stands for, as the pass resolves it. -/
theorem standsFor_iff (receiver type : String) :
    php.receiverType? (php.callScope.ownerAt tree place) (php.stateAt known tree place).types
        receiver = some type ↔ StandsFor "$this" Opens Gives tree place receiver type :=
  receiverType?_eq_some_iff php known rfl rfl opens_eq_some_iff (boundTo?_eq_some_iff known)
    place receiver type

/-- What a variable is given to hold, as the pass resolves it on the spot. -/
theorem heldAt?_eq_some_iff (name target : String) :
    php.heldAt? known tree name place = some target ↔ Holds tree place name target := by
  unfold heldAt? Holds
  rw [heldFrom?_of_sole sites_length_le_one]
  simp only [← standsFor_iff known, ← mem_sites_hold_iff]
  rfl

/-- What a variable holds is what it was given last. -/
theorem lookup_held_iff (name target : String) :
    (php.stateAt known tree place).held.lookup name = some target ↔
      tree.LastBefore place (fun earlier => Holds tree earlier name) target := by
  rw [php.lookup_held_stateAt known tree (.of_sole sites_length_le_one)]
  exact Tree.getLast?_before_eq_some_iff fun earlier => heldAt?_eq_some_iff known tree earlier name

end Receivers

section Forms

theorem mem_functionCall_iff (node : TextTree) (form : Callee) (knownOnly : Bool) :
    Site.call form knownOnly ∈ functionCall node ↔
      knownOnly = true ∧ ∃ function, node.child? "function" = some function ∧
        (function.kind = "variable_name" ∧ form = .held function.text ∨
          IsName function ∧ form = .named (shortName function.text)) := by
  unfold functionCall
  cases node.child? "function" with
  | none => simp
  | some function =>
    by_cases isVariable : function.kind = "variable_name"
    · simp [IsName, isVariable, and_comm]
    · by_cases isName : isNameKind function.kind
      · simp [isVariable, isName, (isNameKind_iff function).mp isName, and_comm]
      · simp [isVariable, isName, mt (isNameKind_iff function).mpr isName]

theorem mem_memberCall_iff (node : TextTree) (form : Callee) (knownOnly : Bool) :
    Site.call form knownOnly ∈ memberCall node ↔
      knownOnly = true ∧ ∃ receiver method, node.childText? "object" = some receiver ∧
        node.childText? "name" = some method ∧ form = .member receiver method := by
  unfold memberCall
  cases node.childText? "object" <;> cases node.childText? "name" <;> simp [and_comm]

theorem mem_scopedCall_iff (node : TextTree) (form : Callee) (knownOnly : Bool) :
    Site.call form knownOnly ∈ scopedCall node ↔
      knownOnly = true ∧ ∃ scope method, node.childText? "scope" = some scope ∧
        node.childText? "name" = some method ∧
        ((scope = "self" ∨ scope = "static") ∧ form = .ownMember method ∨
          ¬ (scope = "self" ∨ scope = "static") ∧
            form = .named (qualify (some (shortName scope)) method)) := by
  unfold scopedCall
  cases node.childText? "scope" with
  | none => simp
  | some scope =>
    cases node.childText? "name" with
    | none => simp
    | some method =>
      have single (callee : Callee) : Site.call form knownOnly ∈ [Site.call callee true] ↔
          knownOnly = true ∧ form = callee := by
        simp [and_comm]
      dsimp only
      split
      · next itself =>
        rw [single]
        grind
      · next other =>
        rw [single]
        grind

/-- The calls among the sites of a node, by its kind. -/
theorem mem_sites_call_iff (node : TextTree) (form : Callee) (knownOnly : Bool) :
    Site.call form knownOnly ∈ php.sites node ↔
      (node.kind = "function_call_expression" ∧ Site.call form knownOnly ∈ functionCall node) ∨
      (node.kind = "member_call_expression" ∧ Site.call form knownOnly ∈ memberCall node) ∨
      (node.kind = "scoped_call_expression" ∧ Site.call form knownOnly ∈ scopedCall node) := by
  have assigned : Site.call form knownOnly ∉ assignment node := by
    unfold assignment
    grind
  change Site.call form knownOnly ∈ Php.sites node ↔ _
  unfold Php.sites
  grind

end Forms

section Callees

variable (known : Knowledge) (tree : TextTree) (place : Tree.Place String)

/-- A call among these sites is resolved to a callee. -/
def Resolved (sites : List Site) (callee : String) : Prop :=
  ∃ form knownOnly, Site.call form knownOnly ∈ sites ∧
    php.ResolvesAt known tree place form knownOnly callee

/-- A call of a function goes to what the variable holds, or to the function of that name. -/
theorem resolved_functionCall_iff (callee : String) :
    Resolved known tree place (functionCall place.node) callee ↔
      known.defines callee = true ∧ ∃ function, place.node.child? "function" = some function ∧
        (function.kind = "variable_name" ∧
            tree.LastBefore place (fun earlier => Holds tree earlier function.text) callee ∨
          IsName function ∧ IsShortName function.text callee) := by
  unfold Resolved
  simp only [mem_functionCall_iff]
  constructor
  · rintro ⟨form, knownOnly, ⟨rfl, function, called, ⟨isVariable, rfl⟩ | ⟨isName, rfl⟩⟩,
      resolved, defined⟩
    · exact ⟨defined rfl, function, called,
        .inl ⟨isVariable, (lookup_held_iff known tree place _ _).mp resolved⟩⟩
    · exact ⟨defined rfl, function, called,
        .inr ⟨isName, (shortName_eq_iff _ _).mp (Option.some.inj resolved)⟩⟩
  · rintro ⟨defined, function, called, ⟨isVariable, last⟩ | ⟨isName, short⟩⟩
    · exact ⟨.held function.text, true, ⟨rfl, function, called, .inl ⟨isVariable, rfl⟩⟩,
        (lookup_held_iff known tree place _ _).mpr last, fun _ => defined⟩
    · exact ⟨.named (shortName function.text), true, ⟨rfl, function, called, .inr ⟨isName, rfl⟩⟩,
        congrArg some ((shortName_eq_iff _ _).mpr short), fun _ => defined⟩

/-- A member call goes to the method of the type that its receiver stands for. -/
theorem resolved_memberCall_iff (callee : String) :
    Resolved known tree place (memberCall place.node) callee ↔
      known.defines callee = true ∧ ∃ receiver method type,
        place.node.childText? "object" = some receiver ∧
        place.node.childText? "name" = some method ∧
        StandsFor "$this" Opens Gives tree place receiver type ∧
        qualify (some type) method = callee := by
  have typed := standsFor_iff known tree place
  unfold Resolved
  simp only [mem_memberCall_iff]
  constructor
  · rintro ⟨form, knownOnly, ⟨rfl, receiver, method, object, name, rfl⟩, resolved, defined⟩
    obtain ⟨type, stands, named⟩ := (php.resolve?_member_eq_some_iff _ rfl ..).mp resolved
    exact ⟨defined rfl, receiver, method, type, object, name, (typed _ _).mp stands, named⟩
  · rintro ⟨defined, receiver, method, type, object, name, stands, named⟩
    exact ⟨.member receiver method, true, ⟨rfl, receiver, method, object, name, rfl⟩,
      (php.resolve?_member_eq_some_iff _ rfl ..).mpr ⟨type, (typed _ _).mpr stands, named⟩,
      fun _ => defined⟩

/-- A scoped call goes to a method of the owner in force, or of the class it names. -/
theorem resolved_scopedCall_iff (callee : String) :
    Resolved known tree place (scopedCall place.node) callee ↔
      known.defines callee = true ∧ ∃ scope method,
        place.node.childText? "scope" = some scope ∧
        place.node.childText? "name" = some method ∧
        ((scope = "self" ∨ scope = "static") ∧
            (∃ owner, InForce Opens place.ancestors (some owner) ∧
              qualify (some owner) method = callee) ∨
          ¬ (scope = "self" ∨ scope = "static") ∧
            ∃ type, IsShortName scope type ∧ qualify (some type) method = callee) := by
  have force := ownerAt_iff tree place
  unfold Resolved
  simp only [mem_scopedCall_iff]
  constructor
  · rintro ⟨form, knownOnly, ⟨rfl, word, method, scope, name, ⟨itself, rfl⟩ | ⟨other, rfl⟩⟩,
      resolved, defined⟩
    · obtain ⟨owner, inside, named⟩ := Option.map_eq_some_iff.mp resolved
      exact ⟨defined rfl, word, method, scope, name,
        .inl ⟨itself, owner, (force _).mp inside, named⟩⟩
    · exact ⟨defined rfl, word, method, scope, name,
        .inr ⟨other, _, (shortName_eq_iff _ _).mp rfl, Option.some.inj resolved⟩⟩
  · rintro ⟨defined, word, method, scope, name, ⟨itself, owner, inside, named⟩ |
      ⟨other, type, short, named⟩⟩
    · refine ⟨.ownMember method, true, ⟨rfl, word, method, scope, name, .inl ⟨itself, rfl⟩⟩,
        ?_, fun _ => defined⟩
      exact Option.map_eq_some_iff.mpr ⟨owner, (force _).mpr inside, named⟩
    · refine ⟨.named (qualify (some (shortName word)) method), true,
        ⟨rfl, word, method, scope, name, .inr ⟨other, rfl⟩⟩, ?_, fun _ => defined⟩
      rw [(shortName_eq_iff _ _).mpr short, ← named]
      rfl

/-- What is resolved at a node, by its kind. -/
theorem resolved_sites_iff (callee : String) :
    Resolved known tree place (php.sites place.node) callee ↔
      (place.node.kind = "function_call_expression" ∧
        Resolved known tree place (functionCall place.node) callee) ∨
      (place.node.kind = "member_call_expression" ∧
        Resolved known tree place (memberCall place.node) callee) ∨
      (place.node.kind = "scoped_call_expression" ∧
        Resolved known tree place (scopedCall place.node) callee) := by
  unfold Resolved
  simp only [mem_sites_call_iff]
  grind

/-- The pass resolves the call at a place to what is called there. -/
theorem resolves_iff (callee : String) :
    Resolved known tree place (php.sites place.node) callee ↔
      Calls tree place callee ∧ known.defines callee = true := by
  rw [resolved_sites_iff, resolved_functionCall_iff, resolved_memberCall_iff,
    resolved_scopedCall_iff]
  constructor
  · rintro (⟨kind, defined, function, called, ⟨isVariable, last⟩ | ⟨isName, short⟩⟩ |
      ⟨kind, defined, receiver, method, type, object, name, stands, rfl⟩ |
      ⟨kind, defined, word, method, scope, name, ⟨itself, owner, inside, rfl⟩ |
        ⟨other, type, short, rfl⟩⟩)
    · exact ⟨.held kind called isVariable last, defined⟩
    · exact ⟨.function kind called isName short, defined⟩
    · exact ⟨.member kind object name stands, defined⟩
    · exact ⟨.own kind scope name itself inside, defined⟩
    · exact ⟨.foreign kind scope name other short, defined⟩
  · intro ⟨calls, defined⟩
    cases calls with
    | held kind called isVariable last =>
      exact .inl ⟨kind, defined, _, called, .inl ⟨isVariable, last⟩⟩
    | function kind called isName short =>
      exact .inl ⟨kind, defined, _, called, .inr ⟨isName, short⟩⟩
    | member kind object name stands =>
      exact .inr (.inl ⟨kind, defined, _, _, _, object, name, stands, rfl⟩)
    | own kind scope name itself inside =>
      exact .inr (.inr ⟨kind, defined, _, _, scope, name, .inl ⟨itself, _, inside, rfl⟩⟩)
    | foreign kind scope name other short =>
      exact .inr (.inr ⟨kind, defined, _, _, scope, name, .inr ⟨other, _, short, rfl⟩⟩)

/-- The call that the pass makes at a place is the one that is meant there. -/
theorem callMadeAt_iff (call : Call) :
    php.CallMadeAt known tree php.soleCall? place call ↔ CallMeant known tree place call := by
  have caller := php.caller_stateAt_iff known tree (entered?_eq_some_iff tree) place call.caller
  have listed := soleCall?_eq_some_iff sites_length_le_one place.node
  constructor
  · intro ⟨⟨form, knownOnly, here, resolved⟩, entered, other⟩
    obtain ⟨calls, defined⟩ := (resolves_iff known tree place _).mp
      ⟨form, knownOnly, (listed form knownOnly).mp here, resolved⟩
    exact ⟨calls, defined, caller.mp entered, other⟩
  · intro ⟨calls, defined, entered, other⟩
    obtain ⟨form, knownOnly, here, resolved⟩ :=
      (resolves_iff known tree place _).mpr ⟨calls, defined⟩
    exact ⟨⟨form, knownOnly, (listed form knownOnly).mpr here, resolved⟩, caller.mpr entered,
      other⟩

theorem readsCalls : php.ReadsCalls php.soleCall? := by
  apply ReadsCalls.of_sole sites_length_le_one
  intro node site listed
  exact Language.function?_of_sites (show site ∈ Language.php.dialect.sites node from listed)

end Callees

end CallAtlas.Dialect.Php
