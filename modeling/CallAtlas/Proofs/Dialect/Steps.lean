import CallAtlas.Proofs.Dialect.Sites
import CallAtlas.Proofs.Dialect.Traversal
/-!
The two passes over a file as traversals. Each language has a table of the node kinds that
open a scope or introduce a function. The step of the definition pass and the step of the
call pass both read it, and by the same reader of function names (`Language.functionIn`); what
they keep along the way is apart, so that neither pass sees what the other has found. Two
languages leave the table: C keeps one scope and replaces it, and the call pass of C++ opens a
scope for the body of a function that is written with its owner.

`gathered_definitionWalk` and `calls_callWalk` say that the traversals find exactly the
definitions and calls of the passes that run.
-/
namespace CallAtlas

open Traversal Dialect

/-- The node kinds of a language that mean something to the passes. -/
structure NodeKinds where
  /-- Nodes that own the functions below them. -/
  owners : List String
  /-- Nodes that introduce a function of the owner in force. -/
  members : List String
  /-- Nodes that introduce a function of nobody. -/
  free : List String
  /-- Nodes that bind variables or make calls. -/
  sites : List String
  deriving DecidableEq, Repr

namespace Language

def kinds : Language → NodeKinds
  | python =>
    { owners := ["class_definition"]
      members := ["function_definition"]
      free := []
      sites := ["assignment", "call"] }
  | java =>
    { owners := ["class_declaration", "interface_declaration", "enum_declaration"]
      members := ["method_declaration"]
      free := []
      sites := ["assignment_expression", "local_variable_declaration", "method_invocation"] }
  | go =>
    { owners := []
      members := []
      free := ["function_declaration", "method_declaration"]
      sites := ["call_expression"] }
  | javaScript =>
    { owners := ["class_declaration"]
      members := ["method_definition"]
      free := ["function_declaration"]
      sites := ["variable_declarator", "assignment_expression", "call_expression"] }
  | cpp =>
    { owners := ["class_specifier", "struct_specifier"]
      members := ["function_declarator"]
      free := []
      sites := ["declaration", "call_expression"] }
  | c =>
    { owners := []
      members := ["function_definition"]
      free := []
      sites := ["declaration", "parameter_declaration", "call_expression"] }
  | php =>
    { owners := ["class_declaration", "interface_declaration"]
      members := ["function_definition", "method_declaration"]
      free := []
      sites := ["assignment_expression", "function_call_expression", "member_call_expression",
        "scoped_call_expression"] }

/-- A kind that opens a scope introduces no function, and neither sort binds or calls. -/
theorem kinds_disjoint (language : Language) :
    (∀ kind ∈ language.kinds.owners, kind ∉ language.kinds.members ++ language.kinds.free) ∧
      ∀ kind ∈ language.kinds.owners ++ language.kinds.members ++ language.kinds.free,
        kind ∉ language.kinds.sites := by
  cases language <;> decide

/-- The name in a node that introduces a function, after the owner it is written with. -/
def nameIn : Language → TextTree → Option (Option String × String)
  | cpp, node =>
    (node.children.find? fun child => Cpp.isNameKind child.kind).map fun name =>
      Cpp.splitPath name.text
  | c, node =>
    ((node.child? "declarator").bind (·.descend C.identifier)).map fun name => (none, name.text)
  | _, node => (node.childText? "name").map fun name => (none, name)

/-- Only C++ resolves calls in other scopes than those in which it names definitions. -/
theorem callScope_eq (language : Language) (single : language ≠ cpp) :
    language.dialect.callScope = language.dialect.definitionScope := by
  cases language with
  | cpp => exact absurd rfl single
  | _ => rfl

/-- A function of the owner it is written with, or else of the owner in force. -/
def written : Option String × String → FunctionName
  | (some owner, name) => ⟨.under owner, name⟩
  | (none, name) => ⟨.enclosing, name⟩

def functionIn (language : Language) (node : TextTree) : Option FunctionName :=
  if node.kind ∈ language.kinds.members then (language.nameIn node).map written
  else if node.kind ∈ language.kinds.free then
    (language.nameIn node).map fun (_, name) => ⟨.free, name⟩
  else none

def ownerIn (language : Language) (node : TextTree) : Option (Option String) :=
  if node.kind ∈ language.kinds.owners then some (node.childText? "name") else none

theorem ofPath_eq (path : String) : Cpp.ofPath path = written (Cpp.splitPath path) := by
  rw [Cpp.ofPath]
  rcases Cpp.splitPath path with ⟨_ | owner, name⟩ <;> rfl

/-- Where the name of a function is written without an owner, its placement comes from the table. -/
theorem functionIn_of_name {language : Language} {node : TextTree}
    (named : language.nameIn node = (node.childText? "name").map fun name => (none, name)) :
    language.functionIn node =
      if node.kind ∈ language.kinds.members then
        (node.childText? "name").map fun name => ⟨.enclosing, name⟩
      else if node.kind ∈ language.kinds.free then
        (node.childText? "name").map fun name => ⟨.free, name⟩
      else none := by
  rw [functionIn, named]
  cases node.childText? "name" <;> rfl

theorem function?_eq (language : Language) (node : TextTree) :
    language.dialect.function? node = language.functionIn node := by
  cases language with
  | python =>
    rw [functionIn_of_name rfl]
    simp [dialect, Dialect.python, Python.function?, kinds]
  | java =>
    rw [functionIn_of_name rfl]
    simp [dialect, Dialect.java, Java.function?, kinds]
  | go =>
    rw [functionIn_of_name rfl]
    simp [dialect, Dialect.go, Go.function?, kinds]
  | javaScript =>
    rw [functionIn_of_name rfl]
    simp [dialect, Dialect.javaScript, JavaScript.function?, kinds]
  | php =>
    rw [functionIn_of_name rfl]
    simp [dialect, Dialect.php, Php.function?, kinds]
  | cpp =>
    simp [dialect, Dialect.cpp, Cpp.function?, Cpp.declared?, ofPath_eq, functionIn, kinds, nameIn,
      Function.comp_def]
  | c =>
    simp [dialect, Dialect.c, C.function?, functionIn, kinds, nameIn, written, Function.comp_def]

theorem definitionScope_eq (language : Language) (lexical : language ≠ c) :
    language.dialect.definitionScope = .lexical language.ownerIn := by
  cases language with
  | c => exact absurd rfl lexical
  | python => simp [dialect, Dialect.python, Python.opens, ownerIn, kinds, funext_iff]
  | java => simp [dialect, Dialect.java, Java.opens, Java.isOwnerKind, ownerIn, kinds, funext_iff,
      or_assoc]
  | go => simp [dialect, Dialect.go, ownerIn, kinds, funext_iff]
  | javaScript => simp [dialect, Dialect.javaScript, JavaScript.opens, ownerIn, kinds, funext_iff]
  | cpp => simp [dialect, Dialect.cpp, Cpp.opensClass, Cpp.isOwnerKind, ownerIn, kinds, funext_iff]
  | php => simp [dialect, Dialect.php, Php.opens, ownerIn, kinds, funext_iff]

end Language

namespace Traversal

def Context.add (context : Context (List Definition)) (definition : Definition) :
    Context (List Definition) :=
  { context with gathered := context.gathered ++ [definition] }

def Context.define (context : Context (List Definition)) (file : String) :
    FunctionName → Context (List Definition)
  | ⟨.enclosing, name⟩ => context.add (.ofName name context.owner file)
  | ⟨.free, name⟩ => context.add (.ofName name none file)
  | ⟨.under owner, name⟩ => context.add (.ofName name (some owner) file)

def Context.setCaller (context : Context CallState) (id : String) : Context CallState :=
  { context with gathered := { context.gathered with caller := some id } }

def Context.call (context : Context CallState) : FunctionName → Context CallState
  | ⟨.enclosing, name⟩ => context.setCaller (qualify context.owner name)
  | ⟨.free, name⟩ => context.setCaller name
  | ⟨.under owner, name⟩ => context.setCaller (qualify (some owner) name)

def Context.note (context : Context CallState) (dialect : Dialect) (known : Knowledge)
    (node : TextTree) : Context CallState :=
  { context with gathered :=
      (dialect.sites node).foldl (dialect.siteStep known context.owner) context.gathered }

end Traversal

/-- A struct with a name and a body takes the place of the owner. -/
def Dialect.C.enterStruct {σ : Type} (node : TextTree) (context : Context σ) : Context σ :=
  if (node.child? "body").isSome then
    match node.childText? "name" with
    | some name => context.replace name
    | none => context
  else context

namespace Language

def definitionStep : Language → String → Step (List Definition)
  | c, file => fun node context =>
    if node.kind = "struct_specifier" then (C.enterStruct node context, .nothing)
    else
      match c.functionIn node with
      | some function => (context.define file function, .nothing)
      | none => (context, .nothing)
  | language, file => fun node context =>
    if node.kind ∈ language.kinds.owners then context.enter (node.childText? "name")
    else
      match language.functionIn node with
      | some function => (context.define file function, .nothing)
      | none => (context, .nothing)

def callStep : Language → Knowledge → Step CallState
  | c, known => fun node context =>
    if node.kind = "struct_specifier" then (C.enterStruct node context, .nothing)
    else
      match c.functionIn node with
      | some function => (context.call function, .nothing)
      | none => (context.note c.dialect known node, .nothing)
  | cpp, known => fun node context =>
    if node.kind ∈ cpp.kinds.owners then context.enter (node.childText? "name")
    else if node.kind = "function_definition" then
      match Cpp.writtenOwner? node with
      | some owner => context.enter (some owner)
      | none => (context, .nothing)
    else
      match cpp.functionIn node with
      | some function => (context.call function, .nothing)
      | none => (context.note cpp.dialect known node, .nothing)
  | language, known => fun node context =>
    if node.kind ∈ language.kinds.owners then context.enter (node.childText? "name")
    else
      match language.functionIn node with
      | some function => (context.call function, .nothing)
      | none => (context.note language.dialect known node, .nothing)

def definitionWalk (language : Language) (file : String) (tree : TextTree) :
    Context (List Definition) :=
  traverse (language.definitionStep file) tree (.start [])

def definitionArrivals (language : Language) (file : String) (tree : TextTree) :
    List (Arrival (List Definition)) :=
  arrivals (language.definitionStep file) tree (.start [])

def callArrivals (language : Language) (known : Knowledge) (tree : TextTree) :
    List (Arrival CallState) :=
  arrivals (language.callStep known) tree (.start {})

def callWalk (language : Language) (known : Knowledge) (tree : TextTree) : Context CallState :=
  traverse (language.callStep known) tree (.start {})

end Language

section Kinds

variable {language : Language} {node : TextTree}

theorem functionIn_eq_none
    (other : node.kind ∉ language.kinds.members ++ language.kinds.free) :
    language.functionIn node = none := by
  rw [List.mem_append, not_or] at other
  rw [Language.functionIn, if_neg other.1, if_neg other.2]

theorem mem_kinds_of_functionIn {function : FunctionName}
    (found : language.functionIn node = some function) :
    node.kind ∈ language.kinds.members ++ language.kinds.free := by
  by_contra other
  rw [functionIn_eq_none other] at found
  cases found

theorem Language.mem_kinds_of_siteForms (language : Language) :
    ∀ entry ∈ language.siteForms, entry.1 ∈ language.kinds.sites := by
  cases language <;> decide

theorem sites_eq_nil (other : node.kind ∉ language.kinds.sites) :
    language.dialect.sites node = [] := by
  rw [List.eq_nil_iff_forall_not_mem]
  intro site listed
  exact other (language.mem_kinds_of_siteForms _ (Language.form_of_mem_sites listed))

end Kinds

section Contexts

@[simp]
theorem define_eq (context : Context (List Definition)) (file : String)
    (function : FunctionName) :
    context.define file function = context.add (function.definition context.owner file) := by
  rcases function with ⟨_ | _ | owner, name⟩ <;> rfl

@[simp]
theorem call_eq (context : Context CallState) (function : FunctionName) :
    context.call function = context.setCaller (function.id context.owner) := by
  rcases function with ⟨_ | _ | owner, name⟩ <;> rfl

end Contexts

def record (language : Language) (file : String) (found : List Definition) (visit : Visit) :
    List Definition :=
  found ++ ((language.functionIn visit.node).map (·.definition visit.owner file)).toList

theorem foldl_record (language : Language) (file : String) (visits : List Visit)
    (found : List Definition) :
    visits.foldl (record language file) found =
      found ++ visits.filterMap fun visit =>
        (language.functionIn visit.node).map (·.definition visit.owner file) := by
  induction visits generalizing found with
  | nil => simp
  | cons visit rest ih =>
    rw [List.foldl_cons, ih, record, List.append_assoc, List.filterMap_cons]
    cases (language.functionIn visit.node).map (·.definition visit.owner file) <;> rfl

theorem definitionStep_eq {language : Language} (lexical : language ≠ .c) (file : String) :
    language.definitionStep file = lexicalStep language.ownerIn (record language file) := by
  funext node context
  have unfolded : language.definitionStep file node context =
      if node.kind ∈ language.kinds.owners then context.enter (node.childText? "name")
      else
        match language.functionIn node with
        | some function => (context.define file function, .nothing)
        | none => (context, .nothing) := by
    cases language with
    | c => exact absurd rfl lexical
    | _ => rfl
  rw [unfolded, lexicalStep, Language.ownerIn, record]
  by_cases owner : node.kind ∈ language.kinds.owners
  · have nameless : language.functionIn node = none :=
      functionIn_eq_none (language.kinds_disjoint.1 _ owner)
    simp [owner, nameless]
  · cases found : language.functionIn node with
    | none => simp [owner]
    | some function => simp [owner, Context.add]

theorem definitionStep_c (file : String) :
    Language.definitionStep .c file = flatStep C.sets (record .c file) := by
  funext node context
  simp only [Language.definitionStep, flatStep, C.sets, record]
  by_cases struct : node.kind = "struct_specifier"
  · have nameless : Language.c.functionIn node = none :=
      functionIn_eq_none (by rw [struct]; decide)
    simp only [struct, nameless, C.enterStruct]
    cases (node.child? "body").isSome <;> cases node.childText? "name" <;> simp
  · cases found : Language.c.functionIn node with
    | none => simp [struct]
    | some function => simp [struct, Context.add]

/-- A node either introduces a function, which becomes the caller, or has its sites noted: no
node that introduces a function has any. -/
theorem callStep_gathered (language : Language) (known : Knowledge) (node : TextTree)
    (context : Context CallState) :
    language.dialect.callStep known context.gathered ⟨context.owner, node⟩ =
      match language.functionIn node with
      | some function => (context.call function).gathered
      | none => (context.note language.dialect known node).gathered := by
  rw [Dialect.callStep, Language.function?_eq]
  cases found : language.functionIn node with
  | none => rfl
  | some function =>
    have quiet : language.dialect.sites node = [] := by
      refine sites_eq_nil (language.kinds_disjoint.2 _ ?_)
      rw [List.append_assoc]
      exact List.mem_append_right _ (mem_kinds_of_functionIn found)
    simp only [quiet, List.foldl_nil, call_eq]
    rfl

/-- Nothing is gathered at a node that neither introduces a function nor has sites. -/
theorem callStep_idle {language : Language} {node : TextTree} (known : Knowledge)
    (state : CallState) (owner : Option String) (nameless : language.functionIn node = none)
    (quiet : node.kind ∉ language.kinds.sites) :
    language.dialect.callStep known state ⟨owner, node⟩ = state := by
  rw [Dialect.callStep, Language.function?_eq, nameless, sites_eq_nil quiet]
  rfl

theorem callStep_owner {language : Language} {node : TextTree} (known : Knowledge)
    (state : CallState) (owner : Option String) (kind : node.kind ∈ language.kinds.owners) :
    language.dialect.callStep known state ⟨owner, node⟩ = state := by
  apply callStep_idle
  · exact functionIn_eq_none (language.kinds_disjoint.1 _ kind)
  · exact language.kinds_disjoint.2 _ (List.mem_append_left _ (List.mem_append_left _ kind))

theorem callStep_eq {language : Language} (lexical : language ≠ .c) (single : language ≠ .cpp)
    (known : Knowledge) :
    language.callStep known = lexicalStep language.ownerIn (language.dialect.callStep known) := by
  funext node context
  have unfolded : language.callStep known node context =
      if node.kind ∈ language.kinds.owners then context.enter (node.childText? "name")
      else
        match language.functionIn node with
        | some function => (context.call function, .nothing)
        | none => (context.note language.dialect known node, .nothing) := by
    cases language with
    | c => exact absurd rfl lexical
    | cpp => exact absurd rfl single
    | _ => rfl
  rw [unfolded, lexicalStep, Language.ownerIn]
  by_cases owner : node.kind ∈ language.kinds.owners
  · simp [owner, callStep_owner]
  · rw [callStep_gathered]
    cases language.functionIn node with
    | none => simp [owner, Context.note]
    | some function => simp [owner, Context.setCaller]

theorem callStep_c (known : Knowledge) :
    Language.callStep .c known = flatStep C.sets (Language.c.dialect.callStep known) := by
  funext node context
  simp only [Language.callStep, flatStep, C.sets]
  by_cases struct : node.kind = "struct_specifier"
  · have idle : Language.c.dialect.callStep known context.gathered ⟨context.owner, node⟩ =
        context.gathered :=
      callStep_idle known _ _ (functionIn_eq_none (by rw [struct]; decide))
        (by rw [struct]; decide)
    simp only [struct, idle, C.enterStruct]
    cases (node.child? "body").isSome <;> cases node.childText? "name" <;> simp
  · rw [callStep_gathered]
    cases Language.c.functionIn node with
    | none => simp [struct, Context.note]
    | some function => simp [struct, Context.setCaller]

theorem callStep_cpp (known : Knowledge) :
    Language.callStep .cpp known =
      lexicalStep Cpp.opensBody (Language.cpp.dialect.callStep known) := by
  funext node context
  have scope : Cpp.opensBody node =
      if node.kind ∈ Language.cpp.kinds.owners then some (node.childText? "name")
      else if node.kind = "function_definition" then (Cpp.writtenOwner? node).map some
      else none := by
    simp [Cpp.opensBody, Cpp.isOwnerKind, Language.kinds]
  simp only [Language.callStep, lexicalStep, scope]
  by_cases owner : node.kind ∈ Language.cpp.kinds.owners
  · simp [owner, callStep_owner]
  · by_cases body : node.kind = "function_definition"
    · have idle : Language.cpp.dialect.callStep known context.gathered ⟨context.owner, node⟩ =
          context.gathered :=
        callStep_idle known _ _ (functionIn_eq_none (by rw [body]; decide))
          (by rw [body]; decide)
      rw [if_neg owner, if_pos body, if_neg owner, if_pos body, idle]
      cases Cpp.writtenOwner? node <;> rfl
    · rw [callStep_gathered]
      cases Language.cpp.functionIn node with
      | none => simp [owner, body, Context.note]
      | some function => simp [owner, body, Context.setCaller]

namespace Language

/-- What the step of the definition pass gathers, whatever the scoping. -/
theorem gathered_definitionStep (language : Language) (file : String) (node : TextTree)
    (context : Context (List Definition)) :
    (language.definitionStep file node context).1.gathered =
      record language file context.gathered ⟨context.owner, node⟩ := by
  by_cases flat : language = c
  · subst flat
    rw [definitionStep_c, gathered_flatStep]
  · rw [definitionStep_eq flat, gathered_lexicalStep]

/-- What the step of the call pass gathers, whatever the scoping. -/
theorem gathered_callStep (language : Language) (known : Knowledge) (node : TextTree)
    (context : Context CallState) :
    (language.callStep known node context).1.gathered =
      language.dialect.callStep known context.gathered ⟨context.owner, node⟩ := by
  by_cases flat : language = c
  · subst flat
    rw [callStep_c, gathered_flatStep]
  · by_cases double : language = cpp
    · subst double
      rw [callStep_cpp, gathered_lexicalStep]
    · rw [callStep_eq flat double, gathered_lexicalStep]

/-- The traversal of the definition pass finds the definitions of the file. -/
theorem gathered_definitionWalk (language : Language) (file : String) (tree : TextTree) :
    (language.definitionWalk file tree).gathered = language.dialect.definitions tree file := by
  have visited : (language.definitionWalk file tree).gathered =
      (language.dialect.definitionScope.visits tree).foldl (record language file) [] := by
    by_cases flat : language = c
    · subst flat
      rw [definitionWalk, definitionStep_c, gathered_traverse_flat]
      rfl
    · rw [definitionWalk, definitionStep_eq flat, gathered_traverse_lexical,
        definitionScope_eq language flat]
      rfl
  rw [visited, foldl_record, List.nil_append, Dialect.definitions]
  simp only [function?_eq]

/-- The traversal of the call pass finds the calls of the file. -/
theorem calls_callWalk (language : Language) (known : Knowledge) (tree : TextTree) :
    (language.callWalk known tree).gathered.calls.toList = language.dialect.calls known tree := by
  have visited : (language.callWalk known tree).gathered =
      (language.dialect.callScope.visits tree).foldl (language.dialect.callStep known) {} := by
    by_cases flat : language = c
    · subst flat
      rw [callWalk, callStep_c, gathered_traverse_flat]
      rfl
    · by_cases double : language = cpp
      · subst double
        rw [callWalk, callStep_cpp, gathered_traverse_lexical]
        rfl
      · rw [callWalk, callStep_eq flat double, gathered_traverse_lexical]
        rw [callScope_eq language double, definitionScope_eq language flat]
        rfl
  rw [visited, Dialect.calls]

end Language

end CallAtlas
