import CallAtlas.Proofs.Dialect.Ownership
import CallAtlas.Proofs.Dialect.StateAt
/-!
What a call means, told from the tree alone. The call pass runs through a file with a stack of
scopes, a slot for the caller and a map of variables. For Python, Java, JavaScript and Go the
meaning of a call node is given here without any of that: its owner is the nearest owning
ancestor, its caller the last function introduced before it, and the type of a receiver the last
one bound to its text before it, all in document order and whether or not they enclose the call.
`calls_resolved_apart` says that the pass finds these calls and no others.
-/
namespace CallAtlas

open Dialect

namespace Dialect

/-- `x = T(...)` gives `x` the type `T`. -/
def Python.constructions (node : TextTree) : List (String × String) :=
  if node.kind = "assignment" then
    match node.child? "left", node.child? "right", (node.child? "right").bind (·.child? "function")
      with
    | some target, some value, some made =>
      if target.kind = "identifier" ∧ value.kind = "call" ∧ made.kind = "identifier" then
        [(target.text, made.text)]
      else []
    | _, _, _ => []
  else []

/-- `x = new T(...)` gives `x` the type `T`. `T x = new U(...), y = z;` gives `x` the type `U` and
`y` the type `T`. -/
def Java.givenTypes (node : TextTree) : List (String × String) :=
  if node.kind = "assignment_expression" then
    match node.child? "left", (node.child? "right").bind created? with
    | some target, some made => [(target.text, made)]
    | _, _ => []
  else if node.kind = "local_variable_declaration" then
    (node.childrenUnder "declarator").filterMap fun declarator =>
      match declarator.childText? "name", (declarator.child? "value").bind created?,
        (node.child? "type").bind typeText? with
      | some name, some made, _ => some (name, made)
      | some name, none, some declared => some (name, declared)
      | _, _, _ => none
  else []

/-- `new T(...)` in the place of a value gives its target the type `T`. -/
def JavaScript.constructed : Option TextTree → Option TextTree → List (String × String)
  | some target, some value =>
    if target.kind = "identifier" ∧ value.kind = "new_expression" then
      ((value.child? "constructor" <|> value.firstNamed?).map fun made =>
        (target.text, made.text)).toList
    else []
  | _, _ => []

/-- `let x = new T(...)` and `x = new T(...)` give `x` the type `T`. -/
def JavaScript.constructions (node : TextTree) : List (String × String) :=
  if node.kind = "variable_declarator" then constructed (node.child? "name") (node.child? "value")
  else if node.kind = "assignment_expression" then
    constructed (node.child? "left") (node.child? "right")
  else []

/-- `r.m(...)` with all before the last dot as the receiver, or `f(...)`. -/
def Python.called? (node : TextTree) : Option (Option String × String) :=
  if node.kind = "call" then
    (node.childText? "function").map fun called =>
      match Text.cutLast? "." called with
      | some (receiver, method) => (some receiver, method)
      | none => (none, called)
  else none

def Java.called? (node : TextTree) : Option (Option String × String) :=
  if node.kind = "method_invocation" then
    (receiverAndMethod node).2.map ((receiverAndMethod node).1, ·)
  else none

/-- `r.m(...)`, or any other expression by its text. -/
def JavaScript.called? (node : TextTree) : Option (Option String × String) :=
  if node.kind = "call_expression" then
    match node.child? "function" with
    | some function =>
      if function.kind = "member_expression" then
        match function.childText? "object", function.childText? "property" with
        | some receiver, some method => some (some receiver, method)
        | _, _ => none
      else if function.text = "" then none
      else some (none, function.text)
    | none => none
  else none

def Go.called? (node : TextTree) : Option (Option String × String) :=
  if node.kind = "call_expression" then (node.childText? "function").map (none, ·) else none

end Dialect

namespace Language

/-- The languages in which a call names a receiver and a method, or a function. -/
def receiverStyle : List Language := [python, java, javaScript, go]

def selfReceiver : Language → Option String
  | python => some "self"
  | java | javaScript => some "this"
  | _ => none

/-- Whether a call without a receiver may go to a member of its owner. -/
def reachesMembers : Language → Bool
  | python | java => true
  | _ => false

def checksCallee : Language → Bool
  | python => true
  | _ => false

/-- The variables that a node gives a type, with their types, in turn. In Python only a name that
owns something is a type. -/
def bindingsIn : Language → Knowledge → TextTree → List (String × String)
  | python, known, node => (Python.constructions node).filter (known.owns ·.2)
  | java, _, node => Java.givenTypes node
  | javaScript, _, node => JavaScript.constructions node
  | _, _, _ => []

/-- What a call node calls: the receiver if it is written with one, and the name. -/
def calledIn : Language → TextTree → Option (Option String × String)
  | python => Python.called?
  | java => Java.called?
  | javaScript => JavaScript.called?
  | go => Go.called?
  | _ => fun _ => none

def functionAt (language : Language) (place : Tree.Place String) : Option String :=
  if place.node.kind ∈ language.kinds.members then
    (place.node.childText? "name").map (qualify (language.nearestOwner place.ancestors))
  else if place.node.kind ∈ language.kinds.free then place.node.childText? "name"
  else none

def callerAt (language : Language) (tree : TextTree) (place : Tree.Place String) : Option String :=
  ((tree.before place).filterMap language.functionAt).getLast?

def typeAt (language : Language) (known : Knowledge) (tree : TextTree) (place : Tree.Place String)
    (text : String) : Option String :=
  (((tree.before place).flatMap fun other => language.bindingsIn known other.node).filter
    (·.1 == text)).getLast?.map (·.2)

/-- What a receiver stands for at a place. It stays what it is if that cannot be told. -/
def receiverAt (language : Language) (known : Knowledge) (tree : TextTree)
    (place : Tree.Place String) (receiver : String) : String :=
  if language.selfReceiver = some receiver then
    (language.nearestOwner place.ancestors).getD receiver
  else (language.typeAt known tree place receiver).getD receiver

/-- A member of the owner at a place, if it has one of that name, or else the name itself. -/
def memberOrName (language : Language) (known : Knowledge) (place : Tree.Place String)
    (name : String) : String :=
  match language.nearestOwner place.ancestors with
  | some owner =>
    if known.defines (qualify (some owner) name) then qualify (some owner) name else name
  | none => name

def calleeAt (language : Language) (known : Knowledge) (tree : TextTree)
    (place : Tree.Place String) : Option String × String → String
  | (some receiver, method) =>
    qualify (some (language.receiverAt known tree place receiver)) method
  | (none, name) =>
    if language.reachesMembers then language.memberOrName known place name else name

def callAt (language : Language) (known : Knowledge) (tree : TextTree)
    (place : Tree.Place String) : Option Call :=
  match language.calledIn place.node, language.callerAt tree place with
  | some called, some caller =>
    let callee := language.calleeAt known tree place called
    if language.checksCallee && !known.defines callee then none
    else if caller = callee then none
    else some ⟨caller, callee⟩
  | _, _ => none

/-- How a call with or without a receiver is resolved. -/
def calleeOf (language : Language) : Option String × String → Callee
  | (some receiver, method) => .member receiver method
  | (none, name) => if language.reachesMembers then .plain name else .named name

/-- A node is read alike by the pass and here: it makes these bindings, and it is this call and
nothing else, or no call. -/
structure Reads (language : Language) (known : Knowledge) (node : TextTree) : Prop where
  bound : language.dialect.boundIn known node = language.bindingsIn known node
  called : ∀ called, language.calledIn node = some called →
    language.dialect.sites node = [.call (language.calleeOf called) language.checksCallee]
  silent : language.calledIn node = none → ∀ site ∈ language.dialect.sites node,
    ∀ callee knownOnly, site ≠ .call callee knownOnly

variable {language : Language} {known : Knowledge} {node : TextTree}

theorem Reads.of_call (sites : language.dialect.sites node = ((language.calledIn node).map
      fun called => .call (language.calleeOf called) language.checksCallee).toList)
    (unbound : language.bindingsIn known node = []) : language.Reads known node := by
  refine ⟨?_, fun called calls => by simp [sites, calls], fun silent => by simp [sites, silent]⟩
  rw [boundIn, sites, unbound]
  cases language.calledIn node <;> rfl

theorem Reads.of_bindings (silent : language.calledIn node = none)
    (given : List (String × String))
    (sites : language.dialect.sites node = given.map fun pair => .bind pair.1 pair.2)
    (bound : language.bindingsIn known node =
      given.filter fun pair => !language.dialect.bindsOwnersOnly || known.owns pair.2) :
    language.Reads known node := by
  refine ⟨?_, fun called calls => by simp [silent] at calls, fun _ site listed => ?_⟩
  · rw [boundIn, sites, bound, List.filterMap_map, ← List.filterMap_eq_filter]
    congr 1
    funext pair
    obtain ⟨name, type⟩ := pair
    cases owners : language.dialect.bindsOwnersOnly <;> cases owns : known.owns type <;>
      simp [bound?, owners, owns, Option.guard]
  · rw [sites] at listed
    obtain ⟨binding, -, rfl⟩ := List.mem_map.mp listed
    simp

theorem reads_go (known : Knowledge) (node : TextTree) : go.Reads known node := by
  refine .of_call ?_ rfl
  simp only [dialect, Dialect.go, Go.sites, calledIn, Go.called?]
  split
  · cases node.childText? "function" <;> rfl
  · rfl

theorem reads_python (known : Knowledge) (node : TextTree) : python.Reads known node := by
  by_cases call : node.kind = "call"
  · refine .of_call ?_ (by simp [bindingsIn, Python.constructions, call])
    simp only [dialect, Dialect.python, Python.sites, calledIn, Python.called?, call, if_true,
      if_neg (show "call" ≠ "assignment" by decide)]
    cases node.childText? "function" with
    | none => rfl
    | some called =>
      simp only [Python.callee, Option.map_some]
      cases Text.cutLast? "." called <;> rfl
  · refine .of_bindings (by simp [calledIn, Python.called?, call])
      (Python.constructions node) ?_ rfl
    simp only [dialect, Dialect.python, Python.sites, Python.constructions, if_neg call]
    by_cases assignment : node.kind = "assignment"
    · simp only [assignment, if_true, Python.assignment]
      cases node.child? "left" with
      | none => rfl
      | some target =>
        cases node.child? "right" with
        | none => rfl
        | some value =>
          simp only [Option.bind_some]
          cases value.child? "function" with
          | none => rfl
          | some made => dsimp only; split <;> rfl
    · simp [assignment]

theorem reads_java (known : Knowledge) (node : TextTree) : java.Reads known node := by
  by_cases call : node.kind = "method_invocation"
  · refine .of_call ?_ (by simp [bindingsIn, Java.givenTypes, call])
    simp only [dialect, Dialect.java, Java.sites, calledIn, Java.called?, call, if_true,
      if_neg (show "method_invocation" ≠ "assignment_expression" by decide),
      if_neg (show "method_invocation" ≠ "local_variable_declaration" by decide), Java.invocation]
    rcases Java.receiverAndMethod node with ⟨_ | receiver, _ | method⟩ <;> rfl
  · refine .of_bindings (by simp [calledIn, Java.called?, call]) (Java.givenTypes node) ?_
      (by simp [bindingsIn, dialect, Dialect.java])
    simp only [dialect, Dialect.java, Java.sites, Java.givenTypes, if_neg call]
    by_cases assignment : node.kind = "assignment_expression"
    · simp only [assignment, if_true, Java.assignment]
      cases node.child? "left" with
      | none => rfl
      | some target =>
        cases node.child? "right" with
        | none => rfl
        | some value =>
          simp only [Option.bind_some]
          cases Java.created? value <;> rfl
    by_cases declaration : node.kind = "local_variable_declaration"
    · rw [if_neg assignment, if_neg assignment, if_pos declaration, if_pos declaration,
        Java.declaration, List.map_filterMap]
      congr 1
      funext declarator
      simp only [Java.declarator?]
      cases declarator.childText? "name" with
      | none => rfl
      | some name =>
        dsimp only
        cases (declarator.child? "value").bind Java.created? <;>
          cases (node.child? "type").bind Java.typeText? <;> rfl
    · simp [assignment, declaration]

theorem reads_javaScript (known : Knowledge) (node : TextTree) : javaScript.Reads known node := by
  by_cases call : node.kind = "call_expression"
  · refine .of_call ?_ (by simp [bindingsIn, JavaScript.constructions, call])
    simp only [dialect, Dialect.javaScript, JavaScript.sites, calledIn, JavaScript.called?, call,
      if_true, if_neg (show "call_expression" ≠ "variable_declarator" by decide),
      if_neg (show "call_expression" ≠ "assignment_expression" by decide), JavaScript.call]
    cases node.child? "function" with
    | none => rfl
    | some function =>
      dsimp only
      split
      · cases function.childText? "object" <;> cases function.childText? "property" <;> rfl
      · split <;> rfl
  · refine .of_bindings (by simp [calledIn, JavaScript.called?, call])
      (JavaScript.constructions node) ?_ (by simp [bindingsIn, dialect, Dialect.javaScript])
    have pair (target value : String) : JavaScript.bindingUnder node target value =
        (JavaScript.constructed (node.child? target) (node.child? value)).map
          fun pair => .bind pair.1 pair.2 := by
      rw [JavaScript.bindingUnder]
      cases node.child? target with
      | none => rfl
      | some target =>
        cases node.child? value with
        | none => rfl
        | some value =>
          simp only [JavaScript.constructed, JavaScript.binding]
          split
          · cases value.child? "constructor" <|> value.firstNamed? <;> rfl
          · rfl
    simp only [dialect, Dialect.javaScript, JavaScript.sites, JavaScript.constructions, if_neg call,
      pair]
    split
    · rfl
    · split <;> rfl

theorem reads (covered : language ∈ receiverStyle) (known : Knowledge) (node : TextTree) :
    language.Reads known node := by
  simp only [receiverStyle, List.mem_cons, List.not_mem_nil, or_false] at covered
  rcases covered with rfl | rfl | rfl | rfl
  · exact reads_python known node
  · exact reads_java known node
  · exact reads_javaScript known node
  · exact reads_go known node

/-- A call node introduces no function. -/
theorem function?_of_sites {site : Site} (listed : site ∈ language.dialect.sites node) :
    language.dialect.function? node = none := by
  rw [function?_eq]
  refine functionIn_eq_none fun kind => ?_
  have quiet : language.dialect.sites node = [] := by
    refine sites_eq_nil (language.kinds_disjoint.2 _ ?_)
    rw [List.append_assoc]
    exact List.mem_append_right _ kind
  rw [quiet] at listed
  cases listed

theorem scopes_eq (covered : language ∈ receiverStyle) :
    language.dialect.callScope = .lexical language.ownerIn := by
  have lexical : language ≠ c := by rintro rfl; revert covered; decide
  have single : language ≠ cpp := by rintro rfl; revert covered; decide
  rw [language.callScope_eq single, language.definitionScope_eq lexical]

theorem entered?_visitAt (covered : language ∈ receiverStyle) (place : Tree.Place String) :
    language.dialect.entered? (visitAt language.ownerIn place) = language.functionAt place := by
  have named : language.nameIn place.node = (place.node.childText? "name").map (none, ·) := by
    simp only [receiverStyle, List.mem_cons, List.not_mem_nil, or_false] at covered
    rcases covered with rfl | rfl | rfl | rfl <;> rfl
  simp only [entered?, visitAt, enclosing_ownerIn, function?_eq, functionIn, functionAt, named]
  split
  · cases place.node.childText? "name" <;> rfl
  · split
    · cases place.node.childText? "name" <;> rfl
    · rfl

section Place

variable {tree : TextTree} {place : Tree.Place String}

def stateAt (language : Language) (known : Knowledge) (tree : TextTree)
    (place : Tree.Place String) : CallState :=
  language.dialect.after known ((tree.before place).map (visitAt language.ownerIn))

theorem caller_stateAt (covered : language ∈ receiverStyle) (known : Knowledge) :
    (language.stateAt known tree place).caller = language.callerAt tree place := by
  rw [stateAt, caller_after, List.filterMap_map, callerAt]
  congr 2
  funext other
  exact entered?_visitAt covered other

theorem types_stateAt (covered : language ∈ receiverStyle) (known : Knowledge) (text : String) :
    (language.stateAt known tree place).types.lookup text =
      language.typeAt known tree place text := by
  rw [stateAt, types_after, lookup_reverse, typeAt, List.flatMap_map]
  simp only [visitAt, (reads covered known _).bound]

/-- Only Go gives up on a receiver, and no call of Go has one. -/
theorem literal_of_receiver (covered : language ∈ receiverStyle) {receiver method : String}
    (calls : language.calledIn node = some (some receiver, method)) :
    language.dialect.literalReceivers = true ∧
      language.dialect.selfWord = language.selfReceiver := by
  simp only [receiverStyle, List.mem_cons, List.not_mem_nil, or_false] at covered
  rcases covered with rfl | rfl | rfl | rfl
  · exact ⟨rfl, rfl⟩
  · exact ⟨rfl, rfl⟩
  · exact ⟨rfl, rfl⟩
  · simp [calledIn, Go.called?] at calls

theorem resolve?_calleeOf (covered : language ∈ receiverStyle) {called : Option String × String}
    (calls : language.calledIn place.node = some called) :
    language.dialect.resolve? known (language.nearestOwner place.ancestors)
        (language.stateAt known tree place) (language.calleeOf called) =
      some (language.calleeAt known tree place called) := by
  obtain ⟨_ | receiver, name⟩ := called
  · simp only [calleeOf, calleeAt, memberOrName]
    cases language.reachesMembers with
    | false => rfl
    | true =>
      simp only [if_true, resolve?]
      cases language.nearestOwner place.ancestors <;> rfl
  · obtain ⟨literal, self⟩ := literal_of_receiver covered calls
    simp only [calleeOf, calleeAt, receiverAt, resolve?, receiverType?, literal, self,
      types_stateAt covered]
    by_cases own : language.selfReceiver = some receiver
    · simp only [if_pos own]
      cases language.nearestOwner place.ancestors <;> rfl
    · simp only [if_neg own]
      cases language.typeAt known tree place receiver <;> rfl

/-- What the pass finds at a place is the call that is made there. -/
theorem callsAt_eq_callAt (covered : language ∈ receiverStyle) (known : Knowledge)
    (tree : TextTree) (place : Tree.Place String) :
    language.dialect.callsAt known ((tree.before place).map (visitAt language.ownerIn))
        (visitAt language.ownerIn place) = (language.callAt known tree place).toList := by
  cases calls : language.calledIn place.node with
  | none =>
    rw [callAt, calls]
    exact callsAt_quiet _ known _ ((reads covered known place.node).silent calls)
  | some called =>
    have single := (reads covered known place.node).called called calls
    have nameless : language.dialect.function? place.node = none :=
      function?_of_sites (by rw [single]; exact List.mem_singleton_self _)
    rw [callsAt_single _ known _ nameless single]
    change (language.dialect.callFrom? known (enclosing language.ownerIn place.ancestors)
      (language.stateAt known tree place) (language.calleeOf called)
      language.checksCallee).toList = _
    rw [callFrom?, caller_stateAt covered, enclosing_ownerIn, resolve?_calleeOf covered calls,
      callAt, calls]
    cases language.callerAt tree place <;> rfl

end Place

end Language

/-- The calls of a file in one of these languages are those made at its places, in document
order, each told from the tree and the table alone. -/
theorem calls_resolved_apart (language : Language) (covered : language ∈ Language.receiverStyle)
    (tree : TextTree) (table : SymbolTable) :
    tree.InDocumentOrder tree.places ∧
      language.dialect.calls table.knowledge tree =
        tree.places.filterMap (language.callAt table.knowledge tree) := by
  refine ⟨tree.places_inDocumentOrder, ?_⟩
  rw [calls_eq_flatMap_places _ _ (language.scopes_eq covered), List.filterMap_eq_flatMap_toList]
  congr 1
  funext place
  exact language.callsAt_eq_callAt covered table.knowledge tree place

/-- `class A { void run() { B b = new C(), d; b.go(); this.stop(); d.go(); } } done();`, without
punctuation. -/
def declaredThenCalled : TextTree :=
  .node "program" none true "" [
    .node "class_declaration" none true "class A" [
      .node "identifier" (some "name") true "A" [],
      .node "method_declaration" none true "void run()" [
        .node "identifier" (some "name") true "run" [],
        .node "local_variable_declaration" none true "B b = new C(), d" [
          .node "type_identifier" (some "type") true "B" [],
          .node "variable_declarator" (some "declarator") true "b = new C()" [
            .node "identifier" (some "name") true "b" [],
            .node "object_creation_expression" (some "value") true "new C()" [
              .node "type_identifier" (some "type") true "C" []]],
          .node "variable_declarator" (some "declarator") true "d" [
            .node "identifier" (some "name") true "d" []]],
        .node "method_invocation" none true "b.go()" [
          .node "identifier" (some "object") true "b" [],
          .node "identifier" (some "name") true "go" []],
        .node "method_invocation" none true "this.stop()" [
          .node "this" (some "object") true "this" [],
          .node "identifier" (some "name") true "stop" []],
        .node "method_invocation" none true "d.go()" [
          .node "identifier" (some "object") true "d" [],
          .node "identifier" (some "name") true "go" []]]],
    .node "method_invocation" none true "done()" [
      .node "identifier" (some "name") true "done" []]]

/-- What is made outweighs what is declared, and the caller outlives its class. -/
theorem declaredThenCalled_resolved : Language.java ∈ Language.receiverStyle ∧
    Language.java.dialect.calls SymbolTable.empty.knowledge declaredThenCalled =
      [⟨"A.run", "C.go"⟩, ⟨"A.run", "A.stop"⟩, ⟨"A.run", "B.go"⟩, ⟨"A.run", "done"⟩] ∧
    declaredThenCalled.InDocumentOrder declaredThenCalled.places ∧
    Language.java.dialect.calls SymbolTable.empty.knowledge declaredThenCalled =
      declaredThenCalled.places.filterMap
        (Language.java.callAt SymbolTable.empty.knowledge declaredThenCalled) :=
  ⟨by decide, by decide,
    calls_resolved_apart .java (by decide) declaredThenCalled SymbolTable.empty⟩

end CallAtlas
