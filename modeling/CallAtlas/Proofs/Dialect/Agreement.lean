import CallAtlas.Proofs.Dialect.CallPass
import CallAtlas.Proofs.Dialect.Steps
/-!
The two passes over a file agree. Run side by side, the definition pass and the call pass
come to every node with the same stack of scopes, and the caller is the function that was
defined last. One step keeps that up (`InStep.step`), and so does the closing of a scope, so
the whole traversals do (`passes_in_lockstep`). C++ is left out: its call pass opens scopes
that its definition pass does not.
-/
namespace CallAtlas

open Traversal Dialect

/-- The passes stand in the same scopes, and the caller is the function defined last. -/
structure InStep (defining : Context (List Definition)) (calling : Context CallState) :
    Prop where
  owners : defining.owners = calling.owners
  caller : calling.gathered.caller = defining.gathered.getLast?.map (·.id)

namespace InStep

variable {defining : Context (List Definition)} {calling : Context CallState}

theorem owner (agree : InStep defining calling) : defining.owner = calling.owner := by
  rw [Context.owner, Context.owner, agree.owners]

theorem leave (agree : InStep defining calling) : InStep defining.leave calling.leave :=
  ⟨congrArg List.tail agree.owners, agree.caller⟩

theorem enter (agree : InStep defining calling) (name : Option String) :
    InStep (defining.enter name).1 (calling.enter name).1 :=
  ⟨congrArg (name :: ·) agree.owners, agree.caller⟩

theorem enterStruct (agree : InStep defining calling) (node : TextTree) :
    InStep (C.enterStruct node defining) (C.enterStruct node calling) := by
  unfold C.enterStruct
  split
  · cases node.childText? "name" with
    | none => exact agree
    | some name => exact ⟨rfl, agree.caller⟩
  · exact agree

/-- The function that one pass defines is the caller of the other. -/
theorem function (agree : InStep defining calling) (file : String) (function : FunctionName) :
    InStep (defining.define file function) (calling.call function) := by
  rw [define_eq, call_eq, agree.owner]
  refine ⟨agree.owners, ?_⟩
  simp [Context.add, Context.setCaller, FunctionName.definition, Definition.ofName,
    FunctionName.id]

theorem note (agree : InStep defining calling) (dialect : Dialect) (known : Knowledge)
    (node : TextTree) : InStep defining (calling.note dialect known node) := by
  refine ⟨agree.owners, ?_⟩
  rw [Context.note, (dialect.extends_sites known _ _ _).caller]
  exact agree.caller

theorem step {language : Language} (single : language ≠ .cpp) (file : String)
    (known : Knowledge) (node : TextTree) (agree : InStep defining calling) :
    InStep (language.definitionStep file node defining).1
        (language.callStep known node calling).1 ∧
      (language.definitionStep file node defining).2 =
        (language.callStep known node calling).2 := by
  cases language with
  | cpp => exact absurd rfl single
  | c =>
    simp only [Language.definitionStep, Language.callStep]
    split
    · exact ⟨agree.enterStruct node, rfl⟩
    · cases Language.c.functionIn node with
      | none => exact ⟨agree.note _ known node, rfl⟩
      | some function => exact ⟨agree.function file function, rfl⟩
  | _ =>
    simp only [Language.definitionStep, Language.callStep]
    split
    · exact ⟨agree.enter _, rfl⟩
    · split
      · exact ⟨agree.function file _, rfl⟩
      · exact ⟨agree.note _ known node, rfl⟩

end InStep

def Language.callsAt (language : Language) (known : Knowledge) (arrival : Arrival CallState) :
    List Call :=
  (language.callStep known arrival.node arrival.context).1.gathered.calls.toList.drop
    arrival.context.gathered.calls.size

/-- The calls found at a node are added to the others and go out from the caller that was in
force on arrival. A node that introduces a function makes no calls. -/
theorem callStep_calls (language : Language) (known : Knowledge) (arrival : Arrival CallState) :
    (language.callStep known arrival.node arrival.context).1.gathered.calls.toList =
        arrival.context.gathered.calls.toList ++ language.callsAt known arrival ∧
      ∀ call ∈ language.callsAt known arrival,
        arrival.context.gathered.caller = some call.caller := by
  obtain ⟨node, context⟩ := arrival
  have extended : ∃ found,
      (language.callStep known node context).1.gathered.calls.toList =
          context.gathered.calls.toList ++ found ∧
        ∀ call ∈ found, context.gathered.caller = some call.caller := by
    rw [language.gathered_callStep, callStep_gathered]
    cases language.functionIn node with
    | some function => exact ⟨[], by simp [Context.setCaller], by simp⟩
    | none =>
      obtain ⟨-, found, calls, outgoing⟩ :=
        language.dialect.extends_sites known context.owner (language.dialect.sites node)
          context.gathered
      exact ⟨found, calls, fun call member => (outgoing call member).1⟩
  obtain ⟨found, calls, outgoing⟩ := extended
  have same : language.callsAt known ⟨node, context⟩ = found := by
    rw [Language.callsAt, calls, ← Array.length_toList, List.drop_left]
  rw [same]
  exact ⟨calls, outgoing⟩

theorem lockstep_arrivals {language : Language} (single : language ≠ .cpp) (tree : TextTree)
    (file : String) (known : Knowledge) :
    List.Forall₂ (fun d c => d.node = c.node ∧ InStep d.context c.context)
      (language.definitionArrivals file tree) (language.callArrivals known tree) := by
  apply arrivals_lockstep
  · intro node defining calling agree
    exact agree.step single file known node
  · intro defining calling agree
    exact agree.leave
  · exact ⟨rfl, rfl⟩

theorem recorded_front {language : Language} {tree : TextTree} {file : String}
    {arrival : Arrival (List Definition)}
    (member : arrival ∈ language.definitionArrivals file tree) :
    arrival.context.gathered <+: language.dialect.definitions tree file := by
  have grows : Grows (language.definitionStep file) id fun arrival =>
      ((language.functionIn arrival.node).map
        (·.definition arrival.context.owner file)).toList :=
    language.gathered_definitionStep file
  rw [← language.gathered_definitionWalk]
  exact log_arrival_front grows member

theorem calls_eq_flatMap (language : Language) (known : Knowledge) (tree : TextTree) :
    language.dialect.calls known tree =
      (language.callArrivals known tree).flatMap (language.callsAt known) := by
  have grows : Grows (language.callStep known) (fun state => state.calls.toList)
      (language.callsAt known) :=
    fun node context => (callStep_calls language known ⟨node, context⟩).1
  rw [← language.calls_callWalk]
  exact log_traverse grows tree (.start {})

structure PassesAgree (language : Language) (tree : TextTree) (file : String)
    (known : Knowledge) : Prop where
  /-- Both come to the same nodes, in document order. -/
  order : (language.definitionArrivals file tree).map (·.node) = tree.preorder
  /-- At every node they are in step. -/
  lockstep : List.Forall₂ (fun d c => d.node = c.node ∧ InStep d.context c.context)
    (language.definitionArrivals file tree) (language.callArrivals known tree)
  /-- What is recorded on arrival at a node is the front part of the definitions of the file. -/
  recorded : ∀ d ∈ language.definitionArrivals file tree,
    d.context.gathered <+: language.dialect.definitions tree file
  /-- At the end all of them are recorded. -/
  complete : (language.definitionWalk file tree).gathered =
    language.dialect.definitions tree file
  /-- The calls of the file are those found at its nodes in turn. -/
  found : language.dialect.calls known tree =
    (language.callArrivals known tree).flatMap (language.callsAt known)
  /-- The caller of a call is the definition recorded last before the node of the call. -/
  callers : List.Forall₂ (fun d c => ∀ call ∈ language.callsAt known c,
      ∃ definition, d.context.gathered.getLast? = some definition ∧ definition.id = call.caller)
    (language.definitionArrivals file tree) (language.callArrivals known tree)
  /-- So it is a definition of the same file. -/
  defined : ∀ call ∈ language.dialect.calls known tree,
    ∃ definition ∈ language.dialect.definitions tree file, definition.id = call.caller

theorem callers_recorded {language : Language} (single : language ≠ .cpp) (tree : TextTree)
    (file : String) (known : Knowledge) :
    List.Forall₂ (fun d c => ∀ call ∈ language.callsAt known c,
        ∃ definition, d.context.gathered.getLast? = some definition ∧ definition.id = call.caller)
      (language.definitionArrivals file tree) (language.callArrivals known tree) := by
  refine (lockstep_arrivals single tree file known).imp ?_
  rintro d c ⟨-, agree⟩ call member
  have caller := (callStep_calls language known c).2 call member
  rw [agree.caller, Option.map_eq_some_iff] at caller
  exact caller

/-- Every caller is defined in the file in which it calls. -/
theorem callers_defined {language : Language} (single : language ≠ .cpp) (tree : TextTree)
    (file : String) (known : Knowledge) :
    ∀ call ∈ language.dialect.calls known tree,
      ∃ definition ∈ language.dialect.definitions tree file, definition.id = call.caller := by
  have defined : List.Forall₂ (fun c _ => (∀ call ∈ language.callsAt known c,
      ∃ definition ∈ language.dialect.definitions tree file, definition.id = call.caller) ∧ True)
      (language.callArrivals known tree) (language.definitionArrivals file tree) := by
    apply List.Forall₂.flip
    refine ((List.forall₂_and_left _ _).mpr
      ⟨fun d member => recorded_front member, callers_recorded single tree file known⟩).imp ?_
    rintro d c ⟨front, callers⟩
    refine ⟨fun call member => ?_, trivial⟩
    obtain ⟨definition, last, id⟩ := callers call member
    exact ⟨definition, front.subset (List.mem_of_getLast? last), id⟩
  intro call member
  rw [calls_eq_flatMap, List.mem_flatMap] at member
  obtain ⟨c, arrived, member⟩ := member
  exact ((List.forall₂_and_left _ _).mp defined).1 c arrived call member

/-- In every language but C++, the definition pass and the call pass over a file agree. -/
theorem passes_in_lockstep (language : Language) (single : language ≠ .cpp) (tree : TextTree)
    (file : String) (table : SymbolTable) : PassesAgree language tree file table.knowledge where
  order := map_node_arrivals _ tree _
  lockstep := lockstep_arrivals single tree file table.knowledge
  recorded _ member := recorded_front member
  complete := language.gathered_definitionWalk file tree
  found := calls_eq_flatMap language table.knowledge tree
  callers := callers_recorded single tree file table.knowledge
  defined := callers_defined single tree file table.knowledge

/-- `class Job { run() { this.stop() } } start()`, without punctuation. -/
def callAfterClass : TextTree :=
  .node "program" none true "" [
    .node "class_declaration" none true "class Job { run() { this.stop() } }" [
      .node "identifier" (some "name") true "Job" [],
      .node "method_definition" none true "run() { this.stop() }" [
        .node "property_identifier" (some "name") true "run" [],
        .node "call_expression" none true "this.stop()" [
          .node "member_expression" (some "function") true "this.stop" [
            .node "this" (some "object") true "this" [],
            .node "property_identifier" (some "property") true "stop" []]]]],
    .node "call_expression" none true "start()" [
      .node "identifier" (some "function") true "start" []]]

/-- The scope of the class ends with it, but its last method stays the caller. -/
theorem callAfterClass_in_lockstep : Language.javaScript ≠ .cpp ∧
    Language.javaScript.dialect.calls SymbolTable.empty.knowledge callAfterClass =
      [⟨"Job.run", "Job.stop"⟩, ⟨"Job.run", "start"⟩] ∧
    PassesAgree .javaScript callAfterClass "job.js" SymbolTable.empty.knowledge :=
  ⟨by decide, by decide,
    passes_in_lockstep .javaScript (by decide) callAfterClass "job.js" SymbolTable.empty⟩

end CallAtlas
