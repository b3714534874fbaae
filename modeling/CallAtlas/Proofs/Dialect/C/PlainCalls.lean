import CallAtlas.Language
import CallAtlas.Proofs.Dialect.C.Meaning
import CallAtlas.Proofs.SymbolTable.Consistency
/-!
Which plain calls of a C file are kept. A function is registered under the last struct before it,
but a plain call asks for it by its bare name alone. So the call is kept if the function is also
defined before the first struct, and is lost otherwise, even where caller and callee belong to the
same struct (`callAfterStruct_lost`).
-/
namespace CallAtlas.Dialect.C

/-- A file registers a function of this name under an id. -/
def Registers (tree : TextTree) (name id : String) : Prop :=
  ∃ place ∈ tree.places, ∃ owner, DefinesFunction place.node name ∧ OwnerAt tree place owner ∧
    qualify owner name = id

/-- A file defines a function of this name before its first struct. -/
def DefinesFree (tree : TextTree) (name : String) : Prop :=
  ∃ place ∈ tree.places, DefinesFunction place.node name ∧
    tree.NoneBefore place fun earlier => DefinesStruct earlier.node

section Registered

variable {tree : TextTree}

theorem Registers.suffix {name id : String} (registers : Registers tree name id) :
    name.toList <:+ id.toList := by
  obtain ⟨place, listed, owner, defines, owned, same⟩ := registers
  subst same
  cases owner with
  | none => exact List.suffix_rfl
  | some owner => exact ⟨(owner ++ ".").toList, by simp [qualify]⟩

/-- A function is registered as the definition pass reads it. -/
theorem registers_of_function? {place : Tree.Place String} (listed : place ∈ tree.places)
    {name : String} {owner : Option String}
    (function : c.function? place.node = some ⟨.enclosing, name⟩)
    (owned : c.callScope.ownerAt tree place = owner) :
    Registers tree name (qualify owner name) := by
  obtain ⟨_, defines, same⟩ := (function?_eq_some_iff _ _).mp function
  cases same
  exact ⟨place, listed, owner, defines, (ownerAt_iff tree place owner).mp owned, rfl⟩

/-- Only before the first struct is a function registered under its bare name. -/
theorem registers_bare_iff (name : String) : Registers tree name name ↔ DefinesFree tree name := by
  constructor
  · intro ⟨place, listed, owner, defines, owned, bare⟩
    cases owned with
    | nobody first => exact ⟨place, listed, defines, first⟩
    | @struct struct last => exact absurd bare.symm (qualify_ne_self struct name)
  · intro ⟨place, listed, defines, first⟩
    exact ⟨place, listed, none, defines, .nobody first, rfl⟩

/-- The table of a file knows the ids under which the file registers some function. -/
theorem contains_iff_registers (tree : TextTree) (file id : String) :
    (SymbolTable.ofList (c.definitions tree file)).contains id = true ↔
      ∃ name, Registers tree name id := by
  obtain ⟨-, read?, reads, listing⟩ :=
    (c.yields_definitions tree file).congr (definitionMeant_iff tree file)
  rw [(SymbolTable.consistent_ofList _).contains_iff, SymbolTable.mem_ids_ofList, listing]
  constructor
  · intro ⟨definition, found, same⟩
    obtain ⟨place, listed, here⟩ := List.mem_filterMap.mp found
    obtain ⟨owner, name, defines, owned, made⟩ := (reads place definition).mp here
    subst made
    exact ⟨name, place, listed, owner, defines, owned, same⟩
  · intro ⟨name, place, listed, owner, defines, owned, same⟩
    refine ⟨.ofName name owner file, List.mem_filterMap.mpr ⟨place, listed, ?_⟩, same⟩
    exact (reads place _).mpr ⟨owner, name, defines, owned, rfl⟩

/-- The table knows the caller in force, since both passes name a function alike. -/
theorem registers_of_lastBefore {place : Tree.Place String} {caller : String}
    (entered : tree.LastBefore place (Introduces tree) caller) :
    ∃ name, Registers tree name caller := by
  obtain ⟨other, listed, -, ⟨owner, name, defines, owned, same⟩, -⟩ := entered
  exact ⟨name, other, listed, owner, defines, owned, same⟩

end Registered

/-- A plain call names the function as it is written. -/
theorem Calls.eq_of_plain {known : Knowledge} {tree : TextTree} {place : Tree.Place String}
    {function : TextTree} {callee : String} (calls : Calls known tree place function callee)
    (plain : function.kind = "identifier") : callee = function.text := by
  cases calls with
  | plain => rfl
  | member kind =>
    rw [plain] at kind
    simp at kind

/-- A plain call by another function is kept exactly if the called function is defined before the
first struct. -/
theorem plain_call_found_iff (tree : TextTree) (file : String) {place : Tree.Place String}
    {function : TextTree} {caller : String} (kind : place.node.kind = "call_expression")
    (called : place.node.child? "function" = some function) (plain : function.kind = "identifier")
    (entered : tree.LastBefore place (Introduces tree) caller)
    (apart : ¬ Registers tree function.text caller) :
    let table := SymbolTable.ofList (c.definitions tree file)
    c.calls table.knowledge tree = tree.places.flatMap (c.foundAt table.knowledge tree) ∧
      ((∃ call ∈ c.foundAt table.knowledge tree place,
          Language.c.edgePolicy.admits table call = true ∧
            Registers tree function.text call.callee) ↔
        DefinesFree tree function.text) := by
  intro table
  have contains := contains_iff_registers tree file
  have meant (call : Call) : call ∈ c.foundAt table.knowledge tree place ↔
      CallMeant table.knowledge tree place call := by
    rw [c.mem_foundAt_iff table.knowledge tree readsCalls, callMadeAt_iff]
  refine ⟨c.calls_eq_flatMap_foundAt table.knowledge tree, ?_⟩
  rw [← registers_bare_iff]
  constructor
  · intro ⟨call, found, _, registers⟩
    obtain ⟨-, ⟨other, held, calls⟩, -, -⟩ := (meant call).mp found
    cases held.symm.trans called
    rwa [calls.eq_of_plain plain] at registers
  · intro bare
    have different : caller ≠ function.text := fun same => apart (same ▸ bare)
    have defined : table.contains function.text = true := (contains _).mpr ⟨_, bare⟩
    have registered : table.contains caller = true :=
      (contains _).mpr (registers_of_lastBefore entered)
    refine ⟨⟨caller, function.text⟩, (meant _).mpr ?_, ?_, bare⟩
    · exact ⟨kind, ⟨function, called, .plain plain defined⟩, entered, different⟩
    · simp [Language.edgePolicy, EdgePolicy.admits, defined, registered, different]

/-- `void start(void) {}`, `struct Point { int x; };`, `void move(void) {}` and
`void run(void) { start(); move(); }`, without punctuation and parameters. -/
def callAfterStruct : TextTree :=
  .node "translation_unit" none true "" [
    .node "function_definition" none true "void start(void) {}" [
      .node "function_declarator" (some "declarator") true "start(void)" [
        .node "identifier" (some "declarator") true "start" []]],
    .node "struct_specifier" none true "struct Point { int x; }" [
      .node "type_identifier" (some "name") true "Point" [],
      .node "field_declaration_list" (some "body") true "{ int x; }" []],
    .node "function_definition" none true "void move(void) {}" [
      .node "function_declarator" (some "declarator") true "move(void)" [
        .node "identifier" (some "declarator") true "move" []]],
    .node "function_definition" none true "void run(void) { start(); move(); }" [
      .node "function_declarator" (some "declarator") true "run(void)" [
        .node "identifier" (some "declarator") true "run" []],
      .node "compound_statement" (some "body") true "{ start(); move(); }" [
        .node "expression_statement" none true "start();" [
          .node "call_expression" none true "start()" [
            .node "identifier" (some "function") true "start" []]],
        .node "expression_statement" none true "move();" [
          .node "call_expression" none true "move()" [
            .node "identifier" (some "function") true "move" []]]]]]

/-- The call of `start` is kept, which is defined before the struct. -/
theorem callAfterStruct_found :
    DefinesFree callAfterStruct "start" ∧ ¬ Registers callAfterStruct "start" "Point.run" ∧
      ∃ place ∈ callAfterStruct.places, place.node.text = "start()" ∧
        callAfterStruct.LastBefore place (Introduces callAfterStruct) "Point.run" ∧
        ∃ call ∈ c.foundAt
            (SymbolTable.ofList (c.definitions callAfterStruct "p.c")).knowledge
            callAfterStruct place,
          Language.c.edgePolicy.admits
              (SymbolTable.ofList (c.definitions callAfterStruct "p.c")) call = true ∧
            Registers callAfterStruct "start" call.callee := by
  have free : DefinesFree callAfterStruct "start" :=
    (registers_bare_iff "start").mp
      (registers_of_function? (List.get_mem _ ⟨1, by decide⟩) rfl rfl)
  have apart : ¬ Registers callAfterStruct "start" "Point.run" := fun registers =>
    absurd registers.suffix (by decide)
  have entered : callAfterStruct.LastBefore (callAfterStruct.places.get ⟨15, by decide⟩)
      (Introduces callAfterStruct) "Point.run" :=
    (c.caller_stateAt_iff ⟨fun _ => true, fun _ => true⟩ _ (entered?_eq_some_iff _) _ _).mp rfl
  have called : (callAfterStruct.places.get ⟨15, by decide⟩).node.child? "function" =
      some (.node "identifier" (some "function") true "start" []) := rfl
  refine ⟨free, apart, _, List.get_mem _ ⟨15, by decide⟩, rfl, entered, ?_⟩
  exact (plain_call_found_iff callAfterStruct "p.c" rfl called rfl entered apart).2.mpr free

/-- The call of `move` is lost, though `Point.move` is registered. -/
theorem callAfterStruct_lost :
    Registers callAfterStruct "move" "Point.move" ∧
      ∃ place ∈ callAfterStruct.places, place.node.kind = "call_expression" ∧
        (place.node.child? "function").map (fun function => (function.kind, function.text)) =
          some ("identifier", "move") ∧
        callAfterStruct.LastBefore place (Introduces callAfterStruct) "Point.run" ∧
        ¬ Registers callAfterStruct "move" "Point.run" ∧
        ∀ call ∈ c.calls (SymbolTable.ofList (c.definitions callAfterStruct "p.c")).knowledge
            callAfterStruct,
          ¬ Registers callAfterStruct "move" call.callee := by
  have entered : callAfterStruct.LastBefore (callAfterStruct.places.get ⟨18, by decide⟩)
      (Introduces callAfterStruct) "Point.run" :=
    (c.caller_stateAt_iff ⟨fun _ => true, fun _ => true⟩ _ (entered?_eq_some_iff _) _ _).mp rfl
  have defines : (SymbolTable.ofList (c.definitions callAfterStruct "p.c")).knowledge.defines =
      fun id => decide (id ∈ ["start", "Point.move", "Point.run"]) := by
    have ids : (c.definitions callAfterStruct "p.c").map (·.id) =
        ["start", "Point.move", "Point.run"] := by decide
    funext id
    rw [Bool.eq_iff_iff, ← ids]
    change SymbolTable.contains _ id = true ↔ _
    rw [(SymbolTable.consistent_ofList _).contains_iff, SymbolTable.mem_ids_ofList]
    simp
  have calls : c.calls (SymbolTable.ofList (c.definitions callAfterStruct "p.c")).knowledge
      callAfterStruct = [⟨"Point.run", "start"⟩] := by
    generalize (SymbolTable.ofList (c.definitions callAfterStruct "p.c")).knowledge = known
      at defines ⊢
    obtain ⟨_, owns⟩ := known
    cases defines
    rfl
  have registered : Registers callAfterStruct "move" (qualify (some "Point") "move") :=
    registers_of_function? (List.get_mem _ ⟨7, by decide⟩) rfl rfl
  refine ⟨registered, _, List.get_mem _ ⟨18, by decide⟩, rfl, rfl, entered,
    fun registers => absurd registers.suffix (by decide), ?_⟩
  rw [calls]
  intro call listed registers
  cases List.mem_singleton.mp listed
  exact absurd registers.suffix (by decide)

end CallAtlas.Dialect.C
