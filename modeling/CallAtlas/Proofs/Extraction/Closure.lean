import Mathlib
import CallAtlas.CallGraph
import CallAtlas.Extraction
import CallAtlas.Proofs.CallGraph.Consistency
import CallAtlas.Proofs.Dialect.Agreement
import CallAtlas.Proofs.SymbolTable.Consistency
/-!
The graph of an extraction is closed: its nodes are the definitions that were found, its
edges are the calls that were kept, and no call leads out of it or back to where it started.
Most languages keep a call only if both of its ends are defined. Python asks this of the
callee alone; that the caller is defined as well follows from the agreement of the passes.
-/
namespace CallAtlas

/-- The graph of an extraction holds its definitions and its calls and nothing else. -/
structure Extraction.Closed (extraction : Extraction) (graph : CallGraph) : Prop where
  /-- One node for each definition, in the order of the table, with its owner and its file. -/
  nodes : graph.nodes.toList = extraction.table.toList.map fun definition =>
    ⟨definition.id, some ⟨definition.owner, definition.file⟩⟩
  /-- No name is defined twice, so no two nodes share one. -/
  distinct : (graph.nodes.toList.map (·.id)).Nodup
  defined : ∀ node ∈ graph.nodes.toList, node.isBare = false
  edges : graph.edges = extraction.calls
  loopless : ∀ edge ∈ graph.edges, edge.caller ≠ edge.callee

theorem bind_eq_ok {ε α β : Type} {first : Except ε α} {next : α → Except ε β} {result : β}
    (success : (first >>= next) = .ok result) :
    ∃ value, first = .ok value ∧ next value = .ok result := by
  cases first with
  | error cause => cases success
  | ok value => exact ⟨value, rfl, success⟩

theorem map_eq_ok {ε α β : Type} {first : Except ε α} {f : α → β} {result : β}
    (success : first.map f = .ok result) : ∃ value, first = .ok value ∧ f value = result := by
  cases first with
  | error cause => cases success
  | ok value => exact ⟨value, rfl, Except.ok.inj success⟩

/-- Both passes of an extraction go over the same trees. -/
theorem FileSystem.extract_trees {fs : FileSystem} {root : String} {language : Language}
    {following : Bool} {extraction : Extraction}
    (success : fs.extract root language following = .ok extraction) :
    ∃ trees : List (String × TextTree),
      extraction.table = .ofList (trees.flatMap fun (file, tree) =>
        language.dialect.definitions tree file) ∧
      extraction.calls = (trees.flatMap fun (_, tree) =>
        language.dialect.calls extraction.table.knowledge tree).filter
          (language.edgePolicy.admits extraction.table) := by
  obtain ⟨-, -, success⟩ := bind_eq_ok success
  obtain ⟨files, -, success⟩ := bind_eq_ok success
  obtain ⟨table, definitions, success⟩ := bind_eq_ok success
  obtain ⟨calls, collected, success⟩ := bind_eq_ok success
  obtain ⟨trees, read, made⟩ := map_eq_ok definitions
  obtain ⟨again, read_again, found⟩ := map_eq_ok collected
  rw [read, Except.ok.injEq] at read_again
  subst read_again
  cases success
  refine ⟨trees, made.symm, ?_⟩
  rw [← found]

theorem FileSystem.consistent_of_extract {fs : FileSystem} {root : String} {language : Language}
    {following : Bool} {extraction : Extraction}
    (success : fs.extract root language following = .ok extraction) :
    extraction.table.Consistent := by
  obtain ⟨trees, table, -⟩ := extract_trees success
  rw [table]
  exact SymbolTable.consistent_ofList _

/-- A call that is kept has a known callee and is no call to itself. The caller is checked in
every language but Python. -/
theorem Language.ends_of_admits {language : Language} {table : SymbolTable} {call : Call}
    (admitted : language.edgePolicy.admits table call = true) :
    call.caller ≠ call.callee ∧ table.contains call.callee = true ∧
      (language ≠ .python → table.contains call.caller = true) := by
  simp only [EdgePolicy.admits, Bool.and_eq_true, bne_iff_ne] at admitted
  obtain ⟨different, known⟩ := admitted
  cases language with
  | python => exact ⟨different, known, fun other => absurd rfl other⟩
  | _ =>
    simp only [edgePolicy, Bool.and_eq_true] at known
    exact ⟨different, known.2, fun _ => known.1⟩

/-- Both ends of every call of an extraction are defined. -/
theorem FileSystem.ends_of_extract {fs : FileSystem} {root : String} {language : Language}
    {following : Bool} {extraction : Extraction}
    (success : fs.extract root language following = .ok extraction) {call : Call}
    (kept : call ∈ extraction.calls) :
    call.caller ∈ extraction.table.ids ∧ call.callee ∈ extraction.table.ids ∧
      call.caller ≠ call.callee := by
  obtain ⟨trees, table, calls⟩ := extract_trees success
  have consistent := consistent_of_extract success
  rw [calls, List.mem_filter] at kept
  obtain ⟨found, admitted⟩ := kept
  obtain ⟨different, callee, caller⟩ := Language.ends_of_admits admitted
  refine ⟨?_, (consistent.contains_iff _).mp callee, different⟩
  by_cases python : language = .python
  · -- No policy looks at this caller: it is a definition of the file that the call stands in.
    obtain ⟨⟨file, tree⟩, among, found⟩ := List.mem_flatMap.mp found
    have single : language ≠ .cpp := by simp [python]
    obtain ⟨definition, written, name⟩ := callers_defined single tree file _ call found
    rw [table, SymbolTable.mem_ids_ofList]
    exact ⟨definition, List.mem_flatMap.mpr ⟨(file, tree), among, written⟩, name⟩
  · exact (consistent.contains_iff _).mp (caller python)

/-- The graph built from an extraction that succeeds is closed. -/
theorem extraction_closed (fs : FileSystem) (root : String) (language : Language)
    (following : Bool) (extraction : Extraction)
    (success : fs.extract root language following = .ok extraction) :
    extraction.Closed (.build extraction.table extraction.calls) := by
  have consistent := FileSystem.consistent_of_extract success
  obtain ⟨edges, nodes⟩ := CallGraph.build_spec consistent.nodup extraction.calls
  have nodes := nodes fun call kept =>
    have ⟨caller, callee, _⟩ := FileSystem.ends_of_extract success kept
    ⟨caller, callee⟩
  refine ⟨nodes, ?_, ?_, edges, ?_⟩
  · rw [nodes, List.map_map]
    exact consistent.nodup
  · intro node among
    rw [nodes, List.mem_map] at among
    obtain ⟨definition, -, rfl⟩ := among
    rfl
  · intro edge among
    rw [edges] at among
    exact (FileSystem.ends_of_extract success among).2.2

def callingTree : TextTree :=
  .node "module" none true "def f(): g()" [
    .node "function_definition" none true "def f(): g()" [
      .node "identifier" (some "name") true "f" [],
      .node "call" none true "g()" [.node "identifier" (some "function") true "g" []]]]

def calledTree : TextTree :=
  .node "module" none true "def g(): 0" [
    .node "function_definition" none true "def g(): 0" [
      .node "identifier" (some "name") true "g" []]]

/-- The two in a directory of their own, as bytes with the spans of their nodes. -/
def twoFiles : FileSystem where
  items := [
    (["a.py"], .file ⟨"def f(): g()".toList.map (·.toNat.toUInt8),
      .node "module" none true ⟨0, 12⟩ [
        .node "function_definition" none true ⟨0, 12⟩ [
          .node "identifier" (some "name") true ⟨4, 5⟩ [],
          .node "call" none true ⟨9, 12⟩ [
            .node "identifier" (some "function") true ⟨9, 10⟩ []]]]⟩),
    (["b.py"], .file ⟨"def g(): 0".toList.map (·.toNat.toUInt8),
      .node "module" none true ⟨0, 10⟩ [
        .node "function_definition" none true ⟨0, 10⟩ [
          .node "identifier" (some "name") true ⟨4, 5⟩ []]]⟩)]

theorem twoFiles_trees : twoFiles.sourceFiles "/" .python false = .ok ["a.py", "b.py"] ∧
    twoFiles.readTrees "/" ["a.py", "b.py"] =
      .ok [("a.py", callingTree), ("b.py", calledTree)] := by
  constructor
  · cbv
  · rfl

def twoTable : SymbolTable :=
  .ofList [⟨"f", none, "a.py"⟩, ⟨"g", none, "b.py"⟩]

theorem twoTable_contains : twoTable.contains "g" = true := by
  rw [twoTable, (SymbolTable.consistent_ofList _).contains_iff, SymbolTable.mem_ids_ofList]
  exact ⟨⟨"g", none, "b.py"⟩, by decide, rfl⟩

theorem twoFiles_extract : twoFiles.extract "/" .python false =
    .ok ⟨twoTable, [⟨"f", "g"⟩], 2⟩ := by
  obtain ⟨files, trees⟩ := twoFiles_trees
  have root : twoFiles.checkRoot "/" = .ok () := by rfl
  have table : twoFiles.collectDefinitions "/" .python ["a.py", "b.py"] = .ok twoTable := by
    rw [FileSystem.collectDefinitions, trees]
    rfl
  have calls : twoFiles.collectCalls "/" .python ["a.py", "b.py"] twoTable =
      .ok [⟨"f", "g"⟩] := by
    rw [FileSystem.collectCalls, trees]
    change Except.ok ((if (true && !twoTable.contains "g") = true then { caller := some "f" }
      else { caller := some "f", calls := #[⟨"f", "g"⟩] } : Dialect.CallState).calls.toList ++ []) = _
    rw [twoTable_contains]
    rfl
  have kept : [(⟨"f", "g"⟩ : Call)].filter (Language.python.edgePolicy.admits twoTable) =
      [⟨"f", "g"⟩] := by
    simp [Language.edgePolicy, EdgePolicy.admits, twoTable_contains]
  simp only [FileSystem.extract, root, files, table, calls, bind, Except.bind, pure, Except.pure,
    kept, List.length_cons, List.length_nil]

/-- Python keeps a call whose caller it never looks up, and the graph is closed all the same. -/
theorem twoFiles_closed :
    twoFiles.extract "/" .python false = .ok ⟨twoTable, [⟨"f", "g"⟩], 2⟩ ∧
      Extraction.Closed ⟨twoTable, [⟨"f", "g"⟩], 2⟩ (.build twoTable [⟨"f", "g"⟩]) :=
  ⟨twoFiles_extract, extraction_closed _ _ _ _ _ twoFiles_extract⟩

end CallAtlas
