import CallAtlas.Proofs.Dialect.Monotone
import CallAtlas.Proofs.Extraction.FileOrder
import CallAtlas.Proofs.Extraction.Policy
/-!
More files, more calls. A larger table lets through, file by file, the calls that a smaller one
does, in the same order (`Dialect.Settled.calls_sublist`), and more files make a larger table.
So no call is lost or goes elsewhere when files are added.
-/
namespace CallAtlas

variable {language : Language}

/-- A table knows a name if one of the definitions it was made from has it. -/
theorem SymbolTable.contains_ofList (definitions : List Definition) (id : String) :
    (ofList definitions).contains id = definitions.any (·.id == id) := by
  rw [Bool.eq_iff_iff, (consistent_ofList definitions).contains_iff, mem_ids_ofList]
  simp

/-- Fewer files can be read if all of them can, and give some of the trees. -/
theorem FileSystem.readTrees_sublist {fs : FileSystem} {root : String} {files more : List String}
    (fewer : files.Sublist more) {trees : List (String × TextTree)}
    (read : fs.readTrees root more = .ok trees) :
    ∃ part, fs.readTrees root files = .ok part ∧ part.Sublist trees := by
  simp only [readTrees_eq_ok_iff] at read ⊢
  induction fewer generalizing trees with
  | slnil => exact ⟨[], .nil, List.nil_sublist trees⟩
  | cons file _ ih =>
    obtain ⟨tree, later, -, reads, rfl⟩ := List.forall₂_cons_left_iff.mp read
    obtain ⟨part, read, within⟩ := ih reads
    exact ⟨part, read, within.cons tree⟩
  | cons_cons file _ ih =>
    obtain ⟨tree, later, here, reads, rfl⟩ := List.forall₂_cons_left_iff.mp read
    obtain ⟨part, read, within⟩ := ih reads
    exact ⟨tree :: part, .cons here read, within.cons_cons tree⟩

theorem Language.contains_tableOf_mono {part trees : List (String × TextTree)}
    (within : part.Sublist trees) (id : String)
    (known : (language.tableOf part).contains id = true) :
    (language.tableOf trees).contains id = true := by
  rw [tableOf, SymbolTable.contains_ofList, List.any_eq_true] at known ⊢
  obtain ⟨definition, written, named⟩ := known
  exact ⟨definition, (within.flatMap _).subset written, named⟩

/-- The calls that are kept of those in some trees are among those kept of more trees. -/
theorem Language.kept_sublist (settled : language.dialect.Settled)
    {part trees : List (String × TextTree)} (within : part.Sublist trees) :
    ((part.flatMap fun (_, tree) =>
        language.dialect.calls (language.tableOf part).knowledge tree).filter
          (language.edgePolicy.admits (language.tableOf part))).Sublist
      ((trees.flatMap fun (_, tree) =>
        language.dialect.calls (language.tableOf trees).knowledge tree).filter
          (language.edgePolicy.admits (language.tableOf trees))) := by
  rw [List.filter_flatMap, List.filter_flatMap]
  refine List.Sublist.trans ?_ (within.flatMap _)
  refine List.Sublist.flatMap_right part fun named _ => ?_
  exact settled.calls_sublist (contains_tableOf_mono within) language.edgePolicy named.2

/-- In a language, more knowledge keeps more calls, and so do more files. -/
structure Language.KeepsMore (language : Language) : Prop where
  /-- With more names known, the calls of a file that were kept are kept, in order. -/
  tables : ∀ (tree : TextTree) (small large : SymbolTable),
    (∀ id, small.contains id = true → large.contains id = true) →
      ((language.dialect.calls small.knowledge tree).filter
          (language.edgePolicy.admits small)).Sublist
        ((language.dialect.calls large.knowledge tree).filter
          (language.edgePolicy.admits large))
  /-- If more files can be collected, so can fewer, and their calls are kept among the others. -/
  files : ∀ (fs : FileSystem) root files more table calls, files.Sublist more →
    fs.collectDefinitions root language more = .ok table →
    fs.collectCalls root language more table = .ok calls →
      ∃ smaller found, fs.collectDefinitions root language files = .ok smaller ∧
        fs.collectCalls root language files smaller = .ok found ∧
        (found.filter (language.edgePolicy.admits smaller)).Sublist
          (calls.filter (language.edgePolicy.admits table))

/-- In Go, JavaScript, C and PHP, adding definitions or files removes and redirects no call. -/
theorem extraction_keeps_more (language : Language)
    (among : language ∈ [Language.go, .javaScript, .c, .php]) : language.KeepsMore where
  tables tree _ _ more := (language.settled among).calls_sublist more language.edgePolicy tree
  files fs root files more table calls fewer definitions collected := by
    obtain ⟨trees, read, rfl, rfl⟩ := FileSystem.collected_trees definitions collected
    obtain ⟨part, read_part, within⟩ := FileSystem.readTrees_sublist fewer read
    refine ⟨language.tableOf part, _, ?_, ?_, language.kept_sublist (language.settled among) within⟩
    · rw [FileSystem.collectDefinitions, read_part]
      rfl
    · rw [FileSystem.collectCalls, read_part]
      rfl

/-- `f` calls `g`, each in a file of its own, and a third file has `h`, which calls `f`. -/
def threeSources : FileSystem where
  items := [
    (["a.go"], .file ⟨"func f() { g() }".toList.map (·.toNat.toUInt8),
      .node "source_file" none true ⟨0, 16⟩ [
        .node "function_declaration" none true ⟨0, 16⟩ [
          .node "identifier" (some "name") true ⟨5, 6⟩ [],
          .node "call_expression" none true ⟨11, 14⟩ [
            .node "identifier" (some "function") true ⟨11, 12⟩ []]]]⟩),
    (["b.go"], .file ⟨"func g() { }".toList.map (·.toNat.toUInt8),
      .node "source_file" none true ⟨0, 12⟩ [
        .node "function_declaration" none true ⟨0, 12⟩ [
          .node "identifier" (some "name") true ⟨5, 6⟩ []]]⟩),
    (["c.go"], .file ⟨"func h() { f() }".toList.map (·.toNat.toUInt8),
      .node "source_file" none true ⟨0, 16⟩ [
        .node "function_declaration" none true ⟨0, 16⟩ [
          .node "identifier" (some "name") true ⟨5, 6⟩ [],
          .node "call_expression" none true ⟨11, 14⟩ [
            .node "identifier" (some "function") true ⟨11, 12⟩ []]]]⟩)]

def threeTable : SymbolTable :=
  .ofList [⟨"f", none, "a.go"⟩, ⟨"g", none, "b.go"⟩, ⟨"h", none, "c.go"⟩]

theorem threeSources_collected :
    threeSources.collectDefinitions "/" .go ["a.go", "b.go", "c.go"] = .ok threeTable ∧
      threeSources.collectCalls "/" .go ["a.go", "b.go", "c.go"] threeTable =
        .ok [⟨"f", "g"⟩, ⟨"h", "f"⟩] :=
  ⟨rfl, rfl⟩

/-- Without the third file there is one call, and it is kept before the one that the third file
adds. -/
theorem threeSources_keeps_more :
    ["a.go", "b.go"].Sublist ["a.go", "b.go", "c.go"] ∧
      ∃ smaller found, threeSources.collectDefinitions "/" .go ["a.go", "b.go"] = .ok smaller ∧
        threeSources.collectCalls "/" .go ["a.go", "b.go"] smaller = .ok found ∧
        found.filter (Language.go.edgePolicy.admits smaller) = [⟨"f", "g"⟩] ∧
        (found.filter (Language.go.edgePolicy.admits smaller)).Sublist
          ([⟨"f", "g"⟩, ⟨"h", "f"⟩].filter (Language.go.edgePolicy.admits threeTable)) := by
  have fewer : ["a.go", "b.go"].Sublist ["a.go", "b.go", "c.go"] := by decide
  obtain ⟨definitions, collected⟩ := threeSources_collected
  obtain ⟨smaller, found, made, calls, kept⟩ := (extraction_keeps_more .go (by decide)).files
    threeSources "/" _ _ _ _ fewer definitions collected
  refine ⟨fewer, smaller, found, made, calls, ?_, kept⟩
  obtain rfl : .ofList [⟨"f", none, "a.go"⟩, ⟨"g", none, "b.go"⟩] = smaller := Except.ok.inj made
  obtain rfl : [⟨"f", "g"⟩] = found := Except.ok.inj calls
  simp [Language.edgePolicy, EdgePolicy.admits, SymbolTable.contains_ofList]

end CallAtlas
