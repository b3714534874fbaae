import Mathlib.Data.List.Forall2
import Mathlib.Data.List.Flatten
import Mathlib.Data.List.Perm.Basic
import CallAtlas.Extraction
import CallAtlas.Proofs.Extraction.Closure
import CallAtlas.Proofs.SymbolTable.History
/-!
The order in which files are read hardly shows. The table of their definitions is asked two
questions by the call pass, which names are defined and which own a definition, and both
answers depend only on which definitions went in (`knowledge_eq_of_perm`). So the calls of
each file stay the same, and all of them together are permuted. What the order does decide is
the order of the table, and which of several definitions of one name stands for it.
-/
namespace CallAtlas

namespace SymbolTable

variable {definitions moved : List Definition}

/-- What a table knows does not depend on the order of insertion. -/
theorem knowledge_eq_of_perm (same : definitions.Perm moved) :
    (ofList definitions).knowledge = (ofList moved).knowledge := by
  have one := follows_ofList definitions
  have two := follows_ofList moved
  have contains : (ofList definitions).contains = (ofList moved).contains := by
    funext id
    rw [Bool.eq_iff_iff, one.consistent.contains_iff, two.consistent.contains_iff,
      one.mem_ids_iff, two.mem_ids_iff]
    simp only [same.mem_iff]
  have owners : (ofList definitions).isOwner = (ofList moved).isOwner := by
    funext name
    rw [Bool.eq_iff_iff, one.owned, two.owned]
    simp only [same.mem_iff]
  rw [knowledge, knowledge, contains, owners]

theorem ids_perm_of_perm (same : definitions.Perm moved) :
    (ofList definitions).ids.Perm (ofList moved).ids := by
  have one := follows_ofList definitions
  have two := follows_ofList moved
  rw [List.perm_ext_iff_of_nodup one.consistent.nodup two.consistent.nodup]
  intro id
  rw [one.mem_ids_iff, two.mem_ids_iff]
  simp only [same.mem_iff]

/-- A name that is defined once stands for that definition, whatever the order. -/
theorem resolve?_eq_of_perm (same : definitions.Perm moved) {id : String}
    (once : (definitions.filter (·.id == id)).length ≤ 1) :
    (ofList definitions).resolve? id = (ofList moved).resolve? id := by
  have among := same.filter (·.id == id)
  have equal : definitions.filter (·.id == id) = moved.filter (·.id == id) := by
    cases found : definitions.filter (·.id == id) with
    | nil =>
      rw [found] at among
      exact (List.nil_perm.mp among).symm
    | cons definition rest =>
      have alone : rest = [] := by
        rw [found, List.length_cons] at once
        exact List.eq_nil_of_length_eq_zero (by omega)
      rw [found, alone] at among
      rw [alone]
      exact List.singleton_perm.mp among
  rw [(follows_ofList definitions).resolved, (follows_ofList moved).resolved, lastDefinition?,
    lastDefinition?, equal]

end SymbolTable

/-- Whether a call is kept depends only on which names are defined. -/
theorem EdgePolicy.admits_congr {first second : SymbolTable}
    (same : first.knowledge = second.knowledge) (policy : EdgePolicy) :
    policy.admits first = policy.admits second := by
  have contains : first.contains = second.contains := congrArg Knowledge.defines same
  funext call
  simp only [admits, contains]

namespace FileSystem

variable {fs : FileSystem} {root : String}

/-- A tree was read from a file, and goes under its name. -/
def Reads (fs : FileSystem) (root file : String) (named : String × TextTree) : Prop :=
  named.1 = file ∧ fs.readTree (Path.join root file) = .ok named.2

@[simp]
theorem readTrees_nil : fs.readTrees root [] = .ok [] := by
  rfl

theorem readTrees_cons (file : String) (rest : List String) :
    fs.readTrees root (file :: rest) =
      match fs.readTree (Path.join root file) with
      | .error cause => .error cause
      | .ok tree => (fs.readTrees root rest).map ((file, tree) :: ·) := by
  rfl

/-- Reading files succeeds if reading each of them does. -/
theorem readTrees_eq_ok_iff (files : List String) (trees : List (String × TextTree)) :
    fs.readTrees root files = .ok trees ↔ List.Forall₂ (fs.Reads root) files trees := by
  induction files generalizing trees with
  | nil => simp [eq_comm]
  | cons file rest ih =>
    rw [List.forall₂_cons_left_iff, readTrees_cons]
    generalize here : fs.readTree (Path.join root file) = result
    cases result with
    | error cause => simp [Reads, here]
    | ok tree =>
      constructor
      · intro success
        obtain ⟨later, read, rfl⟩ := map_eq_ok success
        exact ⟨(file, tree), later, ⟨rfl, here⟩, (ih later).mp read, rfl⟩
      · rintro ⟨⟨name, found⟩, later, ⟨rfl, there⟩, read, rfl⟩
        rw [here, Except.ok.injEq] at there
        rw [(ih later).mpr read, there]
        rfl

/-- The same files in another order give the same trees in another order. -/
theorem readTrees_perm {files others : List String} (same : files.Perm others)
    {trees : List (String × TextTree)} (read : fs.readTrees root files = .ok trees) :
    ∃ moved, fs.readTrees root others = .ok moved ∧ trees.Perm moved := by
  rw [readTrees_eq_ok_iff] at read
  obtain ⟨moved, reads, reordered⟩ := List.perm_comp_forall₂ same.symm read
  exact ⟨moved, (readTrees_eq_ok_iff others moved).mpr reads, reordered.symm⟩

end FileSystem

/-- The findings from files in two orders differ in order only, or in which definition of a
name stands for it. `definitions` are those in the files. -/
structure Language.SameFindings (language : Language) (definitions : List Definition)
    (first second : SymbolTable) (calls moved : List Call) : Prop where
  ids : (first.toList.map (·.id)).Perm (second.toList.map (·.id))
  known : ∀ id, first.contains id = second.contains id
  owners : ∀ name, first.isOwner name = second.isOwner name
  found : calls.Perm moved
  kept : (calls.filter (language.edgePolicy.admits first)).Perm
    (moved.filter (language.edgePolicy.admits second))
  /-- A name stands for different definitions only if it has more than one. -/
  resolved : ∀ id, first.resolve? id ≠ second.resolve? id →
    1 < (definitions.filter (·.id == id)).length

theorem Language.sameFindings_of_perm (language : Language)
    {trees moved : List (String × TextTree)} (same : trees.Perm moved) :
    let definitions := trees.flatMap fun (file, tree) => language.dialect.definitions tree file
    let others := moved.flatMap fun (file, tree) => language.dialect.definitions tree file
    language.SameFindings definitions (.ofList definitions) (.ofList others)
      (trees.flatMap fun (_, tree) =>
        language.dialect.calls (SymbolTable.ofList definitions).knowledge tree)
      (moved.flatMap fun (_, tree) =>
        language.dialect.calls (SymbolTable.ofList others).knowledge tree) := by
  intro definitions others
  have written : definitions.Perm others := same.flatMap_right _
  have knowledge := SymbolTable.knowledge_eq_of_perm written
  rw [← knowledge]
  refine ⟨SymbolTable.ids_perm_of_perm written, congrFun (congrArg Knowledge.defines knowledge),
    congrFun (congrArg Knowledge.owns knowledge), same.flatMap_right _, ?_, ?_⟩
  · rw [← EdgePolicy.admits_congr knowledge]
    exact (same.flatMap_right _).filter _
  · intro id differ
    by_contra once
    exact differ (SymbolTable.resolve?_eq_of_perm written (Nat.not_lt.mp once))

/-- Files in two orders can both be collected, and the findings are the same. -/
def FileSystem.CollectsAlike (fs : FileSystem) (root : String) (language : Language)
    (files others : List String) : Prop :=
  ∃ trees first second calls moved,
    fs.readTrees root files = .ok trees ∧
    fs.collectDefinitions root language files = .ok first ∧
    fs.collectDefinitions root language others = .ok second ∧
    fs.collectCalls root language files first = .ok calls ∧
    fs.collectCalls root language others second = .ok moved ∧
    language.SameFindings
      (trees.flatMap fun (file, tree) => language.dialect.definitions tree file)
      first second calls moved

/-- If the same files are read in another order, either both readings fail or both succeed with
the same findings. -/
theorem collectsAlike_of_perm (fs : FileSystem) (root : String) (language : Language)
    (files others : List String) (same : files.Perm others) :
    (∃ one two, fs.collectDefinitions root language files = .error one ∧
      fs.collectDefinitions root language others = .error two) ∨
    fs.CollectsAlike root language files others := by
  cases read : fs.readTrees root files with
  | error one =>
    -- The second reading cannot succeed either, or the first would have to.
    cases again : fs.readTrees root others with
    | error two =>
      refine .inl ⟨one, two, ?_, ?_⟩
      · rw [FileSystem.collectDefinitions, read]
        rfl
      · rw [FileSystem.collectDefinitions, again]
        rfl
    | ok moved =>
      obtain ⟨trees, success, -⟩ := FileSystem.readTrees_perm same.symm again
      rw [read] at success
      cases success
  | ok trees =>
    obtain ⟨moved, again, reordered⟩ := FileSystem.readTrees_perm same read
    refine .inr ⟨trees, _, _, _, _, read, ?_, ?_, ?_, ?_,
      language.sameFindings_of_perm reordered⟩
    · rw [FileSystem.collectDefinitions, read]
      rfl
    · rw [FileSystem.collectDefinitions, again]
      rfl
    · rw [FileSystem.collectCalls, read]
      rfl
    · rw [FileSystem.collectCalls, again]
      rfl

/-- `a.py` calls a function that both `b.py` and `c.py` define. -/
def threeFiles : FileSystem where
  items := twoFiles.items ++ [
    (["c.py"], .file ⟨"def g(): 0".toList.map (·.toNat.toUInt8),
      .node "module" none true ⟨0, 10⟩ [
        .node "function_definition" none true ⟨0, 10⟩ [
          .node "identifier" (some "name") true ⟨4, 5⟩ []]]⟩)]

theorem threeFiles_definitions :
    threeFiles.collectDefinitions "/" .python ["a.py", "b.py", "c.py"] =
        .ok (.ofList [⟨"f", none, "a.py"⟩, ⟨"g", none, "b.py"⟩, ⟨"g", none, "c.py"⟩]) ∧
      threeFiles.collectDefinitions "/" .python ["c.py", "b.py", "a.py"] =
        .ok (.ofList [⟨"g", none, "c.py"⟩, ⟨"g", none, "b.py"⟩, ⟨"f", none, "a.py"⟩]) := by
  have forwards : threeFiles.readTrees "/" ["a.py", "b.py", "c.py"] =
      .ok [("a.py", callingTree), ("b.py", calledTree), ("c.py", calledTree)] := by rfl
  have backwards : threeFiles.readTrees "/" ["c.py", "b.py", "a.py"] =
      .ok [("c.py", calledTree), ("b.py", calledTree), ("a.py", callingTree)] := by rfl
  rw [FileSystem.collectDefinitions, FileSystem.collectDefinitions, forwards, backwards]
  exact ⟨rfl, rfl⟩

/-- Read backwards, the three files make the same calls, though `g` stands for another file. -/
theorem threeFiles_collected_alike :
    ["a.py", "b.py", "c.py"].Perm ["c.py", "b.py", "a.py"] ∧
      threeFiles.CollectsAlike "/" .python ["a.py", "b.py", "c.py"] ["c.py", "b.py", "a.py"] ∧
      (SymbolTable.ofList [⟨"f", none, "a.py"⟩, ⟨"g", none, "b.py"⟩, ⟨"g", none, "c.py"⟩]).resolve?
        "g" = some ⟨"g", none, "c.py"⟩ ∧
      (SymbolTable.ofList [⟨"g", none, "c.py"⟩, ⟨"g", none, "b.py"⟩, ⟨"f", none, "a.py"⟩]).resolve?
        "g" = some ⟨"g", none, "b.py"⟩ := by
  have reversed : ["a.py", "b.py", "c.py"].Perm ["c.py", "b.py", "a.py"] := by decide
  refine ⟨reversed, ?_, ?_, ?_⟩
  · rcases collectsAlike_of_perm threeFiles "/" .python _ _ reversed with
      ⟨one, two, failed, -⟩ | alike
    · rw [threeFiles_definitions.1] at failed
      cases failed
    · exact alike
  · rw [(SymbolTable.follows_ofList _).resolved]
    decide
  · rw [(SymbolTable.follows_ofList _).resolved]
    decide

end CallAtlas
