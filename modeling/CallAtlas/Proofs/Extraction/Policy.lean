import CallAtlas.Extraction
import CallAtlas.Proofs.Dialect.Agreement
import CallAtlas.Proofs.Extraction.Closure
/-!
The policy has nothing to do where the call pass checks by itself. In Python and PHP every call
is looked up before it is recorded, so its callee is defined. Its caller is a function of the
same file, because the passes agree, and so it is in the table of all files. Hence every call
that is found is kept, whichever ends the policy asks about.
-/
namespace CallAtlas

namespace Dialect

variable {dialect : Dialect} {known : Knowledge}

/-- Every call is looked up before it is recorded. -/
def ChecksCallees (dialect : Dialect) : Prop :=
  ∀ node, ∀ site ∈ dialect.sites node, ∀ callee, site ≠ .call callee false

def CallState.Checked (known : Knowledge) (state : CallState) : Prop :=
  ∀ call ∈ state.calls.toList, known.defines call.callee = true

namespace CallState.Checked

variable {state : CallState}

theorem record (checked : state.Checked known) {callee : String}
    (defined : known.defines callee = true) : (state.record callee).Checked known := by
  unfold CallState.record
  split
  · split
    · exact checked
    · intro call found
      rw [Array.toList_push, List.mem_append, List.mem_singleton] at found
      rcases found with early | rfl
      · exact checked call early
      · exact defined
  · exact checked

theorem siteStep (checked : state.Checked known) (owner : Option String) {site : Site}
    (careful : ∀ callee, site ≠ .call callee false) :
    (dialect.siteStep known owner state site).Checked known := by
  cases site with
  | bind name type =>
    simp only [Dialect.siteStep]
    split <;> exact checked
  | hold name receiver method =>
    simp only [Dialect.siteStep]
    split <;> exact checked
  | call callee knownOnly =>
    obtain rfl : knownOnly = true := by
      cases knownOnly with
      | true => rfl
      | false => exact absurd rfl (careful callee)
    simp only [Dialect.siteStep, Bool.true_and, Bool.not_eq_true']
    split
    · split
      · exact checked
      next defined => exact checked.record (Bool.not_eq_false _ ▸ defined)
    · exact checked

theorem sites (checked : state.Checked known) (owner : Option String) {sites : List Site}
    (careful : ∀ site ∈ sites, ∀ callee, site ≠ .call callee false) :
    (sites.foldl (dialect.siteStep known owner) state).Checked known := by
  induction sites generalizing state with
  | nil => exact checked
  | cons site rest ih =>
    refine ih (checked.siteStep owner (careful site List.mem_cons_self)) fun site later => ?_
    exact careful site (List.mem_cons_of_mem _ later)

theorem callStep (checked : state.Checked known) (careful : dialect.ChecksCallees)
    (visit : Visit) : (dialect.callStep known state visit).Checked known := by
  unfold Dialect.callStep
  refine Checked.sites ?_ visit.owner (careful visit.node)
  cases dialect.function? visit.node <;> exact checked

theorem visits (checked : state.Checked known) (careful : dialect.ChecksCallees)
    (visits : List Visit) : (visits.foldl (dialect.callStep known) state).Checked known := by
  induction visits generalizing state with
  | nil => exact checked
  | cons visit rest ih => exact ih (checked.callStep careful visit)

end CallState.Checked

theorem ChecksCallees.callees_defined (careful : dialect.ChecksCallees) {tree : TextTree}
    {call : Call} (found : call ∈ dialect.calls known tree) :
    known.defines call.callee = true := by
  have start : CallState.Checked known {} := by simp [CallState.Checked]
  exact start.visits careful (dialect.callScope.visits tree) call found

theorem caller_ne_callee (dialect : Dialect) (known : Knowledge) {tree : TextTree} {call : Call}
    (found : call ∈ dialect.calls known tree) : call.caller ≠ call.callee := by
  obtain ⟨before, visit, rest, -, member⟩ := (dialect.mem_calls_iff known tree call).mp found
  exact (dialect.caller_of_mem_callsAt known member).2

end Dialect

theorem Language.checksCallees {language : Language}
    (careful : language = .python ∨ language = .php) : language.dialect.ChecksCallees := by
  have checked : ∀ entry ∈ language.siteForms, entry.2.isChecked = true := by
    rcases careful with rfl | rfl <;> decide
  intro node site listed callee same
  have form := checked _ (form_of_mem_sites listed)
  rw [same] at form
  cases form

/-- A call between definitions is kept by every policy. -/
theorem EdgePolicy.admits_of_known (policy : EdgePolicy) {table : SymbolTable} {call : Call}
    (different : call.caller ≠ call.callee) (caller : table.contains call.caller = true)
    (callee : table.contains call.callee = true) : policy.admits table call = true := by
  cases policy <;> simp [admits, different, caller, callee]

def Language.tableOf (language : Language) (trees : List (String × TextTree)) : SymbolTable :=
  .ofList (trees.flatMap fun (file, tree) => language.dialect.definitions tree file)

/-- Against the table of the files in which they stand, all calls are kept. -/
theorem Language.admits_found {language : Language}
    (careful : language = .python ∨ language = .php) (trees : List (String × TextTree)) :
    ∀ call ∈ trees.flatMap fun (_, tree) =>
        language.dialect.calls (language.tableOf trees).knowledge tree,
      language.edgePolicy.admits (language.tableOf trees) call = true := by
  intro call found
  obtain ⟨⟨file, tree⟩, among, found⟩ := List.mem_flatMap.mp found
  have single : language ≠ .cpp := by
    rcases careful with rfl | rfl <;> decide
  have caller : (language.tableOf trees).contains call.caller = true := by
    obtain ⟨definition, written, name⟩ := callers_defined single tree file _ call found
    rw [tableOf, (SymbolTable.consistent_ofList _).contains_iff, SymbolTable.mem_ids_ofList]
    exact ⟨definition, List.mem_flatMap.mpr ⟨(file, tree), among, written⟩, name⟩
  have callee : (language.tableOf trees).contains call.callee = true :=
    (language.checksCallees careful).callees_defined found
  exact language.edgePolicy.admits_of_known
    (language.dialect.caller_ne_callee _ found) caller callee

namespace FileSystem

variable {fs : FileSystem} {root : String} {language : Language} {files : List String}

/-- Both passes over a list of files read the same trees. -/
theorem collected_trees {table : SymbolTable} {calls : List Call}
    (definitions : fs.collectDefinitions root language files = .ok table)
    (collected : fs.collectCalls root language files table = .ok calls) :
    ∃ trees, fs.readTrees root files = .ok trees ∧
      table = language.tableOf trees ∧
      calls = trees.flatMap fun (_, tree) => language.dialect.calls table.knowledge tree := by
  obtain ⟨trees, read, made⟩ := map_eq_ok definitions
  obtain ⟨again, read_again, found⟩ := map_eq_ok collected
  rw [read, Except.ok.injEq] at read_again
  subst read_again
  exact ⟨trees, read, made.symm, found.symm⟩

/-- An extraction is the two passes over the sources that were found, and the policy after them. -/
theorem extract_passes {following : Bool} {extraction : Extraction}
    (success : fs.extract root language following = .ok extraction) :
    ∃ files calls, fs.sourceFiles root language following = .ok files ∧
      fs.collectDefinitions root language files = .ok extraction.table ∧
      fs.collectCalls root language files extraction.table = .ok calls ∧
      extraction.calls = calls.filter (language.edgePolicy.admits extraction.table) := by
  obtain ⟨-, -, success⟩ := bind_eq_ok success
  obtain ⟨files, walked, success⟩ := bind_eq_ok success
  obtain ⟨table, definitions, success⟩ := bind_eq_ok success
  obtain ⟨calls, collected, success⟩ := bind_eq_ok success
  cases success
  exact ⟨files, calls, walked, definitions, collected, rfl⟩

end FileSystem

/-- The policy of a language drops no call: over any files, every call that is found is kept, and
the calls of an extraction are those of its sources one after another. -/
structure Language.DropsNothing (language : Language) : Prop where
  admitted : ∀ (fs : FileSystem) root files table calls,
    fs.collectDefinitions root language files = .ok table →
    fs.collectCalls root language files table = .ok calls →
      ∀ call ∈ calls, language.edgePolicy.admits table call = true
  concatenated : ∀ (fs : FileSystem) root following extraction,
    fs.extract root language following = .ok extraction →
      ∃ files trees, fs.sourceFiles root language following = .ok files ∧
        fs.readTrees root files = .ok trees ∧
        extraction.calls = trees.flatMap fun (_, tree) =>
          language.dialect.calls extraction.table.knowledge tree

/-- Python asks for a defined callee and PHP for two defined ends; neither drops anything. -/
theorem policy_drops_nothing (language : Language)
    (careful : language = .python ∨ language = .php) : language.DropsNothing where
  admitted fs root files table calls definitions collected := by
    obtain ⟨trees, -, rfl, rfl⟩ := FileSystem.collected_trees definitions collected
    exact language.admits_found careful trees
  concatenated fs root following extraction success := by
    obtain ⟨files, calls, walked, definitions, collected, kept⟩ :=
      FileSystem.extract_passes success
    obtain ⟨trees, read, table, found⟩ := FileSystem.collected_trees definitions collected
    refine ⟨files, trees, walked, read, ?_⟩
    rw [kept, found, List.filter_eq_self, table]
    exact language.admits_found careful trees

/-- The one call between two files is all that their calls come to. -/
theorem twoFiles_concatenated :
    twoFiles.extract "/" .python false = .ok ⟨twoTable, [⟨"f", "g"⟩], 2⟩ ∧
      Dialect.python.calls twoTable.knowledge callingTree ++
        Dialect.python.calls twoTable.knowledge calledTree = [⟨"f", "g"⟩] := by
  refine ⟨twoFiles_extract, ?_⟩
  obtain ⟨files, trees, walked, read, calls⟩ :=
    (policy_drops_nothing .python (.inl rfl)).concatenated _ _ _ _ twoFiles_extract
  obtain ⟨sources, contents⟩ := twoFiles_trees
  rw [sources, Except.ok.injEq] at walked
  subst walked
  rw [contents, Except.ok.injEq] at read
  subst read
  simpa [Language.dialect] using calls.symm

end CallAtlas
