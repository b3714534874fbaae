import CallAtlas.Proofs.Command.Failure
import CallAtlas.Proofs.Extraction.FileOrder
import CallAtlas.Proofs.FileSystem.LongPath
import CallAtlas.Proofs.FileSystem.Seen
/-!
Running again over what a run has left. The output may lie in the directory that is scanned;
but what a run adds is directories and files that are sources of no language, so the next
extraction passes over them and finds what the first one did (`Expands.extract_again`). One
thing can be in its way: a directory that the run itself made, if its path as the walk spells
it is longer than a path may be.
-/
namespace CallAtlas

/-- No artifact is a source. -/
theorem Language.matchesName_artifact (language : Language) {extension : String}
    (known : extension ∈ Artifacts.extensions) (stem : String) :
    language.matchesName (stem ++ extension) = false := by
  obtain ⟨bare, rfl, undotted, foreign⟩ : ∃ bare, extension = "." ++ bare ∧
      '.' ∉ bare.toList ∧ bare ∉ language.extensions := by
    simp only [Artifacts.extensions, List.mem_cons, List.not_mem_nil, or_false] at known
    rcases known with rfl | rfl | rfl
    · exact ⟨"json", rfl, by decide, by cases language <;> decide⟩
    · exact ⟨"csv", rfl, by decide, by cases language <;> decide⟩
    · exact ⟨"png", rfl, by decide, by cases language <;> decide⟩
  rw [matchesName, Path.nameExtension?, ← String.append_assoc, Text.cutLast?_dot undotted]
  by_cases empty : stem = ""
  · simp [empty]
  · simpa [empty] using foreign

namespace FileSystem

variable {before after : FileSystem} {root path : String} {language : Language}
  {following : Bool} {item : Item} {kind : String → Prop} {added : List (Location × Item)}

theorem stat_mono (keeps : Keeps before after) (success : before.stat path = .ok item) :
    after.stat path = .ok item := by
  rw [stat] at success ⊢
  split at success
  · cases success
  next location located =>
    rw [locate_mono keeps located]
    dsimp only
    split at success
    next found =>
      rw [keeps.item found]
      exact success
    · cases success

theorem read_mono {file : File} (keeps : Keeps before after)
    (success : before.read path = .ok file) : after.read path = .ok file := by
  rw [read] at success ⊢
  split at success
  next found =>
    rw [stat_mono keeps found]
    exact success
  · cases success
  · cases success
  · cases success

/-- Sources that could be read are read alike. -/
theorem readTrees_mono {files : List String} {trees : List (String × TextTree)}
    (keeps : Keeps before after) (success : before.readTrees root files = .ok trees) :
    after.readTrees root files = .ok trees := by
  rw [readTrees_eq_ok_iff] at success ⊢
  refine success.imp fun file named ⟨under, read⟩ => ⟨under, ?_⟩
  rw [readTree] at read ⊢
  split at read
  next found =>
    rw [read_mono keeps found]
    exact read
  · cases read

/-- What is found in between adds to the files, unless it is an error. -/
theorem Findings.files_of_padded {extra : Except WalkError (List String) → Prop}
    {old new : Findings} {found : List (List String)} (padded : Padded extra old new)
    (success : old.files = .ok found) :
    (∃ more, new.files = .ok more ∧ Padded (fun names => extra (.ok names)) found more) ∨
      ∃ cause, new.files = .error (.walk cause) ∧ extra (.error cause) := by
  induction padded generalizing found with
  | nil =>
    cases success
    exact .inl ⟨[], rfl, .nil⟩
  | keep finding _ ih =>
    cases finding with
    | error cause => cases success
    | ok names =>
      obtain ⟨further, files, rfl⟩ := map_eq_ok success
      rcases ih files with ⟨more, files, padded⟩ | ⟨cause, failed, among⟩
      · exact .inl ⟨names :: more, by rw [Findings.files, files]; rfl, .keep names padded⟩
      · exact .inr ⟨cause, by rw [Findings.files, failed]; rfl, among⟩
  | @insert finding _ _ among _ ih =>
    cases finding with
    | error cause => exact .inr ⟨cause, rfl, among⟩
    | ok names =>
      rcases ih success with ⟨more, files, padded⟩ | ⟨cause, failed, among⟩
      · exact .inl ⟨names :: more, by rw [Findings.files, files]; rfl, .insert among padded⟩
      · exact .inr ⟨cause, by rw [Findings.files, failed]; rfl, among⟩

/-- The sources are the same if no new file is one. -/
theorem Expands.sourceFiles_again (expands : Expands before after kind added)
    (foreign : ∀ name, kind name → language.matchesName name = false) {files : List String}
    (success : before.sourceFiles root language following = .ok files) :
    after.sourceFiles root language following = .ok files ∨
      ∃ cause, after.sourceFiles root language following = .error (.walk cause) ∧
        NewlyTooLong before after cause := by
  rw [expands.old.sourceFiles_eq] at success
  obtain ⟨found, walked, rfl⟩ := map_eq_ok success
  obtain ⟨location, located⟩ := exists_locate_of_files walked
  have padded : Padded (IsExtra before after kind) (before.walk following root)
      (after.walk following root) := by
    have clean := Findings.clean_of_files walked
    rw [walk, located] at clean ⊢
    rw [walk, locate_mono expands.grows.keeps located]
    exact expands.walkDirectory_padded located clean
  have unsourced : ∀ names, IsExtra before after kind (.ok names) →
      endsInSource language names = false := by
    rintro names ⟨name, ends, known⟩
    rw [endsInSource, ends]
    exact foreign name known
  rw [expands.new.sourceFiles_eq]
  rcases Findings.files_of_padded padded walked with ⟨more, files, padded⟩ | ⟨cause, failed, long⟩
  · left
    rw [files, Except.map, padded.filter_eq unsourced]
  · right
    exact ⟨cause, by rw [failed]; rfl, long⟩

/-- An extraction that succeeded finds the same again, unless a new directory is in its way. -/
theorem Expands.extract_again (expands : Expands before after kind added)
    (foreign : ∀ name, kind name → language.matchesName name = false) {extraction : Extraction}
    (success : before.extract root language following = .ok extraction) :
    after.extract root language following = .ok extraction ∨
      ∃ cause, after.extract root language following = .error (.walk cause) ∧
        NewlyTooLong before after cause := by
  obtain ⟨⟨⟩, checked, success⟩ := bind_eq_ok success
  obtain ⟨files, walked, success⟩ := bind_eq_ok success
  obtain ⟨table, definitions, success⟩ := bind_eq_ok success
  obtain ⟨calls, collected, success⟩ := bind_eq_ok success
  obtain ⟨trees, read, -⟩ := map_eq_ok definitions
  have root_again : after.checkRoot root = .ok () := by
    rw [checkRoot_eq_ok_iff] at checked ⊢
    exact stat_mono expands.grows.keeps checked
  have read_again := readTrees_mono expands.grows.keeps read
  rw [extract, root_again]
  rcases expands.sourceFiles_again foreign walked with again | ⟨cause, failed, long⟩
  · left
    have definitions_again : after.collectDefinitions root language files = .ok table := by
      rw [collectDefinitions, read_again, ← read]
      exact definitions
    have calls_again : after.collectCalls root language files table = .ok calls := by
      rw [collectCalls, read_again, ← read]
      exact collected
    simp only [again, definitions_again, calls_again, bind, Except.bind]
    exact success
  · right
    exact ⟨cause, by rw [failed]; rfl, long⟩

/-- What an export adds is directories and the files of the run. -/
theorem expands_of_exportRun {fs : FileSystem} {encode : ImageEncoder} {graph : CallGraph}
    {out runId : String} {withImage : Bool} {faults : Faults} {artifacts : Artifacts}
    (wellFormed : fs.WellFormed) (fresh : fs.IsFresh runId)
    (success : fs.exportRun encode graph out runId withImage faults = (after, .ok artifacts)) :
    ∃ added, Expands fs after (Artifacts.IsNameOf runId) added := by
  obtain ⟨made, early, directories⟩ := fs.makeDirectories_grows out faults.directories
  have reached := wellFormed.makeDirectories out faults.directories
  rcases exportRun_cases fresh encode graph out withImage faults with
    ⟨cause, outcome⟩ | ⟨left, written, late, stores, outcome⟩
  · rw [outcome] at success
    cases success
  rw [outcome] at success
  cases success
  have stored : ∀ entry ∈ written, ∃ holder name file, entry = (holder ++ [name], .file file) ∧
      Path.IsName name ∧
        (fs.makeDirectories out faults.directories).1.item? holder = some .directory ∧
        Artifacts.IsNameOf runId name := by
    intro entry among
    obtain ⟨⟨path, file⟩, listed, holder, name, there, rfl⟩ := stores.only entry among
    obtain ⟨last, ends, named⟩ := Artifacts.endsIn_of_mem_paths
      ((Artifacts.mem_paths_iff encode graph _ path).mpr ⟨file, listed⟩)
    obtain rfl := ends.unique there.ends
    exact ⟨holder, last, file, rfl, there.isName, reached.holder_directory there.held, named⟩
  refine ⟨made ++ written, wellFormed, ?_, early.trans late, fun entry among => ?_⟩
  · refine late.wellFormed reached (fun entry among => ?_) fun entry among target link => ?_
    · obtain ⟨holder, name, file, rfl, named, directory, -⟩ := stored entry among
      exact ⟨holder, name, rfl, named, late.keeps.item directory⟩
    · obtain ⟨_, _, _, rfl, -⟩ := stored entry among
      cases link
  · rcases List.mem_append.mp among with among | among
    · exact .inl (directories entry among)
    · obtain ⟨holder, name, file, same, -, -, known⟩ := stored entry among
      exact .inr ⟨holder, name, file, same, known⟩

end FileSystem

namespace Command

open FileSystem (Expands NewlyTooLong)

variable {fs left : FileSystem} {surroundings : Surroundings} {arguments : Arguments}
  {analysis : Analysis}

theorem analyze_ok_cases (success : analyze fs surroundings arguments = (left, .ok analysis)) :
    Language.ofTag arguments.language = .ok analysis.language ∧
      fs.extract arguments.root analysis.language arguments.followSymlinks =
        .ok analysis.extraction ∧
      fs.exportRun surroundings.encode
        (.build analysis.extraction.table analysis.extraction.calls) arguments.output
        surroundings.runId (!arguments.noImage) surroundings.faults =
          (left, .ok analysis.artifacts) := by
  rw [analyze] at success
  split at success
  · cases success
  next language tagged =>
    split at success
    · cases success
    next extraction extracted =>
      dsimp only at success
      split at success
      · cases success
      next exported =>
        cases success
        exact ⟨tagged, extracted, exported⟩

/-- After an analysis under a new name that succeeds, the same extraction finds the same
definitions, calls and number of sources again, unless a directory that the run has made
cannot be walked, because its path is too long. -/
theorem extract_again_of_analyze (fs left : FileSystem) (surroundings : Surroundings)
    (arguments : Arguments) (analysis : Analysis) (wellFormed : fs.WellFormed)
    (fresh : fs.IsFresh surroundings.runId)
    (success : analyze fs surroundings arguments = (left, .ok analysis)) :
    Language.ofTag arguments.language = .ok analysis.language ∧
      fs.extract arguments.root analysis.language arguments.followSymlinks =
        .ok analysis.extraction ∧
      (left.extract arguments.root analysis.language arguments.followSymlinks =
          .ok analysis.extraction ∨
        ∃ cause, left.extract arguments.root analysis.language arguments.followSymlinks =
            .error (.walk cause) ∧ NewlyTooLong fs left cause) := by
  obtain ⟨tagged, extracted, exported⟩ := analyze_ok_cases success
  obtain ⟨added, expands⟩ := FileSystem.expands_of_exportRun wellFormed fresh exported
  refine ⟨tagged, extracted, expands.extract_again ?_ extracted⟩
  rintro name ⟨extension, known, rfl⟩
  exact Language.matchesName_artifact _ known _

/-- A file system with a new directory for the output, and two files in it. -/
def withOutput (fs : FileSystem) (out : String) (document table : File) : FileSystem :=
  ((fs.put [out] .directory).put [out, "run.json"] (.file document)).put [out, "run.csv"]
    (.file table)

theorem analyze_intoRoot {root out : String} {extraction : Extraction}
    (extracted : fs.extract root .python false = .ok extraction)
    (made : fs.makeDirectories out = (fs.put [out] .directory, .ok ()))
    (document : (fs.put [out] .directory).IsEntry (Path.join out ("run" ++ ".json")) [out]
      "run.json")
    (table : (fs.put [out] .directory).IsEntry (Path.join out ("run" ++ ".csv")) [out] "run.csv")
    (no_document : (fs.put [out] .directory).item? [out, "run.json"] = none)
    (no_table : (fs.put [out] .directory).item? [out, "run.csv"] = none) :
    ∃ first second, analyze fs ⟨"run", fun _ => [], {}⟩ (intoRoot root out) =
      (withOutput fs out first second, .ok ⟨.python, extraction, .ofRun out "run" false⟩) := by
  have tag : Language.ofTag "python" = .ok .python := by rfl
  obtain ⟨first, second, exported⟩ := FileSystem.exportAs_of_entries document table no_document
    no_table (show "run.csv" ≠ "run.json" by decide) (fun _ => [])
    (.build extraction.table extraction.calls)
  refine ⟨first, second, ?_⟩
  simp only [analyze, intoRoot, tag, extracted, FileSystem.exportRun, made, Bool.not_true,
    exported]
  rfl

/-- The output lies among the sources, and they are found again. -/
theorem twoFiles_found_again :
    twoFiles.WellFormed ∧ twoFiles.IsFresh "run" ∧
      ∃ left artifacts, analyze twoFiles ⟨"run", fun _ => [], {}⟩ (intoRoot "/" "out") =
          (left, .ok ⟨.python, ⟨twoTable, [⟨"f", "g"⟩], 2⟩, artifacts⟩) ∧
        left.isFile "out/run.json" = true ∧
        left.extract "/" .python false = .ok ⟨twoTable, [⟨"f", "g"⟩], 2⟩ := by
  have laid : FileSystem.layAll {} (twoFiles.items.map fun stored =>
      ⟨Text.join "/" stored.1, stored.2⟩) = twoFiles := by rfl
  have wellFormed : twoFiles.WellFormed :=
    laid ▸ FileSystem.wellFormed_layAll FileSystem.wellFormed_empty _
  have fresh : twoFiles.IsFresh "run" := FileSystem.isFresh_of_names (by decide)
  obtain ⟨first, second, success⟩ := @analyze_intoRoot twoFiles "/" "out" _ twoFiles_extract
    (by rfl) ⟨⟨by decide, by decide, by decide, by decide⟩, by rfl, by decide⟩
    ⟨⟨by decide, by decide, by decide, by decide⟩, by rfl, by decide⟩ (by rfl) (by rfl)
  refine ⟨wellFormed, fresh, _, _, success, by rfl, ?_⟩
  obtain ⟨-, -, again | ⟨cause, failed, -⟩⟩ :=
    extract_again_of_analyze _ _ _ _ _ wellFormed fresh success
  · exact again
  · -- No path is long here: the walk goes through.
    have root : (withOutput twoFiles "out" first second).checkRoot "/" = .ok () := by rfl
    obtain ⟨-, -, exported⟩ := analyze_ok_cases success
    obtain ⟨added, expands⟩ := FileSystem.expands_of_exportRun wellFormed fresh exported
    have files : (withOutput twoFiles "out" first second).sourceFiles "/" .python false =
        .ok ["a.py", "b.py"] := by
      rw [expands.new.sourceFiles_eq]
      cbv
    have trees : (withOutput twoFiles "out" first second).readTrees "/" ["a.py", "b.py"] =
        .ok [("a.py", callingTree), ("b.py", calledTree)] := by rfl
    simp only [intoRoot, FileSystem.extract, root, files, FileSystem.collectDefinitions,
      FileSystem.collectCalls, trees, bind, Except.bind, Except.map] at failed
    cases failed

end Command

namespace Command

variable {count : Nat}

theorem extract_empty (short : count + 2 ≤ FileSystem.maxPath) :
    ({} : FileSystem).extract (Path.slashed (count + 1)) .python false =
      .ok ⟨.ofList [], [], 0⟩ := by
  have nothing : ({} : FileSystem).listing [] = [] := by simp [FileSystem.listing]
  have files : ({} : FileSystem).sourceFiles (Path.slashed (count + 1)) .python false = .ok [] := by
    rw [FileSystem.sourceFiles, FileSystem.walk_slashed rfl short, nothing]
    rfl
  rw [FileSystem.extract, FileSystem.checkRoot_slashed rfl short]
  simp only [files, bind, Except.bind]
  rfl

/-- A root may be just short enough, and the path of the output below it too long. -/
theorem extract_withOutput (short : count + 2 ≤ FileSystem.maxPath)
    (long : FileSystem.maxPath < count + 8) (document table : File) :
    (withOutput {} "output" document table).extract (Path.slashed (count + 1)) .python false =
      .error (.walk (.io (Path.slashed (count + 1) ++ "output") .nameTooLong)) := by
  have listed : (withOutput {} "output" document table).listing [] = [("output", .directory)] := by
    have items : (withOutput {} "output" document table).items = [(["output"], .directory),
      (["output", "run.json"], .file document), (["output", "run.csv"], .file table)] := by rfl
    simp [FileSystem.listing, items]
  have files := FileSystem.sourceFiles_slashed rfl short
    ⟨⟨by decide, by decide, by decide, by decide, by decide⟩, by decide⟩ listed long .python
  rw [FileSystem.extract, FileSystem.checkRoot_slashed rfl short]
  simp only [files, bind, Except.bind]

/-- The first run succeeds on nothing, and the next one fails on the output of the first. -/
theorem longRoot_fails_again :
    ({} : FileSystem).WellFormed ∧ ({} : FileSystem).IsFresh "run" ∧
      ∃ left analysis, analyze {} ⟨"run", fun _ => [], {}⟩ (intoRoot (Path.slashed 4090) "output") =
          (left, .ok analysis) ∧ analysis.extraction = ⟨.ofList [], [], 0⟩ ∧
        left.extract (Path.slashed 4090) .python false =
          .error (.walk (.io (Path.slashed 4090 ++ "output") .nameTooLong)) := by
  have short : 4089 + 2 ≤ FileSystem.maxPath := by decide
  obtain ⟨first, second, success⟩ := @analyze_intoRoot {} (Path.slashed (4089 + 1)) "output" _
    (extract_empty short) (by rfl) ⟨⟨by decide, by decide, by decide, by decide⟩, by rfl, by decide⟩
    ⟨⟨by decide, by decide, by decide, by decide⟩, by rfl, by decide⟩ (by rfl) (by rfl)
  exact ⟨FileSystem.wellFormed_empty, FileSystem.isFresh_of_names (by simp), _, _, success, rfl,
    extract_withOutput short (by decide) first second⟩

end Command

end CallAtlas
