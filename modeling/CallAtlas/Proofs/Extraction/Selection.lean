import CallAtlas.Proofs.FileSystem.LongPath
import CallAtlas.Proofs.FileSystem.PlainWalk
import CallAtlas.Proofs.FileSystem.Seen
/-!
Which files are read. Without following links, the sources of a language are exactly the files
below the root whose names have one of its extensions, as paths from the root and in the order of
the names on the way, byte by byte. A directory can be in the way whose path, as it is spelled from
the root, is longer than a path may be; then the first such directory is the error
(`sourceFiles_eq_selection`).
-/
namespace CallAtlas

/-- A name has an extension of a language, after a dot that does not come first. -/
def Language.HasExtension (language : Language) (name : String) : Prop :=
  ∃ stem extension, extension ∈ language.extensions ∧ stem ≠ "" ∧ name = stem ++ "." ++ extension

theorem Language.undotted_extension (language : Language) :
    ∀ extension ∈ language.extensions, '.' ∉ extension.toList := by
  cases language <;> decide

theorem Language.matchesName_iff (language : Language) (name : String) :
    language.matchesName name = true ↔ language.HasExtension name := by
  rw [matchesName, Path.nameExtension?]
  constructor
  · intro found
    cases cut : Text.cutLast? "." name with
    | none => simp [cut] at found
    | some sides =>
      obtain ⟨stem, extension⟩ := sides
      have joined := ((Text.cutLast?_eq_some_iff (by decide)).mp cut).joined
      rw [cut] at found
      by_cases empty : stem = ""
      · simp [empty] at found
      · refine ⟨stem, extension, by simpa [empty] using found, empty, ?_⟩
        exact String.toList_inj.mp (by simp [joined])
  · rintro ⟨stem, extension, known, filled, rfl⟩
    rw [Text.cutLast?_dot (language.undotted_extension extension known)]
    simpa [filled] using known

namespace FileSystem

variable {fs : FileSystem} {location : Location} {path : String} {names : List String}
  {language : Language} {stops : List (List String)}

theorem endsInSource_iff :
    endsInSource language names = true ↔
      ∃ name, names.getLast? = some name ∧ language.HasExtension name := by
  rw [endsInSource]
  cases names.getLast? with
  | none => simp
  | some name => simp [Language.matchesName_iff]

/-- Names lead from a location to a source of a language. -/
def IsSource (fs : FileSystem) (language : Language) (location : Location) (names : List String) :
    Prop :=
  (∃ file, fs.item? (location ++ names) = some (.file file)) ∧
    ∃ name, names.getLast? = some name ∧ language.HasExtension name

/-- The files where a walk stops are found, or the first directory where it does is the error. -/
theorem files_of_stops (all : ∀ names ∈ stops, fs.IsStop location path names) :
    Findings.files (stops.map (fs.stopFinding location path)) = .ok stops ∧
        (∀ names ∈ stops, ¬ fs.TooLong location path names) ∨
      ∃ before stop after, stops = before ++ stop :: after ∧
        (∀ names ∈ before, ¬ fs.TooLong location path names) ∧ fs.TooLong location path stop ∧
        Findings.files (stops.map (fs.stopFinding location path)) =
          .error (.walk (.io (stop.foldl Path.join path) .nameTooLong)) := by
  induction stops with
  | nil => exact .inl ⟨rfl, by simp⟩
  | cons first rest ih =>
    rw [List.map_cons]
    rcases (all first List.mem_cons_self).file_or_tooLong with ⟨file, found⟩ | tooLong
    · have finding : fs.stopFinding location path first = .ok first := by
        rw [stopFinding, found]
      have fits : ¬ fs.TooLong location path first := by
        rintro ⟨directory, -⟩
        simp [found] at directory
      rw [finding, Findings.files]
      rcases ih fun names among => all names (.tail _ among) with
        ⟨files, clear⟩ | ⟨before, stop, after, rfl, clear, tooLong, failed⟩
      · exact .inl ⟨by rw [files]; rfl, List.forall_mem_cons.mpr ⟨fits, clear⟩⟩
      · exact .inr ⟨first :: before, stop, after, rfl, List.forall_mem_cons.mpr ⟨fits, clear⟩,
          tooLong, by rw [failed]; rfl⟩
    · refine .inr ⟨[], first, rest, rfl, by simp, tooLong, ?_⟩
      rw [stopFinding, tooLong.1, Findings.files]

/-- If no directory is in the way, a walk stops at all files and nowhere else. -/
theorem WellFormed.mem_stops_iff (wellFormed : fs.WellFormed) {findings : Findings}
    (surveys : fs.Surveys location path stops findings)
    (clear : ∀ names, ¬ fs.TooLong location path names) :
    names ∈ stops ↔ names ≠ [] ∧ ∃ file, fs.item? (location ++ names) = some (.file file) := by
  rw [surveys.complete]
  constructor
  · intro stop
    obtain ⟨name, rest, _, rfl, _⟩ := stop.head
    exact ⟨by simp, stop.file_or_tooLong.resolve_right (clear _)⟩
  · intro standing
    obtain ⟨below, file, found⟩ := standing
    exact wellFormed.isStop_of_file below found clear

/-- The first directory where a walk stops comes before all others with paths that are too long. -/
theorem WellFormed.precedes_tooLong (wellFormed : fs.WellFormed) {stop other : List String}
    {before after : List (List String)} {findings : Findings}
    (surveys : fs.Surveys location path (before ++ stop :: after) findings)
    (clear : ∀ names ∈ before, ¬ fs.TooLong location path names)
    (short : path.utf8ByteSize ≤ maxPath) (tooLong : fs.TooLong location path other)
    (different : other ≠ stop) : Precedes stop other := by
  obtain ⟨first, starts, stops, long⟩ := wellFormed.exists_stop_of_tooLong short tooLong
  have reached : first = stop ∨ Precedes stop first := by
    rcases List.mem_append.mp ((surveys.complete first).mpr stops) with earlier | later
    · exact absurd long (clear first earlier)
    · refine (List.mem_cons.mp later).imp_right fun later => ?_
      exact (List.pairwise_cons.mp (List.pairwise_append.mp surveys.sorted).2.1).1 first later
  rcases reached with rfl | later
  · exact precedes_of_above starts (Ne.symm different)
  · rcases eq_or_ne first other with rfl | above
    · exact later
    · exact later.trans (precedes_of_above starts above)

/-- Without following links, the sources are the files below the root with an extension of the
language, in order; or the first directory with a path that is too long is the error. -/
theorem sourceFiles_eq_selection (fs : FileSystem) (wellFormed : fs.WellFormed) (root : String)
    (location : Location) (located : fs.locate root = .ok location) (language : Language) :
    (∃ files, fs.sourceFiles root language false = .ok files ∧
        (∀ names, ¬ fs.TooLong location root names) ∧
        (∀ path ∈ files, path = Text.join "/" (Path.names path)) ∧
        (∀ names, names ∈ files.map Path.names ↔ fs.IsSource language location names) ∧
        files.Pairwise fun one two => Precedes (Path.names one) (Path.names two)) ∨
      ∃ names, fs.sourceFiles root language false =
          .error (.walk (.io (names.foldl Path.join root) .nameTooLong)) ∧
        fs.TooLong location root names ∧
        ∀ other, fs.TooLong location root other → other ≠ names → Precedes names other := by
  obtain ⟨stops, surveys⟩ : ∃ stops,
      fs.Surveys location root stops (fs.walkDirectory false [] location root) :=
    wellFormed.exists_surveys located
  have walked : fs.walk false root = stops.map (fs.stopFinding location root) := by
    rw [walk, located]
    exact surveys.findings
  have short := (pathError?_eq_none_iff.mp (locate_eq_ok_iff.mp located).1).2.2
  rw [wellFormed.sourceFiles_eq, walked]
  rcases files_of_stops fun names among => (surveys.complete names).mp among with
    ⟨files, clear⟩ | ⟨before, stop, after, rfl, clear, tooLong, failed⟩
  · left
    have fits : ∀ names, ¬ fs.TooLong location root names := by
      intro names tooLong
      obtain ⟨stop, -, stops, also⟩ := wellFormed.exists_stop_of_tooLong short tooLong
      exact clear stop ((surveys.complete stop).mpr stops) also
    have file (names : List String) : names ∈ stops ↔
        names ≠ [] ∧ ∃ file, fs.item? (location ++ names) = some (.file file) :=
      wellFormed.mem_stops_iff surveys fits
    have named : ∀ names ∈ stops.filter (endsInSource language), ∀ name ∈ names,
        Path.IsName name := by
      intro names among
      obtain ⟨-, file, found⟩ := (file names).mp (List.mem_of_mem_filter among)
      exact wellFormed.isName_of_append found
    have selected := Path.map_names_joined named
    refine ⟨_, by rw [files]; rfl, fits, ?_, ?_, ?_⟩
    · intro path among
      obtain ⟨names, within, rfl⟩ := List.mem_map.mp among
      rw [Path.names_joined (named names within)]
    · intro names
      rw [selected, List.mem_filter, file, endsInSource_iff, IsSource, and_assoc]
      apply and_iff_right_of_imp
      rintro ⟨-, name, ends, -⟩ rfl
      cases ends
    · rw [← List.pairwise_map (R := Precedes), selected]
      exact surveys.sorted.filter _
  · right
    refine ⟨stop, by rw [failed]; rfl, tooLong, fun other also different => ?_⟩
    exact wellFormed.precedes_tooLong surveys clear short also different

/-- Two directories, one of them with the name of a source, and a link to a source. -/
def twoDirectories : FileSystem where
  items := [
    (["a"], .directory), (["a", "x.py"], .file ⟨[], .blank⟩),
    (["a.py"], .directory), (["a.py", "y.py"], .file ⟨[], .blank⟩),
    (["link.py"], .link "a/x.py")]

theorem wellFormed_twoDirectories : twoDirectories.WellFormed :=
  wellFormed_of_laid (by rfl)

/-- What a walk comes upon there: the link as well, if it follows links. -/
theorem walk_twoDirectories (following : Bool) :
    twoDirectories.walk following "/" =
      [.ok ["a", "x.py"], .ok ["a.py", "y.py"]] ++ if following then [.ok ["link.py"]] else [] := by
  have top : twoDirectories.listing [] =
      [("a", .directory), ("a.py", .directory), ("link.py", .link "a/x.py")] :=
    List.mergeSort_of_pairwise (by decide)
  have first : twoDirectories.listing ["a"] = [("x.py", .file ⟨[], .blank⟩)] :=
    List.mergeSort_of_pairwise (by decide)
  have second : twoDirectories.listing ["a.py"] = [("y.py", .file ⟨[], .blank⟩)] :=
    List.mergeSort_of_pairwise (by decide)
  have at_top : twoDirectories.locate "/" = .ok [] := by rfl
  have in_first : twoDirectories.locate (Path.join "/" "a") = .ok ["a"] := by rfl
  have in_second : twoDirectories.locate (Path.join "/" "a.py") = .ok ["a.py"] := by rfl
  rw [walk, at_top]
  dsimp only
  rw [walkDirectory_of_ok at_top, top]
  simp only [List.flatMap_cons, walkEntry, List.nil_append, walkDirectory_of_ok in_first,
    walkDirectory_of_ok in_second, first, second]
  cases following <;> rfl

/-- The directory `a` comes before `a.py`, although a slash comes after a dot. -/
theorem twoDirectories_selected :
    twoDirectories.WellFormed ∧ twoDirectories.locate "/" = .ok [] ∧
      twoDirectories.sourceFiles "/" .python false = .ok ["a/x.py", "a.py/y.py"] ∧
      ∀ names, names ∈ [["a", "x.py"], ["a.py", "y.py"]] ↔
        twoDirectories.IsSource .python [] names := by
  have located : twoDirectories.locate "/" = .ok [] := by rfl
  have files : twoDirectories.sourceFiles "/" .python false = .ok ["a/x.py", "a.py/y.py"] := by
    rw [sourceFiles, walk_twoDirectories]
    rfl
  refine ⟨wellFormed_twoDirectories, located, files, ?_⟩
  rcases sourceFiles_eq_selection twoDirectories wellFormed_twoDirectories "/" [] located .python
    with ⟨found, success, -, -, selected, -⟩ | ⟨names, failed, -⟩
  · rw [files] at success
    cases success
    exact selected
  · rw [files] at failed
    cases failed

/-- A source, and beside it a directory with a longer name. -/
def besideSource : FileSystem where
  items := [(["documentation"], .directory), (["main.py"], .file ⟨[], .blank⟩)]

/-- A root may be just short enough for a source below it and too long for an empty directory. -/
theorem longRoot_not_selected :
    besideSource.WellFormed ∧ besideSource.locate (Path.slashed 4084) = .ok [] ∧
      besideSource.IsSource .python [] ["main.py"] ∧
      besideSource.sourceFiles (Path.slashed 4084) .python false =
        .error (.walk (.io (Path.slashed 4084 ++ "documentation") .nameTooLong)) := by
  have short : 4083 + 2 ≤ maxPath := by decide
  have listed : besideSource.listing [] =
      [("documentation", .directory), ("main.py", .file ⟨[], .blank⟩)] :=
    List.mergeSort_of_pairwise (by decide)
  refine ⟨wellFormed_of_laid (by rfl), locate_slashed rfl short,
    ⟨⟨_, rfl⟩, "main.py", rfl, "main", "py", by decide, by decide, by decide⟩, ?_⟩
  exact sourceFiles_slashed rfl short
    ⟨⟨by decide, by decide, by decide, by decide, by decide⟩, by decide⟩ listed (by decide) .python

end FileSystem

end CallAtlas
