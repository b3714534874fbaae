import CallAtlas.Proofs.Extraction.FileOrder
import CallAtlas.Proofs.Extraction.Selection
/-!
Reading back what a walk found. A file is found by names, written down as a path relative to the
root, and looked up again from the root on. However the root is spelled and whatever links are on
the way, that leads to the file that the walk saw (`WellFormed.readBack`). Only the length of a path
can be in the way: a walk opens the directories that it goes through but not the files in them, so
it may find a file whose path is too long to be looked up. Both passes then fail at the first such
file, and otherwise they succeed (`sources_read_back`).
-/
namespace CallAtlas.FileSystem

/-- A file of this relative path is too far from the root to be looked up. -/
def isTooFar (root file : String) : Bool :=
  maxPath < (Path.join root file).utf8ByteSize

/-- Looking up a relative path from the root leads back to what a walk saw there. -/
structure ReadBack (fs : FileSystem) (root : String) (following : Bool) (path : String)
    (location place : Location) (file : File) : Prop where
  sees : fs.Sees following location root (Path.names path) place
  /-- There is no other place that the walk could have seen. -/
  only : ∀ other, fs.Sees following location root (Path.names path) other → other = place
  holds : fs.item? place = some (.file file)
  locate : fs.locate (Path.join root path) =
    if isTooFar root path then .error .nameTooLong else .ok place
  read : fs.read (Path.join root path) =
    if isTooFar root path then .error .nameTooLong else .ok file

/-- Both passes over some files succeed, and so does the extraction. -/
structure PassesSucceed (fs : FileSystem) (root : String) (language : Language) (following : Bool)
    (files : List String) : Prop where
  definitions : ∃ table, fs.collectDefinitions root language files = .ok table
  calls : ∀ table, ∃ calls, fs.collectCalls root language files table = .ok calls
  extract : ∃ extraction, fs.extract root language following = .ok extraction

/-- Both passes over some files fail for the same reason, and so does the extraction. -/
structure PassesFail (fs : FileSystem) (root : String) (language : Language) (following : Bool)
    (files : List String) (cause : ExtractError) : Prop where
  definitions : fs.collectDefinitions root language files = .error cause
  calls : ∀ table, fs.collectCalls root language files table = .error cause
  extract : fs.extract root language following = .error cause

variable {fs : FileSystem} {root path : String} {language : Language} {following : Bool}
  {location place : Location} {names : List String} {files : List String}

theorem WellFormed.readBack (wellFormed : fs.WellFormed) (located : fs.locate root = .ok location)
    (sees : fs.Sees following location root names place) :
    ∃ file, fs.ReadBack root following (Text.join "/" names) location place file := by
  obtain ⟨file, holds⟩ := sees.exists_file
  have named := wellFormed.isName_of_sees sees
  have joined := Path.join_joined named sees.ne_nil root
  have found : fs.locate (Path.join root (Text.join "/" names)) =
      if isTooFar root (Text.join "/" names) then .error .nameTooLong else .ok place := by
    obtain ⟨spelled, -, -⟩ := pathError?_eq_none_iff.mp (locate_eq_ok_iff.mp located).1
    rw [isTooFar, joined]
    split
    next long =>
      exact locate_of_tooLong (Path.spelled_foldl_join named spelled) (of_decide_eq_true long)
    next short =>
      rw [decide_eq_true_eq, Nat.not_lt] at short
      exact wellFormed.locate_of_sees sees located short
  refine ⟨file, ?_, ?_, holds, found, ?_⟩
  · rwa [Path.names_joined named]
  · rw [Path.names_joined named]
    intro other also
    exact also.unique sees
  · rw [read, stat, found]
    cases isTooFar root (Text.join "/" names) with
    | true => rfl
    | false => simp [holds]

/-- Every source that is found can be read back. -/
theorem WellFormed.readBack_of_sourceFiles (wellFormed : fs.WellFormed)
    (located : fs.locate root = .ok location)
    (found : fs.sourceFiles root language following = .ok files) (among : path ∈ files) :
    ∃ place file, fs.ReadBack root following path location place file := by
  rw [wellFormed.sourceFiles_eq] at found
  obtain ⟨walked, success, rfl⟩ := map_eq_ok found
  obtain ⟨names, listed, rfl⟩ := List.mem_map.mp among
  have met := mem_walkDirectory_of_files located success (List.mem_of_mem_filter listed)
  obtain ⟨place, sees⟩ := wellFormed.sees_of_mem_walk met
  exact ⟨place, wellFormed.readBack located sees⟩

/-- Reading files fails at the first that is too far away, if nothing else is wrong with them. -/
theorem readTrees_of_each
    (each : ∀ path ∈ files, ∃ file, fs.read (Path.join root path) =
      if isTooFar root path then .error .nameTooLong else .ok file) :
    files.find? (isTooFar root) = none ∧ (∃ trees, fs.readTrees root files = .ok trees) ∨
      ∃ path, files.find? (isTooFar root) = some path ∧
        fs.readTrees root files = .error (.unreadable (Path.join root path) .nameTooLong) := by
  induction files with
  | nil => exact .inl ⟨rfl, [], readTrees_nil⟩
  | cons path rest ih =>
    obtain ⟨⟨file, read⟩, others⟩ := List.forall_mem_cons.mp each
    rw [readTrees_cons, readTree, read]
    cases far : isTooFar root path with
    | true => exact .inr ⟨path, List.find?_cons_of_pos far, rfl⟩
    | false =>
      rw [List.find?_cons_of_neg (by simp [far])]
      rcases ih others with ⟨near, trees, success⟩ | ⟨first, beyond, failed⟩
      · refine .inl ⟨near, ?_⟩
        simp only [Bool.false_eq_true, if_false, success]
        exact ⟨_, rfl⟩
      · refine .inr ⟨first, beyond, ?_⟩
        simp only [Bool.false_eq_true, if_false, failed]
        rfl

theorem passesSucceed_of_readTrees {trees : List (String × TextTree)}
    (checked : fs.checkRoot root = .ok ())
    (found : fs.sourceFiles root language following = .ok files)
    (read : fs.readTrees root files = .ok trees) :
    fs.PassesSucceed root language following files := by
  constructor
  · rw [collectDefinitions, read]
    exact ⟨_, rfl⟩
  · intro table
    rw [collectCalls, read]
    exact ⟨_, rfl⟩
  · simp only [extract, checked, found, collectDefinitions, collectCalls, read, bind, Except.bind]
    exact ⟨_, rfl⟩

theorem passesFail_of_readTrees {cause : ExtractError} (checked : fs.checkRoot root = .ok ())
    (found : fs.sourceFiles root language following = .ok files)
    (failed : fs.readTrees root files = .error cause) :
    fs.PassesFail root language following files cause := by
  constructor
  · rw [collectDefinitions, failed]
    rfl
  · intro table
    rw [collectCalls, failed]
    rfl
  · simp only [extract, checked, found, collectDefinitions, failed, bind, Except.bind]
    rfl

theorem checkRoot_cases (fs : FileSystem) (root : String) :
    fs.checkRoot root = .ok () ∨ fs.checkRoot root = .error (.missingRoot root) ∨
      fs.checkRoot root = .error (.notADirectory root) := by
  rw [checkRoot]
  split
  · exact .inr (.inl rfl)
  · split
    · exact .inr (.inr rfl)
    · exact .inl rfl

theorem Findings.files_cases (findings : Findings) :
    (∃ cause, findings.files = .error (.walk cause)) ∨ ∃ found, findings.files = .ok found := by
  induction findings with
  | nil => exact .inr ⟨[], rfl⟩
  | cons finding rest ih =>
    cases finding with
    | error cause => exact .inl ⟨cause, rfl⟩
    | ok names =>
      rw [Findings.files]
      rcases ih with ⟨cause, failed⟩ | ⟨found, success⟩
      · rw [failed]
        exact .inl ⟨cause, rfl⟩
      · rw [success]
        exact .inr ⟨names :: found, rfl⟩

theorem sourceFiles_cases (fs : FileSystem) (root : String) (language : Language)
    (following : Bool) :
    (∃ cause, fs.sourceFiles root language following = .error (.walk cause)) ∨
      ∃ location files, fs.locate root = .ok location ∧
        fs.sourceFiles root language following = .ok files := by
  rw [sourceFiles]
  rcases (fs.walk following root).files_cases with ⟨cause, failed⟩ | ⟨found, success⟩
  · rw [failed]
    exact .inl ⟨cause, rfl⟩
  · obtain ⟨location, located⟩ := exists_locate_of_files success
    rw [success]
    exact .inr ⟨location, _, located, rfl⟩

/-- An extraction fails because of its root, or because of the walk, or because the path of a file
that the walk found is too long. Otherwise all files are read, and each is the one that the walk
saw. -/
theorem sources_read_back (fs : FileSystem) (wellFormed : fs.WellFormed) (root : String)
    (language : Language) (following : Bool) :
    (∃ cause, (cause = .missingRoot root ∨ cause = .notADirectory root) ∧
      fs.checkRoot root = .error cause ∧ fs.extract root language following = .error cause) ∨
    (∃ cause, fs.checkRoot root = .ok () ∧
      fs.sourceFiles root language following = .error (.walk cause) ∧
      fs.extract root language following = .error (.walk cause)) ∨
    ∃ location files, fs.checkRoot root = .ok () ∧ fs.locate root = .ok location ∧
      fs.sourceFiles root language following = .ok files ∧
      (∀ path ∈ files, ∃ place file, fs.ReadBack root following path location place file) ∧
      (files.find? (isTooFar root) = none ∧ fs.PassesSucceed root language following files ∨
        ∃ path, files.find? (isTooFar root) = some path ∧
          fs.PassesFail root language following files
            (.unreadable (Path.join root path) .nameTooLong)) := by
  rcases checkRoot_cases fs root with checked | missing | other
  · refine .inr ?_
    rcases sourceFiles_cases fs root language following with
      ⟨cause, failed⟩ | ⟨location, files, located, found⟩
    · refine .inl ⟨cause, checked, failed, ?_⟩
      simp only [extract, checked, failed, bind, Except.bind]
    · have back (path : String) (among : path ∈ files) :
          ∃ place file, fs.ReadBack root following path location place file :=
        wellFormed.readBack_of_sourceFiles located found among
      refine .inr ⟨location, files, checked, located, found, back, ?_⟩
      have each (path : String) (among : path ∈ files) :
          ∃ file, fs.read (Path.join root path) =
            if isTooFar root path then .error .nameTooLong else .ok file := by
        obtain ⟨place, file, same⟩ := back path among
        exact ⟨file, same.read⟩
      rcases readTrees_of_each each with ⟨near, trees, read⟩ | ⟨path, first, failed⟩
      · exact .inl ⟨near, passesSucceed_of_readTrees checked found read⟩
      · exact .inr ⟨path, first, passesFail_of_readTrees checked found failed⟩
  · refine .inl ⟨_, .inl rfl, missing, ?_⟩
    simp only [extract, missing, bind, Except.bind]
  · refine .inl ⟨_, .inr rfl, other, ?_⟩
    simp only [extract, other, bind, Except.bind]

/-- The link is read back as the file that it leads to. -/
theorem twoDirectories_read_back :
    twoDirectories.WellFormed ∧
      twoDirectories.ReadBack "/" true "link.py" [] ["a", "x.py"] ⟨[], .blank⟩ ∧
      twoDirectories.PassesSucceed "/" .python true ["a/x.py", "a.py/y.py", "link.py"] := by
  have checked : twoDirectories.checkRoot "/" = .ok () := by rfl
  have walked : twoDirectories.sourceFiles "/" .python true =
      .ok ["a/x.py", "a.py/y.py", "link.py"] := by
    rw [sourceFiles, walk_twoDirectories]
    rfl
  have near : ["a/x.py", "a.py/y.py", "link.py"].find? (isTooFar "/") = none := by decide
  refine ⟨wellFormed_twoDirectories, ?_⟩
  rcases sources_read_back twoDirectories wellFormed_twoDirectories "/" .python true with
    ⟨cause, -, refused, -⟩ | ⟨cause, -, failed, -⟩ |
      ⟨location, files, -, located, found, back, ⟨-, passes⟩ | ⟨path, first, -⟩⟩
  · rw [checked] at refused
    cases refused
  · rw [walked] at failed
    cases failed
  · rw [walked] at found
    cases found
    refine ⟨?_, passes⟩
    have top : twoDirectories.locate "/" = .ok [] := by rfl
    have led : twoDirectories.locate (Path.join "/" "link.py") = .ok ["a", "x.py"] := by rfl
    obtain ⟨place, file, same⟩ := back "link.py" (by simp)
    have seen := same.locate
    rw [led] at seen
    cases seen
    rw [top] at located
    cases located
    cases same.holds
    exact same
  · rw [walked] at found
    cases found
    rw [near] at first
    cases first

def oneSource : FileSystem where
  items := [(["main.py"], .file ⟨[], .blank⟩)]

/-- A root may be just short enough for a source below it to be found, and too long for it to be
read. -/
theorem longRoot_not_read_back :
    oneSource.WellFormed ∧ oneSource.checkRoot (Path.slashed 4090) = .ok () ∧
      oneSource.sourceFiles (Path.slashed 4090) .python false = .ok ["main.py"] ∧
      oneSource.extract (Path.slashed 4090) .python false =
        .error (.unreadable (Path.slashed 4090 ++ "main.py") .nameTooLong) := by
  have short : 4089 + 2 ≤ maxPath := by decide
  have named : Path.IsName "main.py" :=
    ⟨⟨by decide, by decide, by decide, by decide, by decide⟩, by decide⟩
  have listed : oneSource.listing [] = [("main.py", .file ⟨[], .blank⟩)] := by
    simp [listing, oneSource]
  have joined : Path.join (Path.slashed 4090) "main.py" = Path.slashed 4090 ++ "main.py" :=
    Path.join_slashed 4089 (Path.isAbsolute_undivided named.undivided)
  have checked : oneSource.checkRoot (Path.slashed 4090) = .ok () := checkRoot_slashed rfl short
  have wellFormed : oneSource.WellFormed := wellFormed_of_laid (by rfl)
  have found : oneSource.sourceFiles (Path.slashed 4090) .python false = .ok ["main.py"] := by
    rw [wellFormed.sourceFiles_eq, walk_slashed rfl short, listed]
    rfl
  have failed : oneSource.readTrees (Path.slashed 4090) ["main.py"] =
      .error (.unreadable (Path.slashed 4090 ++ "main.py") .nameTooLong) := by
    rw [readTrees_cons, readTree, joined, read, stat, locate_below_slashed named (by decide)]
  exact ⟨wellFormed, checked, found, (passesFail_of_readTrees checked found failed).extract⟩

end CallAtlas.FileSystem
