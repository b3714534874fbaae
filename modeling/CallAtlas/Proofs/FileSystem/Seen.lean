import CallAtlas.Proofs.FileSystem.Walk
/-!
What a walk sees. An entry of a directory counts as itself, or, if it is a link and links are
followed, as what it leads to. Going on like that from name to name, every file that a walk finds
is seen at one place (`WellFormed.sees_of_mem_walk`), and the path with all these names leads to
that very place, unless it is too long to be looked up (`WellFormed.locate_of_sees`). How many links
are on the way makes no difference, because a walk looks up each link by the whole path as well.
Because every name that is met can stand in a directory, the paths of the sources are these names
again, for every spelling of the root (`WellFormed.sourceFiles_eq`).
-/
namespace CallAtlas.FileSystem

/-- The place that an entry of a directory counts as in a walk. -/
inductive CountsAs (fs : FileSystem) (following : Bool) (location : Location)
    (path name : String) : Location → Prop where
  | itself {item : Item} (found : fs.item? (location ++ [name]) = some item)
      (solid : ∀ target, item ≠ .link target) :
      CountsAs fs following location path name (location ++ [name])
  | target {destination : String} {place : Location} (on : following = true)
      (found : fs.item? (location ++ [name]) = some (.link destination))
      (reached : fs.locate (Path.join path name) = .ok place) :
      CountsAs fs following location path name place

/-- From a directory and the path that led there, names lead on to the place of a file. -/
inductive Sees (fs : FileSystem) (following : Bool) :
    Location → String → List String → Location → Prop where
  | file {location place : Location} {path name : String} {file : File}
      (counts : fs.CountsAs following location path name place)
      (found : fs.item? place = some (.file file)) :
      Sees fs following location path [name] place
  | directory {location target place : Location} {path name : String} {rest : List String}
      (counts : fs.CountsAs following location path name target)
      (found : fs.item? target = some .directory)
      (sees : Sees fs following target (Path.join path name) rest place) :
      Sees fs following location path (name :: rest) place

variable {fs : FileSystem} {following : Bool} {location place other : Location}
  {path name : String} {names : List String} {item : Item} {inside : List Opened}

theorem CountsAs.unique (counts : fs.CountsAs following location path name place)
    (also : fs.CountsAs following location path name other) : place = other := by
  cases counts with
  | itself found solid =>
    cases also with
    | itself => rfl
    | target _ link _ =>
      rw [found, Option.some.injEq] at link
      exact absurd link (solid _)
  | target _ link reached =>
    cases also with
    | itself found solid =>
      rw [link, Option.some.injEq] at found
      exact absurd found.symm (solid _)
    | target _ _ again =>
      rw [reached] at again
      exact Except.ok.inj again

theorem WellFormed.isName_of_countsAs (wellFormed : fs.WellFormed)
    (counts : fs.CountsAs following location path name place) : Path.IsName name := by
  cases counts with
  | itself found _ => exact (wellFormed.held_of_item? found).1
  | target _ found _ => exact (wellFormed.held_of_item? found).1

theorem WellFormed.locate_of_countsAs (wellFormed : fs.WellFormed)
    (located : fs.locate path = .ok location)
    (counts : fs.CountsAs following location path name place)
    (short : (Path.join path name).utf8ByteSize ≤ maxPath) :
    fs.locate (Path.join path name) = .ok place := by
  cases counts with
  | itself found solid => exact wellFormed.locate_join_of_short located found solid short
  | target _ _ reached => exact reached

theorem Sees.ne_nil (sees : fs.Sees following location path names place) : names ≠ [] := by
  cases sees <;> simp

/-- Names lead to one file at most. -/
theorem Sees.unique (sees : fs.Sees following location path names place)
    (also : fs.Sees following location path names other) : place = other := by
  induction sees with
  | file counts found =>
    cases also with
    | file again _ => exact counts.unique again
    | directory _ _ sees => exact absurd rfl sees.ne_nil
  | directory counts _ sees ih =>
    cases also with
    | file => exact absurd rfl sees.ne_nil
    | directory again _ also =>
      obtain rfl := counts.unique again
      exact ih also

theorem Sees.exists_file (sees : fs.Sees following location path names place) :
    ∃ file, fs.item? place = some (.file file) := by
  induction sees with
  | file _ found => exact ⟨_, found⟩
  | directory _ _ _ ih => exact ih

theorem WellFormed.isName_of_sees (wellFormed : fs.WellFormed)
    (sees : fs.Sees following location path names place) : ∀ name ∈ names, Path.IsName name := by
  induction sees with
  | file counts _ => simpa using wellFormed.isName_of_countsAs counts
  | directory counts _ _ ih =>
    exact List.forall_mem_cons.mpr ⟨wellFormed.isName_of_countsAs counts, ih⟩

/-- The path with all the names leads to the file that is seen, if it can be looked up at all. -/
theorem WellFormed.locate_of_sees (wellFormed : fs.WellFormed)
    (sees : fs.Sees following location path names place) (located : fs.locate path = .ok location)
    (short : (names.foldl Path.join path).utf8ByteSize ≤ maxPath) :
    fs.locate (names.foldl Path.join path) = .ok place := by
  induction sees with
  | file counts _ => exact wellFormed.locate_of_countsAs located counts short
  | @directory _ _ _ path name rest counts _ sees ih =>
    -- The paths on the way are no longer than the whole, so none of them is too long.
    have grows := Path.utf8ByteSize_le_foldl_join (wellFormed.isName_of_sees sees)
      (Path.join path name)
    exact ih (wellFormed.locate_of_countsAs located counts (Nat.le_trans grows short)) short

/-- A file that a walk finds in an entry is what the entry counts as, or it is found in a directory
there. -/
theorem ok_of_mem_walkEntry (found : fs.item? (location ++ [name]) = some item)
    (among : .ok names ∈ fs.walkEntry following inside location path (name, item)) :
    ∃ target, fs.CountsAs following location path name target ∧
      ((∃ file, fs.item? target = some (.file file)) ∧ names = [name] ∨
        fs.item? target = some .directory ∧
          (target = location ++ [name] ∧ item = .directory ∨
            inside.find? (·.location == target) = none) ∧
          ∃ rest, names = name :: rest ∧
            .ok rest ∈ fs.walkDirectory following inside target (Path.join path name)) := by
  have under {target : Location}
      (within : .ok names ∈ Findings.under (fs.walkDirectory following inside target
        (Path.join path name)) name) :
      ∃ rest, names = name :: rest ∧
        .ok rest ∈ fs.walkDirectory following inside target (Path.join path name) := by
    obtain ⟨finding, met, same⟩ := List.mem_map.mp within
    cases finding with
    | error cause => cases same
    | ok rest =>
      cases same
      exact ⟨rest, rfl, met⟩
  cases item with
  | file file =>
    cases List.mem_singleton.mp among
    exact ⟨_, .itself found (by simp), .inl ⟨⟨file, found⟩, rfl⟩⟩
  | directory =>
    exact ⟨_, .itself found (by simp), .inr ⟨found, .inl ⟨rfl, rfl⟩, under among⟩⟩
  | link destination =>
    simp only [walkEntry] at among
    split at among
    next on =>
      split at among
      · simp at among
      next target reached =>
        split at among
        next file stands =>
          cases List.mem_singleton.mp among
          exact ⟨target, .target on found reached, .inl ⟨⟨file, stands⟩, rfl⟩⟩
        next stands =>
          split at among
          · simp at among
          next fresh =>
            exact ⟨target, .target on found reached, .inr ⟨stands, .inr fresh, under among⟩⟩
        · simp at among
    · simp at among

/-- Every file that a walk finds is seen at some place. -/
theorem WellFormed.sees_of_mem_walk (wellFormed : fs.WellFormed)
    (among : .ok names ∈ fs.walkDirectory following inside location path) :
    ∃ place, fs.Sees following location path names place := by
  induction inside, location, path using walkDirectory.induct fs generalizing names with
  | case1 inside location path cause failed =>
    simp [walkDirectory_of_error failed] at among
  | case2 inside location path _ reached directories links =>
    rw [walkDirectory_of_ok reached] at among
    obtain ⟨⟨name, item⟩, listed, among⟩ := List.mem_flatMap.mp among
    have found := wellFormed.mem_listing_iff.mp listed
    obtain ⟨target, counts, ⟨⟨file, stands⟩, rfl⟩ | ⟨stands, way, rest, rfl, met⟩⟩ :=
      ok_of_mem_walkEntry found among
    · exact ⟨target, .file counts stands⟩
    · have onward : ∃ place, fs.Sees following target (Path.join path name) rest place := by
        rcases way with ⟨rfl, rfl⟩ | fresh
        · exact directories name listed met
        · exact links name target stands fresh met
      obtain ⟨place, sees⟩ := onward
      exact ⟨place, .directory counts stands sees⟩

theorem WellFormed.isName_of_mem_walk (wellFormed : fs.WellFormed)
    (among : .ok names ∈ fs.walkDirectory following inside location path) :
    ∀ name ∈ names, Path.IsName name := by
  obtain ⟨place, sees⟩ := wellFormed.sees_of_mem_walk among
  exact wellFormed.isName_of_sees sees

/-- The names that lead to a file end in that of a source. -/
def endsInSource (language : Language) (names : List String) : Bool :=
  match names.getLast? with
  | some name => language.matchesName name
  | none => false

/-- A source below a root is told by its last name, and its path is all of its names. -/
theorem sourcePath?_eq (root : String) (language : Language) {names : List String}
    (named : ∀ name ∈ names, Path.IsName name) (filled : names ≠ []) :
    sourcePath? root language names =
      if endsInSource language names then some (Text.join "/" names) else none := by
  have matched : language.matchesPath (names.foldl Path.join root) =
      endsInSource language names := by
    rw [Language.matchesPath, Path.fileName?_foldl_join named filled]
    rfl
  rw [sourcePath?, matched, Path.relative?_foldl_join named filled]

theorem filterMap_sourcePath? (root : String) (language : Language) {found : List (List String)}
    (each : ∀ names ∈ found, names ≠ [] ∧ ∀ name ∈ names, Path.IsName name) :
    found.filterMap (sourcePath? root language) =
      (found.filter (endsInSource language)).map (Text.join "/") := by
  induction found with
  | nil => rfl
  | cons names rest ih =>
    obtain ⟨⟨filled, named⟩, others⟩ := List.forall_mem_cons.mp each
    rw [List.filterMap_cons, sourcePath?_eq root language named filled, ih others]
    cases ends : endsInSource language names <;> simp [ends]

/-- The files of a walk are reached by one name or more. -/
theorem WellFormed.each_of_walk (wellFormed : fs.WellFormed) {root : String}
    {found : List (List String)} (files : (fs.walk following root).files = .ok found) :
    ∀ names ∈ found, names ≠ [] ∧ ∀ name ∈ names, Path.IsName name := by
  intro names among
  obtain ⟨location, located⟩ := exists_locate_of_files files
  have met := mem_walkDirectory_of_files located files among
  obtain ⟨place, sees⟩ := wellFormed.sees_of_mem_walk met
  exact ⟨sees.ne_nil, wellFormed.isName_of_sees sees⟩

/-- However the root is spelled, the sources are written as the names that lead to them from it. -/
theorem WellFormed.sourceFiles_eq (wellFormed : fs.WellFormed) (root : String)
    (language : Language) (following : Bool) :
    fs.sourceFiles root language following = (fs.walk following root).files.map fun found =>
      (found.filter (endsInSource language)).map (Text.join "/") := by
  rw [sourceFiles]
  cases files : (fs.walk following root).files with
  | error cause => rfl
  | ok found =>
    rw [Except.map, Except.map, filterMap_sourcePath? root language (wellFormed.each_of_walk files)]

end CallAtlas.FileSystem
