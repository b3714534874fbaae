import CallAtlas.Proofs.Extraction.Closure
import CallAtlas.Proofs.Extraction.Selection
/-!
What following links adds. A walk that follows links and meets no error comes upon all that it comes
upon without following them, in the same order, and in between only upon files that lie beyond a
link (`WellFormed.walkDirectory_beyond`). So the sources that are found without following links are
among those that are found with them.
-/
namespace CallAtlas.FileSystem

variable {fs : FileSystem} {location : Location} {path name : String} {item : Item}
  {names rest : List String} {following : Bool} {inside around : List Opened}

/-- Names lead through a link that stands below a location. -/
def PassesLink (fs : FileSystem) (location : Location) (names : List String) : Prop :=
  ∃ above target, above ≠ [] ∧ above <+: names ∧
    fs.item? (location ++ above) = some (.link target)

theorem PassesLink.under (passes : fs.PassesLink (location ++ [name]) rest) :
    fs.PassesLink location (name :: rest) := by
  obtain ⟨above, target, -, first, found⟩ := passes
  refine ⟨name :: above, target, by simp, List.cons_prefix_cons.mpr ⟨rfl, first⟩, ?_⟩
  rwa [List.append_assoc, List.singleton_append] at found

/-- Nothing that stands below a location is beyond a link. -/
theorem WellFormed.not_passesLink (wellFormed : fs.WellFormed) {file : File}
    (found : fs.item? (location ++ names) = some (.file file)) :
    ¬ fs.PassesLink location names := by
  rintro ⟨above, target, -, ⟨more, rfl⟩, link⟩
  rcases eq_or_ne more [] with rfl | below
  · rw [List.append_nil, link] at found
    cases found
  · rw [← List.append_assoc] at found
    rw [wellFormed.directory_of_append found below] at link
    cases link

def IsBeyond (fs : FileSystem) (location : Location) (finding : Except WalkError (List String)) :
    Prop :=
  ∃ names, finding = .ok names ∧ (∀ name ∈ names, Path.IsName name) ∧
    fs.PassesLink location names

theorem IsBeyond.under {finding : Except WalkError (List String)} (named : Path.IsName name)
    (beyond : fs.IsBeyond (location ++ [name]) finding) :
    fs.IsBeyond location (finding.map (name :: ·)) := by
  obtain ⟨names, rfl, all, passes⟩ := beyond
  exact ⟨name :: names, rfl, List.forall_mem_cons.mpr ⟨named, all⟩, passes.under⟩

/-- Following links, a walk that meets no error comes upon the same and in between upon files that
lie beyond a link. -/
theorem WellFormed.walkDirectory_beyond (wellFormed : fs.WellFormed)
    (located : fs.locate path = .ok location)
    (clean : (fs.walkDirectory true inside location path).Clean) :
    Padded (fs.IsBeyond location) (fs.walkDirectory false around location path)
      (fs.walkDirectory true inside location path) := by
  -- By the walk that follows links. The other one goes with it through the directories, and stops
  -- at each link.
  induction inside, location, path using walkDirectory.induct fs generalizing around with
  | case1 inside location path cause failed =>
    rw [failed] at located
    cases located
  | case2 inside location path _ _ directories _ =>
    have named_walk {names : List String}
        (among : .ok names ∈ fs.walkDirectory true inside location path) :
        ∀ name ∈ names, Path.IsName name := wellFormed.isName_of_mem_walk among
    rw [walkDirectory_of_ok located] at clean named_walk ⊢
    rw [walkDirectory_of_ok located]
    have entries : Padded (fun _ => False) (fs.listing location) (fs.listing location) := .refl _
    refine entries.flatMap ?_ (by simp)
    rintro ⟨name, item⟩ listed
    have found := wellFormed.mem_listing_iff.mp listed
    have clean : (fs.walkEntry true (⟨location, path⟩ :: inside) location path (name, item)).Clean :=
      fun cause among => clean cause (List.mem_flatMap.mpr ⟨_, listed, among⟩)
    cases item with
    | file file => exact .refl _
    | directory =>
      simp only [walkEntry] at clean ⊢
      rcases wellFormed.locate_join located found with reached | ⟨refused, -⟩
      · refine (directories name listed reached clean.of_under).map fun finding beyond => ?_
        exact beyond.under (wellFormed.held_of_item? found).1
      · have clean := clean.of_under
        rw [walkDirectory_of_error refused] at clean
        exact absurd List.mem_cons_self (clean _)
    | link target =>
      refine Padded.of_extra fun finding among => ?_
      cases finding with
      | error cause => exact absurd among (clean cause)
      | ok names =>
        have starts : [name] <+: names := by
          obtain ⟨_, -, ⟨-, rfl⟩ | ⟨-, -, rest, rfl, -⟩⟩ := ok_of_mem_walkEntry found among <;> simp
        exact ⟨names, rfl, named_walk (List.mem_flatMap.mpr ⟨_, listed, among⟩),
          [name], target, by simp, starts, found⟩

/-- Without following links, a walk finds only what stands below where it starts. -/
theorem WellFormed.file_of_mem_walk (wellFormed : fs.WellFormed)
    (located : fs.locate path = .ok location)
    (among : .ok names ∈ fs.walkDirectory false inside location path) :
    ∃ file, fs.item? (location ++ names) = some (.file file) := by
  obtain ⟨stops, surveys⟩ : ∃ stops,
      fs.Surveys location path stops (fs.walkDirectory false inside location path) :=
    wellFormed.exists_surveys located
  rw [surveys.findings] at among
  obtain ⟨stop, listed, finding⟩ := List.mem_map.mp among
  rcases ((surveys.complete stop).mp listed).file_or_tooLong with ⟨file, found⟩ | ⟨found, -⟩
  · rw [stopFinding, found] at finding
    cases finding
    exact ⟨file, found⟩
  · rw [stopFinding, found] at finding
    cases finding

/-- Where a walk that follows links finds files, one that does not finds those among them that
stand below where it starts, in the same order. -/
theorem WellFormed.exists_files_of_following (wellFormed : fs.WellFormed)
    (located : fs.locate path = .ok location) {found : List (List String)}
    (files : (fs.walk true path).files = .ok found) :
    ∃ sparse, (fs.walk false path).files = .ok sparse ∧
      Padded (fun names => fs.IsBeyond location (.ok names)) sparse found ∧
      ∀ names ∈ sparse, ∃ file, fs.item? (location ++ names) = some (.file file) := by
  have clean := Findings.clean_of_files files
  have walked := Findings.eq_map_of_files files
  rw [walk, located] at clean walked
  rw [walk, located]
  have padded : Padded (fs.IsBeyond location) (fs.walkDirectory false [] location path)
      (found.map .ok) := walked ▸ wellFormed.walkDirectory_beyond located clean
  obtain ⟨sparse, plain, within⟩ := padded.exists_map
  refine ⟨sparse, ?_, within, fun names among => ?_⟩
  · dsimp only
    rw [plain, Findings.files_map_ok]
  · have met : .ok names ∈ fs.walkDirectory false [] location path :=
      plain ▸ List.mem_map_of_mem among
    exact wellFormed.file_of_mem_walk located met

/-- If the sources are found with following links, they are found without it as well: the same in
the same order, less those that lie beyond a link. -/
theorem sourceFiles_following (fs : FileSystem) (wellFormed : fs.WellFormed) (root : String)
    (language : Language) (on : List String)
    (success : fs.sourceFiles root language true = .ok on) :
    ∃ location off, fs.locate root = .ok location ∧
      fs.sourceFiles root language false = .ok off ∧ off.Sublist on ∧
      Padded (fun path => fs.PassesLink location (Path.names path)) off on ∧
      (∀ path ∈ off, ¬ fs.PassesLink location (Path.names path)) ∧
      ((∀ names target, names ≠ [] → fs.item? (location ++ names) ≠ some (.link target)) →
        off = on) := by
  rw [wellFormed.sourceFiles_eq] at success
  obtain ⟨found, files, rfl⟩ := map_eq_ok success
  obtain ⟨location, located⟩ := exists_locate_of_files files
  obtain ⟨sparse, plain, within, below⟩ := wellFormed.exists_files_of_following located files
  have paths : Padded (fun path => fs.PassesLink location (Path.names path))
      ((sparse.filter (endsInSource language)).map (Text.join "/"))
      ((found.filter (endsInSource language)).map (Text.join "/")) := by
    refine (within.filter _).map ?_
    rintro names ⟨_, ⟨⟩, named, passes⟩
    rwa [Path.names_joined named]
  refine ⟨location, _, located, ?_, paths.sublist, paths, ?_, ?_⟩
  · rw [wellFormed.sourceFiles_eq, plain]
    rfl
  · intro path among
    obtain ⟨names, listed, rfl⟩ := List.mem_map.mp among
    obtain ⟨file, stands⟩ := below names (List.mem_of_mem_filter listed)
    rw [Path.names_joined (wellFormed.isName_of_append stands)]
    exact wellFormed.not_passesLink stands
  · intro linkless
    apply paths.eq_of_none
    intro path passes
    obtain ⟨above, target, below, -, link⟩ := passes
    exact linkless above target below link

/-- The link to a source is one more source, after those that are found without it. -/
theorem twoDirectories_following :
    twoDirectories.WellFormed ∧
      twoDirectories.sourceFiles "/" .python true = .ok ["a/x.py", "a.py/y.py", "link.py"] ∧
      ∃ off, twoDirectories.sourceFiles "/" .python false = .ok off ∧
        off.Sublist ["a/x.py", "a.py/y.py", "link.py"] := by
  have files : twoDirectories.sourceFiles "/" .python true =
      .ok ["a/x.py", "a.py/y.py", "link.py"] := by
    rw [sourceFiles, walk_twoDirectories]
    rfl
  obtain ⟨_, off, -, found, fewer, -⟩ :=
    sourceFiles_following twoDirectories wellFormed_twoDirectories "/" .python _ files
  exact ⟨wellFormed_twoDirectories, files, off, found, fewer⟩

end CallAtlas.FileSystem
