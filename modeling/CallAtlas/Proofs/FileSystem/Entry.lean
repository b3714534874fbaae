import CallAtlas.Export
import CallAtlas.Proofs.FileSystem.Growth
/-!
A path as an entry of a directory. A path that ends in a name means what stands under that
name in the directory that holds it (`IsEntry`), and this is all that writing, looking and
removing depend on. A path is free if neither a file nor a link stands there; then a file is
written only where nothing stood (`IsFree.fileLocation_cases`). Once directories have been made, the
last of them is there (`isDirectory_of_makeDirectories`), and a name joined to its path means
an entry of it (`isEntry_join`).
-/
namespace CallAtlas.FileSystem

open CallAtlas.Path (Step EndsIn)

variable {fs before after : FileSystem} {last : LastStep} {location holder : Location}
  {path name : String} {item : Item} {file : File}

theorem locate_eq_ok_iff :
    fs.locate path last = .ok location ↔
      pathError? path = none ∧
        Leads fs last maxLinks (fs.startOf path) (Path.steps path) location := by
  rw [locate]
  cases pathError? path with
  | some cause => simp
  | none => simp [followLinks_eq_ok_iff]

theorem holder_eq_ok_iff :
    fs.holder path = .ok location ↔
      pathError? path = none ∧ Leads fs .follow maxLinks (fs.startOf path)
        ((Path.names path).dropLast.map Step.ofName ++ [.slash]) location := by
  rw [FileSystem.holder]
  cases pathError? path with
  | some cause => simp
  | none => simp [followLinks_eq_ok_iff]

/-- A path means the entry `name` of the directory at `holder`, whether or not it is there. -/
structure IsEntry (fs : FileSystem) (path : String) (holder : Location) (name : String) :
    Prop where
  ends : EndsIn path name
  held : fs.holder path = .ok holder
  short : name.utf8ByteSize ≤ maxName

theorem IsEntry.unique {other : Location} (entry : fs.IsEntry path holder name)
    (again : fs.IsEntry path other name) : holder = other := by
  have same := entry.held
  rw [again.held, Except.ok.injEq] at same
  exact same.symm

/-- A path that ends in a name leads to its entry, or through a link that stands there. -/
theorem isEntry_of_locate (ends : EndsIn path name) (success : fs.locate path last = .ok location) :
    ∃ holder, fs.IsEntry path holder name ∧
      (location = holder ++ [name] ∧ (fs.item? location = none → last = .create) ∨
        last ≠ .keep ∧ ∃ target, fs.item? (holder ++ [name]) = some (.link target)) := by
  obtain ⟨writable, leads⟩ := locate_eq_ok_iff.mp success
  rw [ends.steps_eq] at leads
  obtain ⟨holder, held, short, reached⟩ := leads.before_name
  exact ⟨holder, ⟨ends, holder_eq_ok_iff.mpr ⟨writable, held⟩, short⟩, reached⟩

theorem IsEntry.locate_of_leads (entry : fs.IsEntry path holder name)
    (single : ∀ links, Leads fs last links holder [.enter name] (holder ++ [name])) :
    fs.locate path last = .ok (holder ++ [name]) := by
  obtain ⟨writable, held⟩ := holder_eq_ok_iff.mp entry.held
  rw [locate_eq_ok_iff, entry.ends.steps_eq]
  exact ⟨writable, held.enter single⟩

/-- An entry that is no link is what its path leads to. -/
theorem IsEntry.locate_present (entry : fs.IsEntry path holder name)
    (found : fs.item? (holder ++ [name]) = some item) (solid : ∀ target, item ≠ .link target) :
    fs.locate path last = .ok (holder ++ [name]) := by
  refine entry.locate_of_leads fun links => ?_
  cases item with
  | file file => exact .file entry.short found
  | directory => exact .directory (by simp) entry.short found .here
  | link target => exact absurd rfl (solid target)

theorem IsEntry.locate_absent (entry : fs.IsEntry path holder name)
    (absent : fs.item? (holder ++ [name]) = none) :
    fs.locate path .create = .ok (holder ++ [name]) :=
  entry.locate_of_leads fun _ => .missing rfl entry.short absent

/-- What was an entry stays the same entry when things are added. -/
theorem IsEntry.mono (keeps : Keeps before after) (entry : before.IsEntry path holder name) :
    after.IsEntry path holder name := by
  obtain ⟨writable, held⟩ := holder_eq_ok_iff.mp entry.held
  refine ⟨entry.ends, holder_eq_ok_iff.mpr ⟨writable, ?_⟩, entry.short⟩
  rw [keeps.startOf_eq]
  exact held.mono keeps

/-- Files make no entries: they hold nothing. -/
theorem IsEntry.without_files {added : List (Location × Item)} (grows : Grows before after added)
    (files : ∀ entry ∈ added, ∃ file, entry.2 = .file file)
    (entry : after.IsEntry path holder name) : before.IsEntry path holder name := by
  obtain ⟨writable, held⟩ := holder_eq_ok_iff.mp entry.held
  refine ⟨entry.ends, holder_eq_ok_iff.mpr ⟨writable, ?_⟩, entry.short⟩
  rw [grows.keeps.startOf_eq] at held
  refine held.without_files (fun location item found => ?_) (by simp)
  exact (grows.item_cases found).imp_right fun ⟨_, among⟩ => files _ among

/-- What stands at a path itself: a link is not followed. -/
def lstat (fs : FileSystem) (path : String) : Except OsError Item :=
  match fs.locate path .keep with
  | .error cause => .error cause
  | .ok location =>
    match fs.item? location with
    | some item => .ok item
    | none => .error .notFound

/-- Neither a regular file nor a symbolic link stands at a path. A directory may. -/
def IsFree (fs : FileSystem) (path : String) : Prop :=
  (∀ file, fs.lstat path ≠ .ok (.file file)) ∧ ∀ target, fs.lstat path ≠ .ok (.link target)

theorem IsEntry.lstat_eq (entry : fs.IsEntry path holder name)
    (found : fs.item? (holder ++ [name]) = some item) : fs.lstat path = .ok item := by
  have located : fs.locate path .keep = .ok (holder ++ [name]) := by
    refine entry.locate_of_leads fun links => ?_
    cases item with
    | file file => exact .file entry.short found
    | directory => exact .directory (by simp) entry.short found .here
    | link target => exact .kept rfl entry.short found
  simp [lstat, located, found]

theorem isEntry_of_lstat (ends : EndsIn path name) (success : fs.lstat path = .ok item) :
    ∃ holder, fs.IsEntry path holder name ∧ fs.item? (holder ++ [name]) = some item := by
  rw [lstat] at success
  split at success
  · cases success
  next location located =>
    obtain ⟨holder, entry, ⟨rfl, -⟩ | ⟨keeping, -⟩⟩ := isEntry_of_locate ends located
    · refine ⟨holder, entry, ?_⟩
      split at success
      next found =>
        cases success
        exact found
      · cases success
    · exact absurd rfl keeping

/-- A path is free if its entry, where it has one, is missing or a directory. -/
theorem isFree_iff (ends : EndsIn path name) :
    fs.IsFree path ↔ ∀ holder, fs.IsEntry path holder name →
      fs.item? (holder ++ [name]) = none ∨ fs.item? (holder ++ [name]) = some .directory := by
  constructor
  · intro free holder entry
    cases found : fs.item? (holder ++ [name]) with
    | none => exact .inl rfl
    | some item =>
      cases item with
      | file file => exact absurd (entry.lstat_eq found) (free.1 file)
      | directory => exact .inr rfl
      | link target => exact absurd (entry.lstat_eq found) (free.2 target)
  · intro empty
    constructor <;> intro _ stands <;>
      obtain ⟨holder, entry, found⟩ := isEntry_of_lstat ends stands <;>
      rcases empty holder entry with absent | squat <;> simp_all

theorem IsEntry.fileLocation_eq (entry : fs.IsEntry path holder name)
    (absent : fs.item? (holder ++ [name]) = none) :
    fs.fileLocation path = .ok (holder ++ [name]) := by
  rw [fileLocation, entry.locate_absent absent]
  simp [absent]

/-- A file goes to a free path only where nothing stands. -/
theorem IsFree.fileLocation_cases (free : fs.IsFree path) (ends : EndsIn path name)
    (chosen : fs.fileLocation path = .ok location) :
    ∃ holder, fs.IsEntry path holder name ∧ fs.item? (holder ++ [name]) = none ∧
      location = holder ++ [name] := by
  rw [fileLocation] at chosen
  split at chosen
  · cases chosen
  next reached located =>
    obtain ⟨holder, entry, -⟩ := isEntry_of_locate ends located
    refine ⟨holder, entry, ?_⟩
    rcases (isFree_iff ends).mp free holder entry with absent | squat
    · rw [entry.locate_absent absent, Except.ok.injEq] at located
      subst located
      simp only [absent, Except.ok.injEq] at chosen
      exact ⟨absent, chosen.symm⟩
    · rw [entry.locate_present squat (by simp), Except.ok.injEq] at located
      subst located
      simp [squat] at chosen

theorem isFile_iff (ends : EndsIn path name)
    (solid : ∀ holder, fs.IsEntry path holder name → ∀ target,
      fs.item? (holder ++ [name]) ≠ some (.link target)) :
    fs.isFile path = true ↔ ∃ holder, fs.IsEntry path holder name ∧
      ∃ file, fs.item? (holder ++ [name]) = some (.file file) := by
  constructor
  · intro success
    rw [isFile, stat] at success
    cases located : fs.locate path with
    | error cause => simp [located] at success
    | ok location =>
      obtain ⟨holder, entry, ⟨rfl, -⟩ | ⟨-, target, found⟩⟩ := isEntry_of_locate ends located
      · rw [located] at success
        refine ⟨holder, entry, ?_⟩
        cases found : fs.item? (holder ++ [name]) with
        | none => simp [found] at success
        | some item => cases item <;> simp_all
      · exact absurd found (solid holder entry target)
  · rintro ⟨holder, entry, file, found⟩
    simp [isFile, stat, entry.locate_present found (by simp), found]

/-- A path whose entry is no file is left alone. -/
theorem removeFile_eq_self (ends : EndsIn path name) (free : fs.IsFree path) :
    fs.removeFile path = fs := by
  have empty := (isFree_iff ends).mp free
  have nothing : fs.isFile path = false := by
    rw [Bool.eq_false_iff, ne_eq, isFile_iff ends]
    · rintro ⟨holder, entry, file, found⟩
      rcases empty holder entry with absent | squat <;> simp_all
    · intro holder entry target found
      rcases empty holder entry with absent | squat <;> simp_all
  rw [removeFile, nothing]
  rfl

/-- A file is taken away from where its path says. -/
theorem IsEntry.removeFile_eq (entry : fs.IsEntry path holder name)
    (found : fs.item? (holder ++ [name]) = some (.file file)) :
    fs.removeFile path = fs.erase (holder ++ [name]) := by
  have stands : fs.isFile path = true := by
    simp [isFile, stat, entry.locate_present found (by simp), found]
  have removed : fs.remove path = .ok (fs.erase (holder ++ [name])) := by
    simp [remove, entry.locate_present found (by simp), found]
  rw [removeFile, stands, removed]
  rfl

/-- A directory that a path leads to is also reached with a slash after the path. -/
theorem leads_of_directory (located : fs.locate path = .ok location)
    (directory : fs.item? location = some .directory) :
    Leads fs .follow maxLinks (fs.startOf path)
      ((Path.names path).map Step.ofName ++ [.slash]) location := by
  obtain ⟨-, leads⟩ := locate_eq_ok_iff.mp located
  rw [Path.steps] at leads
  cases asks : Path.asksDirectory path with
  | true => simpa [asks] using leads
  | false =>
    rw [asks] at leads
    simpa using leads.slashed directory

/-- A name that is joined to the path of a directory means an entry of that directory. -/
theorem isEntry_join {above : String} (named : Path.IsName name)
    (located : fs.locate above = .ok location) (directory : fs.item? location = some .directory)
    (writable : pathError? (Path.join above name) = none) :
    fs.IsEntry (Path.join above name) location name := by
  have filled : above ≠ "" := by
    rintro rfl
    cases located
  refine ⟨named.endsIn_join above, holder_eq_ok_iff.mpr ⟨writable, ?_⟩, named.short⟩
  rw [named.names_join, List.dropLast_concat, FileSystem.startOf,
    Path.isAbsolute_join (Path.isAbsolute_undivided named.undivided) filled]
  exact leads_of_directory located directory

theorem isDirectory_iff :
    fs.isDirectory path = true ↔
      ∃ location, fs.locate path = .ok location ∧ fs.item? location = some .directory := by
  rw [isDirectory, stat]
  cases located : fs.locate path with
  | error cause => simp
  | ok location =>
    cases found : fs.item? location with
    | none => simp [found]
    | some item => cases item <;> simp [found]

/-- A directory that was made is there. -/
theorem isDirectory_of_makeDirectory {faults : DirectoryFaults}
    (success : fs.makeDirectory path faults = .ok after) :
    after.isDirectory path = true := by
  obtain ⟨location, chosen, rfl⟩ := makeDirectory_cases success
  obtain ⟨holder, name, held, last, not_here, not_up, short, rfl, absent⟩ :=
    newLocation_cases chosen
  have grows := grows_put absent .directory
  have found := grows.item_added (List.mem_singleton_self _)
  obtain ⟨writable, leads⟩ := holder_eq_ok_iff.mp held
  have single (links : Nat) : Leads (fs.put (holder ++ [name]) .directory) .follow links holder
      [.enter name] (holder ++ [name]) := .directory (by simp) short found .here
  have entered := (leads.mono grows.keeps).enter single
  have looked_up : Step.ofName name = .enter name := by
    rw [Step.ofName, if_neg not_here, if_neg not_up]
  obtain ⟨early, listed⟩ := List.getLast?_eq_some_iff.mp last
  rw [listed, List.dropLast_concat] at entered
  refine isDirectory_iff.mpr ⟨_, locate_eq_ok_iff.mpr ⟨writable, ?_⟩, found⟩
  rw [Path.steps, listed, List.map_append, List.map_singleton, looked_up, grows.keeps.startOf_eq]
  cases Path.asksDirectory path with
  | true => exact entered.slashed found
  | false => simpa using entered

/-- Where making directories succeeds, the last of them is there. -/
theorem isDirectory_of_makeDirectories {faults : DirectoryFaults}
    (success : (fs.makeDirectories path faults).2 = .ok ()) :
    path = "" ∨ (fs.makeDirectories path faults).1.isDirectory path = true := by
  rw [makeDirectories] at success ⊢
  split at success
  next empty => exact .inl empty
  next filled =>
    refine .inr ?_
    rw [if_neg filled]
    -- Either it was made, first or last, or it was there already.
    rw [makeDirectoriesUp] at success ⊢
    split at success
    next made => exact isDirectory_of_makeDirectory made
    · split at success
      · cases success
      next reached _ =>
        split at success
        next made => exact isDirectory_of_makeDirectory made
        · split at success
          next there => rwa [if_pos there]
          · cases success
    · split at success
      next there => rwa [if_pos there]
      · cases success

end CallAtlas.FileSystem
