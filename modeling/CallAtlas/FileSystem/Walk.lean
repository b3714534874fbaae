import CallAtlas.FileSystem.Lookup
/-!
Walking a directory. Entries come in order of their names, and a directory is gone
through where it stands among them. A symbolic link is passed over unless links are
followed; then it counts as what it leads to, and a link to a directory that the walk
is already inside of is an error. Directories reached without a link are not checked
against that, so the same directory may lie twice on the way; the walk still ends,
because each link it follows leads to a directory that was not on the way yet.

A directory that a path leads to can always be listed, and names are texts.
-/
namespace CallAtlas

inductive WalkError where
  /-- A path could not be looked at. -/
  | io (path : String) (cause : OsError)
  /-- A link leads back to a directory that the walk is inside of. -/
  | loop (link ancestor : String)
  deriving DecidableEq, Repr

def WalkError.message : WalkError → String
  | io path cause => "IO error for operation on " ++ path ++ ": " ++ cause.message
  | loop link ancestor => "File system loop found: " ++ link ++ " points to an ancestor " ++ ancestor

namespace FileSystem

/-- A directory that the walk is inside of: where it is, and by which path it was reached. -/
structure Opened where
  location : Location
  path : String
  deriving DecidableEq, Repr

def unopened (fs : FileSystem) (inside : List Opened) : List Location :=
  fs.directories.filter fun location => !inside.any (·.location == location)

def depth (fs : FileSystem) : Nat :=
  (fs.items.map (·.1.length)).foldr max 0

theorem length_le_depth {fs : FileSystem} {location : Location} {item : Item}
    (listed : (location, item) ∈ fs.items) : location.length ≤ fs.depth := by
  unfold depth
  generalize fs.items = items at listed
  induction items with
  | nil => simp at listed
  | cons head rest ih =>
    simp only [List.map_cons, List.foldr_cons]
    rcases List.mem_cons.mp listed with rfl | listed
    · exact Nat.le_max_left ..
    · exact Nat.le_trans (ih listed) (Nat.le_max_right ..)

theorem length_lt_depth_of_mem_listing {fs : FileSystem} {location : Location}
    {entry : String × Item} (listed : entry ∈ fs.listing location) :
    location.length < fs.depth := by
  simp only [listing, List.mem_mergeSort, List.mem_filterMap] at listed
  obtain ⟨⟨place, item⟩, stored, found⟩ := listed
  split at found
  · next same =>
    have long := length_le_depth stored
    obtain ⟨name, last, -⟩ := Option.map_eq_some_iff.mp found
    have filled : place ≠ [] := by
      rintro rfl
      simp at last
    have positive := List.length_pos_iff.mpr filled
    simp only at same long
    rw [← same, List.length_dropLast]
    omega
  · simp at found

theorem mem_of_lookup {items : List (Location × Item)} {location : Location} {item : Item}
    (found : items.lookup location = some item) : (location, item) ∈ items := by
  induction items with
  | nil => simp at found
  | cons head rest ih =>
    obtain ⟨place, stored⟩ := head
    rw [List.lookup_cons] at found
    by_cases same : location = place
    · subst same
      simp only [beq_self_eq_true, Option.some.injEq] at found
      simp [found]
    · rw [beq_eq_false_iff_ne.mpr same] at found
      exact List.mem_cons_of_mem _ (ih found)

theorem mem_directories {fs : FileSystem} {location : Location}
    (found : fs.item? location = some .directory) : location ∈ fs.directories := by
  unfold item? at found
  unfold directories
  split at found
  · next top => simp [top]
  · refine List.mem_cons_of_mem _ (List.mem_filterMap.mpr ⟨(location, .directory), ?_, rfl⟩)
    exact mem_of_lookup found

/-- Entering a directory leaves no more directories unopened than before. -/
theorem length_unopened_le (fs : FileSystem) (inside : List Opened) (opened : Opened) :
    (fs.unopened (opened :: inside)).length ≤ (fs.unopened inside).length := by
  simp only [unopened, List.any_cons, Bool.not_or, ← List.filter_filter]
  exact List.length_filter_le ..

/-- Entering a directory that the walk is not inside of leaves one fewer. -/
theorem length_unopened_lt {fs : FileSystem} {inside : List Opened} {opened : Opened}
    (found : fs.item? opened.location = some .directory)
    (fresh : inside.find? (·.location == opened.location) = none) :
    (fs.unopened (opened :: inside)).length < (fs.unopened inside).length := by
  simp only [unopened, List.any_cons, Bool.not_or, ← List.filter_filter]
  refine List.length_filter_lt_length_iff_exists.mpr ⟨opened.location, ?_, by simp⟩
  refine List.mem_filter.mpr ⟨mem_directories found, ?_⟩
  simpa using fresh

/-- What the walk of a directory comes upon: the names that lead to each file, or an error. -/
abbrev Findings := List (Except WalkError (List String))

/-- Findings in the entry `name` of a directory, as seen from the directory. -/
def Findings.under (findings : Findings) (name : String) : Findings :=
  findings.map (·.map (name :: ·))

/-- Walks the directory at `location`, reached by `path` from inside of others. -/
def walkDirectory (fs : FileSystem) (following : Bool) (inside : List Opened)
    (location : Location) (path : String) : Findings :=
  match fs.locate path with
  | .error cause => [.error (.io path cause)]
  | .ok _ =>
    (fs.listing location).attach.flatMap fun ⟨(name, item), _⟩ =>
      match item with
      | .file _ => [.ok [name]]
      | .directory =>
        Findings.under (fs.walkDirectory following (⟨location, path⟩ :: inside)
          (location ++ [name]) (Path.join path name)) name
      | .link _ =>
        if following then
          match fs.locate (Path.join path name) with
          | .error cause => [.error (.io (Path.join path name) cause)]
          | .ok target =>
            match _found : fs.item? target with
            | some (.file _) => [.ok [name]]
            | some .directory =>
              match _fresh : (⟨location, path⟩ :: inside).find? (·.location == target) with
              | some ancestor => [.error (.loop (Path.join path name) ancestor.path)]
              | none =>
                Findings.under (fs.walkDirectory following (⟨location, path⟩ :: inside)
                  target (Path.join path name)) name
            | _ => []
        else []
termination_by ((fs.unopened (⟨location, path⟩ :: inside)).length, fs.depth - location.length)
decreasing_by
  · next listed =>
    have deep := length_lt_depth_of_mem_listing listed
    have fewer := length_unopened_le fs (⟨location, path⟩ :: inside)
      ⟨location ++ [name], Path.join path name⟩
    simp only [List.length_append, List.length_singleton]
    rcases Nat.lt_or_eq_of_le fewer with fewer | same
    · exact Prod.Lex.left _ _ fewer
    · rw [same]
      exact Prod.Lex.right _ (by omega)
  · exact Prod.Lex.left _ _ (length_unopened_lt _found _fresh)

/-- Walks the directory that a path leads to. A link at the end of that path is always followed. -/
def walk (fs : FileSystem) (following : Bool) (path : String) : Findings :=
  match fs.locate path with
  | .error cause => [.error (.io path cause)]
  | .ok location => fs.walkDirectory following [] location path

end FileSystem

end CallAtlas
