import Mathlib.Algebra.Group.Nat.Defs
import Mathlib.Logic.Function.Iterate
import CallAtlas.Proofs.FileSystem.Seen
/-!
A walk step by step. The walker keeps the directories that it is inside of, each with the entries
that are still to be visited; a step visits one entry or leaves a directory. Nothing in a step says
that a walk ever ends. It does, because a link is followed only to a directory that the walk is not
inside of, and between two links it can only go deeper (`rank_enter_lt`): what is left to do gets
less with every step (`left_step_lt`). And it ends with what the walk comes upon as a whole
(`verdict_step`). The bound is one on steps and far from sharp.
-/
namespace CallAtlas.FileSystem

/-- A directory that a walk is inside of, with the names that led there and what is still to be
visited of its entries. -/
structure Level (fs : FileSystem) extends Opened where
  names : List String
  pending : List (String × Item)
  listed : ∀ entry ∈ pending, entry ∈ fs.listing location

/-- How far a walk has come. -/
inductive Walker (fs : FileSystem) where
  /-- It is inside of directories, the innermost first, and has found some files. -/
  | inside (levels : List (Level fs)) (found : List (List String))
  | ended (outcome : Except WalkError (List (List String)))

namespace Walker

variable {fs : FileSystem}

def openedBy (levels : List (Level fs)) : List Opened :=
  levels.map (·.toOpened)

def enter (levels : List (Level fs)) (found : List (List String)) (location : Location)
    (path : String) (names : List String) : Walker fs :=
  match fs.locate path with
  | .error cause => .ended (.error (.io path cause))
  | .ok _ =>
    .inside (⟨⟨location, path⟩, names, fs.listing location, fun _ among => among⟩ :: levels) found

def visit (following : Bool) (levels : List (Level fs)) (found : List (List String))
    (opened : Opened) (names : List String) (entry : String × Item) : Walker fs :=
  let path := Path.join opened.path entry.1
  let names := names ++ [entry.1]
  match entry.2 with
  | .file _ => .inside levels (found ++ [names])
  | .directory => enter levels found (opened.location ++ [entry.1]) path names
  | .link _ =>
    if following then
      match fs.locate path with
      | .error cause => .ended (.error (.io path cause))
      | .ok target =>
        match fs.item? target with
        | some (.file _) => .inside levels (found ++ [names])
        | some .directory =>
          match (openedBy levels).find? (·.location == target) with
          | some ancestor => .ended (.error (.loop path ancestor.path))
          | none => enter levels found target path names
        | _ => .inside levels found
    else .inside levels found

/-- One step: an entry is visited, or a directory is left. -/
def step (following : Bool) : Walker fs → Walker fs
  | .ended outcome => .ended outcome
  | .inside [] found => .ended (.ok found)
  | .inside (⟨_, _, [], _⟩ :: outer) found => .inside outer found
  | .inside (⟨opened, names, entry :: rest, listed⟩ :: outer) found =>
    visit following (⟨opened, names, rest, fun other among => listed other (.tail _ among)⟩ :: outer)
      found opened names entry

def start (fs : FileSystem) (root : String) : Walker fs :=
  match fs.locate root with
  | .error cause => .ended (.error (.io root cause))
  | .ok location => enter [] [] location root []

variable {target : Location} {name : String} {opened : Opened} {item : Item}

/-- From inside of some directories a walk may go to a directory: it stands right below the
innermost one, or a link leads there and the walk is not inside of it. -/
def Admits (levels : List (Level fs)) (opened : Opened) (name : String) (target : Location) :
    Prop :=
  target = opened.location ++ [name] ∨
    fs.item? target = some .directory ∧
      (openedBy levels).find? (·.location == target) = none

/-- What visiting an entry can come to. -/
theorem visit_cases (following : Bool) (levels : List (Level fs)) (found : List (List String))
    (opened : Opened) (names : List String) (entry : String × Item) :
    (∃ more, visit following levels found opened names entry = .inside levels more) ∨
      (∃ cause, visit following levels found opened names entry = .ended (.error cause)) ∨
      ∃ target, Admits levels opened entry.1 target ∧
        visit following levels found opened names entry =
          enter levels found target (Path.join opened.path entry.1) (names ++ [entry.1]) := by
  rw [visit]
  cases entry.2 with
  | file file => exact .inl ⟨_, rfl⟩
  | directory => exact .inr (.inr ⟨_, .inl rfl, rfl⟩)
  | link destination =>
    dsimp only
    split
    · split
      · exact .inr (.inl ⟨_, rfl⟩)
      next target reached =>
        split
        · exact .inl ⟨_, rfl⟩
        next directory =>
          split
          · exact .inr (.inl ⟨_, rfl⟩)
          next fresh => exact .inr (.inr ⟨target, .inr ⟨directory, fresh⟩, rfl⟩)
        · exact .inl ⟨_, rfl⟩
    · exact .inl ⟨_, rfl⟩

/-- How much deeper a walk may go from a directory that it has come to from inside of others: as
deep as anything stands, for each directory that a link may still lead to. -/
def rank (fs : FileSystem) (opened : Opened) (outer : List Opened) : Nat :=
  (fs.unopened (opened :: outer)).length * (fs.depth + 1) + (fs.depth - opened.location.length)

/-- Going into a directory leaves less depth to go: links lead to ever fewer directories, and
what is below a directory is deeper than it. -/
theorem rank_enter_lt {outer : List Opened} (listed : (name, item) ∈ fs.listing opened.location)
    (admitted : target = opened.location ++ [name] ∨ fs.item? target = some .directory ∧
      (opened :: outer).find? (·.location == target) = none) (path : String) :
    rank fs ⟨target, path⟩ (opened :: outer) < rank fs opened outer := by
  have deep := length_lt_depth_of_mem_listing listed
  rcases admitted with rfl | ⟨directory, fresh⟩
  · have fewer := length_unopened_le fs (opened :: outer) ⟨opened.location ++ [name], path⟩
    have scaled := Nat.mul_le_mul_right (fs.depth + 1) fewer
    simp only [rank, List.length_append, List.length_singleton]
    omega
  · have fewer : (fs.unopened (⟨target, path⟩ :: opened :: outer)).length <
        (fs.unopened (opened :: outer)).length := length_unopened_lt directory fresh
    have scaled := Nat.mul_le_mul_right (fs.depth + 1) fewer
    rw [Nat.succ_mul] at scaled
    simp only [rank]
    omega

def leftInside : List (Level fs) → Nat
  | [] => 0
  | level :: outer =>
    level.pending.length * (fs.items.length + 2) ^ rank fs level.toOpened (openedBy outer) + 1 +
      leftInside outer

def left : Walker fs → Nat
  | .inside levels _ => leftInside levels + 1
  | .ended _ => 0

theorem length_listing_le (fs : FileSystem) (location : Location) :
    (fs.listing location).length ≤ fs.items.length := by
  rw [listing, List.length_mergeSort]
  exact List.length_filterMap_le ..

theorem left_enter_le (levels : List (Level fs)) (found : List (List String))
    (location : Location) (path : String) (names : List String) :
    (enter levels found location path names).left ≤
      fs.items.length * (fs.items.length + 2) ^ rank fs ⟨location, path⟩ (openedBy levels) + 2 +
        leftInside levels := by
  rw [enter]
  split
  · exact Nat.zero_le _
  · have few := Nat.mul_le_mul_right
      ((fs.items.length + 2) ^ rank fs ⟨location, path⟩ (openedBy levels))
      (length_listing_le fs location)
    simp only [left, leftInside]
    omega

/-- What is left after a directory is entered is less than what one entry counts for. -/
theorem power_lt {deeper rank : Nat} (less : deeper < rank) (items : Nat) :
    items * (items + 2) ^ deeper + 2 ≤ (items + 2) ^ rank := by
  have positive : 0 < (items + 2) ^ deeper := Nat.pow_pos (by omega)
  calc
    items * (items + 2) ^ deeper + 2 ≤ items * (items + 2) ^ deeper + 2 * (items + 2) ^ deeper := by
      omega
    _ = (items + 2) ^ (deeper + 1) := by rw [Nat.pow_succ, Nat.mul_comm _ (items + 2), Nat.add_mul]
    _ ≤ (items + 2) ^ rank := Nat.pow_le_pow_right (by omega) less

/-- With every step less is left to do. -/
theorem left_step_lt (following : Bool) (levels : List (Level fs)) (found : List (List String)) :
    (step following (.inside levels found)).left < (Walker.inside levels found).left := by
  match levels with
  | [] => exact Nat.zero_lt_one
  | ⟨_, _, [], _⟩ :: outer =>
    simp only [step, left, leftInside, List.length_nil]
    omega
  | ⟨opened, names, entry :: rest, listed⟩ :: outer =>
    let level : Level fs := ⟨opened, names, rest, fun other among => listed other (.tail _ among)⟩
    have positive : 0 < (fs.items.length + 2) ^ rank fs opened (openedBy outer) :=
      Nat.pow_pos (by omega)
    have whole := Nat.add_one_mul rest.length
      ((fs.items.length + 2) ^ rank fs opened (openedBy outer))
    have after : leftInside (level :: outer) =
        rest.length * (fs.items.length + 2) ^ rank fs opened (openedBy outer) + 1 +
          leftInside outer := rfl
    change (visit following (level :: outer) found opened names entry).left <
      (rest.length + 1) * (fs.items.length + 2) ^ rank fs opened (openedBy outer) + 1 +
        leftInside outer + 1
    rcases visit_cases following (level :: outer) found opened names entry with
      ⟨more, same⟩ | ⟨cause, same⟩ | ⟨target, admitted, same⟩
    · rw [same, left]
      omega
    · rw [same, left]
      omega
    · -- One entry counts for more than all that is found where it leads.
      have entered := left_enter_le (level :: outer) found target (Path.join opened.path entry.1)
        (names ++ [entry.1])
      have deeper : rank fs ⟨target, Path.join opened.path entry.1⟩ (openedBy (level :: outer)) <
          rank fs opened (openedBy outer) :=
        rank_enter_lt (listed entry List.mem_cons_self) admitted _
      have room := power_lt deeper fs.items.length
      rw [same]
      omega

/-- A walk ends within the steps that are left. -/
theorem exists_ended (following : Bool) (walker : Walker fs) :
    ∃ steps ≤ walker.left, ∃ outcome, (step following)^[steps] walker = .ended outcome := by
  induction count : walker.left using Nat.strongRecOn generalizing walker with
  | ind count ih =>
    cases walker with
    | ended outcome => exact ⟨0, Nat.zero_le _, outcome, rfl⟩
    | inside levels found =>
      have less := left_step_lt following levels found
      rw [count] at less
      obtain ⟨steps, enough, outcome, ended⟩ := ih _ less (step following (.inside levels found)) rfl
      exact ⟨steps + 1, by omega, outcome, ended⟩

/-- What a walk is still to come upon inside of some directories. -/
def remaining (following : Bool) : List (Level fs) → Findings
  | [] => []
  | level :: outer =>
    (level.pending.flatMap (fs.walkEntry following (openedBy (level :: outer)) level.location
      level.path)).map (·.map (level.names ++ ·)) ++ remaining following outer

/-- What comes out of a walk in the end: the files up to the first error. -/
def verdict (following : Bool) : Walker fs → Except ExtractError (List (List String))
  | .inside levels found => Findings.files (found.map .ok ++ remaining following levels)
  | .ended outcome => outcome.mapError .walk

theorem files_of_error (found : List (List String)) (cause : WalkError) (rest : Findings) :
    Findings.files (found.map .ok ++ .error cause :: rest) = .error (.walk cause) := by
  induction found with
  | nil => rfl
  | cons names more ih =>
    rw [List.map_cons, List.cons_append, Findings.files, ih]
    rfl

theorem map_under (findings : Findings) (name : String) (names : List String) :
    (findings.under name).map (·.map (names ++ ·)) =
      findings.map (·.map (names ++ [name] ++ ·)) := by
  rw [Findings.under, List.map_map]
  apply List.map_congr_left
  intro finding _
  cases finding with
  | error cause => rfl
  | ok rest => simp [Except.map]

/-- Going into a directory, a walk is to come upon all that is in it. -/
theorem verdict_enter (following : Bool) (levels : List (Level fs)) (found : List (List String))
    (location : Location) (path : String) (names : List String) :
    (enter levels found location path names).verdict following =
      Findings.files (found.map .ok ++
        ((fs.walkDirectory following (openedBy levels) location path).map (·.map (names ++ ·)) ++
          remaining following levels)) := by
  rw [enter]
  split
  next cause failed =>
    rw [walkDirectory_of_error failed]
    exact (files_of_error found _ _).symm
  next place located =>
    rw [walkDirectory_of_ok located]
    rfl

theorem verdict_visit (following : Bool) (levels : List (Level fs)) (found : List (List String))
    (opened : Opened) (names : List String) (entry : String × Item) :
    (visit following levels found opened names entry).verdict following =
      Findings.files (found.map .ok ++
        ((fs.walkEntry following (openedBy levels) opened.location opened.path entry).map
          (·.map (names ++ ·)) ++ remaining following levels)) := by
  obtain ⟨name, item⟩ := entry
  rw [visit, walkEntry]
  cases item with
  | file file => simp [verdict, Except.map]
  | directory =>
    dsimp only
    rw [verdict_enter, map_under]
  | link destination =>
    cases following with
    | false => rfl
    | true =>
      simp only [if_true]
      cases fs.locate (Path.join opened.path name) with
      | error cause => exact (files_of_error found _ _).symm
      | ok target =>
        dsimp only
        cases fs.item? target with
        | none => rfl
        | some item =>
          cases item with
          | file file => simp [verdict, Except.map]
          | link further => rfl
          | directory =>
            dsimp only
            cases (openedBy levels).find? (·.location == target) with
            | some ancestor => exact (files_of_error found _ _).symm
            | none =>
              dsimp only
              rw [verdict_enter, map_under]

/-- No step changes what comes out of a walk. -/
theorem verdict_step (following : Bool) (walker : Walker fs) :
    (step following walker).verdict following = walker.verdict following := by
  match walker with
  | .ended outcome => rfl
  | .inside [] found =>
    rw [step, verdict, verdict, remaining, List.append_nil, Findings.files_map_ok]
    rfl
  | .inside (⟨_, _, [], _⟩ :: outer) found => rfl
  | .inside (⟨opened, names, entry :: rest, listed⟩ :: outer) found =>
    rw [step, verdict_visit, verdict, remaining, remaining, List.flatMap_cons, List.map_append,
      List.append_assoc]
    rfl

theorem verdict_iterate (following : Bool) (steps : Nat) (walker : Walker fs) :
    ((step following)^[steps] walker).verdict following = walker.verdict following := by
  induction steps generalizing walker with
  | zero => rfl
  | succ steps ih => rw [Function.iterate_succ_apply, ih, verdict_step]

theorem verdict_start (following : Bool) (fs : FileSystem) (root : String) :
    (start fs root).verdict following = Findings.files (fs.walk following root) := by
  rw [start, walk]
  cases fs.locate root with
  | error cause => rfl
  | ok location =>
    dsimp only
    rw [verdict_enter]
    have same : ∀ finding : Except WalkError (List String), finding.map ([] ++ ·) = finding := by
      intro finding
      cases finding <;> rfl
    rw [List.map_congr_left fun finding _ => same finding, List.map_id', remaining,
      List.append_nil]
    rfl

/-- How many steps a walk takes at most. -/
theorem left_start_le (fs : FileSystem) (root : String) :
    (start fs root).left ≤
      (fs.items.length + 2) ^ ((fs.directories.length + 1) * (fs.depth + 1)) := by
  rw [start]
  cases fs.locate root with
  | error cause => exact Nat.zero_le _
  | ok location =>
    have few : (fs.unopened [⟨location, root⟩]).length ≤ fs.directories.length :=
      List.length_filter_le ..
    have scaled := Nat.mul_le_mul_right (fs.depth + 1) few
    have deep : rank fs ⟨location, root⟩ [] < (fs.directories.length + 1) * (fs.depth + 1) := by
      rw [rank, Nat.add_one_mul]
      omega
    calc
      (enter [] [] location root []).left ≤
          fs.items.length * (fs.items.length + 2) ^ rank fs ⟨location, root⟩ [] + 2 :=
        left_enter_le [] [] location root []
      _ ≤ (fs.items.length + 2) ^ ((fs.directories.length + 1) * (fs.depth + 1)) :=
        power_lt deep _

end Walker

/-- However links lead around, a walk ends, and the sources are what it has found by then. -/
theorem walk_ends (fs : FileSystem) (root : String) (language : Language) (following : Bool) :
    ∃ steps ≤ (fs.items.length + 2) ^ ((fs.directories.length + 1) * (fs.depth + 1)),
      ∃ outcome, (Walker.step following)^[steps] (Walker.start fs root) = .ended outcome ∧
        match outcome with
        | .ok found =>
          sourceFiles fs root language following =
              .ok (found.filterMap (sourcePath? root language)) ∧
            (fs.WellFormed → sourceFiles fs root language following =
              .ok ((found.filter (endsInSource language)).map (Text.join "/")))
        | .error cause => sourceFiles fs root language following = .error (.walk cause) := by
  obtain ⟨steps, enough, outcome, ended⟩ := Walker.exists_ended following (Walker.start fs root)
  have verdict : Findings.files (fs.walk following root) = outcome.mapError .walk := by
    rw [← Walker.verdict_start, ← Walker.verdict_iterate following steps, ended, Walker.verdict]
  refine ⟨steps, Nat.le_trans enough (Walker.left_start_le fs root), outcome, ended, ?_⟩
  cases outcome with
  | ok found =>
    constructor
    · rw [sourceFiles, verdict]
      rfl
    · intro wellFormed
      rw [wellFormed.sourceFiles_eq, verdict]
      rfl
  | error cause =>
    rw [sourceFiles, verdict]
    rfl

end CallAtlas.FileSystem
