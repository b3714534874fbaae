import Mathlib.Tactic.Choose
import CallAtlas.Proofs.FileSystem.Walk
import CallAtlas.Proofs.Text.ByteOrder
/-!
Walks that follow no links. Such a walk stops at files, and at directories whose paths are too long
to be opened (`IsStop`). It comes upon all places where it stops, upon each of them once, and in the
order of the names that lead there, byte by byte (`WellFormed.exists_surveys`).
-/
namespace CallAtlas.FileSystem

open Text (bytes)

/-- The names that lead to one place come before those that lead to another, byte by byte. -/
def Precedes (one two : List String) : Prop :=
  one.map bytes < two.map bytes

/-- Where a walk stops that is at a location, reached by a path: at a file, or at a directory whose
path is too long. -/
inductive IsStop (fs : FileSystem) : Location → String → List String → Prop
  | file {location : Location} {path name : String} {file : File}
      (found : fs.item? (location ++ [name]) = some (.file file)) : IsStop fs location path [name]
  | long {location : Location} {path name : String}
      (found : fs.item? (location ++ [name]) = some .directory)
      (size : maxPath < (Path.join path name).utf8ByteSize) : IsStop fs location path [name]
  | inside {location : Location} {path name : String} {rest : List String}
      (found : fs.item? (location ++ [name]) = some .directory)
      (size : (Path.join path name).utf8ByteSize ≤ maxPath)
      (below : IsStop fs (location ++ [name]) (Path.join path name) rest) :
      IsStop fs location path (name :: rest)

/-- A directory below a location has a path that is too long, as a walk spells it. -/
def TooLong (fs : FileSystem) (location : Location) (path : String) (names : List String) : Prop :=
  fs.item? (location ++ names) = some .directory ∧
    maxPath < (names.foldl Path.join path).utf8ByteSize

def stopFinding (fs : FileSystem) (location : Location) (path : String) (names : List String) :
    Except WalkError (List String) :=
  match fs.item? (location ++ names) with
  | some .directory => .error (.io (names.foldl Path.join path) .nameTooLong)
  | _ => .ok names

/-- The places where a walk stops, in order, and what it comes upon there. -/
structure Surveys (fs : FileSystem) (location : Location) (path : String)
    (stops : List (List String)) (findings : Findings) : Prop where
  sorted : stops.Pairwise Precedes
  complete : ∀ names, names ∈ stops ↔ fs.IsStop location path names
  findings : findings = stops.map (fs.stopFinding location path)

variable {fs : FileSystem} {location : Location} {path name other : String} {item : Item}
  {names rest : List String} {inside : List Opened}

theorem precedes_cons (less : bytes name < bytes other) :
    Precedes (name :: names) (other :: rest) := by
  simp [Precedes, List.cons_lt_cons_iff, less]

theorem precedes_cons_iff : Precedes (name :: names) (name :: rest) ↔ Precedes names rest := by
  simp [Precedes]

/-- What is on the way to a place comes before it. -/
theorem precedes_of_above (first : names <+: rest) (different : names ≠ rest) :
    Precedes names rest := by
  obtain ⟨more, rfl⟩ := first
  obtain ⟨next, further, rfl⟩ := List.exists_cons_of_ne_nil (show more ≠ [] by simpa using different)
  rw [Precedes, List.map_append]
  nth_rewrite 1 [← List.append_nil (names.map bytes)]
  exact List.append_left_lt (List.nil_lt_cons _ _)

theorem Precedes.trans {middle : List String} (first : Precedes names middle)
    (second : Precedes middle rest) : Precedes names rest :=
  List.lt_trans first second

/-- What stands further down is held by directories. -/
theorem WellFormed.directory_of_append (wellFormed : fs.WellFormed)
    (found : fs.item? (location ++ names) = some item) (below : names ≠ []) :
    fs.item? location = some .directory := by
  induction names using List.reverseRecOn generalizing item with
  | nil => exact absurd rfl below
  | append_singleton names name ih =>
    rw [← List.append_assoc] at found
    have held := (wellFormed.held_of_item? found).2
    rcases eq_or_ne names [] with rfl | more
    · simpa using held
    · exact ih held more

theorem WellFormed.isName_of_append (wellFormed : fs.WellFormed)
    (found : fs.item? (location ++ names) = some item) : ∀ name ∈ names, Path.IsName name := by
  intro name among
  obtain ⟨before, after, rfl⟩ := List.append_of_mem among
  rcases eq_or_ne after [] with rfl | more
  · rw [← List.append_assoc] at found
    exact (wellFormed.held_of_item? found).1
  · rw [List.append_cons, ← List.append_assoc, ← List.append_assoc] at found
    exact (wellFormed.held_of_item? (wellFormed.directory_of_append found more)).1

/-- The entries of a directory come in the order of the bytes of their names, each name once. -/
theorem WellFormed.listing_bytes (wellFormed : fs.WellFormed) (location : Location) :
    (fs.listing location).Pairwise fun one two => bytes one.1 < bytes two.1 := by
  refine List.Pairwise.imp_of_mem ?_
    ((fs.listing_sorted location).and (wellFormed.nodup_listing location))
  rintro ⟨name, item⟩ ⟨other, stored⟩ listed also ⟨noLater, different⟩
  refine Text.bytes_lt noLater fun same => different ?_
  obtain rfl : name = other := same
  rw [wellFormed.mem_listing_iff] at listed also
  rw [listed, Option.some.injEq] at also
  rw [also]

theorem isStop_cons_iff :
    fs.IsStop location path (name :: rest) ↔
      (∃ file, fs.item? (location ++ [name]) = some (.file file)) ∧ rest = [] ∨
        fs.item? (location ++ [name]) = some .directory ∧
          (maxPath < (Path.join path name).utf8ByteSize ∧ rest = [] ∨
            (Path.join path name).utf8ByteSize ≤ maxPath ∧
              fs.IsStop (location ++ [name]) (Path.join path name) rest) := by
  constructor
  · intro stop
    cases stop with
    | file found => exact .inl ⟨⟨_, found⟩, rfl⟩
    | long found size => exact .inr ⟨found, .inl ⟨size, rfl⟩⟩
    | inside found size below => exact .inr ⟨found, .inr ⟨size, below⟩⟩
  · rintro (⟨⟨file, found⟩, rfl⟩ | ⟨found, ⟨size, rfl⟩ | ⟨size, below⟩⟩)
    · exact .file found
    · exact .long found size
    · exact .inside found size below

theorem IsStop.head (stop : fs.IsStop location path names) :
    ∃ name rest item, names = name :: rest ∧ fs.item? (location ++ [name]) = some item := by
  cases stop with
  | file found => exact ⟨_, _, _, rfl, found⟩
  | long found => exact ⟨_, _, _, rfl, found⟩
  | inside found => exact ⟨_, _, _, rfl, found⟩

theorem tooLong_cons_iff :
    fs.TooLong location path (name :: rest) ↔
      fs.TooLong (location ++ [name]) (Path.join path name) rest := by
  rw [TooLong, TooLong, List.append_assoc, List.singleton_append, List.foldl_cons]

theorem IsStop.file_or_tooLong (stop : fs.IsStop location path names) :
    (∃ file, fs.item? (location ++ names) = some (.file file)) ∨
      fs.TooLong location path names := by
  induction stop with
  | file found => exact .inl ⟨_, found⟩
  | long found size => exact .inr ⟨found, size⟩
  | inside _ _ _ ih => simpa [tooLong_cons_iff] using ih

/-- A walk comes to every file, if no directory is in its way. -/
theorem WellFormed.isStop_of_file (wellFormed : fs.WellFormed) {file : File}
    (below : names ≠ []) (found : fs.item? (location ++ names) = some (.file file))
    (clear : ∀ names, ¬ fs.TooLong location path names) : fs.IsStop location path names := by
  induction names generalizing location path with
  | nil => exact absurd rfl below
  | cons name rest ih =>
    rcases eq_or_ne rest [] with rfl | more
    · exact .file found
    · rw [List.append_cons] at found
      have directory := wellFormed.directory_of_append found more
      have short : (Path.join path name).utf8ByteSize ≤ maxPath :=
        Nat.not_lt.mp fun long => clear [name] ⟨directory, long⟩
      refine .inside directory short (ih more found fun names => ?_)
      rw [← tooLong_cons_iff]
      exact clear _

/-- A walk stops at the first directory on the way whose path is too long. -/
theorem WellFormed.exists_stop_of_tooLong (wellFormed : fs.WellFormed)
    (short : path.utf8ByteSize ≤ maxPath) (tooLong : fs.TooLong location path names) :
    ∃ stop, stop <+: names ∧ fs.IsStop location path stop ∧ fs.TooLong location path stop := by
  induction names generalizing location path with
  | nil => exact absurd tooLong.2 (Nat.not_lt.mpr short)
  | cons name rest ih =>
    have directory : fs.item? (location ++ [name]) = some .directory := by
      rcases eq_or_ne rest [] with rfl | more
      · exact tooLong.1
      · have found := tooLong.1
        rw [List.append_cons] at found
        exact wellFormed.directory_of_append found more
    by_cases long : maxPath < (Path.join path name).utf8ByteSize
    · exact ⟨[name], by simp, .long directory long, directory, long⟩
    · have within := Nat.not_lt.mp long
      obtain ⟨stop, first, stops, also⟩ := ih within (tooLong_cons_iff.mp tooLong)
      exact ⟨name :: stop, List.cons_prefix_cons.mpr ⟨rfl, first⟩, .inside directory within stops,
        tooLong_cons_iff.mpr also⟩

theorem stopFinding_cons (fs : FileSystem) (location : Location) (path name : String)
    (rest : List String) :
    fs.stopFinding location path (name :: rest) =
      (fs.stopFinding (location ++ [name]) (Path.join path name) rest).map (name :: ·) := by
  rw [stopFinding, stopFinding, List.append_assoc, List.singleton_append, List.foldl_cons]
  cases fs.item? (location ++ name :: rest) with
  | none => rfl
  | some item => cases item <;> rfl

/-- In an entry of a directory a walk comes upon the places where it stops there. -/
theorem WellFormed.exists_tails (wellFormed : fs.WellFormed)
    (located : fs.locate path = .ok location)
    (deeper : fs.item? (location ++ [name]) = some .directory →
      fs.locate (Path.join path name) = .ok (location ++ [name]) →
      ∃ stops, fs.Surveys (location ++ [name]) (Path.join path name) stops
        (fs.walkDirectory false inside (location ++ [name]) (Path.join path name)))
    (found : fs.item? (location ++ [name]) = some item) :
    ∃ tails : List (List String), tails.Pairwise Precedes ∧
      (∀ rest, rest ∈ tails ↔ fs.IsStop location path (name :: rest)) ∧
      fs.walkEntry false inside location path (name, item) =
        (tails.map (name :: ·)).map (fs.stopFinding location path) := by
  cases item with
  | file file =>
    refine ⟨[[]], by simp, by simp [isStop_cons_iff, found], ?_⟩
    simp [walkEntry, stopFinding, found]
  | directory =>
    rcases wellFormed.locate_join located found with reached | ⟨refused, long⟩
    · obtain ⟨stops, surveys⟩ := deeper found reached
      have short := (pathError?_eq_none_iff.mp (locate_eq_ok_iff.mp reached).1).2.2
      refine ⟨stops, surveys.sorted, fun rest => ?_, ?_⟩
      · simp [surveys.complete, isStop_cons_iff, found, short, Nat.not_lt.mpr short]
      · simp [walkEntry, surveys.findings, Findings.under, stopFinding_cons]
    · refine ⟨[[]], by simp, by simp [isStop_cons_iff, found, long, Nat.not_le.mpr long], ?_⟩
      rw [List.map_singleton, List.map_singleton, stopFinding, found]
      simp only [walkEntry, walkDirectory_of_error refused]
      rfl
  | link target =>
    exact ⟨[], by simp, by simp [isStop_cons_iff, found], by simp [walkEntry]⟩

/-- A walk that follows no links comes upon the places where it stops, in their order. -/
theorem WellFormed.exists_surveys (wellFormed : fs.WellFormed)
    (located : fs.locate path = .ok location) :
    ∃ stops, fs.Surveys location path stops (fs.walkDirectory false inside location path) := by
  induction inside, location, path using walkDirectory.induct fs with
  | case1 inside location path cause failed =>
    rw [failed] at located
    cases located
  | case2 inside location path _ _ directories _ =>
    have each : ∀ entry ∈ fs.listing location, ∃ tails : List (List String),
        tails.Pairwise Precedes ∧
        (∀ rest, rest ∈ tails ↔ fs.IsStop location path (entry.1 :: rest)) ∧
        fs.walkEntry false (⟨location, path⟩ :: inside) location path entry =
          (tails.map (entry.1 :: ·)).map (fs.stopFinding location path) := by
      rintro ⟨name, item⟩ listed
      refine wellFormed.exists_tails located ?_ (wellFormed.mem_listing_iff.mp listed)
      intro directory reached
      exact directories name (wellFormed.mem_listing_iff.mpr directory) reached
    -- The places in each entry, one entry after the other, are the places in the directory.
    choose! tails sorted complete findings using each
    refine ⟨(fs.listing location).flatMap fun entry => (tails entry).map (entry.1 :: ·), ?_, ?_, ?_⟩
    · rw [List.pairwise_flatMap]
      constructor
      · intro entry listed
        exact List.pairwise_map.mpr ((sorted entry listed).imp precedes_cons_iff.mpr)
      · refine (wellFormed.listing_bytes location).imp fun {one two} less first among second also => ?_
        obtain ⟨rest, -, rfl⟩ := List.mem_map.mp among
        obtain ⟨other, -, rfl⟩ := List.mem_map.mp also
        exact precedes_cons less
    · intro names
      rw [List.mem_flatMap]
      constructor
      · rintro ⟨entry, listed, among⟩
        obtain ⟨rest, within, rfl⟩ := List.mem_map.mp among
        exact (complete entry listed rest).mp within
      · intro stop
        obtain ⟨name, rest, item, rfl, found⟩ := stop.head
        have listed := wellFormed.mem_listing_iff.mpr found
        exact ⟨_, listed, List.mem_map_of_mem ((complete _ listed rest).mpr stop)⟩
    · rw [walkDirectory_of_ok located, List.map_flatMap]
      exact List.flatMap_congr findings

end CallAtlas.FileSystem
