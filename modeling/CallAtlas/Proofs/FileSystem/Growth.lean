import CallAtlas.FileSystem.Walk
import CallAtlas.Proofs.FileSystem.Resolution
/-!
File systems that grow. Something put where nothing stood is added at the end and disturbs
nothing (`grows_put`), and taking it away again gives back exactly what was there before
(`Grows.erase`). Making directories only ever adds directories (`makeDirectories_grows`), also
when it fails halfway, and whatever the device refuses.
-/
namespace CallAtlas.FileSystem

variable {fs before middle after : FileSystem} {location : Location} {item : Item}
  {added more : List (Location × Item)}

theorem item?_eq_none_iff :
    fs.item? location = none ↔ location ≠ [] ∧ ∀ entry ∈ fs.items, entry.1 ≠ location := by
  rw [item?]
  by_cases top : location = []
  · simp [top]
  · simp [top, List.lookup_eq_none_iff, ne_comm]

theorem mem_of_item? (filled : location ≠ []) (found : fs.item? location = some item) :
    (location, item) ∈ fs.items := by
  rw [item?, if_neg filled] at found
  exact mem_of_lookup found

/-- What is listed under a location that is listed once is found there. -/
theorem lookup_of_mem {items : List (Location × Item)} (distinct : (items.map (·.1)).Nodup)
    (among : (location, item) ∈ items) : items.lookup location = some item := by
  induction items with
  | nil => simp at among
  | cons entry rest ih =>
    rw [List.map_cons, List.nodup_cons] at distinct
    rw [List.lookup_cons]
    rcases List.mem_cons.mp among with rfl | among
    · simp
    · have other : location ≠ entry.1 := by
        rintro rfl
        exact distinct.1 (List.mem_map.mpr ⟨_, among, rfl⟩)
      rw [beq_eq_false_iff_ne.mpr other]
      exact ih distinct.2 among

/-- A file system has grown by things put where nothing stood. -/
structure Grows (before after : FileSystem) (added : List (Location × Item)) : Prop where
  items : after.items = before.items ++ added
  start : after.workingDirectory = before.workingDirectory
  fresh : ∀ entry ∈ added, before.item? entry.1 = none
  distinct : (added.map (·.1)).Nodup

theorem Grows.refl (fs : FileSystem) : Grows fs fs [] where
  items := by simp
  start := rfl
  fresh := by simp
  distinct := by simp

theorem Grows.eq_of_nil (grows : Grows before after []) : after = before := by
  obtain ⟨items, start⟩ := after
  have same := grows.items
  have place := grows.start
  simp only [List.append_nil] at same place
  rw [same, place]

theorem Grows.item?_eq (grows : Grows before after added) (location : Location) :
    after.item? location = (before.item? location).or (added.lookup location) := by
  rw [item?, item?, grows.items, List.lookup_append]
  by_cases top : location = []
  · simp [top]
  · simp [top]

theorem Grows.keeps (grows : Grows before after added) : Keeps before after where
  item {location item} found := by rw [grows.item?_eq, found, Option.some_or]
  start := grows.start

/-- What stands in the grown file system stood there before or was added. -/
theorem Grows.item_cases (grows : Grows before after added)
    (found : after.item? location = some item) :
    before.item? location = some item ∨
      before.item? location = none ∧ (location, item) ∈ added := by
  rw [grows.item?_eq] at found
  cases old : before.item? location with
  | some stood =>
    rw [old, Option.some_or] at found
    exact .inl found
  | none =>
    rw [old, Option.none_or] at found
    exact .inr ⟨rfl, mem_of_lookup found⟩

theorem Grows.item_added (grows : Grows before after added) (among : (location, item) ∈ added) :
    after.item? location = some item := by
  rw [grows.item?_eq, grows.fresh _ among, Option.none_or]
  exact lookup_of_mem grows.distinct among

theorem Grows.trans (first : Grows before middle added) (second : Grows middle after more) :
    Grows before after (added ++ more) where
  items := by rw [second.items, first.items, List.append_assoc]
  start := second.start.trans first.start
  fresh entry among := by
    rcases List.mem_append.mp among with among | among
    · exact first.fresh entry among
    · have absent := second.fresh entry among
      rw [first.item?_eq, Option.or_eq_none_iff] at absent
      exact absent.1
  distinct := by
    rw [List.map_append, List.nodup_append]
    refine ⟨first.distinct, second.distinct, ?_⟩
    -- What was added first stands there, so nothing is put in its place.
    rintro _ early _ late rfl
    obtain ⟨entry, among, rfl⟩ := List.mem_map.mp early
    obtain ⟨other, also, same⟩ := List.mem_map.mp late
    have absent := second.fresh other also
    rw [same, first.item_added among] at absent
    cases absent

/-- Something put where nothing stood is added. -/
theorem grows_put (absent : fs.item? location = none) (item : Item) :
    Grows fs (fs.put location item) [(location, item)] := by
  have nowhere := (item?_eq_none_iff.mp absent).2
  have unlisted : fs.items.any (·.1 == location) = false := by simpa using nowhere
  have added : fs.put location item = { fs with items := fs.items ++ [(location, item)] } := by
    simp [put, unlisted]
  rw [added]
  exact ⟨rfl, rfl, by simp [absent], by simp⟩

/-- Taking away something that was not there before leaves the rest of what was added. -/
theorem Grows.erase (grows : Grows before after added) (absent : before.item? location = none) :
    Grows before (after.erase location) (added.filter (·.1 != location)) where
  items := by
    have stays : before.items.filter (·.1 != location) = before.items := by
      rw [List.filter_eq_self]
      simpa using (item?_eq_none_iff.mp absent).2
    rw [FileSystem.erase, grows.items, List.filter_append, stays]
  start := grows.start
  fresh entry among := grows.fresh entry (List.mem_of_mem_filter among)
  distinct := grows.distinct.sublist (List.filter_sublist.map _)

def GrowsByDirectories (before after : FileSystem) : Prop :=
  ∃ added, Grows before after added ∧ ∀ entry ∈ added, entry.2 = .directory

theorem GrowsByDirectories.refl (fs : FileSystem) : GrowsByDirectories fs fs :=
  ⟨[], .refl fs, by simp⟩

theorem GrowsByDirectories.trans (first : GrowsByDirectories before middle)
    (second : GrowsByDirectories middle after) : GrowsByDirectories before after := by
  obtain ⟨added, early, only⟩ := first
  obtain ⟨more, late, also⟩ := second
  refine ⟨added ++ more, early.trans late, fun entry among => ?_⟩
  exact (List.mem_append.mp among).elim (only entry) (also entry)

/-- Something new goes under the last name of its path, where nothing stands. -/
theorem newLocation_cases {path : String} (success : fs.newLocation path = .ok location) :
    ∃ place name, fs.holder path = .ok place ∧ (Path.names path).getLast? = some name ∧
      name ≠ "." ∧ name ≠ ".." ∧ name.utf8ByteSize ≤ maxName ∧
      location = place ++ [name] ∧ fs.item? location = none := by
  rw [newLocation] at success
  split at success
  · cases success
  next place held =>
    split at success
    · cases success
    next name last =>
      split at success
      · cases success
      next plain =>
        obtain ⟨not_here, not_up⟩ := not_or.mp plain
        split at success
        · cases success
        next long =>
          split at success
          · cases success
          next absent =>
            cases success
            exact ⟨place, name, held, last, not_here, not_up, Nat.not_lt.mp long, rfl, absent⟩

/-- A file that is written goes to its place, whole or in part, unless it cannot be made. -/
theorem write_cases (fs : FileSystem) (path : String) (file : File) (fault : Option Fault) :
    (∃ refusal, fs.write path file fault = (fs, .error refusal)) ∨
    ∃ location, fs.fileLocation path = .ok location ∧
      (fs.write path file fault = (fs.put location (.file file), .ok ()) ∨
        ∃ part refusal,
          fs.write path file fault = (fs.put location (.file part), .error refusal)) := by
  unfold write
  split
  · exact .inl ⟨_, rfl⟩
  next location chosen => exact .inr ⟨location, chosen, .inl rfl⟩
  next location fault chosen =>
    split
    · exact .inl ⟨_, rfl⟩
    · exact .inr ⟨location, chosen, .inr ⟨_, _, rfl⟩⟩

section Directories

variable {faults : DirectoryFaults} {path : String}

theorem makeDirectory_cases (success : fs.makeDirectory path faults = .ok after) :
    ∃ location, fs.newLocation path = .ok location ∧ after = fs.put location .directory := by
  rw [makeDirectory] at success
  split at success
  · cases success
  · cases success
  next location chosen _ =>
    cases success
    exact ⟨location, chosen, rfl⟩

theorem makeDirectory_grows (success : fs.makeDirectory path faults = .ok after) :
    GrowsByDirectories fs after := by
  obtain ⟨location, chosen, rfl⟩ := makeDirectory_cases success
  obtain ⟨_, _, -, -, -, -, -, -, absent⟩ := newLocation_cases chosen
  exact ⟨_, grows_put absent .directory, by simp⟩

section Keeping

variable {holds : FileSystem → Prop}
  (step : ∀ {fs after path}, holds fs → makeDirectory fs path faults = .ok after → holds after)
include step

/-- What holds after each directory that is made holds after all of them, also when making
them fails halfway. -/
theorem makeDirectoriesUp_keeps (paths : List String) (start : holds fs) :
    holds (fs.makeDirectoriesUp faults paths).1 := by
  induction paths with
  | nil => exact start
  | cons path above ih =>
    rw [makeDirectoriesUp]
    split
    next made => exact step start made
    · split
      next failed =>
        rw [failed] at ih
        exact ih
      next reached succeeded =>
        rw [succeeded] at ih
        split
        next made => exact step ih made
        · split <;> exact ih
    · split <;> exact start

theorem makeDirectories_keeps (path : String) (start : holds fs) :
    holds (fs.makeDirectories path faults).1 := by
  rw [makeDirectories]
  split
  · exact start
  · exact makeDirectoriesUp_keeps step _ start

end Keeping

theorem makeDirectories_grows (fs : FileSystem) (path : String) (faults : DirectoryFaults) :
    GrowsByDirectories fs (fs.makeDirectories path faults).1 :=
  makeDirectories_keeps (fun grown made => grown.trans (makeDirectory_grows made)) path (.refl fs)

end Directories

end CallAtlas.FileSystem
