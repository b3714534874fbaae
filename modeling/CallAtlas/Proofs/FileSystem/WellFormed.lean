import CallAtlas.FileSystem.Snapshot
import CallAtlas.Proofs.FileSystem.Entry
/-!
File systems as they can come to be. Nothing is listed twice, and everything is held by a
directory under a proper name. Each operation keeps it so (`wellFormed_layAll`), because what
it puts somewhere new goes into a directory that following a path has reached
(`WellFormed.leads_cases`).
-/
namespace CallAtlas.FileSystem

open CallAtlas.Path (Step IsPlain IsName)

variable {fs before after : FileSystem} {last : LastStep} {links : Nat}
  {place location holder : Location} {path name target : String} {item : Item}
  {file : File} {steps : List Step} {added : List (Location × Item)}

/-- Everything is listed once and held by a directory. -/
structure WellFormed (fs : FileSystem) : Prop where
  distinct : (fs.items.map (·.1)).Nodup
  held : ∀ entry ∈ fs.items, ∃ holder name,
    entry.1 = holder ++ [name] ∧ IsName name ∧ fs.item? holder = some .directory
  start : fs.item? fs.workingDirectory = some .directory
  /-- The target of a link can be followed as far as its letters go. -/
  writable : ∀ entry ∈ fs.items, ∀ target, entry.2 = .link target →
    Char.ofNat 0 ∉ target.toList

theorem wellFormed_empty : WellFormed {} where
  distinct := by simp
  held := by simp
  start := rfl
  writable := by simp

theorem WellFormed.held_of_item? (wellFormed : fs.WellFormed)
    (found : fs.item? (holder ++ [name]) = some item) :
    IsName name ∧ fs.item? holder = some .directory := by
  obtain ⟨place, other, same, named, directory⟩ :=
    wellFormed.held _ (mem_of_item? (by simp) found)
  obtain ⟨rfl, ⟨⟩⟩ := List.append_inj' same rfl
  exact ⟨named, directory⟩

/-- What holds a directory is a directory; the top one holds itself. -/
theorem WellFormed.above (wellFormed : fs.WellFormed)
    (directory : fs.item? place = some .directory) :
    fs.item? place.dropLast = some .directory := by
  rcases place.eq_nil_or_concat' with rfl | ⟨holder, name, rfl⟩
  · exact directory
  · rw [List.dropLast_concat]
    exact (wellFormed.held_of_item? directory).2

theorem WellFormed.startOf (wellFormed : fs.WellFormed) (path : String) :
    fs.item? (fs.startOf path) = some .directory := by
  rw [FileSystem.startOf]
  split
  · rfl
  · exact wellFormed.start

/-- Steps from a directory lead to a directory. If they end in a name they may also lead to a
file, or to where one can be made. -/
theorem WellFormed.leads_cases (wellFormed : fs.WellFormed) (passing : last ≠ .keep)
    (directory : fs.item? place = some .directory)
    (plain : ∀ name, .enter name ∈ steps → IsPlain name)
    (leads : Leads fs last links place steps location) :
    fs.item? location = some .directory ∨
      (∃ name, steps.getLast? = some (.enter name)) ∧
        ((∃ file, fs.item? location = some (.file file)) ∨
          last = .create ∧ fs.item? location = none ∧
            ∃ holder name, location = holder ++ [name] ∧ IsName name ∧
              fs.item? holder = some .directory) := by
  have ending {step : Step} {rest : List Step} {name : String}
      (ends : rest.getLast? = some (.enter name)) :
      (step :: rest).getLast? = some (.enter name) := by
    rw [List.getLast?_cons, ends, Option.getD_some]
  induction leads with
  | here => exact .inl directory
  | stay _ ih | slash _ ih =>
    exact (ih directory fun name among => plain name (.tail _ among)).imp_right
      (.imp_left fun ⟨name, ends⟩ => ⟨name, ending ends⟩)
  | up _ ih =>
    exact (ih (wellFormed.above directory) fun name among => plain name (.tail _ among)).imp_right
      (.imp_left fun ⟨name, ends⟩ => ⟨name, ending ends⟩)
  | directory _ _ found _ ih =>
    exact (ih found fun name among => plain name (.tail _ among)).imp_right
      (.imp_left fun ⟨name, ends⟩ => ⟨name, ending ends⟩)
  | @file _ _ name file _ found => exact .inr ⟨⟨name, rfl⟩, .inl ⟨file, found⟩⟩
  | @missing _ place name creating short absent =>
    refine .inr ⟨⟨name, rfl⟩, .inr ⟨creating, absent, place, name, rfl, ?_, directory⟩⟩
    exact ⟨plain name List.mem_cons_self, short⟩
  | kept keeping => exact absurd keeping passing
  | @link _ place name rest _ target _ _ _ found _ ih =>
    have onward : fs.item? (if Path.isAbsolute target then [] else place) = some .directory := by
      split
      · rfl
      · exact directory
    have spelled := wellFormed.writable _ (mem_of_item? (by simp) found) target rfl
    have plain_on : ∀ name, .enter name ∈ Path.steps target ++ rest → IsPlain name := by
      intro other among
      rcases List.mem_append.mp among with among | among
      · exact Path.isPlain_of_mem_steps spelled among
      · exact plain other (.tail _ among)
    refine (ih onward plain_on).imp_right (.imp_left fun ⟨other, ends⟩ => ?_)
    rcases eq_or_ne rest [] with rfl | more
    · exact ⟨name, rfl⟩
    · rw [List.getLast?_append, Option.or_of_isSome (by simpa using more)] at ends
      exact ⟨other, ending ends⟩

theorem pathError?_eq_none_iff :
    pathError? path = none ↔
      Char.ofNat 0 ∉ path.toList ∧ path ≠ "" ∧ path.utf8ByteSize ≤ maxPath := by
  rw [pathError?]
  by_cases spelled : Char.ofNat 0 ∈ path.toList
  · simp [spelled]
  · by_cases filled : path = "" <;> by_cases long : maxPath < path.utf8ByteSize <;>
      simp [spelled, filled]

/-- A path leads to a directory, to a file, or to where a file can be made. -/
theorem WellFormed.locate_cases (wellFormed : fs.WellFormed) (passing : last ≠ .keep)
    (located : fs.locate path last = .ok location) :
    fs.item? location = some .directory ∨ (∃ file, fs.item? location = some (.file file)) ∨
      last = .create ∧ fs.item? location = none ∧
        ∃ holder name, location = holder ++ [name] ∧ IsName name ∧
          fs.item? holder = some .directory := by
  obtain ⟨writable, leads⟩ := locate_eq_ok_iff.mp located
  have spelled := (pathError?_eq_none_iff.mp writable).1
  have plain : ∀ name, .enter name ∈ Path.steps path → IsPlain name :=
    fun name => Path.isPlain_of_mem_steps spelled
  exact (wellFormed.leads_cases passing (wellFormed.startOf path) plain leads).imp_right And.right

theorem WellFormed.item_of_locate (wellFormed : fs.WellFormed)
    (located : fs.locate path = .ok location) :
    fs.item? location = some .directory ∨ ∃ file, fs.item? location = some (.file file) :=
  (wellFormed.locate_cases (by simp) located).imp_right
    (Or.resolve_right · fun other => by cases other.1)

/-- What a path is to be looked up in is a directory. -/
theorem WellFormed.holder_directory (wellFormed : fs.WellFormed)
    (held : fs.holder path = .ok holder) : fs.item? holder = some .directory := by
  obtain ⟨writable, leads⟩ := holder_eq_ok_iff.mp held
  have spelled := (pathError?_eq_none_iff.mp writable).1
  have plain : ∀ name,
      .enter name ∈ (Path.names path).dropLast.map Step.ofName ++ [.slash] → IsPlain name := by
    intro name among
    rw [List.mem_append, List.mem_singleton, List.map_dropLast] at among
    refine Path.isPlain_of_mem_names spelled (List.mem_of_mem_dropLast ?_)
    exact among.resolve_right (by simp)
  rcases wellFormed.leads_cases (by simp) (wellFormed.startOf path) plain leads with
    directory | ⟨⟨name, ends⟩, -⟩
  · exact directory
  · simp at ends

theorem isName_of_holder (held : fs.holder path = .ok holder)
    (last : (Path.names path).getLast? = some name) (not_here : name ≠ ".") (not_up : name ≠ "..")
    (short : name.utf8ByteSize ≤ maxName) : IsName name := by
  have writable := (pathError?_eq_none_iff.mp (holder_eq_ok_iff.mp held).1).1
  obtain ⟨filled, undivided, within⟩ := Path.mem_names (List.mem_of_getLast? last)
  exact ⟨⟨filled, undivided, fun inside => writable (within inside), not_here, not_up⟩, short⟩

theorem IsEntry.isName (entry : fs.IsEntry path holder name) : IsName name :=
  isName_of_holder entry.held entry.ends.last entry.ends.not_here entry.ends.not_up entry.short

/-- Growing keeps a file system in order if what is added is held by directories. -/
theorem Grows.wellFormed (grows : Grows before after added) (wellFormed : before.WellFormed)
    (held : ∀ entry ∈ added, ∃ holder name, entry.1 = holder ++ [name] ∧ IsName name ∧
      after.item? holder = some .directory)
    (writable : ∀ entry ∈ added, ∀ target, entry.2 = .link target →
      Char.ofNat 0 ∉ target.toList) : after.WellFormed where
  distinct := by
    rw [grows.items, List.map_append, List.nodup_append]
    refine ⟨wellFormed.distinct, grows.distinct, ?_⟩
    rintro _ old _ new rfl
    obtain ⟨entry, listed, rfl⟩ := List.mem_map.mp old
    obtain ⟨other, among, same⟩ := List.mem_map.mp new
    have absent := (item?_eq_none_iff.mp (grows.fresh other among)).2
    exact absent entry listed same.symm
  held entry listed := by
    rw [grows.items] at listed
    rcases List.mem_append.mp listed with listed | among
    · obtain ⟨holder, name, same, named, directory⟩ := wellFormed.held entry listed
      exact ⟨holder, name, same, named, grows.keeps.item directory⟩
    · exact held entry among
  start := by
    rw [grows.start]
    exact grows.keeps.item wellFormed.start
  writable entry listed := by
    rw [grows.items] at listed
    exact (List.mem_append.mp listed).elim (wellFormed.writable entry) (writable entry)

theorem WellFormed.put (wellFormed : fs.WellFormed)
    (directory : fs.item? holder = some .directory) (named : IsName name)
    (absent : fs.item? (holder ++ [name]) = none) (item : Item)
    (writable : ∀ target, item = .link target → Char.ofNat 0 ∉ target.toList) :
    (fs.put (holder ++ [name]) item).WellFormed := by
  have grows := grows_put absent item
  refine grows.wellFormed wellFormed ?_ (by simpa using writable)
  simp only [List.mem_singleton, forall_eq]
  exact ⟨holder, name, rfl, named, grows.keeps.item directory⟩

/-- Something new is put in a directory under a proper name. -/
theorem WellFormed.put_new (wellFormed : fs.WellFormed)
    (chosen : fs.newLocation path = .ok location) (item : Item)
    (writable : ∀ target, item = .link target → Char.ofNat 0 ∉ target.toList) :
    (fs.put location item).WellFormed := by
  obtain ⟨place, name, held, last, not_here, not_up, short, rfl, absent⟩ :=
    newLocation_cases chosen
  exact wellFormed.put (wellFormed.holder_directory held)
    (isName_of_holder held last not_here not_up short) absent item writable

theorem WellFormed.makeDirectory {faults : DirectoryFaults} (wellFormed : fs.WellFormed)
    (success : fs.makeDirectory path faults = .ok after) : after.WellFormed := by
  obtain ⟨location, chosen, rfl⟩ := makeDirectory_cases success
  exact wellFormed.put_new chosen .directory (by simp)

theorem WellFormed.makeDirectories (wellFormed : fs.WellFormed) (path : String)
    (faults : DirectoryFaults) : (fs.makeDirectories path faults).1.WellFormed :=
  makeDirectories_keeps WellFormed.makeDirectory path wellFormed

theorem WellFormed.makeLink (wellFormed : fs.WellFormed)
    (success : fs.makeLink path target = .ok after) : after.WellFormed := by
  rw [FileSystem.makeLink] at success
  split at success
  · cases success
  next writable =>
    split at success
    · cases success
    next location chosen =>
      split at success
      · cases success
      · cases success
        refine wellFormed.put_new chosen _ fun other same => ?_
        cases same
        exact (pathError?_eq_none_iff.mp writable).1

theorem lookup_put_other {items : List (Location × Item)} (different : place ≠ location)
    (item : Item) :
    (items.map fun entry => if entry.1 = location then (location, item) else entry).lookup place =
      items.lookup place := by
  induction items with
  | nil => rfl
  | cons entry rest ih =>
    rw [List.map_cons, List.lookup_cons, List.lookup_cons, ih]
    by_cases same : entry.1 = location
    · simp only [same, if_true, beq_eq_false_iff_ne.mpr different]
    · simp only [same, if_false]

/-- A file may be replaced by another. -/
theorem WellFormed.replace (wellFormed : fs.WellFormed)
    (found : fs.item? location = some (.file file)) (other : File) :
    (fs.put location (.file other)).WellFormed := by
  have filled : location ≠ [] := by
    rintro rfl
    cases found
  have listed : fs.items.any (·.1 == location) = true :=
    List.any_eq_true.mpr ⟨_, mem_of_item? filled found, by simp⟩
  have replaced : fs.put location (.file other) =
      { fs with items := fs.items.map fun entry =>
          if entry.1 = location then (location, .file other) else entry } := by
    simp [FileSystem.put, listed]
  -- A directory stands elsewhere, so it is still there.
  have still {place : Location} (directory : fs.item? place = some .directory) :
      (fs.put location (.file other)).item? place = some .directory := by
    have different : place ≠ location := by
      rintro rfl
      simp [found] at directory
    rw [replaced, item?]
    split
    · rfl
    next below =>
      rw [lookup_put_other different]
      rwa [item?, if_neg below] at directory
  have kept : (fs.put location (.file other)).items.map (·.1) = fs.items.map (·.1) := by
    rw [replaced, List.map_map]
    refine List.map_congr_left fun entry _ => ?_
    by_cases same : entry.1 = location <;> simp [same]
  refine ⟨kept ▸ wellFormed.distinct, fun entry among => ?_, ?_, fun entry among target link => ?_⟩
  · have old : entry.1 ∈ fs.items.map (·.1) := kept ▸ List.mem_map_of_mem among
    obtain ⟨stood, before, same⟩ := List.mem_map.mp old
    obtain ⟨holder, name, spot, named, directory⟩ := wellFormed.held stood before
    exact ⟨holder, name, same.symm.trans spot, named, still directory⟩
  · have start := still wellFormed.start
    rwa [replaced] at start ⊢
  · rw [replaced] at among
    obtain ⟨stood, before, rfl⟩ := List.mem_map.mp among
    split at link
    · cases link
    · exact wellFormed.writable stood before target link

theorem WellFormed.put_file (wellFormed : fs.WellFormed)
    (chosen : fs.fileLocation path = .ok location) (file : File) :
    (fs.put location (.file file)).WellFormed := by
  rw [fileLocation] at chosen
  split at chosen
  · cases chosen
  next reached located =>
    split at chosen
    · cases chosen
    next solid =>
      cases chosen
      rcases wellFormed.locate_cases (by simp) located with
        directory | ⟨old, found⟩ | ⟨-, absent, holder, name, rfl, named, directory⟩
      · exact absurd directory solid
      · exact wellFormed.replace found _
      · exact wellFormed.put directory named absent _ (by simp)

/-- Writing a file keeps a file system in order, also if it stops halfway. -/
theorem WellFormed.write (wellFormed : fs.WellFormed) (path : String) (file : File)
    (fault : Option Fault) : (fs.write path file fault).1.WellFormed := by
  rcases fs.write_cases path file fault with
    ⟨_, stopped⟩ | ⟨location, chosen, written | ⟨part, _, cut⟩⟩
  · rwa [stopped]
  · rw [written]
    exact wellFormed.put_file chosen file
  · rw [cut]
    exact wellFormed.put_file chosen part

/-- Laying an entry keeps a file system in order, also if the entry has to be left out. -/
theorem WellFormed.lay (wellFormed : fs.WellFormed) (entry : Entry) :
    (fs.lay entry).WellFormed := by
  have laid {outcome : Except OsError FileSystem} {start : FileSystem} (wellFormed : start.WellFormed)
      (kept : ∀ after, outcome = .ok after → after.WellFormed) :
      (outcome.toOption.getD start).WellFormed := by
    cases outcome with
    | error cause => exact wellFormed
    | ok after => exact kept after rfl
  have reached := wellFormed.makeDirectories (Path.parent entry.path) fun _ => none
  rw [FileSystem.lay]
  generalize fs.makeDirectories (Path.parent entry.path) = made at reached ⊢
  obtain ⟨start, _⟩ := made
  dsimp only at reached ⊢
  split
  · exact wellFormed.makeDirectories entry.path _
  · exact laid reached fun _ => reached.makeLink
  · exact reached.write ..

/-- A file system that entries are laid into stays in order. -/
theorem wellFormed_layAll (wellFormed : fs.WellFormed) (entries : List Entry) :
    (fs.layAll entries).WellFormed := by
  rw [layAll]
  induction entries generalizing fs with
  | nil => exact wellFormed
  | cons entry rest ih => exact ih (wellFormed.lay entry)

/-- A file system is in order if it can be laid out from what it holds. -/
theorem wellFormed_of_laid
    (laid : layAll {} (fs.items.map fun stored => ⟨Text.join "/" stored.1, stored.2⟩) = fs) :
    fs.WellFormed :=
  laid ▸ wellFormed_layAll wellFormed_empty _

end CallAtlas.FileSystem
