import CallAtlas.Proofs.FileSystem.Entry
/-!
An export writes all of its files or none. Files are written one after another, each to a path
that is free, so every one of them is added where nothing stood (`Writes.grows`), and so is the
part of one that the device cuts short (`writesUpTo_writeArtifacts`). Clearing up goes by what is
found and not by what was written, and in another order; but at a path that was free only a file
of the run can be found, so it takes away exactly those (`foldl_removeFile_eq`).

Whatever the device refuses is covered, at every step of every artifact. That a file of the run
can be taken away again is not in doubt here: `remove` fails on directories only.
-/
namespace CallAtlas

open CallAtlas.Path (EndsIn)

/-- The files of a run, in the order in which they are written. -/
def Artifacts.files (artifacts : Artifacts) (encode : ImageEncoder) (graph : CallGraph) :
    List (String × File) :=
  artifacts.image.toList.map (·, ⟨encode (Drawing.render graph), .blank⟩) ++
    [(artifacts.json, ⟨graph.nodeLink.render.toUTF8.toList, .blank⟩),
      (artifacts.csv, ⟨graph.flatTable.toUTF8.toList, .blank⟩)]

def Path.EndApart (paths : List String) : Prop :=
  paths.Pairwise fun one two => (names one).getLast? ≠ (names two).getLast?

namespace FileSystem

variable {fs before middle after : FileSystem} {path name : String}
  {files more written : List (String × File)} {added : List (Location × Item)}
  {encode : ImageEncoder} {graph : CallGraph}

/-- Files get to their places one after another. -/
inductive Writes : FileSystem → List (String × File) → FileSystem → Prop where
  | nil (fs : FileSystem) : Writes fs [] fs
  | cons {fs after path file rest location} (chosen : fs.fileLocation path = .ok location)
      (further : Writes (fs.put location (.file file)) rest after) :
      Writes fs ((path, file) :: rest) after

theorem Writes.append (first : Writes before written middle) (second : Writes middle more after) :
    Writes before (written ++ more) after := by
  induction first with
  | nil => exact second
  | cons chosen _ ih => exact .cons chosen (ih second)

/-- What is left of files that were to be written in order: something at the first few of their
paths, and if all went well, the files themselves. -/
def WritesUpTo (fs : FileSystem) (files : List (String × File))
    (result : FileSystem × Except ExportError Unit) : Prop :=
  ∃ written, Writes fs written result.1 ∧ written.map (·.1) <+: files.map (·.1) ∧
    (result.2 = .ok () → written = files)

theorem WritesUpTo.nothing (fs : FileSystem) (files : List (String × File)) (cause : ExportError) :
    WritesUpTo fs files (fs, .error cause) :=
  ⟨[], .nil fs, List.nil_prefix, nofun⟩

theorem WritesUpTo.failed {cause : ExportError} (part : WritesUpTo fs files (after, .error cause))
    (more : List (String × File)) : WritesUpTo fs (files ++ more) (after, .error cause) := by
  obtain ⟨written, writes, early, -⟩ := part
  refine ⟨written, writes, ?_, nofun⟩
  rw [List.map_append]
  exact early.trans (List.prefix_append ..)

theorem WritesUpTo.andThen {result : FileSystem × Except ExportError Unit}
    (first : WritesUpTo fs files (middle, .ok ())) (second : WritesUpTo middle more result) :
    WritesUpTo fs (files ++ more) result := by
  obtain ⟨whole, writes, -, complete⟩ := first
  obtain rfl := complete rfl
  obtain ⟨written, further, early, rest⟩ := second
  refine ⟨whole ++ written, writes.append further, ?_, fun success => by rw [rest success]⟩
  simpa using early

/-- The device may stop a file at any step: then there is nothing of it, or a part. -/
theorem writesUpTo_writeArtifact (fs : FileSystem) (report : Refusal → ExportError) (path : String)
    (bytes : List UInt8) (fault : Option Fault) :
    WritesUpTo fs [(path, ⟨bytes, .blank⟩)] (fs.writeArtifact report path bytes fault) := by
  rw [writeArtifact]
  rcases fs.write_cases path ⟨bytes, .blank⟩ fault with
    ⟨_, stopped⟩ | ⟨location, chosen, written | ⟨part, _, cut⟩⟩
  · rw [stopped]
    exact .nothing ..
  · rw [written]
    exact ⟨_, .cons chosen (.nil _), List.prefix_rfl, fun _ => rfl⟩
  · rw [cut]
    exact ⟨[(path, part)], .cons chosen (.nil _), List.prefix_rfl, nofun⟩

theorem writesUpTo_writeImage (fs : FileSystem) (encode : ImageEncoder) (graph : CallGraph)
    (path : String) (drawing : Option RenderError) (fault : Option Fault) :
    WritesUpTo fs [(path, ⟨encode (Drawing.render graph), .blank⟩)]
      (fs.writeImage encode graph path drawing fault) := by
  unfold writeImage
  generalize Drawing.render graph = scene
  dsimp only
  split
  · exact .nothing ..
  · exact .nothing ..
  · exact writesUpTo_writeArtifact ..

/-- Artifacts are written in order, up to the one at which something goes wrong. -/
theorem writesUpTo_writeArtifacts (fs : FileSystem) (encode : ImageEncoder) (graph : CallGraph)
    (artifacts : Artifacts) (faults : Faults) :
    WritesUpTo fs (artifacts.files encode graph)
      (fs.writeArtifacts encode graph artifacts faults) := by
  have image : WritesUpTo fs (artifacts.image.toList.map
      (·, ⟨encode (Drawing.render graph), .blank⟩))
      (fs.writeImage? encode graph artifacts.image faults) := by
    cases artifacts.image with
    | none => exact ⟨[], .nil fs, List.prefix_rfl, fun _ => rfl⟩
    | some path => exact writesUpTo_writeImage fs encode graph path faults.drawing faults.image
  rw [writeArtifacts, Artifacts.files]
  split
  next failed =>
    rw [failed] at image
    exact image.failed _
  next drawn done =>
    rw [done] at image
    refine image.andThen ?_
    have document := writesUpTo_writeArtifact drawn (.ofDocument artifacts.json) artifacts.json
      graph.nodeLink.render.toUTF8.toList faults.document
    rw [← writeNodeLink] at document
    split
    next failed =>
      rw [failed] at document
      exact document.failed _
    next linked done =>
      rw [done] at document
      exact document.andThen (writesUpTo_writeArtifact ..)

/-- A free path stays free when files are added elsewhere. -/
theorem IsFree.grown (free : before.IsFree path) (ends : EndsIn path name)
    (grows : Grows before after added) (files : ∀ entry ∈ added, ∃ file, entry.2 = .file file)
    (apart : ∀ holder, before.IsEntry path holder name →
      ∀ file, (holder ++ [name], .file file) ∉ added) : after.IsFree path := by
  rw [isFree_iff ends] at free ⊢
  intro holder entry
  have entry := entry.without_files grows files
  have unlisted : added.lookup (holder ++ [name]) = none := by
    rw [List.lookup_eq_none_iff]
    rintro ⟨location, item⟩ among
    rw [bne_iff_ne]
    rintro rfl
    obtain ⟨file, rfl⟩ := files _ among
    exact apart holder entry file among
  rw [grows.item?_eq, unlisted, Option.or_none]
  exact free holder entry

def Stored (fs : FileSystem) (file : String × File) (added : Location × Item) : Prop :=
  ∃ holder name, fs.IsEntry file.1 holder name ∧ added = (holder ++ [name], .file file.2)

/-- What was added is the given files, each at its place. -/
structure StoresAll (fs : FileSystem) (files : List (String × File))
    (added : List (Location × Item)) : Prop where
  each : ∀ file ∈ files, ∃ entry ∈ added, fs.Stored file entry
  only : ∀ entry ∈ added, ∃ file ∈ files, fs.Stored file entry

/-- Files written one after another to free paths are added. -/
theorem Writes.grows (writes : Writes fs written after)
    (ends : ∀ file ∈ written, ∃ name, EndsIn file.1 name)
    (apart : Path.EndApart (written.map (·.1)))
    (free : ∀ file ∈ written, fs.IsFree file.1) :
    ∃ added, Grows fs after added ∧ fs.StoresAll written added := by
  induction writes with
  | nil fs => exact ⟨[], .refl fs, by simp, by simp⟩
  | @cons fs after path file rest location chosen further ih =>
    obtain ⟨different, apart⟩ := List.pairwise_cons.mp apart
    obtain ⟨name, here⟩ := ends _ List.mem_cons_self
    obtain ⟨holder, entry, absent, rfl⟩ :=
      (free _ List.mem_cons_self).fileLocation_cases here chosen
    have grows := grows_put absent (.file file)
    have files : ∀ entry ∈ [(holder ++ [name], Item.file file)], ∃ file, entry.2 = .file file := by
      simp
    have still : ∀ other ∈ rest, (fs.put (holder ++ [name]) (.file file)).IsFree other.1 := by
      intro other among
      obtain ⟨there, at_end⟩ := ends other (.tail _ among)
      refine (free other (.tail _ among)).grown at_end grows files fun spot _ _ same => ?_
      have different := different other.1 (List.mem_map_of_mem among)
      rw [here.last, at_end.last] at different
      simp only [List.mem_singleton, Prod.mk.injEq] at same
      obtain ⟨-, ⟨⟩⟩ := List.append_inj' same.1 rfl
      exact different rfl
    obtain ⟨added, more, stores⟩ := ih (fun other among => ends other (.tail _ among)) apart still
    have earlier {other : String × File} {entry : Location × Item}
        (stored : (fs.put (holder ++ [name]) (.file file)).Stored other entry) :
        fs.Stored other entry := by
      obtain ⟨there, spot, also, rfl⟩ := stored
      exact ⟨there, spot, also.without_files grows files, rfl⟩
    refine ⟨_, grows.trans more, fun other among => ?_, fun new among => ?_⟩
    · rcases List.mem_cons.mp among with rfl | among
      · exact ⟨_, List.mem_cons_self, holder, name, entry, rfl⟩
      · obtain ⟨new, listed, stored⟩ := stores.each other among
        exact ⟨new, .tail _ listed, earlier stored⟩
    · rcases List.mem_cons.mp among with rfl | among
      · exact ⟨_, List.mem_cons_self, holder, name, entry, rfl⟩
      · obtain ⟨other, listed, stored⟩ := stores.only new among
        exact ⟨other, .tail _ listed, earlier stored⟩

/-- Clearing up free paths takes away exactly the files that were added at them. -/
theorem foldl_removeFile_eq {paths : List String} (ends : ∀ path ∈ paths, ∃ name, EndsIn path name)
    (free : ∀ path ∈ paths, before.IsFree path) (grows : Grows before after added)
    (stored : ∀ entry ∈ added, ∃ path ∈ paths, ∃ file, before.Stored (path, file) entry) :
    paths.foldl removeFile after = before := by
  induction paths generalizing after added with
  | nil =>
    have nothing : added = [] := List.eq_nil_iff_forall_not_mem.mpr fun entry among => by
      simpa using stored entry among
    rw [nothing] at grows
    exact grows.eq_of_nil
  | cons path paths ih =>
    obtain ⟨name, here⟩ := ends path List.mem_cons_self
    have later := fun path among => ends path (.tail _ among)
    have empty := fun path among => free path (.tail _ among)
    rw [List.foldl_cons]
    by_cases written : ∃ holder file, before.IsEntry path holder name ∧
        (holder ++ [name], Item.file file) ∈ added
    · obtain ⟨holder, file, entry, among⟩ := written
      rw [(entry.mono grows.keeps).removeFile_eq (grows.item_added among)]
      refine ih later empty (grows.erase (grows.fresh _ among)) fun other also => ?_
      rw [List.mem_filter, bne_iff_ne] at also
      obtain ⟨place, listed, file, spot, ending, there, rfl⟩ := stored other also.1
      rcases List.mem_cons.mp listed with rfl | listed
      · -- The path has one entry only, and that one is gone.
        obtain rfl := here.unique there.ends
        exact absurd (congrArg (· ++ [name]) (there.unique entry)) also.2
      · exact ⟨place, listed, file, spot, ending, there, rfl⟩
    · have files : ∀ entry ∈ added, ∃ file, entry.2 = .file file := by
        intro entry among
        obtain ⟨_, -, file, _, _, -, rfl⟩ := stored entry among
        exact ⟨file, rfl⟩
      have unfilled := (free path List.mem_cons_self).grown here grows files
        fun holder entry file among => written ⟨holder, file, entry, among⟩
      rw [removeFile_eq_self here unfilled]
      refine ih later empty grows fun other also => ?_
      obtain ⟨place, listed, file, spot, ending, there, rfl⟩ := stored other also
      rcases List.mem_cons.mp listed with rfl | listed
      · obtain rfl := here.unique there.ends
        exact absurd ⟨spot, file, there, also⟩ written
      · exact ⟨place, listed, file, spot, ending, there, rfl⟩

/-- A file system is another one with files added at their paths. -/
structure AddsFiles (before after : FileSystem) (files : List (String × File)) : Prop where
  /-- Each path leads to its file, where nothing stood. -/
  each : ∀ file ∈ files, ∃ location, after.locate file.1 = .ok location ∧
    before.item? location = none ∧ after.item? location = some (.file file.2)
  /-- No two of them are one. -/
  apart : files.Pairwise fun one two => after.locate one.1 ≠ after.locate two.1
  /-- Everywhere else things are as they were. -/
  only : ∀ location, (∀ file ∈ files, after.locate file.1 ≠ .ok location) →
    after.item? location = before.item? location
  start : after.workingDirectory = before.workingDirectory

theorem StoresAll.addsFiles (stores : before.StoresAll files added)
    (grows : Grows before after added) (apart : Path.EndApart (files.map (·.1))) :
    AddsFiles before after files := by
  have located {file : String × File} {entry : Location × Item} (among : entry ∈ added)
      (stored : before.Stored file entry) :
      after.locate file.1 = .ok entry.1 ∧ entry.1.getLast? = (Path.names file.1).getLast? ∧
        entry.2 = .file file.2 := by
    obtain ⟨holder, name, there, rfl⟩ := stored
    have leads : after.locate file.1 .follow = .ok (holder ++ [name]) :=
      (there.mono grows.keeps).locate_present (grows.item_added among) (by simp)
    exact ⟨leads, by simp [there.ends.last], rfl⟩
  refine ⟨fun file among => ?_, ?_, fun location elsewhere => ?_, grows.start⟩
  · obtain ⟨⟨location, item⟩, listed, stored⟩ := stores.each file among
    obtain ⟨leads, -, rfl⟩ := located listed stored
    exact ⟨location, leads, grows.fresh _ listed, grows.item_added listed⟩
  · refine (List.pairwise_map.mp apart).imp_of_mem fun {one two} first second different same => ?_
    obtain ⟨here, listed, stored⟩ := stores.each one first
    obtain ⟨there, also, placed⟩ := stores.each two second
    obtain ⟨leads, ending, -⟩ := located listed stored
    obtain ⟨other, last, -⟩ := located also placed
    rw [leads, other, Except.ok.injEq] at same
    exact different (by rw [← ending, ← last, same])
  · have unlisted : added.lookup location = none := by
      rw [List.lookup_eq_none_iff]
      intro entry among
      rw [bne_iff_ne]
      rintro rfl
      obtain ⟨file, listed, stored⟩ := stores.only entry among
      exact elsewhere file listed (located among stored).1
    rw [grows.item?_eq, unlisted, Option.or_none]

end FileSystem

namespace Artifacts

def extensions : List String := [".json", ".csv", ".png"]

def IsNameOf (runId name : String) : Prop :=
  ∃ extension ∈ extensions, name = Text.lastSegment "/" runId ++ extension

variable {out runId : String} {withImage : Bool}

theorem endsIn_path {extension : String} (known : extension ∈ extensions) :
    EndsIn (Path.join out (runId ++ extension)) (Text.lastSegment "/" runId ++ extension) := by
  have fits : extension ≠ "" ∧ '/' ∉ extension.toList ∧ 2 < extension.toList.length := by
    revert extension
    decide
  obtain ⟨filled, undivided, long⟩ := fits
  have longer {short : String} (few : short.toList.length ≤ 2) :
      Text.lastSegment "/" runId ++ extension ≠ short := by
    rintro rfl
    rw [String.toList_append, List.length_append] at few
    omega
  refine ⟨?_, ?_, longer (by decide), longer (by decide)⟩
  · cases absolute : Path.isAbsolute (runId ++ extension) with
    | true =>
      have whole : Path.join out (runId ++ extension) = runId ++ extension := by
        simp [Path.join, absolute]
      rw [whole, Path.names_append filled undivided]
    | false =>
      rw [Path.names_join absolute, List.getLast?_append, Path.names_append filled undivided]
      rfl
  · rw [Path.asksDirectory_join (by simp [filled]), Path.asksDirectory_append filled,
      Path.asksDirectory_undivided undivided]

/-- The path of an artifact ends in its name. -/
theorem endsIn_of_mem_paths {path : String} (among : path ∈ (ofRun out runId withImage).paths) :
    ∃ name, EndsIn path name ∧ IsNameOf runId name := by
  have known {extension : String} (known : extension ∈ extensions) :
      ∃ name, EndsIn (Path.join out (runId ++ extension)) name ∧ IsNameOf runId name :=
    ⟨_, endsIn_path known, extension, known, rfl⟩
  simp only [paths, ofRun, List.mem_append, List.mem_cons, List.not_mem_nil, or_false,
    Option.mem_toList] at among
  rcases among with (rfl | rfl) | image
  · exact known (by decide)
  · exact known (by decide)
  · cases withImage with
    | true =>
      obtain rfl : Path.join out (runId ++ ".png") = path := by simpa using image
      exact known (by decide)
    | false => simp at image

variable (encode : ImageEncoder) (graph : CallGraph)

theorem mem_paths_iff (artifacts : Artifacts) (path : String) :
    path ∈ artifacts.paths ↔ ∃ file, (path, file) ∈ artifacts.files encode graph := by
  simp only [paths, files, List.mem_append, List.mem_map, List.mem_cons, List.not_mem_nil,
    or_false, Prod.mk.injEq]
  constructor
  · rintro ((rfl | rfl) | image)
    · exact ⟨_, .inr (.inl ⟨rfl, rfl⟩)⟩
    · exact ⟨_, .inr (.inr ⟨rfl, rfl⟩)⟩
    · exact ⟨_, .inl ⟨path, image, rfl, rfl⟩⟩
  · rintro ⟨file, ⟨_, image, rfl, -⟩ | ⟨rfl, -⟩ | ⟨rfl, -⟩⟩
    · exact .inr image
    · exact .inl (.inl rfl)
    · exact .inl (.inr rfl)

/-- No two files of a run have the same name. -/
theorem files_apart :
    Path.EndApart (((ofRun out runId withImage).files encode graph).map (·.1)) := by
  have spelled : ((ofRun out runId withImage).files encode graph).map (·.1) =
      ((if withImage then [".png"] else []) ++ [".json", ".csv"]).map fun extension =>
        Path.join out (runId ++ extension) := by
    cases withImage <;> rfl
  have known : ∀ extension ∈ (if withImage then [".png"] else []) ++ [".json", ".csv"],
      extension ∈ extensions := by
    cases withImage <;> decide
  have distinct : ((if withImage then [".png"] else []) ++ [".json", ".csv"]).Nodup := by
    cases withImage <;> decide
  rw [spelled, Path.EndApart, List.pairwise_map]
  refine distinct.imp_of_mem fun {one two} here there different => ?_
  rw [(endsIn_path (known one here)).last, (endsIn_path (known two there)).last]
  simpa [String.append_right_inj] using different

end Artifacts

namespace FileSystem

variable {fs : FileSystem} {out runId : String} {withImage : Bool}

/-- An export to free paths either changes nothing or adds the files of the run. -/
theorem exportAs_cases (encode : ImageEncoder) (graph : CallGraph) (faults : Faults)
    (free : ∀ path ∈ (Artifacts.ofRun out runId withImage).paths, fs.IsFree path) :
    (∃ cause, fs.exportAs encode graph out runId withImage faults = (fs, .error cause)) ∨
    ∃ after added, Grows fs after added ∧
      fs.StoresAll ((Artifacts.ofRun out runId withImage).files encode graph) added ∧
      fs.exportAs encode graph out runId withImage faults =
        (after, .ok (.ofRun out runId withImage)) := by
  have apart := @Artifacts.files_apart out runId withImage encode graph
  have listed := (Artifacts.ofRun out runId withImage).mem_paths_iff encode graph
  have ends : ∀ path ∈ (Artifacts.ofRun out runId withImage).paths, ∃ name, EndsIn path name :=
    fun _ known => (Artifacts.endsIn_of_mem_paths known).imp fun _ => And.left
  obtain ⟨written, writes, early, complete⟩ :=
    writesUpTo_writeArtifacts fs encode graph (.ofRun out runId withImage) faults
  have among : ∀ file ∈ written, file.1 ∈ (Artifacts.ofRun out runId withImage).paths := by
    intro file here
    obtain ⟨whole, there, same⟩ := List.mem_map.mp (early.subset (List.mem_map_of_mem here))
    rw [← same, listed]
    exact ⟨whole.2, there⟩
  obtain ⟨added, grows, stores⟩ := writes.grows (fun file here => ends _ (among file here))
    (apart.sublist early.sublist) fun file here => free _ (among file here)
  unfold exportAs
  dsimp only
  generalize fs.writeArtifacts encode graph (.ofRun out runId withImage) faults = outcome
    at grows complete ⊢
  obtain ⟨after, outcome⟩ := outcome
  cases outcome with
  | error cause =>
    refine .inl ⟨cause, ?_⟩
    have cleared := foldl_removeFile_eq ends free grows
      fun entry new =>
        have ⟨file, here, stored⟩ := stores.only entry new
        ⟨file.1, among file here, file.2, stored⟩
    dsimp only at cleared ⊢
    rw [cleared]
  | ok => exact .inr ⟨after, added, grows, complete rfl ▸ stores, rfl⟩

/-- A directory in the place of an artifact makes the export fail. -/
theorem exportAs_fails_of_directory (encode : ImageEncoder) (graph : CallGraph) (faults : Faults)
    (free : ∀ path ∈ (Artifacts.ofRun out runId withImage).paths, fs.IsFree path)
    {path : String} (among : path ∈ (Artifacts.ofRun out runId withImage).paths)
    (squats : fs.lstat path = .ok .directory) :
    ∃ cause, (fs.exportAs encode graph out runId withImage faults).2 = .error cause := by
  rcases exportAs_cases encode graph faults free with
    ⟨cause, failed⟩ | ⟨after, added, grows, stores, -⟩
  · exact ⟨cause, by rw [failed]⟩
  · obtain ⟨file, listed⟩ := (Artifacts.mem_paths_iff encode graph _ path).mp among
    obtain ⟨entry, new, holder, spot, there, rfl⟩ := stores.each _ listed
    obtain ⟨place, here, found⟩ := isEntry_of_lstat there.ends squats
    rw [here.unique there, grows.fresh _ new] at found
    cases found

/-- If neither a file nor a link stands at a path of the run, an export that fails leaves the
file system as it was, whatever went wrong at whichever artifact, and one that succeeds adds the
files of the run and nothing else. -/
theorem exportAs_all_or_nothing (fs : FileSystem) (encode : ImageEncoder) (graph : CallGraph)
    (out runId : String) (withImage : Bool) (faults : Faults)
    (free : ∀ path ∈ (Artifacts.ofRun out runId withImage).paths, fs.IsFree path) :
    (∀ after cause, fs.exportAs encode graph out runId withImage faults = (after, .error cause) →
      after = fs) ∧
    ∀ after artifacts,
      fs.exportAs encode graph out runId withImage faults = (after, .ok artifacts) →
      artifacts = .ofRun out runId withImage ∧
        fs.AddsFiles after (artifacts.files encode graph) := by
  rcases exportAs_cases encode graph faults free with
    ⟨cause, failed⟩ | ⟨after, added, grows, stores, done⟩
  · rw [failed]
    constructor
    · rintro after cause ⟨⟩
      rfl
    · rintro after artifacts ⟨⟩
  · rw [done]
    constructor
    · rintro after cause ⟨⟩
    · rintro after artifacts ⟨⟩
      exact ⟨rfl, stores.addsFiles grows (Artifacts.files_apart encode graph)⟩

section Runs

variable {holder : Location} {json csv : String}
  (document : fs.IsEntry (Path.join out (runId ++ ".json")) holder json)
  (table : fs.IsEntry (Path.join out (runId ++ ".csv")) holder csv)
  (no_document : fs.item? (holder ++ [json]) = none)
  (no_table : fs.item? (holder ++ [csv]) = none) (different : csv ≠ json)
include document table no_document no_table different

/-- Where two names are free in a directory, the document goes to the one and the table to the
other, as far as the device lets it. -/
theorem writeArtifacts_of_entries (encode : ImageEncoder) (graph : CallGraph)
    (fault : Option Fault) :
    ∃ first : File, (fs.put (holder ++ [json]) (.file first)).fileLocation
        (Path.join out (runId ++ ".csv")) = .ok (holder ++ [csv]) ∧
      fs.writeArtifacts encode graph (.ofRun out runId false) { table := fault } =
        (fs.put (holder ++ [json]) (.file first)).writeFlatTable graph
          (Path.join out (runId ++ ".csv")) fault := by
  refine ⟨⟨graph.nodeLink.render.toUTF8.toList, .blank⟩, ?_, ?_⟩
  · have grows := grows_put no_document (.file ⟨graph.nodeLink.render.toUTF8.toList, .blank⟩)
    refine (table.mono grows.keeps).fileLocation_eq ?_
    rw [grows.item?_eq, no_table, Option.none_or]
    simp [different]
  · simp only [writeArtifacts, writeImage?, Artifacts.ofRun, Bool.false_eq_true, if_false,
      writeNodeLink, writeArtifact, write, document.fileLocation_eq no_document, Except.mapError]

/-- Without an image, an export succeeds if two names are free in its directory. -/
theorem exportAs_of_entries (encode : ImageEncoder) (graph : CallGraph) :
    ∃ first second, fs.exportAs encode graph out runId false =
      ((fs.put (holder ++ [json]) (.file first)).put (holder ++ [csv]) (.file second),
        .ok (.ofRun out runId false)) := by
  obtain ⟨first, chosen, written⟩ := writeArtifacts_of_entries document table no_document no_table
    different encode graph none
  refine ⟨first, ⟨graph.flatTable.toUTF8.toList, .blank⟩, ?_⟩
  simp only [exportAs, written, writeFlatTable, writeArtifact, write, chosen, Except.mapError]

/-- A device that refuses in the middle of the table leaves a part of it, until this is cleared
away. -/
theorem exportAs_of_full_device (encode : ImageEncoder) (graph : CallGraph) (cause : OsError)
    (arrived : Nat) :
    ∃ first, fs.writeArtifacts encode graph (.ofRun out runId false)
          { table := some ⟨⟨.filling, cause⟩, arrived⟩ } =
        ((fs.put (holder ++ [json]) (.file first)).put (holder ++ [csv])
          (.file ⟨graph.flatTable.toUTF8.toList.take arrived, .blank⟩), .error (.csv cause)) ∧
      (fs.exportAs encode graph out runId false
        { table := some ⟨⟨.filling, cause⟩, arrived⟩ }).2 = .error (.csv cause) := by
  obtain ⟨first, chosen, written⟩ := writeArtifacts_of_entries document table no_document no_table
    different encode graph (some ⟨⟨.filling, cause⟩, arrived⟩)
  have cut : fs.writeArtifacts encode graph (.ofRun out runId false)
      { table := some ⟨⟨.filling, cause⟩, arrived⟩ } =
        ((fs.put (holder ++ [json]) (.file first)).put (holder ++ [csv])
          (.file ⟨graph.flatTable.toUTF8.toList.take arrived, .blank⟩), .error (.csv cause)) := by
    rw [written]
    simp only [writeFlatTable, writeArtifact, write, chosen, reduceCtorEq, if_false,
      Except.mapError, ExportError.ofTable]
  exact ⟨first, cut, by rw [exportAs, cut]⟩

end Runs

/-- A directory stands where the table of a run should go. -/
def squatted : FileSystem where
  items := [(["out"], .directory), (["out", "fixed.csv"], .directory)]

theorem squatted_lstat : squatted.lstat "out/fixed.json" = .error .notFound ∧
    squatted.lstat "out/fixed.csv" = .ok .directory ∧
    squatted.lstat "out/fixed.png" = .error .notFound :=
  ⟨rfl, rfl, rfl⟩

theorem squatted_isFree :
    ∀ path ∈ (Artifacts.ofRun "out" "fixed" true).paths, squatted.IsFree path := by
  have paths : (Artifacts.ofRun "out" "fixed" true).paths =
      ["out/fixed.json", "out/fixed.csv", "out/fixed.png"] := by rfl
  obtain ⟨json, csv, image⟩ := squatted_lstat
  rw [paths]
  simp [IsFree, json, csv, image]

def roomy : FileSystem where
  items := [(["out"], .directory)]

theorem roomy_isFree :
    ∀ path ∈ (Artifacts.ofRun "out" "fixed" false).paths, roomy.IsFree path := by
  have paths : (Artifacts.ofRun "out" "fixed" false).paths =
      ["out/fixed.json", "out/fixed.csv"] := by rfl
  have json : roomy.lstat "out/fixed.json" = .error .notFound := rfl
  have csv : roomy.lstat "out/fixed.csv" = .error .notFound := rfl
  rw [paths]
  simp [IsFree, json, csv]

theorem roomy_document :
    roomy.IsEntry (Path.join "out" ("fixed" ++ ".json")) ["out"] "fixed.json" :=
  ⟨⟨by decide, by decide, by decide, by decide⟩, rfl, by decide⟩

theorem roomy_table : roomy.IsEntry (Path.join "out" ("fixed" ++ ".csv")) ["out"] "fixed.csv" :=
  ⟨⟨by decide, by decide, by decide, by decide⟩, rfl, by decide⟩

/-- A function that calls itself and another. -/
def smallGraph : CallGraph :=
  ((CallGraph.empty.addDefinition (.ofName "f" none "a.py")).addCall ⟨"f", "f"⟩).addCall ⟨"f", "g"⟩

def noSpace : OsError := .device "No space left on device (os error 28)"

/-- The device is full after seven bytes of the table. -/
def fullDevice : Faults where
  table := some ⟨⟨.filling, noSpace⟩, 7⟩

theorem roomy_full :
    ∃ first, roomy.writeArtifacts (fun _ => []) smallGraph (.ofRun "out" "fixed" false)
          fullDevice =
        ((roomy.put ["out", "fixed.json"] (.file first)).put ["out", "fixed.csv"]
          (.file ⟨smallGraph.flatTable.toUTF8.toList.take 7, .blank⟩),
          .error (.csv noSpace)) ∧
      (roomy.exportAs (fun _ => []) smallGraph "out" "fixed" false fullDevice).2 =
        .error (.csv noSpace) :=
  exportAs_of_full_device roomy_document roomy_table rfl rfl (by decide) (fun _ => []) smallGraph
    noSpace 7

/-- Three runs. A directory is in the way of the last artifact, and nothing of the first two
remains. The device is full after some bytes of the table, and neither these nor the document
remain. Nothing is in the way, and both files are there. -/
theorem exportAs_runs :
    ((∀ path ∈ (Artifacts.ofRun "out" "fixed" true).paths, squatted.IsFree path) ∧
      ∃ cause, squatted.exportAs (fun _ => []) smallGraph "out" "fixed" true =
        (squatted, .error cause)) ∧
    (∀ path ∈ (Artifacts.ofRun "out" "fixed" false).paths, roomy.IsFree path) ∧
    ((roomy.writeArtifacts (fun _ => []) smallGraph (.ofRun "out" "fixed" false)
        fullDevice).1.item? ["out", "fixed.csv"] =
        some (.file ⟨smallGraph.flatTable.toUTF8.toList.take 7, .blank⟩) ∧
      roomy.exportAs (fun _ => []) smallGraph "out" "fixed" false fullDevice =
        (roomy, .error (.csv noSpace))) ∧
    ∃ after, roomy.exportAs (fun _ => []) smallGraph "out" "fixed" false =
        (after, .ok (.ofRun "out" "fixed" false)) ∧
      roomy.AddsFiles after
        ((Artifacts.ofRun "out" "fixed" false).files (fun _ => []) smallGraph) := by
  refine ⟨⟨squatted_isFree, ?_⟩, roomy_isFree, ?_, ?_⟩
  · obtain ⟨cause, failed⟩ := exportAs_fails_of_directory (fun _ => []) smallGraph {}
      squatted_isFree (show "out/fixed.csv" ∈ _ by decide) squatted_lstat.2.1
    generalize started : squatted.exportAs (fun _ => []) smallGraph "out" "fixed" true = result
      at failed ⊢
    obtain ⟨after, outcome⟩ := result
    subst failed
    have unchanged := (exportAs_all_or_nothing squatted (fun _ => []) smallGraph "out" "fixed" true
      {} squatted_isFree).1 _ _ started
    exact ⟨cause, by rw [unchanged]⟩
  · obtain ⟨first, cut, failed⟩ := roomy_full
    refine ⟨by rw [cut]; rfl, ?_⟩
    generalize started : roomy.exportAs (fun _ => []) smallGraph "out" "fixed" false fullDevice =
      result at failed ⊢
    obtain ⟨after, outcome⟩ := result
    subst failed
    rw [(exportAs_all_or_nothing roomy (fun _ => []) smallGraph "out" "fixed" false fullDevice
      roomy_isFree).1 _ _ started]
  · obtain ⟨first, second, done⟩ := exportAs_of_entries roomy_document roomy_table rfl rfl
      (by decide) (fun _ => []) smallGraph
    exact ⟨_, done, ((exportAs_all_or_nothing roomy (fun _ => []) smallGraph "out" "fixed" false {}
      roomy_isFree).2 _ _ done).2⟩

end FileSystem

end CallAtlas
