import CallAtlas.Command
import CallAtlas.Proofs.Export.Atomicity
import CallAtlas.Proofs.Extraction.Closure
/-!
What an analysis that fails leaves behind. Up to the export nothing is written, so a failure
there changes nothing at all. From the export on, directories that lead to the output may have
been made; but no file is left of a run whose name is new, because then every artifact goes to
a free path (`IsFresh.free`).

The device may refuse anything but taking a file away. Directories that were made stay.
-/
namespace CallAtlas

namespace FileSystem

variable {fs before after : FileSystem} {out runId : String} {withImage : Bool}
  {location : Location} {file : File}

/-- No artifact of a run stands anywhere: what bears the name of one is a directory. -/
def IsFresh (fs : FileSystem) (runId : String) : Prop :=
  ∀ holder name item, fs.item? (holder ++ [name]) = some item →
    Artifacts.IsNameOf runId name → item = .directory

/-- A run whose names nothing listed bears is new. -/
theorem isFresh_of_names (absent : ∀ extension ∈ Artifacts.extensions, ∀ entry ∈ fs.items,
    entry.1.getLast? ≠ some (Text.lastSegment "/" runId ++ extension)) : fs.IsFresh runId := by
  rintro holder name item found ⟨extension, known, rfl⟩
  exact absurd (by simp) (absent extension known _ (mem_of_item? (by simp) found))

/-- The paths of a run with a new name are free, also after directories have been made. -/
theorem IsFresh.free (fresh : before.IsFresh runId) (grows : GrowsByDirectories before after) :
    ∀ path ∈ (Artifacts.ofRun out runId withImage).paths, after.IsFree path := by
  intro path among
  obtain ⟨name, ends, named⟩ := Artifacts.endsIn_of_mem_paths among
  obtain ⟨added, grows, directories⟩ := grows
  rw [isFree_iff ends]
  intro holder _
  cases found : after.item? (holder ++ [name]) with
  | none => exact .inl rfl
  | some item =>
    have directory : item = .directory := by
      rcases grows.item_cases found with stood | ⟨-, new⟩
      · exact fresh holder name item stood named
      · exact directories _ new
    exact .inr (by rw [directory])

/-- An export under a new name leaves the directories that lead to its output, and either
nothing else or the files of the run. -/
theorem exportRun_cases (fresh : fs.IsFresh runId) (encode : ImageEncoder) (graph : CallGraph)
    (out : String) (withImage : Bool) (faults : Faults) :
    (∃ cause, fs.exportRun encode graph out runId withImage faults =
      ((fs.makeDirectories out faults.directories).1, .error cause)) ∨
    ∃ after added, Grows (fs.makeDirectories out faults.directories).1 after added ∧
      (fs.makeDirectories out faults.directories).1.StoresAll
        ((Artifacts.ofRun out runId withImage).files encode graph) added ∧
      fs.exportRun encode graph out runId withImage faults =
        (after, .ok (.ofRun out runId withImage)) := by
  have grows := fs.makeDirectories_grows out faults.directories
  rw [exportRun]
  generalize fs.makeDirectories out faults.directories = made at grows ⊢
  obtain ⟨reached, made⟩ := made
  cases made with
  | error cause => exact .inl ⟨.io out cause, rfl⟩
  | ok => exact exportAs_cases encode graph faults (fresh.free grows)

end FileSystem

namespace Command

open FileSystem (GrowsByDirectories)

variable {fs left : FileSystem} {surroundings : Surroundings} {arguments : Arguments}
  {failure : Failure}

/-- Python below a root, without an image. -/
def intoRoot (root output : String) : Arguments where
  root
  language := "python"
  output
  followSymlinks := false
  noImage := true
  verbose := false

end Command

end CallAtlas
