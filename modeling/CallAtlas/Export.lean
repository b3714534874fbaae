import CallAtlas.CallGraph.Flat
import CallAtlas.CallGraph.NodeLink
import CallAtlas.Drawing
import CallAtlas.FileSystem.Edit
/-!
Exporting a run. The artifacts of a run bear its identifier: the node-link document, the
flat table and, if asked for, the drawing as an image. If one of them cannot be written,
those that were are taken away again, and so is the part of it that was.

What goes wrong outside is given as `Faults`, at most one for each artifact. Reading a scene,
painting it and encoding the pixels are left to `ImageEncoder`; only why a scene is refused is
told here.
-/
namespace CallAtlas

/-- Why there is nothing to encode. -/
inductive RenderError where
  /-- The drawing is no XML document. -/
  | scene (offence : Text.Xml.Offence)
  /-- There is no memory to paint it on. -/
  | canvas
  /-- What was painted is not as large as the image. -/
  | pixels
  deriving DecidableEq, Repr

def RenderError.message : RenderError → String
  | scene offence => "invalid SVG scene: SVG data parsing failed cause " ++ offence.message
  | canvas => "could not allocate canvas"
  | pixels => "pixel buffer does not match canvas size"

inductive ExportError where
  | io (path : String) (cause : OsError)
  | json (cause : OsError)
  | csv (cause : OsError)
  | render (cause : RenderError)
  | image (cause : OsError)
  deriving DecidableEq, Repr

namespace ExportError

def message : ExportError → String
  | io path cause => "I/O error at '" ++ path ++ "': " ++ cause.message
  | json cause => "JSON serialization error: " ++ cause.message
  | csv cause => "CSV write error: " ++ cause.message
  | render cause => "Render error: " ++ cause.message
  | image cause => "Image encoding error: " ++ cause.message

/-- How a document that could not be written is reported. The serializer speaks for itself only
while it writes. -/
def ofDocument (path : String) (refusal : Refusal) : ExportError :=
  match refusal.step with
  | .filling => json refusal.cause
  | .creating | .flushing => io path refusal.cause

/-- How a table that could not be written is reported. The table opens its file itself, but is
flushed from outside. -/
def ofTable (path : String) (refusal : Refusal) : ExportError :=
  match refusal.step with
  | .creating | .filling => csv refusal.cause
  | .flushing => io path refusal.cause

end ExportError

/-- Turns the text of a drawing into the bytes of an image. -/
abbrev ImageEncoder := String → List UInt8

/-- What goes wrong outside of a run while it is exported. -/
structure Faults where
  directories : FileSystem.DirectoryFaults := fun _ => none
  /-- Why the drawing is not painted, if it could be read. -/
  drawing : Option RenderError := none
  image : Option Fault := none
  document : Option Fault := none
  table : Option Fault := none

/-- Where the artifacts of a run are. -/
structure Artifacts where
  runId : String
  json : String
  csv : String
  /-- Absent if no image was asked for. -/
  image : Option String
  deriving DecidableEq, Repr

namespace Artifacts

def ofRun (out runId : String) (withImage : Bool) : Artifacts where
  runId
  json := Path.join out (runId ++ ".json")
  csv := Path.join out (runId ++ ".csv")
  image := if withImage then some (Path.join out (runId ++ ".png")) else none

def paths (artifacts : Artifacts) : List String :=
  [artifacts.json, artifacts.csv] ++ artifacts.image.toList

end Artifacts

namespace FileSystem

/-- Writes one artifact, and reports a refusal in the words of that artifact. -/
def writeArtifact (fs : FileSystem) (report : Refusal → ExportError) (path : String)
    (bytes : List UInt8) (fault : Option Fault) : FileSystem × Except ExportError Unit :=
  let (left, outcome) := fs.write path ⟨bytes, .blank⟩ fault
  (left, outcome.mapError report)

def writeNodeLink (fs : FileSystem) (graph : CallGraph) (path : String)
    (fault : Option Fault := none) : FileSystem × Except ExportError Unit :=
  fs.writeArtifact (.ofDocument path) path graph.nodeLink.render.toUTF8.toList fault

def writeFlatTable (fs : FileSystem) (graph : CallGraph) (path : String)
    (fault : Option Fault := none) : FileSystem × Except ExportError Unit :=
  fs.writeArtifact (.ofTable path) path graph.flatTable.toUTF8.toList fault

/-- Writes the drawing of a graph as an image, if it can be read and painted. -/
def writeImage (fs : FileSystem) (encode : ImageEncoder) (graph : CallGraph) (path : String)
    (drawing : Option RenderError := none) (fault : Option Fault := none) :
    FileSystem × Except ExportError Unit :=
  let scene := Drawing.render graph
  match (Text.Xml.offence? scene).map RenderError.scene, drawing with
  | some cause, _ => (fs, .error (.render cause))
  | none, some cause => (fs, .error (.render cause))
  | none, none => fs.writeArtifact (fun refusal => .image refusal.cause) path (encode scene) fault

/-- Writes the image of a run, if one is asked for. -/
def writeImage? (fs : FileSystem) (encode : ImageEncoder) (graph : CallGraph)
    (path? : Option String) (faults : Faults := {}) : FileSystem × Except ExportError Unit :=
  match path? with
  | some path => fs.writeImage encode graph path faults.drawing faults.image
  | none => (fs, .ok ())

/-- Writes image, document and table in this order, up to the first that fails. -/
def writeArtifacts (fs : FileSystem) (encode : ImageEncoder) (graph : CallGraph)
    (artifacts : Artifacts) (faults : Faults := {}) : FileSystem × Except ExportError Unit :=
  match fs.writeImage? encode graph artifacts.image faults with
  | (left, .error cause) => (left, .error cause)
  | (drawn, .ok ()) =>
    match drawn.writeNodeLink graph artifacts.json faults.document with
    | (left, .error cause) => (left, .error cause)
    | (linked, .ok ()) => linked.writeFlatTable graph artifacts.csv faults.table

/-- Takes away a path that leads to a regular file. -/
def removeFile (fs : FileSystem) (path : String) : FileSystem :=
  if fs.isFile path then
    match fs.remove path with
    | .ok removed => removed
    | .error _ => fs
  else fs

/-- Writes the artifacts of a run into a directory that is there. -/
def exportAs (fs : FileSystem) (encode : ImageEncoder) (graph : CallGraph) (out runId : String)
    (withImage : Bool) (faults : Faults := {}) : FileSystem × Except ExportError Artifacts :=
  let artifacts := Artifacts.ofRun out runId withImage
  match fs.writeArtifacts encode graph artifacts faults with
  | (written, .ok ()) => (written, .ok artifacts)
  | (written, .error cause) => (artifacts.paths.foldl removeFile written, .error cause)

/-- Writes the artifacts of a run into a directory, which is made if it is missing. -/
def exportRun (fs : FileSystem) (encode : ImageEncoder) (graph : CallGraph) (out runId : String)
    (withImage : Bool) (faults : Faults := {}) : FileSystem × Except ExportError Artifacts :=
  match fs.makeDirectories out faults.directories with
  | (reached, .error cause) => (reached, .error (.io out cause))
  | (reached, .ok ()) => reached.exportAs encode graph out runId withImage faults

end FileSystem

end CallAtlas
