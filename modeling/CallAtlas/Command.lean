import CallAtlas.Command.Arguments
import CallAtlas.Export
import CallAtlas.Extraction
/-!
The command: extract one language under a root, build the graph, export the run, and
say what was done. Run identifier, image encoder, what the device refuses and the time
taken come from outside, so that the command is a function of what it is given.

What the command logs on the way is left out, and so `verbose` is taken and has no effect. The
complaint about wrong arguments does not say which of them is wrong.
-/
namespace CallAtlas.Command

/-- What the command leaves for its caller to see. -/
structure Report where
  exitCode : Nat
  output : String
  errors : String
  deriving DecidableEq, Repr

/-- What comes from outside of a run. -/
structure Surroundings where
  runId : String
  encode : ImageEncoder
  faults : Faults := {}

inductive Failure where
  | language (cause : UnsupportedLanguage)
  | extraction (cause : ExtractError)
  | exporting (cause : ExportError)
  deriving DecidableEq, Repr

def Failure.message : Failure → String
  | .language cause => cause.message
  | .extraction cause => cause.message
  | .exporting cause => cause.message

structure Analysis where
  language : Language
  extraction : Extraction
  artifacts : Artifacts

/-- Extracts, builds and exports. A wrong language is found before anything is looked at. -/
def analyze (fs : FileSystem) (surroundings : Surroundings) (arguments : Arguments) :
    FileSystem × Except Failure Analysis :=
  match Language.ofTag arguments.language with
  | .error cause => (fs, .error (.language cause))
  | .ok language =>
    match fs.extract arguments.root language arguments.followSymlinks with
    | .error cause => (fs, .error (.extraction cause))
    | .ok extraction =>
      let graph := CallGraph.build extraction.table extraction.calls
      match fs.exportRun surroundings.encode graph arguments.output surroundings.runId
          (!arguments.noImage) surroundings.faults with
      | (left, .error cause) => (left, .error (.exporting cause))
      | (left, .ok artifacts) => (left, .ok ⟨language, extraction, artifacts⟩)

def announcement (arguments : Arguments) : String :=
  match Language.ofTag arguments.language with
  | .ok language => "Analyzing " ++ arguments.root ++ " (" ++ language.name ++ ")\n"
  | .error _ => ""

def summary (elapsed : String) (analysis : Analysis) : String :=
  "✓ Scanned " ++ toString analysis.extraction.fileCount ++ " files: " ++
    toString analysis.extraction.table.size ++ " definitions, " ++
    toString analysis.extraction.calls.length ++ " calls in " ++ elapsed ++ "\n" ++
    "✓ Run " ++ analysis.artifacts.runId ++ "\n" ++
    String.join (analysis.artifacts.paths.map fun path => "  " ++ path ++ "\n")

def warning (arguments : Arguments) (analysis : Analysis) : String :=
  if analysis.extraction.fileCount = 0 then
    "\n⚠ Warning: No " ++ analysis.language.name ++ " files found under " ++ arguments.root ++ "\n"
  else ""

/-- The outcome of an analysis, as told to the caller together with the time taken. -/
def report (arguments : Arguments) (elapsed : String) : Except Failure Analysis → Report
  | .ok analysis =>
    ⟨0, announcement arguments ++ summary elapsed analysis, warning arguments analysis⟩
  | .error cause => ⟨1, announcement arguments, "error: " ++ cause.message ++ "\n"⟩

def versionText : String := "trellis 0.3.0\n"

def usageLine : String := "Usage: trellis [OPTIONS] <ROOT>"

def helpLines : List String := [
  "Build a static call graph of a source tree",
  "",
  usageLine,
  "",
  "Arguments:",
  "  <ROOT>  Root directory to scan",
  "",
  "Options:",
  "  -l, --language <LANGUAGE>  Language to extract (python, java, go, js, cpp, c, php) " ++
    "[default: python]",
  "  -o, --output <OUTPUT>      Directory the run artifacts are written to [default: output]",
  "      --follow-symlinks      Follow symbolic links while walking the root",
  "      --no-image             Skip rendering the PNG",
  "  -v, --verbose              Enable verbose output",
  "  -h, --help                 Print help",
  "  -V, --version              Print version"]

def helpText : String :=
  String.join (helpLines.map (· ++ "\n"))

def run (fs : FileSystem) (surroundings : Surroundings) (elapsed : String)
    (arguments : List String) : FileSystem × Report :=
  match understand arguments with
  | .run arguments =>
    let (left, outcome) := analyze fs surroundings arguments
    (left, report arguments elapsed outcome)
  | .version => (fs, ⟨0, versionText, ""⟩)
  | .help => (fs, ⟨0, helpText, ""⟩)
  | .refused => (fs, ⟨2, "", "error: invalid arguments\n\n" ++ usageLine ++ "\n"⟩)

end CallAtlas.Command
