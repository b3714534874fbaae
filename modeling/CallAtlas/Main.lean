import CallAtlas.Command
import CallAtlas.FileSystem.Snapshot
import CallAtlas.Json.Reader
/-!
The command line. Sources come parsed: standard input holds a JSON object whose member
`files` lists entries, each a source with the rows of its syntax tree, a directory or a
link. The run works on that; what it makes is then written below the working directory.
-/
namespace CallAtlas.Main

def fileSystemOf? (text : String) : Option FileSystem :=
  match (Json.parse? text).bind (·.member? "files") with
  | some (.array entries) => (entries.mapM Entry.ofJson?).map (FileSystem.layAll {})
  | _ => none

/-- Digits in groups, divided by dashes. -/
def grouped : List Nat → List Char → List String
  | [], _ => []
  | size :: sizes, digits => String.ofList (digits.take size) :: grouped sizes (digits.drop size)

/-- The identifier of a run from random digits, of which two places are fixed. -/
def runIdOf (digits : List Nat) : String :=
  let marked := (digits.set 12 4).modify 16 fun digit => 8 + digit % 4
  Text.join "-" (grouped [8, 4, 4, 4, 12] (marked.map Nat.digitChar))

def freshRunId : IO String := do
  let mut digits := #[]
  for _ in [0:32] do
    digits := digits.push (← IO.rand 0 15)
  return runIdOf digits.toList

/-- Writes what stands in one file system and not in the other. -/
def writeOut (before after : FileSystem) : IO Unit := do
  for (location, item) in after.items do
    if (before.item? location).isNone then
      let path := Text.join "/" location
      match item with
      | .directory => IO.FS.createDirAll path
      | .file file => IO.FS.writeBinFile path ⟨file.bytes.toArray⟩
      | .link _ => pure ()

/-- An image file holds the drawing itself. -/
def encode : ImageEncoder := fun scene => scene.toUTF8.toList

def analyze (arguments : Command.Arguments) : IO Command.Report := do
  let start ← IO.monoMsNow
  match fileSystemOf? (← (← IO.getStdin).readToEnd) with
  | none => return ⟨1, "", "error: no sources on standard input\n"⟩
  | some fs =>
    let (left, outcome) := Command.analyze fs { runId := ← freshRunId, encode } arguments
    writeOut fs left
    return Command.report arguments (toString ((← IO.monoMsNow) - start) ++ "ms") outcome

def run (arguments : List String) : IO UInt32 := do
  let report ←
    match Command.understand arguments with
    | .run arguments => analyze arguments
    | _ => pure (Command.run {} { runId := "", encode } "" arguments).2
  IO.print report.output
  IO.eprint report.errors
  return report.exitCode.toUInt32

end CallAtlas.Main

def main (arguments : List String) : IO UInt32 :=
  CallAtlas.Main.run arguments
