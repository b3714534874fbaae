import CallAtlas.FileSystem.Walk
import CallAtlas.Language
import CallAtlas.Text.Bytes
/-!
Extraction: the definitions and calls of all sources of one language under a root. All
definitions are collected first, so that a call may go to a function of any file; then
the calls are collected and those that the language's policy admits are kept.

A file that can be read has a tree. That a parser may give none is left out, as is whatever
changes in the file system between the passes.
-/
namespace CallAtlas

inductive ExtractError where
  | missingRoot (root : String)
  | notADirectory (root : String)
  | unreadable (path : String) (cause : OsError)
  | walk (cause : WalkError)
  deriving DecidableEq, Repr

def ExtractError.message : ExtractError → String
  | missingRoot root => "the directory '" ++ root ++ "' does not exist"
  | notADirectory root => "'" ++ root ++ "' is not a directory"
  | unreadable path cause => "failed to read file '" ++ path ++ "': " ++ cause.message
  | walk cause => "failed to walk directory: " ++ cause.message

/-- Whether files of this name are sources of a language. -/
def Language.matchesName (language : Language) (name : String) : Bool :=
  match Path.nameExtension? name with
  | some extension => language.extensions.contains extension
  | none => false

def Language.matchesPath (language : Language) (path : String) : Bool :=
  match Path.fileName? path with
  | some name => language.matchesName name
  | none => false

namespace FileSystem

def readSource (fs : FileSystem) (path : String) : Except ExtractError String :=
  match fs.read path with
  | .ok file => .ok (Text.Utf8.decode file.bytes)
  | .error cause => .error (.unreadable path cause)

def readTree (fs : FileSystem) (path : String) : Except ExtractError TextTree :=
  match fs.read path with
  | .ok file => .ok (file.tree.read (Text.Utf8.decode file.bytes))
  | .error cause => .error (.unreadable path cause)

/-- Refuses a root that is not a directory. -/
def checkRoot (fs : FileSystem) (root : String) : Except ExtractError Unit :=
  if !fs.isThere root then .error (.missingRoot root)
  else if !fs.isDirectory root then .error (.notADirectory root)
  else .ok ()

/-- The files found by a walk, up to the first error. -/
def Findings.files : Findings → Except ExtractError (List (List String))
  | [] => .ok []
  | .error cause :: _ => .error (.walk cause)
  | .ok names :: rest => (Findings.files rest).map (names :: ·)

/-- The path relative to the root of a file that a walk came upon, if it is a source. -/
def sourcePath? (root : String) (language : Language) (names : List String) : Option String :=
  let path := names.foldl Path.join root
  if language.matchesPath path then Path.relative? root path else none

/-- The sources of a language under a root, as paths relative to it. -/
def sourceFiles (fs : FileSystem) (root : String) (language : Language) (following : Bool) :
    Except ExtractError (List String) :=
  (Findings.files (fs.walk following root)).map (List.filterMap (sourcePath? root language))

/-- The trees of files under a root, each with its relative path. -/
def readTrees (fs : FileSystem) (root : String) :
    List String → Except ExtractError (List (String × TextTree))
  | [] => .ok []
  | file :: rest =>
    match fs.readTree (Path.join root file) with
    | .error cause => .error cause
    | .ok tree => (fs.readTrees root rest).map ((file, tree) :: ·)

/-- First pass: the table of all definitions in the given files. -/
def collectDefinitions (fs : FileSystem) (root : String) (language : Language)
    (files : List String) : Except ExtractError SymbolTable :=
  (fs.readTrees root files).map fun trees =>
    .ofList (trees.flatMap fun (file, tree) => language.dialect.definitions tree file)

/-- Second pass: the calls in the given files against a table. -/
def collectCalls (fs : FileSystem) (root : String) (language : Language) (files : List String)
    (table : SymbolTable) : Except ExtractError (List Call) :=
  (fs.readTrees root files).map fun trees =>
    trees.flatMap fun (_, tree) => language.dialect.calls table.knowledge tree

end FileSystem

structure Extraction where
  table : SymbolTable
  /-- The admitted calls, in the order in which they were found. -/
  calls : List Call
  /-- The number of sources. -/
  fileCount : Nat

/-- The definitions and admitted calls of one language under a root. -/
def FileSystem.extract (fs : FileSystem) (root : String) (language : Language)
    (following : Bool) : Except ExtractError Extraction := do
  fs.checkRoot root
  let files ← fs.sourceFiles root language following
  let table ← fs.collectDefinitions root language files
  let calls ← fs.collectCalls root language files table
  return {
    table
    calls := calls.filter (language.edgePolicy.admits table)
    fileCount := files.length }

end CallAtlas
