/-!
The arguments of the command: a root, and options before or after it. A value follows
its option as the next argument or after `=`, for a short option also directly; short
options without a value may be run together; after `--` nothing is an option. Arguments
are settled from left to right, so that whichever comes first decides: a fault, or a
request for help or the version.
-/
namespace CallAtlas.Command

/-- What the command is asked to do. -/
structure Arguments where
  root : String
  language : String
  output : String
  followSymlinks : Bool
  noImage : Bool
  verbose : Bool
  deriving DecidableEq, Repr

/-- How the arguments are understood. -/
inductive Request where
  | run (arguments : Arguments)
  | version
  | help
  /-- The arguments make no sense. -/
  | refused
  deriving DecidableEq, Repr

/-- What an option takes or sets. -/
inductive Switch where
  | language
  | output
  | followSymlinks
  | noImage
  | verbose
  | version
  | help
  deriving DecidableEq, Repr

def Switch.takesValue : Switch → Bool
  | .language => true
  | .output => true
  | _ => false

def Switch.ofLong? (name : String) : Option Switch :=
  [("language", Switch.language), ("output", .output), ("follow-symlinks", .followSymlinks),
    ("no-image", .noImage), ("verbose", .verbose), ("version", .version),
    ("help", .help)].lookup name

def Switch.ofShort? (name : Char) : Option Switch :=
  [('l', Switch.language), ('o', .output), ('v', .verbose), ('V', .version),
    ('h', .help)].lookup name

structure Settled where
  root : Option String := none
  language : Option String := none
  output : Option String := none
  followSymlinks : Bool := false
  noImage : Bool := false
  verbose : Bool := false
  deriving DecidableEq, Repr

namespace Settled

/-- Takes the root, which is given once and is not empty. -/
def takeRoot (settled : Settled) (value : String) : Except Request Settled :=
  if settled.root.isSome ∨ value = "" then .error .refused
  else .ok { settled with root := some value }

/-- Takes the value of an option, which is given once; a path is not empty. -/
def takeValue (settled : Settled) (switch : Switch) (value : String) : Except Request Settled :=
  match switch with
  | .language =>
    if settled.language.isSome then .error .refused
    else .ok { settled with language := some value }
  | .output =>
    if settled.output.isSome ∨ value = "" then .error .refused
    else .ok { settled with output := some value }
  | _ => .error .refused

/-- Takes an option without a value, which is given once. -/
def takeFlag (settled : Settled) : Switch → Except Request Settled
  | .followSymlinks =>
    if settled.followSymlinks then .error .refused
    else .ok { settled with followSymlinks := true }
  | .noImage =>
    if settled.noImage then .error .refused else .ok { settled with noImage := true }
  | .verbose =>
    if settled.verbose then .error .refused else .ok { settled with verbose := true }
  | .version => .error .version
  | .help => .error .help
  | _ => .error .refused

/-- Fills in what was left out. A root has to be given. -/
def finish (settled : Settled) : Request :=
  match settled.root with
  | some root => .run {
      root
      language := settled.language.getD "python"
      output := settled.output.getD "output"
      followSymlinks := settled.followSymlinks
      noImage := settled.noImage
      verbose := settled.verbose }
  | none => .refused

end Settled

inductive Form where
  /-- `--`, after which nothing is an option. -/
  | stop
  /-- `--name` or `--name=value`. -/
  | long (name : String) (value : Option String)
  /-- A dash and at least one more character. -/
  | short (letters : List Char)
  | value
  deriving DecidableEq, Repr

/-- The characters before the first `=`, and those after it if there is one. -/
def cutAtEquals : List Char → List Char × Option (List Char)
  | [] => ([], none)
  | c :: rest =>
    if c = '=' then ([], some rest)
    else
      let (before, after) := cutAtEquals rest
      (c :: before, after)

def Form.of (argument : String) : Form :=
  match argument.toList with
  | ['-', '-'] => .stop
  | '-' :: '-' :: rest =>
    let (before, after) := cutAtEquals rest
    .long (String.ofList before) (after.map String.ofList)
  | '-' :: c :: rest => .short (c :: rest)
  | _ => .value

/-- Takes the letters of a short argument in turn. A letter that takes a value has the rest
of the argument for it, or is given back if there is no rest. -/
def takeLetters (settled : Settled) : List Char → Except Request (Settled × Option Switch)
  | [] => .ok (settled, none)
  | letter :: rest =>
    match Switch.ofShort? letter with
    | none => .error .refused
    | some switch =>
      if switch.takesValue then
        match rest with
        | [] => .ok (settled, some switch)
        | '=' :: value => (settled.takeValue switch (String.ofList value)).map (·, none)
        | value => (settled.takeValue switch (String.ofList value)).map (·, none)
      else
        match settled.takeFlag switch with
        | .ok settled => takeLetters settled rest
        | .error request => .error request

/-- Takes one long argument; one that still needs its value is given back. -/
def takeLong (settled : Settled) (name : String) (value : Option String) :
    Except Request (Settled × Option Switch) :=
  match Switch.ofLong? name with
  | none => .error .refused
  | some switch =>
    match switch.takesValue, value with
    | true, some value => (settled.takeValue switch value).map (·, none)
    | true, none => .ok (settled, some switch)
    | false, some _ => .error .refused
    | false, none => (settled.takeFlag switch).map (·, none)

/-- Settles arguments in turn, none of them an option. -/
def takeRoots (settled : Settled) : List String → Except Request Settled
  | [] => .ok settled
  | argument :: rest =>
    match settled.takeRoot argument with
    | .ok settled => takeRoots settled rest
    | .error request => .error request

/-- Settles arguments in turn, while `pending` is an option that waits for its value. Only an
argument that does not look like an option can be one. -/
def takeAll (settled : Settled) (pending : Option Switch) :
    List String → Except Request Settled
  | [] => if pending.isSome then .error .refused else .ok settled
  | argument :: rest =>
    match pending, Form.of argument with
    | some switch, .value =>
      match settled.takeValue switch argument with
      | .ok settled => takeAll settled none rest
      | .error request => .error request
    | some _, _ => .error .refused
    | none, .stop => takeRoots settled rest
    | none, .value =>
      match settled.takeRoot argument with
      | .ok settled => takeAll settled none rest
      | .error request => .error request
    | none, .long name value =>
      match takeLong settled name value with
      | .ok (settled, pending) => takeAll settled pending rest
      | .error request => .error request
    | none, .short letters =>
      match takeLetters settled letters with
      | .ok (settled, pending) => takeAll settled pending rest
      | .error request => .error request

def understand (arguments : List String) : Request :=
  match takeAll {} none arguments with
  | .ok settled => settled.finish
  | .error request => request

end CallAtlas.Command
