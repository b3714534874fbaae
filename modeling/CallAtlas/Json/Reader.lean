import CallAtlas.Json
import CallAtlas.Text.Bytes
/-!
Reading JSON. Blanks between the parts do not matter, and a text has to hold one value
and nothing else. Numbers are read exactly, and an object may give a name twice.
-/
namespace CallAtlas.Json

def isBlank (c : Char) : Bool :=
  c == ' ' || c == '\t' || c == '\n' || c == '\r'

def skipBlanks (cs : List Char) : List Char :=
  cs.dropWhile isBlank

/-- What an escape of one letter stands for. -/
def escaped? (c : Char) : Option Nat :=
  if c = '"' ∨ c = '\\' ∨ c = '/' then some c.toNat
  else if c = 'b' then some 8
  else if c = 't' then some 9
  else if c = 'n' then some 10
  else if c = 'f' then some 12
  else if c = 'r' then some 13
  else none

/-- The units of a text up to its closing quote, and what follows. A unit is a character or
half of a surrogate pair. -/
def readUnits : List Char → Option (List Nat × List Char)
  | [] => none
  | '"' :: rest => some ([], rest)
  | '\\' :: 'u' :: a :: b :: c :: d :: rest => do
    let unit ← Text.Hex.number? [a, b, c, d]
    let (units, rest) ← readUnits rest
    return (unit :: units, rest)
  | '\\' :: c :: rest => do
    let unit ← escaped? c
    let (units, rest) ← readUnits rest
    return (unit :: units, rest)
  | c :: rest =>
    if c.toNat < 0x20 then none
    else do
      let (units, rest) ← readUnits rest
      return (c.toNat :: units, rest)

/-- The characters that units spell. Half a surrogate pair spells none. -/
def ofUnits? : List Nat → Option (List Char)
  | [] => some []
  | [unit] => if 0xd800 ≤ unit ∧ unit ≤ 0xdfff then none else some [Char.ofNat unit]
  | unit :: next :: rest =>
    if 0xd800 ≤ unit ∧ unit ≤ 0xdbff then
      if 0xdc00 ≤ next ∧ next ≤ 0xdfff then
        (ofUnits? rest).map
          (Char.ofNat (0x10000 + (unit - 0xd800) * 0x400 + (next - 0xdc00)) :: ·)
      else none
    else if 0xdc00 ≤ unit ∧ unit ≤ 0xdfff then none
    else (ofUnits? (next :: rest)).map (Char.ofNat unit :: ·)

def readText (cs : List Char) : Option (String × List Char) := do
  let (units, rest) ← readUnits cs
  let chars ← ofUnits? units
  return (String.ofList chars, rest)

def decimalNumber (digits : List Char) : Nat :=
  digits.foldl (fun n c => 10 * n + (c.toNat - 48)) 0

/-- The digits after the mark of an exponent, with their sign. -/
def readExponent (cs : List Char) : Option (Int × List Char) :=
  let (negative, cs) :=
    match cs with
    | '-' :: rest => (true, rest)
    | '+' :: rest => (false, rest)
    | _ => (false, cs)
  let digits := cs.takeWhile Char.isDigit
  if digits = [] then none
  else
    let n : Int := decimalNumber digits
    some (if negative then -n else n, cs.dropWhile Char.isDigit)

def readMagnitude (cs : List Char) : Option ((Nat × Nat) × List Char) := do
  let whole := cs.takeWhile Char.isDigit
  let rest := cs.dropWhile Char.isDigit
  if whole = [] ∨ (whole.length > 1 ∧ whole.head? = some '0') then none
  let (fraction, rest) ←
    match rest with
    | '.' :: rest =>
      let fraction := rest.takeWhile Char.isDigit
      if fraction = [] then none else some (fraction, rest.dropWhile Char.isDigit)
    | _ => some ([], rest)
  let (exponent, rest) ←
    match rest with
    | 'e' :: rest => readExponent rest
    | 'E' :: rest => readExponent rest
    | _ => some (0, rest)
  let digits := decimalNumber (whole ++ fraction)
  let places := (fraction.length : Int) - exponent
  match places with
  | .ofNat places => return ((digits, places), rest)
  | .negSucc power => return ((digits * Nat.pow 10 (power + 1), 0), rest)

def readNumber (cs : List Char) : Option (Json × List Char) :=
  match cs with
  | '-' :: rest =>
    (readMagnitude rest).map fun ((digits, places), rest) => (number (-(digits : Int)) places, rest)
  | _ => (readMagnitude cs).map fun ((digits, places), rest) => (number digits places, rest)

/-- A value that is neither a text nor a container. -/
def readScalar (cs : List Char) : Option (Json × List Char) :=
  match cs with
  | 'n' :: 'u' :: 'l' :: 'l' :: rest => some (null, rest)
  | 't' :: 'r' :: 'u' :: 'e' :: rest => some (bool true, rest)
  | 'f' :: 'a' :: 'l' :: 's' :: 'e' :: rest => some (bool false, rest)
  | _ => readNumber cs

mutual

/-- One value and what follows it, nested no deeper than `fuel` allows. -/
def readValue : (fuel : Nat) → List Char → Option (Json × List Char)
  | 0, _ => none
  | fuel + 1, cs =>
    match skipBlanks cs with
    | '"' :: rest => (readText rest).map fun (value, rest) => (string value, rest)
    | '[' :: rest =>
      match skipBlanks rest with
      | ']' :: rest => some (array [], rest)
      | _ => (readElements fuel rest).map fun (elements, rest) => (array elements, rest)
    | '\x7b' :: rest =>
      match skipBlanks rest with
      | '\x7d' :: rest => some (object [], rest)
      | _ => (readMembers fuel rest).map fun (members, rest) => (object members, rest)
    | cs => readScalar cs

def readElements : (fuel : Nat) → List Char → Option (List Json × List Char)
  | 0, _ => none
  | fuel + 1, cs => do
    let (element, rest) ← readValue fuel cs
    match skipBlanks rest with
    | ',' :: rest => (readElements fuel rest).map fun (more, rest) => (element :: more, rest)
    | ']' :: rest => some ([element], rest)
    | _ => none

def readMembers : (fuel : Nat) → List Char → Option (List (String × Json) × List Char)
  | 0, _ => none
  | fuel + 1, cs => do
    match skipBlanks cs with
    | '"' :: rest =>
      let (name, rest) ← readText rest
      match skipBlanks rest with
      | ':' :: rest =>
        let (value, rest) ← readValue fuel rest
        match skipBlanks rest with
        | ',' :: rest =>
          (readMembers fuel rest).map fun (more, rest) => ((name, value) :: more, rest)
        | '\x7d' :: rest => some ([(name, value)], rest)
        | _ => none
      | _ => none
    | _ => none

end

/-- The value that a text holds. A value of `n` characters is nested less than `2 * n` deep. -/
def parse? (text : String) : Option Json :=
  let cs := text.toList
  match readValue (2 * cs.length + 1) cs with
  | some (value, rest) => if skipBlanks rest = [] then some value else none
  | none => none

end CallAtlas.Json
