import CallAtlas.Decimal.Fixed
import CallAtlas.Text.Cut
/-!
JSON values and their written form: one member or element a line, indented by four
spaces a level, empty containers closed at once, no line end after the last brace.
Members keep the order in which they are given.
-/
namespace CallAtlas

inductive Json where
  | null
  | bool (value : Bool)
  /-- The number `digits / 10 ^ places`. -/
  | number (digits : Int) (places : Nat)
  | string (value : String)
  | array (elements : List Json)
  | object (members : List (String × Json))
  deriving Inhabited, Repr

namespace Json

def ofNat (n : Nat) : Json := number n 0

/-- The value of a text, or null. -/
def ofOption : Option String → Json
  | some value => string value
  | none => null

def member? (name : String) : Json → Option Json
  | object members => members.lookup name
  | _ => none

def textMember? (value : Json) (name : String) : Option String :=
  match value.member? name with
  | some (string text) => some text
  | _ => none

def natural? : Json → Option Nat
  | number digits 0 => if 0 ≤ digits then some digits.natAbs else none
  | _ => none

/-- A character as it is written inside quotes: the quote, the backslash and control
characters are escaped, everything else stands for itself. -/
def escapeChar (c : Char) : List Char :=
  if c = '"' then ['\\', '"']
  else if c = '\\' then ['\\', '\\']
  else if c = Char.ofNat 8 then ['\\', 'b']
  else if c = Char.ofNat 9 then ['\\', 't']
  else if c = Char.ofNat 10 then ['\\', 'n']
  else if c = Char.ofNat 12 then ['\\', 'f']
  else if c = Char.ofNat 13 then ['\\', 'r']
  else if c.toNat < 0x20 then
    ['\\', 'u', '0', '0', Nat.digitChar (c.toNat / 16), Nat.digitChar (c.toNat % 16)]
  else [c]

def quote (text : String) : String :=
  String.ofList ('"' :: text.toList.flatMap escapeChar ++ ['"'])

def writeNumber (digits : Int) (places : Nat) : String :=
  (if digits < 0 then "-" else "") ++ Decimal.placed digits.natAbs places

def indent (level : Nat) : String :=
  String.ofList (List.replicate (4 * level) ' ')

/-- A container with its parts, each on a line of its own. -/
def block (left right : String) (level : Nat) (parts : List String) : String :=
  if parts = [] then left ++ right
  else left ++ "\n" ++ Text.join ",\n" (parts.map (indent (level + 1) ++ ·)) ++ "\n" ++
    indent level ++ right

mutual

/-- The written form of a value inside `level` containers. -/
def renderAt (level : Nat) : Json → String
  | null => "null"
  | bool value => if value then "true" else "false"
  | number digits places => writeNumber digits places
  | string value => quote value
  | array elements => block "[" "]" level (renderElements level elements)
  | object members => block "\x7b" "\x7d" level (renderMembers level members)

def renderElements (level : Nat) : List Json → List String
  | [] => []
  | element :: rest => renderAt (level + 1) element :: renderElements level rest

def renderMembers (level : Nat) : List (String × Json) → List String
  | [] => []
  | (key, value) :: rest =>
    (quote key ++ ": " ++ renderAt (level + 1) value) :: renderMembers level rest

end

def render (value : Json) : String :=
  renderAt 0 value

end Json

end CallAtlas
