/-!
Text inside XML. Markup characters are written as entities. Some characters cannot be
written at all: XML 1.0 has no form for most control characters nor for the two
noncharacters at the end of the basic plane. Of what can be wrong with a document only such
characters are looked for.
-/
namespace CallAtlas.Text.Xml

/-- A character as it is written between tags or quotes. -/
def escapeChar (c : Char) : List Char :=
  if c = '&' then "&amp;".toList
  else if c = '<' then "&lt;".toList
  else if c = '>' then "&gt;".toList
  else if c = '"' then "&quot;".toList
  else [c]

def escape (text : String) : String :=
  String.ofList (text.toList.flatMap escapeChar)

/-- The characters that XML 1.0 allows. -/
def isAllowed (c : Char) : Bool :=
  let n := c.toNat
  n == 0x9 || n == 0xa || n == 0xd || (0x20 ≤ n && n != 0xfffe && n != 0xffff)

/-- A character that XML does not allow, and where it stands. -/
structure Offence where
  char : Char
  /-- Counted from one. -/
  row : Nat
  /-- Counted from one, in characters. -/
  column : Nat
  deriving DecidableEq, Repr

def offenceFrom? (row column : Nat) : List Char → Option Offence
  | [] => none
  | c :: rest =>
    if !isAllowed c then some ⟨c, row, column⟩
    else if c = '\n' then offenceFrom? (row + 1) 1 rest
    else offenceFrom? row (column + 1) rest

/-- The first character of a document that XML does not allow. -/
def offence? (document : String) : Option Offence :=
  offenceFrom? 1 1 document.toList

/-- The character as it is named in a message. -/
def Offence.charName (offence : Offence) : String :=
  if offence.char.toNat = 0 then "'\\0'"
  else "'\\u\x7b" ++ String.ofList (Nat.toDigits 16 offence.char.toNat) ++ "\x7d'"

def Offence.message (offence : Offence) : String :=
  "a non-XML character " ++ offence.charName ++ " found at " ++ toString offence.row ++ ":" ++
    toString offence.column

end CallAtlas.Text.Xml
