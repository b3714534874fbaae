/-!
Bytes and text. Bytes are read as UTF-8 without ever refusing them: a sequence that breaks off is
replaced by one U+FFFD for as much of it as could still have become a character, and reading goes
on with the first byte that did not fit. Where bytes or characters are spelled in hexadecimal
digits, these may be in either case.
-/
namespace CallAtlas.Text.Utf8

def replacement : Char := Char.ofNat 0xfffd

/-- A multi-byte sequence that is not complete yet. -/
structure Pending where
  /-- How many bytes are still owed. -/
  owed : Nat
  /-- Least value the next byte may have. -/
  low : Nat
  /-- Greatest value the next byte may have. -/
  high : Nat
  /-- The bits read so far. -/
  bits : Nat
  deriving DecidableEq, Repr

/-- The sequence a leading byte opens. The bounds on the second byte leave out overlong
forms, surrogates and everything above U+10FFFF. -/
def opened? (byte : Nat) : Option Pending :=
  if 0xc2 ≤ byte ∧ byte ≤ 0xdf then some ⟨1, 0x80, 0xbf, byte - 0xc0⟩
  else if byte = 0xe0 then some ⟨2, 0xa0, 0xbf, 0⟩
  else if byte = 0xed then some ⟨2, 0x80, 0x9f, byte - 0xe0⟩
  else if 0xe1 ≤ byte ∧ byte ≤ 0xef then some ⟨2, 0x80, 0xbf, byte - 0xe0⟩
  else if byte = 0xf0 then some ⟨3, 0x90, 0xbf, 0⟩
  else if 0xf1 ≤ byte ∧ byte ≤ 0xf3 then some ⟨3, 0x80, 0xbf, byte - 0xf0⟩
  else if byte = 0xf4 then some ⟨3, 0x80, 0x8f, byte - 0xf0⟩
  else none

def start (byte : Nat) : List Char × Option Pending :=
  if byte < 0x80 then ([Char.ofNat byte], none)
  else match opened? byte with
    | some pending => ([], some pending)
    | none => ([replacement], none)

/-- Reads one byte: the characters that it settles, and what is then pending. -/
def feed : Option Pending → Nat → List Char × Option Pending
  | none, byte => start byte
  | some p, byte =>
    if p.low ≤ byte ∧ byte ≤ p.high then
      let bits := p.bits * 64 + (byte - 0x80)
      if p.owed ≤ 1 then ([Char.ofNat bits], none) else ([], some ⟨p.owed - 1, 0x80, 0xbf, bits⟩)
    else
      let (chars, next) := start byte
      (replacement :: chars, next)

/-- The characters of the remaining bytes, given what is pending. -/
def decodeFrom : Option Pending → List UInt8 → List Char
  | none, [] => []
  | some _, [] => [replacement]
  | pending, byte :: rest =>
    let (chars, next) := feed pending byte.toNat
    chars ++ decodeFrom next rest

/-- The text that bytes spell, with U+FFFD for what is not UTF-8. -/
def decode (bytes : List UInt8) : String :=
  String.ofList (decodeFrom none bytes)

end CallAtlas.Text.Utf8

namespace CallAtlas.Text.Hex

def digit? (c : Char) : Option Nat :=
  if '0' ≤ c ∧ c ≤ '9' then some (c.toNat - 48)
  else if 'a' ≤ c ∧ c ≤ 'f' then some (c.toNat - 87)
  else if 'A' ≤ c ∧ c ≤ 'F' then some (c.toNat - 55)
  else none

def number? (digits : List Char) : Option Nat :=
  digits.foldlM (fun n c => (digit? c).map (16 * n + ·)) 0

def bytes? : List Char → Option (List UInt8)
  | [] => some []
  | [_] => none
  | high :: low :: rest => do
    return UInt8.ofNat (← number? [high, low]) :: (← bytes? rest)

end CallAtlas.Text.Hex
