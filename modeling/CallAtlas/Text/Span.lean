/-!
Stretches of a text given by byte offsets into its UTF-8 form, as parsers report them.
-/
namespace CallAtlas.Text

/-- The bytes from `start` up to and without `stop`. -/
structure Span where
  start : Nat
  stop : Nat
  deriving DecidableEq, Repr

/-- What is left after the first `n` bytes, if a character ends there. -/
def dropBytes? : Nat → List Char → Option (List Char)
  | 0, cs => some cs
  | _ + 1, [] => none
  | n + 1, c :: cs => if c.utf8Size ≤ n + 1 then dropBytes? (n + 1 - c.utf8Size) cs else none

/-- The first `n` bytes, if a character ends there. -/
def takeBytes? : Nat → List Char → Option (List Char)
  | 0, _ => some []
  | _ + 1, [] => none
  | n + 1, c :: cs =>
    if c.utf8Size ≤ n + 1 then (takeBytes? (n + 1 - c.utf8Size) cs).map (c :: ·) else none

/-- The characters in the span. A span that ends before it starts, runs past the end or
cuts a character has none. -/
def Span.chars (span : Span) (source : List Char) : List Char :=
  if span.start ≤ span.stop then
    ((dropBytes? span.start source).bind (takeBytes? (span.stop - span.start))).getD []
  else []

def Span.text (span : Span) (source : List Char) : String :=
  String.ofList (span.chars source)

end CallAtlas.Text
