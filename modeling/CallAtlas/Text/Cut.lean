/-!
Cutting a text at the last place where a separator stands, and splitting it at every
place where a character stands. Among overlapping occurrences of a separator the one
that starts last counts, so `a:::b` is cut by `::` into `a:` and `b`. Blanks are cut off at either
end. They are what has Unicode's `White_Space` property, which covers more than ASCII (no-break
space, ideographic space) and less than "invisible": the zero-width characters and the byte order
mark are not in it.
-/
namespace CallAtlas.Text

/-- What stands before and after the last occurrence of `separator`. -/
def cutLastChars? (separator : List Char) : List Char → Option (List Char × List Char)
  | [] => none
  | c :: rest =>
    match cutLastChars? separator rest with
    | some (before, after) => some (c :: before, after)
    | none =>
      if separator.isPrefixOf (c :: rest) then some ([], (c :: rest).drop separator.length)
      else none

def cutLast? (separator text : String) : Option (String × String) :=
  (cutLastChars? separator.toList text.toList).map fun (before, after) =>
    (String.ofList before, String.ofList after)

/-- What stands after the last occurrence of `separator`; the whole text if there is none. -/
def lastSegment (separator text : String) : String :=
  match cutLast? separator text with
  | some (_, after) => after
  | none => text

/-- The two sides of a cut, with the separator between them, are the text again. -/
theorem eq_of_cutLastChars? {separator text before after : List Char}
    (cut : cutLastChars? separator text = some (before, after)) :
    text = before ++ separator ++ after := by
  induction text generalizing before with
  | nil => simp [cutLastChars?] at cut
  | cons c rest ih =>
    simp only [cutLastChars?] at cut
    split at cut
    · next left right found =>
      simp only [Option.some.injEq, Prod.mk.injEq] at cut
      obtain ⟨rfl, rfl⟩ := cut
      simp [ih found]
    · split at cut
      · next starts =>
        simp only [Option.some.injEq, Prod.mk.injEq] at cut
        obtain ⟨rfl, rfl⟩ := cut
        obtain ⟨tail, same⟩ := List.isPrefixOf_iff_prefix.mp starts
        simp [← same]
      · simp at cut

/-- The stretches between the places where `separator` stands. There is always one more of
them than there are such places. -/
def splitChars (separator : Char) : List Char → List (List Char)
  | [] => [[]]
  | c :: rest =>
    if c = separator then [] :: splitChars separator rest
    else match splitChars separator rest with
      | first :: more => (c :: first) :: more
      | [] => [[c]]

def split (separator : Char) (text : String) : List String :=
  (splitChars separator text.toList).map String.ofList

def join (separator : String) : List String → String
  | [] => ""
  | [text] => text
  | text :: rest => text ++ separator ++ join separator rest

/-- The characters with the `White_Space` property. -/
def isBlank (c : Char) : Bool :=
  let n := c.toNat
  (0x9 ≤ n && n ≤ 0xd) || n == 0x20 || n == 0x85 || n == 0xa0 || n == 0x1680 ||
    (0x2000 ≤ n && n ≤ 0x200a) || n == 0x2028 || n == 0x2029 || n == 0x202f ||
    n == 0x205f || n == 0x3000

def trimChars (cs : List Char) : List Char :=
  ((cs.dropWhile isBlank).reverse.dropWhile isBlank).reverse

def trim (s : String) : String :=
  String.ofList (trimChars s.toList)

end CallAtlas.Text
