import CallAtlas.Text.Cut
/-!
Comma-separated rows. A field is put between quotes only if it holds a comma, a quote or
a line break, and a quote inside is then written twice. Every row ends in a line feed.
-/
namespace CallAtlas.Text.Csv

def isSpecial (c : Char) : Bool :=
  c == ',' || c == '"' || c == '\r' || c == '\n'

/-- The characters of a field with every quote written twice. -/
def doubleQuotes : List Char → List Char
  | [] => []
  | c :: rest => if c = '"' then '"' :: '"' :: doubleQuotes rest else c :: doubleQuotes rest

def field (text : String) : String :=
  if text.toList.any isSpecial then String.ofList ('"' :: doubleQuotes text.toList ++ ['"'])
  else text

def row (fields : List String) : String :=
  Text.join "," (fields.map field) ++ "\n"

def render (rows : List (List String)) : String :=
  String.join (rows.map row)

end CallAtlas.Text.Csv
