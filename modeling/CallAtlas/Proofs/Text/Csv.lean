import CallAtlas.Text.Csv
/-!
Reading comma-separated rows as RFC 4180 lays them down. A reader takes one character at a
time and knows only whether it is at the start of a field, inside one, between quotes or just
after a quote. Written rows are read back whatever their fields hold (`read?_render`): a field
without quotes has no character that could end it (`read_plain`), and between quotes every
quote comes twice (`read_doubled`).
-/
namespace CallAtlas.Text.Csv

inductive Mode where
  | start
  /-- Inside a field without quotes. -/
  | plain
  | quoted
  /-- After a quote between quotes: it has closed the field unless another one follows. -/
  | closed
  /-- After a carriage return outside quotes, which only a line feed may follow. -/
  | returned
  deriving DecidableEq, Repr

structure Reader where
  rows : List (List String) := []
  /-- The finished fields of the row it is in. -/
  fields : List String := []
  /-- The characters of the field it is in. -/
  chars : List Char := []
  mode : Mode := .start
  deriving DecidableEq, Repr

namespace Reader

def take (reader : Reader) (c : Char) (mode : Mode) : Reader :=
  { reader with chars := reader.chars ++ [c], mode }

def endField (reader : Reader) : Reader :=
  { reader with fields := reader.fields ++ [String.ofList reader.chars], chars := [], mode := .start }

def endRow (reader : Reader) : Reader :=
  { rows := reader.rows ++ [reader.fields ++ [String.ofList reader.chars]] }

/-- The characters that end a field where they stand outside quotes. -/
def delimit? (reader : Reader) (c : Char) : Option Reader :=
  if c = ',' then some reader.endField
  else if c = '\n' then some reader.endRow
  else if c = '\r' then some { reader with mode := .returned }
  else none

/-- Takes in one character. A quote may not stand inside a field without quotes, nor anything
but a delimiter after a closing quote. -/
def step (reader : Reader) (c : Char) : Option Reader :=
  match reader.mode with
  | .start =>
    if c = '"' then some { reader with mode := .quoted }
    else (reader.delimit? c).or (some (reader.take c .plain))
  | .plain => if c = '"' then none else (reader.delimit? c).or (some (reader.take c .plain))
  | .quoted =>
    if c = '"' then some { reader with mode := .closed } else some (reader.take c .quoted)
  | .closed => if c = '"' then some (reader.take c .quoted) else reader.delimit? c
  | .returned => if c = '\n' then some reader.endRow else none

def run (reader : Reader) (text : List Char) : Option Reader :=
  text.foldlM step reader

/-- The rows at the end of the text. A last row need not end in a line break. -/
def finish (reader : Reader) : Option (List (List String)) :=
  match reader.mode with
  | .start => some (if reader.fields = [] then reader.rows else reader.endRow.rows)
  | .plain => some reader.endRow.rows
  | .closed => some reader.endRow.rows
  | .quoted => none
  | .returned => none

end Reader

def read? (text : String) : Option (List (List String)) :=
  (Reader.run {} text.toList).bind Reader.finish

namespace Reader

variable {rows : List (List String)} {fields : List String} {chars : List Char}

theorem run_append (reader : Reader) (first second : List Char) :
    reader.run (first ++ second) = (reader.run first).bind (·.run second) :=
  List.foldlM_append

theorem run_cons (reader : Reader) (c : Char) (rest : List Char) :
    reader.run (c :: rest) = (reader.step c).bind (·.run rest) :=
  List.foldlM_cons

/-- A field without special characters is taken in as it stands. -/
theorem read_plain {text : List Char} (ordinary : ∀ c ∈ text, isSpecial c = false) :
    run ⟨rows, fields, chars, .plain⟩ text = some ⟨rows, fields, chars ++ text, .plain⟩ := by
  induction text generalizing chars with
  | nil => simp [run]
  | cons c rest ih =>
    have here := ordinary c List.mem_cons_self
    simp only [isSpecial, Bool.or_eq_false_iff, beq_eq_false_iff_ne] at here
    obtain ⟨⟨⟨comma, quote⟩, carriage⟩, feed⟩ := here
    have taken : step ⟨rows, fields, chars, .plain⟩ c =
        some ⟨rows, fields, chars ++ [c], .plain⟩ := by
      simp [step, delimit?, take, comma, quote, carriage, feed]
    rw [run_cons, taken, Option.bind_some, ih fun d among => ordinary d (.tail c among)]
    simp

/-- Between quotes everything is taken in, and two quotes count for one. -/
theorem read_doubled (text : List Char) :
    run ⟨rows, fields, chars, .quoted⟩ (doubleQuotes text) =
      some ⟨rows, fields, chars ++ text, .quoted⟩ := by
  induction text generalizing chars with
  | nil => simp [doubleQuotes, run]
  | cons c rest ih =>
    by_cases quote : c = '"'
    · subst quote
      have opened : step ⟨rows, fields, chars, .quoted⟩ '"' =
          some ⟨rows, fields, chars, .closed⟩ := by rfl
      have again : step ⟨rows, fields, chars, .closed⟩ '"' =
          some ⟨rows, fields, chars ++ ['"'], .quoted⟩ := by rfl
      rw [doubleQuotes, if_pos rfl, run_cons, opened, Option.bind_some, run_cons, again,
        Option.bind_some, ih]
      simp
    · have taken : step ⟨rows, fields, chars, .quoted⟩ c =
          some ⟨rows, fields, chars ++ [c], .quoted⟩ := by
        simp [step, take, quote]
      rw [doubleQuotes, if_neg quote, run_cons, taken, Option.bind_some, ih]
      simp

/-- A written field is taken in whole, and the next character may end it. -/
theorem read_field (rows : List (List String)) (fields : List String) (text : String) :
    ∃ mode, (mode = .start ∨ mode = .plain ∨ mode = .closed) ∧
      run ⟨rows, fields, [], .start⟩ (field text).toList =
        some ⟨rows, fields, text.toList, mode⟩ := by
  by_cases special : text.toList.any isSpecial = true
  · refine ⟨.closed, by simp, ?_⟩
    have opened : step ⟨rows, fields, [], .start⟩ '"' = some ⟨rows, fields, [], .quoted⟩ := by rfl
    rw [field, if_pos special, String.toList_ofList, List.cons_append, run_cons, opened,
      Option.bind_some, run_append, read_doubled]
    rfl
  · have written : field text = text := by rw [field, if_neg special]
    have ordinary : ∀ c ∈ text.toList, isSpecial c = false := by simpa using special
    rw [written]
    cases letters : text.toList with
    | nil => exact ⟨.start, by simp, rfl⟩
    | cons c rest =>
      -- The first character is taken in as if it stood further on, for it is no quote.
      have first : step ⟨rows, fields, [], .start⟩ c = step ⟨rows, fields, [], .plain⟩ c := by
        have here := ordinary c (by simp [letters])
        simp only [isSpecial, Bool.or_eq_false_iff, beq_eq_false_iff_ne] at here
        simp [step, here, delimit?, take]
      refine ⟨.plain, by simp, ?_⟩
      rw [run_cons, first, ← run_cons]
      exact read_plain (by rwa [← letters])

theorem read_field_comma (text : String) (rest : List Char) :
    run ⟨rows, fields, [], .start⟩ ((field text).toList ++ ',' :: rest) =
      run ⟨rows, fields ++ [text], [], .start⟩ rest := by
  obtain ⟨mode, ends, taken⟩ := read_field rows fields text
  rw [run_append, taken, Option.bind_some, run_cons]
  rcases ends with rfl | rfl | rfl <;> simp [step, delimit?, endField]

theorem read_field_newline (text : String) (rest : List Char) :
    run ⟨rows, fields, [], .start⟩ ((field text).toList ++ '\n' :: rest) =
      run ⟨rows ++ [fields ++ [text]], [], [], .start⟩ rest := by
  obtain ⟨mode, ends, taken⟩ := read_field rows fields text
  rw [run_append, taken, Option.bind_some, run_cons]
  rcases ends with rfl | rfl | rfl <;> simp [step, delimit?, endRow]

/-- A written row is taken in field by field. -/
theorem read_row {written : List String} (filled : written ≠ []) (rest : List Char) :
    run ⟨rows, fields, [], .start⟩ ((row written).toList ++ rest) =
      run ⟨rows ++ [fields ++ written], [], [], .start⟩ rest := by
  induction written generalizing fields with
  | nil => exact absurd rfl filled
  | cons text more ih =>
    cases more with
    | nil =>
      have only : (row [text]).toList ++ rest = (field text).toList ++ '\n' :: rest := by
        simp [row, join]
      rw [only, read_field_newline]
    | cons next more =>
      have first : (row (text :: next :: more)).toList ++ rest =
          (field text).toList ++ ',' :: ((row (next :: more)).toList ++ rest) := by
        simp [row, join]
      rw [first, read_field_comma, ih (by simp)]
      simp

theorem read_rows {written : List (List String)} (filled : ∀ fields ∈ written, fields ≠ []) :
    run ⟨rows, [], [], .start⟩ (render written).toList =
      some ⟨rows ++ written, [], [], .start⟩ := by
  induction written generalizing rows with
  | nil => simp [render, run]
  | cons first more ih =>
    have split : (render (first :: more)).toList = (row first).toList ++ (render more).toList := by
      simp [render]
    rw [split, read_row (filled first List.mem_cons_self),
      ih fun fields among => filled fields (.tail first among)]
    simp

end Reader

/-- Written rows are read back, whatever their fields hold. -/
theorem read?_render {rows : List (List String)} (filled : ∀ fields ∈ rows, fields ≠ []) :
    read? (render rows) = some rows := by
  rw [read?, Reader.read_rows filled]
  rfl

-- The reader also takes rows that are written otherwise, and refuses a quote out of place.
example : read? "a,\"b\"\r\n,c" = some [["a", "b"], ["", "c"]] := by decide

example : read? "a\"b,c\n" = none := by decide

end CallAtlas.Text.Csv
