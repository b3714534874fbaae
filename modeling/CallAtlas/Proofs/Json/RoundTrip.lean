import CallAtlas.Proofs.Json.Number
import CallAtlas.Proofs.Json.Text
/-!
Every value is read back from its written form (`parse?_render`), so no two values are
written alike. The proof follows the layout: blanks between the parts are passed over, a part
is read up to where it ends, and what comes after it tells whether another one follows. A
value needs no more fuel than twice the length of its text.
-/
namespace CallAtlas.Json

theorem isBlank_indent (level : Nat) : ∀ c ∈ (indent level).toList, isBlank c = true := by
  intro c member
  simp only [indent, String.toList_ofList] at member
  rw [List.eq_of_mem_replicate member]
  rfl

@[simp]
theorem length_indent (level : Nat) : (indent level).toList.length = 4 * level := by
  simp [indent]

/-- A line break and the blanks after it are passed over. -/
@[simp]
theorem skipBlanks_newline (level : Nat) (rest : List Char) :
    skipBlanks ('\n' :: ((indent level).toList ++ rest)) = skipBlanks rest :=
  List.dropWhile_append_of_pos (isBlank_indent level)

theorem skipBlanks_solid {c : Char} (solid : isBlank c = false) (rest : List Char) :
    skipBlanks (c :: rest) = c :: rest := by
  simp [skipBlanks, solid]

def lines (level : Nat) (parts : List String) : List Char :=
  (Text.join ",\n" (parts.map (indent (level + 1) ++ ·))).toList

theorem lines_singleton (level : Nat) (part : String) :
    lines level [part] = (indent (level + 1)).toList ++ part.toList := by
  simp [lines, Text.join]

theorem lines_cons (level : Nat) (part next : String) (more : List String) :
    lines level (part :: next :: more) = (indent (level + 1)).toList ++
      (part.toList ++ ',' :: '\n' :: lines level (next :: more)) := by
  simp [lines, Text.join]

/-- After the blanks of its first line, a container goes on with its first part. -/
theorem skipBlanks_lines (level : Nat) (part : String) (more : List String) (rest : List Char) :
    ∃ tail, skipBlanks ('\n' :: (lines level (part :: more) ++ rest)) =
      skipBlanks (part.toList ++ tail) := by
  cases more with
  | nil => exact ⟨rest, by rw [lines_singleton, List.append_assoc, skipBlanks_newline]⟩
  | cons next more =>
    refine ⟨',' :: '\n' :: (lines level (next :: more) ++ rest), ?_⟩
    rw [lines_cons, List.append_assoc, skipBlanks_newline, List.append_assoc]
    rfl

theorem toList_block (left right : String) (level : Nat) (part : String) (more : List String) :
    (block left right level (part :: more)).toList = left.toList ++ '\n' ::
      (lines level (part :: more) ++ '\n' :: ((indent level).toList ++ right.toList)) := by
  simp [block, lines]

variable {fuel : Nat} {rest : List Char}

theorem readValue_congr {cs others : List Char} (same : skipBlanks cs = skipBlanks others) :
    readValue fuel cs = readValue fuel others := by
  cases fuel with
  | zero => rfl
  | succ fuel => rw [readValue, readValue, same]

theorem readValue_blank (cs : List Char) : readValue fuel (' ' :: cs) = readValue fuel cs :=
  readValue_congr rfl

theorem readValue_scalar {c : Char} {tail : List Char} (solid : isBlank c = false)
    (text : c ≠ '"') (array : c ≠ '[') (object : c ≠ '\x7b') :
    readValue (fuel + 1) (c :: tail) = readScalar (c :: tail) := by
  rw [readValue, skipBlanks_solid solid]
  simp [text, array, object]

theorem readValue_array {body tail : List Char} {c : Char} {elements : List Json}
    (first : skipBlanks body = c :: tail) (other : c ≠ ']')
    (read : readElements fuel body = some (elements, rest)) :
    readValue (fuel + 1) ('[' :: body) = some (array elements, rest) := by
  rw [readValue, skipBlanks_solid rfl]
  simp [first, other, read]

theorem readValue_object {body tail : List Char} {c : Char} {members : List (String × Json)}
    (first : skipBlanks body = c :: tail) (other : c ≠ '\x7d')
    (read : readMembers fuel body = some (members, rest)) :
    readValue (fuel + 1) ('\x7b' :: body) = some (object members, rest) := by
  rw [readValue, skipBlanks_solid rfl]
  simp [first, other, read]

/-- The last element is followed by the closing bracket on a line of its own. -/
theorem readElements_last {body : List Char} {element : Json} (level : Nat)
    (read : readValue fuel body =
      some (element, '\n' :: ((indent level).toList ++ ']' :: rest))) :
    readElements (fuel + 1) body = some ([element], rest) := by
  rw [readElements, read]
  simp [skipBlanks_solid, isBlank]

theorem readElements_more {body tail : List Char} {element : Json} {more : List Json}
    (read : readValue fuel body = some (element, ',' :: tail))
    (others : readElements fuel tail = some (more, rest)) :
    readElements (fuel + 1) body = some (element :: more, rest) := by
  rw [readElements, read]
  simp [skipBlanks_solid, isBlank, others]

/-- The last member is followed by the closing brace on a line of its own. -/
theorem readMembers_last {body tail : List Char} {key : String} {value : Json} (level : Nat)
    (start : skipBlanks body = '"' :: (key.toList.flatMap escapeChar ++ '"' :: ':' :: tail))
    (read : readValue fuel tail =
      some (value, '\n' :: ((indent level).toList ++ '\x7d' :: rest))) :
    readMembers (fuel + 1) body = some ([(key, value)], rest) := by
  rw [readMembers, start]
  simp [skipBlanks_solid, isBlank, read]

theorem readMembers_more {body tail next : List Char} {key : String} {value : Json}
    {more : List (String × Json)}
    (start : skipBlanks body = '"' :: (key.toList.flatMap escapeChar ++ '"' :: ':' :: tail))
    (read : readValue fuel tail = some (value, ',' :: next))
    (others : readMembers fuel next = some (more, rest)) :
    readMembers (fuel + 1) body = some ((key, value) :: more, rest) := by
  rw [readMembers, start]
  simp [skipBlanks_solid, isBlank, read, others]

theorem endsNumber_cons {c : Char}
    (other : c.isDigit = false ∧ c ≠ '.' ∧ c ≠ 'e' ∧ c ≠ 'E') (rest : List Char) :
    EndsNumber (c :: rest) := by
  intro d first
  cases first
  exact other

theorem toList_array (level : Nat) (element : Json) (more : List Json) :
    (renderAt level (array (element :: more))).toList = '[' :: '\n' ::
      (lines level (renderElements level (element :: more)) ++
        '\n' :: ((indent level).toList ++ [']'])) := by
  rw [renderAt, renderElements, toList_block]
  rfl

theorem toList_object (level : Nat) (member : String × Json) (more : List (String × Json)) :
    (renderAt level (object (member :: more))).toList = '\x7b' :: '\n' ::
      (lines level (renderMembers level (member :: more)) ++
        '\n' :: ((indent level).toList ++ ['\x7d'])) := by
  rw [renderAt, renderMembers, toList_block]
  rfl

/-- A number starts with none of the characters that other values start or end with. -/
theorem number_start {c : Char} (start : c = '-' ∨ c.isDigit = true) :
    isBlank c = false ∧ c ≠ ']' ∧ c ≠ '"' ∧ c ≠ '[' ∧ c ≠ '\x7b' ∧
      c ≠ 'n' ∧ c ≠ 't' ∧ c ≠ 'f' := by
  rcases start with rfl | digit
  · decide
  · have other (d : Char) (letter : d.isDigit = false) : c ≠ d := by
      rintro rfl
      rw [digit] at letter
      cases letter
    simp [isBlank, other]

/-- The written form of a value starts with no blank and with no closing bracket. -/
theorem renderAt_eq_cons (level : Nat) (value : Json) :
    ∃ c tail, (renderAt level value).toList = c :: tail ∧ isBlank c = false ∧ c ≠ ']' := by
  cases value with
  | null => exact ⟨'n', ['u', 'l', 'l'], by simp [renderAt], by decide, by decide⟩
  | bool value =>
    cases value with
    | true => exact ⟨'t', ['r', 'u', 'e'], by simp [renderAt], by decide, by decide⟩
    | false => exact ⟨'f', ['a', 'l', 's', 'e'], by simp [renderAt], by decide, by decide⟩
  | number digits places =>
    obtain ⟨c, tail, text, start⟩ := writeNumber_eq_cons digits places
    obtain ⟨solid, other, -⟩ := number_start start
    exact ⟨c, tail, by rw [renderAt, text], solid, other⟩
  | string value => exact ⟨'"', _, by rw [renderAt, toList_quote], by decide, by decide⟩
  | array elements =>
    cases elements with
    | nil => exact ⟨'[', [']'], by simp [renderAt, renderElements, block], by decide, by decide⟩
    | cons element more => exact ⟨'[', _, toList_array level element more, by decide, by decide⟩
  | object members =>
    cases members with
    | nil =>
      exact ⟨'\x7b', ['\x7d'], by simp [renderAt, renderMembers, block], by decide, by decide⟩
    | cons member more =>
      exact ⟨'\x7b', _, toList_object level member more, by decide, by decide⟩

theorem readValue_number (digits : Int) (places : Nat) (ends : EndsNumber rest) :
    readValue (fuel + 1) ((writeNumber digits places).toList ++ rest) =
      some (number digits places, rest) := by
  have read := readNumber_writeNumber digits places ends
  obtain ⟨c, tail, text, start⟩ := writeNumber_eq_cons digits places
  obtain ⟨solid, -, quote, bracket, brace, n, t, f⟩ := number_start start
  rw [text, List.cons_append] at read ⊢
  -- The words `null`, `true` and `false` are tried before a number.
  rw [readValue_scalar solid quote bracket brace, readScalar, read]
  · rintro _ same
    exact n (List.cons.inj same).1
  · rintro _ same
    exact t (List.cons.inj same).1
  · rintro _ same
    exact f (List.cons.inj same).1

theorem toList_member (key : String) (level : Nat) (value : Json) :
    (quote key ++ ": " ++ renderAt level value).toList =
      '"' :: (key.toList.flatMap escapeChar ++ '"' :: ':' :: ' ' ::
        (renderAt level value).toList) := by
  simp [toList_quote]

def parts : Json → List Json
  | array elements => elements
  | object members => members.map (·.2)
  | _ => []

theorem sizeOf_lt_of_mem_parts {value part : Json} (among : part ∈ value.parts) :
    sizeOf part < sizeOf value := by
  cases value with
  | array elements =>
    have smaller := List.sizeOf_lt_of_mem among
    simp only [parts, array.sizeOf_spec] at smaller ⊢
    omega
  | object members =>
    obtain ⟨⟨key, part⟩, listed, rfl⟩ := List.mem_map.mp among
    have smaller := List.sizeOf_lt_of_mem listed
    simp only [Prod.mk.sizeOf_spec, object.sizeOf_spec] at smaller ⊢
    omega
  | _ => cases among

/-- Induction over a value: it is settled once its parts are. -/
@[elab_as_elim]
theorem byParts {motive : Json → Prop}
    (settle : ∀ value : Json, (∀ part ∈ value.parts, motive part) → motive value)
    (value : Json) : motive value :=
  settle value fun part _among => byParts settle part
termination_by sizeOf value
decreasing_by exact sizeOf_lt_of_mem_parts _among

/-- A value is read back at every depth, whatever follows it. -/
def ReadsBack (value : Json) : Prop :=
  ∀ (level fuel : Nat) (rest : List Char), 2 * (renderAt level value).toList.length ≤ fuel →
    EndsNumber rest → readValue fuel ((renderAt level value).toList ++ rest) = some (value, rest)

/-- The fuel for a container is enough for its parts, as each of them stands behind at least
four blanks. -/
theorem readElements_lines (level : Nat) (rest : List Char) (element : Json) (more : List Json)
    (each : ∀ part ∈ element :: more, ReadsBack part) (fuel : Nat)
    (enough : 2 * (lines level (renderElements level (element :: more))).length ≤ fuel) :
    readElements fuel ('\n' :: (lines level (renderElements level (element :: more)) ++
      '\n' :: ((indent level).toList ++ ']' :: rest))) = some (element :: more, rest) := by
  have here := each element (List.mem_cons_self ..)
  induction more generalizing element fuel with
  | nil =>
    rw [renderElements, renderElements, lines_singleton] at enough ⊢
    rw [List.length_append, length_indent] at enough
    obtain ⟨fuel, rfl⟩ : ∃ less, fuel = less + 1 := ⟨fuel - 1, by omega⟩
    apply readElements_last level
    rw [List.append_assoc, readValue_congr (skipBlanks_newline (level + 1) _)]
    exact here (level + 1) fuel _ (by omega) (endsNumber_cons (by decide) _)
  | cons next others ih =>
    -- The comma sends the reader on to the lines of the other elements.
    rw [renderElements, renderElements, lines_cons, ← renderElements] at enough ⊢
    simp only [List.length_append, List.length_cons, length_indent] at enough
    obtain ⟨fuel, rfl⟩ : ∃ less, fuel = less + 1 := ⟨fuel - 1, by omega⟩
    have remaining := fun part among => each part (List.mem_cons_of_mem _ among)
    have later := ih next remaining fuel (by omega) (remaining next (List.mem_cons_self ..))
    rw [List.append_assoc, List.append_assoc, List.cons_append, List.cons_append]
    apply readElements_more _ later
    rw [readValue_congr (skipBlanks_newline (level + 1) _)]
    exact here (level + 1) fuel _ (by omega) (endsNumber_cons (by decide) _)

/-- A member starts, after the blanks of its line, with its name. -/
theorem skipBlanks_member (level : Nat) (key : String) (value : Json) (rest : List Char) :
    skipBlanks ('\n' :: ((indent (level + 1)).toList ++
        ((quote key ++ ": " ++ renderAt (level + 1) value).toList ++ rest))) =
      '"' :: (key.toList.flatMap escapeChar ++ '"' :: ':' :: ' ' ::
        ((renderAt (level + 1) value).toList ++ rest)) := by
  rw [skipBlanks_newline, toList_member, List.cons_append, skipBlanks_solid rfl,
    List.append_assoc]
  rfl

theorem readMembers_lines (level : Nat) (rest : List Char) (key : String) (value : Json)
    (more : List (String × Json)) (each : ∀ part ∈ (key, value) :: more, ReadsBack part.2)
    (fuel : Nat)
    (enough : 2 * (lines level (renderMembers level ((key, value) :: more))).length ≤ fuel) :
    readMembers fuel ('\n' :: (lines level (renderMembers level ((key, value) :: more)) ++
      '\n' :: ((indent level).toList ++ '\x7d' :: rest))) = some ((key, value) :: more, rest) := by
  have here : ReadsBack value := each (key, value) (List.mem_cons_self ..)
  induction more generalizing key value fuel with
  | nil =>
    rw [renderMembers, renderMembers, lines_singleton] at enough ⊢
    rw [toList_member] at enough
    simp only [List.length_append, List.length_cons, length_indent] at enough
    obtain ⟨fuel, rfl⟩ : ∃ less, fuel = less + 1 := ⟨fuel - 1, by omega⟩
    rw [List.append_assoc]
    apply readMembers_last level (skipBlanks_member level key value _)
    rw [readValue_blank]
    exact here (level + 1) fuel _ (by omega) (endsNumber_cons (by decide) _)
  | cons next others ih =>
    obtain ⟨name, content⟩ := next
    rw [renderMembers, renderMembers, lines_cons, ← renderMembers] at enough ⊢
    rw [toList_member] at enough
    simp only [List.length_append, List.length_cons, length_indent] at enough
    obtain ⟨fuel, rfl⟩ : ∃ less, fuel = less + 1 := ⟨fuel - 1, by omega⟩
    have remaining := fun part among => each part (List.mem_cons_of_mem _ among)
    have later := ih name content remaining fuel (by omega)
      (remaining (name, content) (List.mem_cons_self ..))
    rw [List.append_assoc, List.append_assoc, List.cons_append, List.cons_append]
    apply readMembers_more (skipBlanks_member level key value _) _ later
    rw [readValue_blank]
    exact here (level + 1) fuel _ (by omega) (endsNumber_cons (by decide) _)

/-- Some fuel is left for the first character of a value. -/
theorem exists_fuel_of_render {level fuel : Nat} {value : Json}
    (enough : 2 * (renderAt level value).toList.length ≤ fuel) : ∃ less, fuel = less + 1 := by
  obtain ⟨c, tail, start, -⟩ := renderAt_eq_cons level value
  rw [start, List.length_cons] at enough
  exact ⟨fuel - 1, by omega⟩

theorem readsBack_string (text : String) : ReadsBack (string text) := by
  intro level fuel rest enough _
  obtain ⟨fuel, rfl⟩ := exists_fuel_of_render enough
  rw [renderAt, toList_quote, List.cons_append, List.append_assoc, List.singleton_append,
    readValue, skipBlanks_solid rfl]
  simp only [readText_flatMap, Option.map_some]

theorem readsBack_array {elements : List Json} (each : ∀ part ∈ elements, ReadsBack part) :
    ReadsBack (array elements) := by
  intro level fuel rest enough _
  obtain ⟨fuel, rfl⟩ := exists_fuel_of_render enough
  cases elements with
  | nil => simp [renderAt, renderElements, block, readValue, skipBlanks_solid, isBlank]
  | cons element more =>
    rw [toList_array] at enough ⊢
    simp only [List.length_cons, List.length_append] at enough
    -- An empty array is told by its closing bracket, and no element starts with one.
    have read := readElements_lines level rest element more each fuel (by omega)
    obtain ⟨c, tail, start, solid, other⟩ := renderAt_eq_cons (level + 1) element
    obtain ⟨after, first⟩ := skipBlanks_lines level (renderAt (level + 1) element)
      (renderElements level more) ('\n' :: ((indent level).toList ++ ']' :: rest))
    rw [start, List.cons_append, skipBlanks_solid solid] at first
    simp only [List.cons_append, List.append_assoc, List.nil_append]
    exact readValue_array first other read

theorem readsBack_object {members : List (String × Json)}
    (each : ∀ part ∈ members, ReadsBack part.2) : ReadsBack (object members) := by
  intro level fuel rest enough _
  obtain ⟨fuel, rfl⟩ := exists_fuel_of_render enough
  cases members with
  | nil => simp [renderAt, renderMembers, block, readValue, skipBlanks_solid, isBlank]
  | cons member more =>
    obtain ⟨key, value⟩ := member
    rw [toList_object] at enough ⊢
    simp only [List.length_cons, List.length_append] at enough
    have read := readMembers_lines level rest key value more each fuel (by omega)
    obtain ⟨after, first⟩ := skipBlanks_lines level
      (quote key ++ ": " ++ renderAt (level + 1) value) (renderMembers level more)
      ('\n' :: ((indent level).toList ++ '\x7d' :: rest))
    rw [toList_member, List.cons_append, skipBlanks_solid (c := '"') rfl] at first
    simp only [List.cons_append, List.append_assoc, List.nil_append]
    exact readValue_object first (by decide) read

theorem readsBack (value : Json) : ReadsBack value := by
  induction value using byParts with
  | settle value each =>
    cases value with
    | string text => exact readsBack_string text
    | array elements => exact readsBack_array each
    | object members =>
      exact readsBack_object fun part among => each part.2 (List.mem_map_of_mem among)
    | null =>
      intro level fuel rest enough _
      obtain ⟨fuel, rfl⟩ := exists_fuel_of_render enough
      simp [renderAt, readValue, readScalar, skipBlanks_solid, isBlank]
    | bool value =>
      intro level fuel rest enough _
      obtain ⟨fuel, rfl⟩ := exists_fuel_of_render enough
      cases value <;> simp [renderAt, readValue, readScalar, skipBlanks_solid, isBlank]
    | number digits places =>
      intro level fuel rest enough ends
      obtain ⟨fuel, rfl⟩ := exists_fuel_of_render enough
      rw [renderAt]
      exact readValue_number digits places ends

/-- What is written is read back. -/
theorem parse?_render (value : Json) : parse? value.render = some value := by
  have read := readsBack value 0 (2 * value.render.toList.length + 1) [] (by
    rw [render]
    omega) (by simp [EndsNumber])
  rw [List.append_nil, ← render] at read
  simp [parse?, read, skipBlanks]

end CallAtlas.Json
