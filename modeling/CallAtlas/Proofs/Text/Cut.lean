import Mathlib.Data.List.Infix
import CallAtlas.Dialect.Cpp
/-!
Where a text is cut. A cut is made at an occurrence of the separator after which no other one
starts, and there is none exactly when the separator does not occur. For `::` paths this tells
when a path is written with an owner, and with which. A qualified name is cut into what it was
joined from, if the name after the dot has none in it.
-/
namespace CallAtlas.Text

/-- The text is cut at the separator that starts last. -/
structure IsLastCut (separator text before after : List Char) : Prop where
  joined : text = before ++ (separator ++ after)
  last : ¬ separator <:+: (separator ++ after).tail

/-- There is nothing to cut exactly when the separator does not occur. -/
theorem cutLastChars?_eq_none_iff {separator : List Char} (some_char : separator ≠ [])
    (text : List Char) : cutLastChars? separator text = none ↔ ¬ separator <:+: text := by
  induction text with
  | nil => simp [cutLastChars?, some_char]
  | cons c rest ih =>
    rw [cutLastChars?, List.infix_cons_iff, not_or, ← ih, ← List.isPrefixOf_iff_prefix]
    cases found : cutLastChars? separator rest with
    | some cut => simp
    | none => cases starts : separator.isPrefixOf (c :: rest) <;> simp

theorem cutLastChars?_eq_some_of_isLastCut {separator text before after : List Char}
    (some_char : separator ≠ []) (cut : IsLastCut separator text before after) :
    cutLastChars? separator text = some (before, after) := by
  obtain ⟨rfl, last⟩ := cut
  induction before with
  | nil =>
    obtain ⟨c, rest, rfl⟩ := List.exists_cons_of_ne_nil some_char
    have uncut := (cutLastChars?_eq_none_iff some_char _).mpr last
    have starts : (c :: rest).isPrefixOf (c :: (rest ++ after)) = true :=
      List.isPrefixOf_iff_prefix.mpr (List.prefix_append (c :: rest) after)
    rw [List.cons_append, List.tail_cons] at uncut
    rw [List.nil_append, List.cons_append, cutLastChars?, uncut]
    simp only [starts, if_true]
    rw [← List.cons_append, List.drop_left]
  | cons c rest ih => rw [List.cons_append, cutLastChars?, ih]

theorem isLastCut_of_cutLastChars? {separator text before after : List Char}
    (some_char : separator ≠ []) (cut : cutLastChars? separator text = some (before, after)) :
    IsLastCut separator text before after := by
  have joined := eq_of_cutLastChars? cut
  rw [List.append_assoc] at joined
  refine ⟨joined, ?_⟩
  induction text generalizing before with
  | nil => simp [cutLastChars?] at cut
  | cons c rest ih =>
    cases found : cutLastChars? separator rest with
    | some sides =>
      -- The cut lies further on, and it is the one of the rest.
      rw [cutLastChars?, found, Option.some.injEq, Prod.mk.injEq] at cut
      obtain ⟨rfl, rfl⟩ := cut
      exact ih found (List.cons.inj joined).2
    | none =>
      have uncut := (cutLastChars?_eq_none_iff some_char rest).mp found
      simp only [cutLastChars?, found] at cut
      split at cut
      · simp only [Option.some.injEq, Prod.mk.injEq] at cut
        obtain ⟨rfl, -⟩ := cut
        rw [← List.nil_append (separator ++ after), ← joined]
        exact uncut
      · cases cut

/-- A text is cut exactly at the separator that starts last. -/
theorem cutLast?_eq_some_iff {separator text before after : String}
    (some_char : separator.toList ≠ []) :
    cutLast? separator text = some (before, after) ↔
      IsLastCut separator.toList text.toList before.toList after.toList := by
  rw [cutLast?, Option.map_eq_some_iff]
  constructor
  · rintro ⟨⟨first, second⟩, cut, sides⟩
    simp only [Prod.mk.injEq] at sides
    obtain ⟨rfl, rfl⟩ := sides
    simpa using isLastCut_of_cutLastChars? some_char cut
  · intro cut
    exact ⟨_, cutLastChars?_eq_some_of_isLastCut some_char cut, by simp⟩

theorem cutLast?_eq_none_iff {separator text : String} (some_char : separator.toList ≠ []) :
    cutLast? separator text = none ↔ ¬ separator.toList <:+: text.toList := by
  rw [cutLast?, Option.map_eq_none_iff, cutLastChars?_eq_none_iff some_char]

/-- A text is cut at a dot if none comes after it. -/
theorem cutLast?_dot {stem last : String} (undotted : '.' ∉ last.toList) :
    cutLast? "." (stem ++ "." ++ last) = some (stem, last) := by
  rw [cutLast?_eq_some_iff (by decide)]
  refine ⟨by simp, ?_⟩
  have dot : ".".toList = ['.'] := by decide
  rw [dot, List.singleton_append, List.tail_cons, List.singleton_infix_iff]
  exact undotted

end CallAtlas.Text

namespace CallAtlas

theorem qualify_left_inj {owner other name : String} :
    qualify (some owner) name = qualify (some other) name ↔ owner = other := by
  simp only [qualify, ← String.toList_inj, String.toList_append, List.append_left_inj]

theorem qualify_ne_self (owner name : String) : name ≠ qualify (some owner) name := by
  intro same
  have length := congrArg String.length same
  have dot : ".".length = 1 := by decide
  simp only [qualify, String.length_append] at length
  omega

/-- Names without a dot are told apart from their owners. -/
theorem qualify_inj_of_undotted {owner other name last : String} (undotted : '.' ∉ name.toList)
    (also : '.' ∉ last.toList) :
    qualify (some owner) name = qualify (some other) last ↔ owner = other ∧ name = last := by
  constructor
  · intro same
    have cut := @Text.cutLast?_dot owner name undotted
    rw [show owner ++ "." ++ name = other ++ "." ++ last from same, Text.cutLast?_dot also] at cut
    simpa [eq_comm] using cut
  · intro ⟨owners, names⟩
    rw [owners, names]

/-- A name without a dot is not that of something owned. -/
theorem qualify_none_ne_of_undotted {name : String} (undotted : '.' ∉ name.toList)
    (owner last : String) : qualify none name ≠ qualify (some owner) last := by
  intro same
  rw [show name = owner ++ "." ++ last from same] at undotted
  simp at undotted

/-- A name without a dot and its owner, if it has one, can be read off the qualified name. -/
theorem qualify_eq_iff_of_undotted {owner other : Option String} {name last : String}
    (undotted : '.' ∉ name.toList) (also : '.' ∉ last.toList) :
    qualify owner name = qualify other last ↔ owner = other ∧ name = last := by
  match owner, other with
  | none, none => simp [qualify]
  | none, some other => simp [qualify_none_ne_of_undotted undotted]
  | some owner, none => simp [(qualify_none_ne_of_undotted also owner name).symm]
  | some owner, some other => rw [qualify_inj_of_undotted undotted also, Option.some.injEq]

end CallAtlas

namespace CallAtlas.Dialect.Cpp

open Text

/-- The last segment of a `::` path, which is the whole of it if it has only one. -/
def IsLastSegment (path segment : String) : Prop :=
  (¬ "::".toList <:+: path.toList ∧ segment = path) ∨
    ∃ before : String, IsLastCut "::".toList path.toList before.toList segment.toList

/-- A path is written as `owner::name`, perhaps after further segments and with blanks. -/
def WrittenUnder (path owner name : String) : Prop :=
  ∃ scope segment last : String,
    IsLastCut "::".toList path.toList scope.toList last.toList ∧ IsLastSegment scope segment ∧
      trim segment = owner ∧ owner ≠ "" ∧ trim last = name

theorem isLastSegment_iff (path segment : String) :
    IsLastSegment path segment ↔ lastSegment "::" path = segment := by
  have some_char : "::".toList ≠ [] := by decide
  rw [IsLastSegment, ← cutLast?_eq_none_iff some_char, lastSegment]
  simp only [← cutLast?_eq_some_iff some_char]
  cases cut : cutLast? "::" path with
  | none => simp [eq_comm]
  | some sides => simp [Prod.ext_iff]

/-- A function has the owner that its path is written with. -/
theorem splitPath_eq_some_iff (path owner name : String) :
    splitPath path = (some owner, name) ↔ WrittenUnder path owner name := by
  have some_char : "::".toList ≠ [] := by decide
  simp only [WrittenUnder, ← cutLast?_eq_some_iff some_char, isLastSegment_iff, splitPath]
  cases cutLast? "::" path with
  | none => simp
  | some sides =>
    obtain ⟨scope, last⟩ := sides
    constructor
    · intro parts
      by_cases nameless : trim (lastSegment "::" scope) = ""
      · simp [nameless] at parts
      · simp only [nameless, if_false, Prod.mk.injEq, Option.some.injEq] at parts
        obtain ⟨rfl, rfl⟩ := parts
        exact ⟨scope, _, last, rfl, rfl, rfl, nameless, rfl⟩
    · rintro ⟨_, _, _, ⟨rfl, rfl⟩, rfl, rfl, named, rfl⟩
      simp [named]

end CallAtlas.Dialect.Cpp
