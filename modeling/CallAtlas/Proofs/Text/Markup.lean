import Mathlib.Algebra.GroupWithZero.Nat
import Mathlib.Data.List.Infix
import CallAtlas.Proofs.Text.Xml
/-!
Markup in a text. Escaping leaves none of the characters that could end a text between tags or
quotes (`not_mem_escape`), each ampersand in what it writes starts a reference
(`refersOnly_escape`), and replacing the references gives the text back (`unescape_escape`).
Tags are counted by how they start. A tag starts only where an angle bracket stands, so counts
add up over texts that are put together in front of one (`tagCount_append`).
-/
namespace CallAtlas.Text.Xml

def references : List (String × Char) :=
  [("&amp;", '&'), ("&lt;", '<'), ("&gt;", '>'), ("&quot;", '"')]

/-- Characters with each reference replaced by what it stands for. -/
def unescapeChars : List Char → List Char
  | [] => []
  | '&' :: 'a' :: 'm' :: 'p' :: ';' :: rest => '&' :: unescapeChars rest
  | '&' :: 'l' :: 't' :: ';' :: rest => '<' :: unescapeChars rest
  | '&' :: 'g' :: 't' :: ';' :: rest => '>' :: unescapeChars rest
  | '&' :: 'q' :: 'u' :: 'o' :: 't' :: ';' :: rest => '"' :: unescapeChars rest
  | c :: rest => c :: unescapeChars rest

def unescape (text : String) : String :=
  String.ofList (unescapeChars text.toList)

/-- Characters that are no markup are written as they are. -/
theorem escapeChar_plain {c : Char} (plain : c ∉ ['&', '<', '>', '"']) : escapeChar c = [c] := by
  simp only [List.mem_cons, List.not_mem_nil, or_false, not_or] at plain
  obtain ⟨not_amp, not_lt, not_gt, not_quot⟩ := plain
  rw [escapeChar, if_neg not_amp, if_neg not_lt, if_neg not_gt, if_neg not_quot]

theorem unescapeChars_plain {c : Char} (plain : c ≠ '&') (rest : List Char) :
    unescapeChars (c :: rest) = c :: unescapeChars rest := by
  rw [unescapeChars] <;> simp [plain]

theorem unescapeChars_escapeChar (c : Char) (rest : List Char) :
    unescapeChars (escapeChar c ++ rest) = c :: unescapeChars rest := by
  by_cases markup : c ∈ ['&', '<', '>', '"']
  · simp only [List.mem_cons, List.not_mem_nil, or_false] at markup
    rcases markup with rfl | rfl | rfl | rfl <;> rfl
  · have plain : c ≠ '&' := by
      intro same
      simp [same] at markup
    rw [escapeChar_plain markup, List.singleton_append, unescapeChars_plain plain]

theorem unescape_escape (text : String) : unescape (escape text) = text := by
  have chars (text : List Char) : unescapeChars (text.flatMap escapeChar) = text := by
    induction text with
    | nil => rfl
    | cons c rest ih => rw [List.flatMap_cons, unescapeChars_escapeChar, ih]
  rw [unescape, escape, String.toList_ofList, chars, String.ofList_toList]

/-- Escaping leaves no angle bracket and no quote. -/
theorem not_mem_escape (text : String) : ∀ c ∈ ['<', '>', '"'], c ∉ (escape text).toList := by
  have markup : ['&', '<', '>', '"'].all (fun written =>
      ['<', '>', '"'].all fun c => !(escapeChar written).contains c) = true := by decide
  intro c bracket inside
  rw [escape, String.toList_ofList, List.mem_flatMap] at inside
  obtain ⟨written, -, inside⟩ := inside
  by_cases special : written ∈ ['&', '<', '>', '"']
  · have absent := List.all_eq_true.mp (List.all_eq_true.mp markup written special) c bracket
    simp [inside] at absent
  · rw [escapeChar_plain special, List.mem_singleton] at inside
    subst inside
    exact special (List.mem_cons_of_mem _ bracket)

/-- Wherever an ampersand stands, a reference stands. -/
def RefersOnly (text : List Char) : Prop :=
  ∀ tail ∈ text.tails, tail.head? = some '&' →
    ∃ reference ∈ references, reference.1.toList <+: tail

theorem RefersOnly.append {first second : List Char} (one : RefersOnly first)
    (two : RefersOnly second) : RefersOnly (first ++ second) := by
  induction first with
  | nil => exact two
  | cons c rest ih =>
    rw [RefersOnly, List.tails_cons, List.forall_mem_cons] at one
    rw [RefersOnly, List.cons_append, List.tails_cons, List.forall_mem_cons]
    refine ⟨fun ampersand => ?_, ih one.2⟩
    obtain ⟨reference, known, starts⟩ := one.1 ampersand
    exact ⟨reference, known, starts.trans (List.prefix_append (c :: rest) second)⟩

theorem refersOnly_of_not_mem {text : List Char} (absent : '&' ∉ text) : RefersOnly text := by
  intro tail among ampersand
  have inside : '&' ∈ tail := List.mem_of_mem_head? ampersand
  exact absurd (((List.mem_tails _ _).mp among).subset inside) absent

/-- A reference has no ampersand but the one that it starts with. -/
theorem refersOnly_reference {reference : String × Char} (known : reference ∈ references) :
    RefersOnly reference.1.toList := by
  have once : ∀ reference ∈ references, '&' ∉ reference.1.toList.tail := by decide
  have absent := once reference known
  cases letters : reference.1.toList with
  | nil => exact refersOnly_of_not_mem List.not_mem_nil
  | cons c rest =>
    rw [letters] at absent
    rw [RefersOnly, List.tails_cons, List.forall_mem_cons]
    refine ⟨fun _ => ⟨reference, known, ?_⟩, refersOnly_of_not_mem absent⟩
    rw [letters]

theorem escapeChar_markup {c : Char} (markup : c ∈ ['&', '<', '>', '"']) :
    ∃ reference ∈ references, escapeChar c = reference.1.toList := by
  simp only [List.mem_cons, List.not_mem_nil, or_false] at markup
  rcases markup with rfl | rfl | rfl | rfl
  · exact ⟨("&amp;", '&'), by simp [references], rfl⟩
  · exact ⟨("&lt;", '<'), by simp [references], rfl⟩
  · exact ⟨("&gt;", '>'), by simp [references], rfl⟩
  · exact ⟨("&quot;", '"'), by simp [references], rfl⟩

theorem refersOnly_escapeChar (c : Char) : RefersOnly (escapeChar c) := by
  by_cases markup : c ∈ ['&', '<', '>', '"']
  · obtain ⟨reference, known, same⟩ := escapeChar_markup markup
    rw [same]
    exact refersOnly_reference known
  · rw [escapeChar_plain markup]
    apply refersOnly_of_not_mem
    intro ampersand
    rw [List.mem_singleton] at ampersand
    exact markup (ampersand ▸ List.mem_cons_self)

/-- Each ampersand that escaping writes starts a reference. -/
theorem refersOnly_escape (text : String) : RefersOnly (escape text).toList := by
  rw [escape, String.toList_ofList]
  induction text.toList with
  | nil => exact refersOnly_of_not_mem List.not_mem_nil
  | cons c rest ih =>
    rw [List.flatMap_cons]
    exact (refersOnly_escapeChar c).append ih

/-- The number of places in a text where a tag of some name starts. -/
def tagCount (name text : String) : Nat :=
  text.toList.tails.countP fun tail => ('<' :: name.toList).isPrefixOf tail

/-- A text that is empty or starts with a tag. -/
def StartsTag (text : String) : Prop :=
  ∀ c ∈ text.toList.head?, c = '<'

variable {name first second : String}

/-- What stands in front of a tag is no part of the start of that tag. -/
theorem isPrefixOf_append {name first second : List Char} (plain : '<' ∉ name)
    (starts : ∀ c ∈ second.head?, c = '<') (filled : first ≠ []) :
    ('<' :: name).isPrefixOf (first ++ second) = ('<' :: name).isPrefixOf first := by
  apply Bool.eq_iff_iff.mpr
  rw [List.isPrefixOf_iff_prefix, List.isPrefixOf_iff_prefix]
  refine ⟨fun found => ?_, fun found => found.trans (List.prefix_append first second)⟩
  rcases List.prefix_or_prefix_of_prefix found (List.prefix_append first second) with
    within | across
  · exact within
  · -- The first of the characters beyond would be an angle bracket inside the name.
    obtain ⟨beyond, whole⟩ := across
    rw [← whole, List.prefix_append_right_inj] at found
    cases beyond with
    | nil => simp [← whole]
    | cons c rest =>
      obtain ⟨more, rfl⟩ := found
      obtain rfl : c = '<' := starts c rfl
      obtain ⟨d, further, rfl⟩ := List.exists_cons_of_ne_nil filled
      obtain ⟨-, rfl⟩ := List.cons.inj whole
      simp at plain

theorem tagCount_append (plain : '<' ∉ name.toList) (starts : StartsTag second) :
    tagCount name (first ++ second) = tagCount name first + tagCount name second := by
  simp only [tagCount, String.toList_append]
  induction first.toList with
  | nil => simp
  | cons c rest ih =>
    rw [List.cons_append, List.tails_cons, List.tails_cons, List.countP_cons, List.countP_cons, ih,
      ← List.cons_append, isPrefixOf_append plain starts (List.cons_ne_nil c rest)]
    omega

/-- A text with one tag in it, at its start. -/
theorem tagCount_single {text : String} {rest : List Char} (written : text.toList = '<' :: rest)
    (plain : '<' ∉ rest) :
    tagCount name text = if name.toList.isPrefixOf rest then 1 else 0 := by
  have later : rest.tails.countP (fun tail => ('<' :: name.toList).isPrefixOf tail) = 0 := by
    apply List.countP_eq_zero.mpr
    intro tail suffix found
    have inside := (List.isPrefixOf_iff_prefix.mp found).subset List.mem_cons_self
    exact plain (((List.mem_tails _ _).mp suffix).subset inside)
  rw [tagCount, written, List.tails_cons, List.countP_cons, later]
  simp

theorem startsTag_open (rest : String) : StartsTag ("<" ++ rest) := by
  simp [StartsTag]

theorem startsTag_close (rest : String) : StartsTag ("</" ++ rest) := by
  simp [StartsTag]

theorem startsTag_append (one : StartsTag first) (two : StartsTag second) :
    StartsTag (first ++ second) := by
  rw [StartsTag, String.toList_append]
  cases letters : first.toList with
  | nil => exact two
  | cons c rest =>
    rw [StartsTag, letters] at one
    exact one

theorem startsTag_join {parts : List String} (each : ∀ part ∈ parts, StartsTag part) :
    StartsTag (String.join parts) := by
  induction parts with
  | nil => simp [StartsTag]
  | cons part rest ih =>
    rw [List.forall_mem_cons] at each
    rw [String.join_cons]
    exact startsTag_append each.1 (ih each.2)

/-- In texts that start with a tag or are empty, tags are counted one text after the other. -/
theorem tagCount_join {parts : List String} (plain : '<' ∉ name.toList)
    (each : ∀ part ∈ parts, StartsTag part) :
    tagCount name (String.join parts) = (parts.map (tagCount name)).sum := by
  induction parts with
  | nil => rfl
  | cons part rest ih =>
    rw [List.forall_mem_cons] at each
    rw [String.join_cons, tagCount_append plain (startsTag_join each.2), ih each.2, List.map_cons,
      List.sum_cons]

theorem tagCount_join_of_each {parts : List String} {count : Nat} (plain : '<' ∉ name.toList)
    (starts : ∀ part ∈ parts, StartsTag part) (each : ∀ part ∈ parts, tagCount name part = count) :
    tagCount name (String.join parts) = parts.length * count := by
  rw [tagCount_join plain starts, List.map_congr_left each, List.map_const',
    List.sum_replicate_nat]

theorem not_mem_of_isName {text : String} (valid : isName text = true) : '<' ∉ text.toList := by
  intro inside
  rw [isName] at valid
  split at valid
  · cases valid
  next first rest letters =>
    rw [letters] at inside
    rw [Bool.and_eq_true, List.all_eq_true] at valid
    rcases List.mem_cons.mp inside with rfl | later
    · exact absurd valid.1 (by decide)
    · exact absurd (valid.2 _ later) (by decide)

namespace Tag

/-- There is no angle bracket inside a tag. -/
theorem not_mem_write (tag : Tag) : '<' ∉ tag.write.toList := by
  rw [write, String.toList_append, List.mem_append, String.toList_join, List.mem_flatMap]
  rintro (inside | ⟨part, listed, inside⟩)
  · exact not_mem_of_isName tag.named inside
  · obtain ⟨pair, among, rfl⟩ := List.mem_map.mp listed
    have key : '<' ∉ pair.1.toList :=
      not_mem_of_isName (List.all_eq_true.mp tag.keys _ (List.mem_map_of_mem among))
    have value : '<' ∉ pair.2.toList := by
      intro within
      have quotable := List.all_eq_true.mp (tag.values _ (List.mem_map_of_mem among)) _ within
      simp [isQuotable] at quotable
    simp [assignment, key, value] at inside

/-- A tag counts for its own name, and for no other that does not start like it. -/
theorem tagCount_eq (tag : Tag) {after : String} (plain : '<' ∉ after.toList)
    (apart : name.toList <+: tag.name.toList ∨ tag.name.toList <+: name.toList → name = tag.name) :
    tagCount name ("<" ++ tag.write ++ after) = if name = tag.name then 1 else 0 := by
  have written : ("<" ++ tag.write ++ after).toList = '<' :: (tag.write.toList ++ after.toList) := by
    rw [String.toList_append, String.toList_append, List.append_assoc]
    rfl
  have named : tag.name.toList <+: tag.write.toList ++ after.toList := by
    rw [write, String.toList_append, List.append_assoc]
    exact List.prefix_append _ _
  have starts : name.toList.isPrefixOf (tag.write.toList ++ after.toList) = true ↔
      name = tag.name := by
    rw [List.isPrefixOf_iff_prefix]
    constructor
    · intro found
      exact apart (List.prefix_or_prefix_of_prefix found named)
    · intro same
      rw [same]
      exact named
  rw [tagCount_single written]
  · simp only [starts]
  · rw [List.mem_append]
    exact not_or.mpr ⟨tag.not_mem_write, plain⟩

end Tag

end CallAtlas.Text.Xml
