import CallAtlas.Text.Xml
/-!
Well-formed XML, in the part of the language that drawings are written in: elements with
attributes between double quotes, character data, and references to the predefined entities.
There are no comments, sections, instructions or declarations, and a `>` is always written as
an entity. What this grammar derives consists of allowed characters (`Content.allowed`), and
escaping turns any text of allowed characters into content (`content_escape`). Escaping gives
no form to the other characters: they stay what they are (`mem_escape`).
-/
namespace CallAtlas.Text.Xml

def isNameStart (c : Char) : Bool :=
  c.isAlpha || c == '_' || c == ':'

def isNameChar (c : Char) : Bool :=
  isNameStart c || c.isDigit || c == '-' || c == '.'

def isName (name : String) : Bool :=
  match name.toList with
  | [] => false
  | first :: rest => isNameStart first && rest.all isNameChar

/-- A character that stands for itself between double quotes. -/
def isQuotable (c : Char) : Bool :=
  isAllowed c && c != '<' && c != '&' && c != '"'

/-- A character that stands for itself between tags. -/
def isData (c : Char) : Bool :=
  isAllowed c && c != '<' && c != '&' && c != '>'

def entities : List String := ["amp", "lt", "gt", "quot", "apos"]

/-- The name and the attributes of an element. No attribute is given twice. -/
structure Tag where
  name : String
  attributes : List (String × String)
  named : isName name = true := by decide
  keys : (attributes.map (·.1)).all isName = true := by simp only [List.map] <;> decide
  distinct : (attributes.map (·.1)).Nodup := by simp only [List.map] <;> decide
  values : ∀ value ∈ attributes.map (·.2), value.toList.all isQuotable = true := by decide

namespace Tag

/-- An attribute as it is written, with the blank before it. -/
def assignment (pair : String × String) : String :=
  " " ++ pair.1 ++ "=\"" ++ pair.2 ++ "\""

def write (tag : Tag) : String :=
  tag.name ++ String.join (tag.attributes.map assignment)

def alone (tag : Tag) : String :=
  "<" ++ tag.write ++ "/>"

def around (tag : Tag) (inside : String) : String :=
  "<" ++ tag.write ++ ">" ++ inside ++ "</" ++ tag.name ++ ">"

end Tag

/-- What may stand between the tags of an element. -/
inductive Content : String → Prop where
  | nothing : Content ""
  | data {c rest} (plain : isData c = true) (further : Content rest) :
      Content (String.singleton c ++ rest)
  | reference {entity rest} (known : entity ∈ entities) (further : Content rest) :
      Content ("&" ++ entity ++ ";" ++ rest)
  | alone (tag : Tag) {rest} (further : Content rest) : Content (tag.alone ++ rest)
  | around (tag : Tag) {inside rest} (content : Content inside) (further : Content rest) :
      Content (tag.around inside ++ rest)

/-- A document is one element, with line ends after it. -/
inductive Document : String → Prop where
  | root (tag : Tag) {inside : String} (content : Content inside) (lines : Nat) :
      Document (tag.around inside ++ String.ofList (List.replicate lines '\n'))

theorem Content.append {first second : String} (one : Content first) (two : Content second) :
    Content (first ++ second) := by
  induction one with
  | nothing => simpa using two
  | data plain _ ih =>
    rw [String.append_assoc]
    exact .data plain ih
  | reference known _ ih =>
    rw [String.append_assoc]
    exact .reference known ih
  | alone tag _ ih =>
    rw [String.append_assoc]
    exact .alone tag ih
  | around tag content _ _ ih =>
    rw [String.append_assoc]
    exact .around tag content ih

theorem Content.join {parts : List String} (each : ∀ part ∈ parts, Content part) :
    Content (String.join parts) := by
  induction parts with
  | nil => exact .nothing
  | cons part rest ih =>
    rw [String.join_cons]
    exact (each part List.mem_cons_self).append
      (ih fun part later => each part (List.mem_cons_of_mem _ later))

theorem content_newline : Content "\n" :=
  .data (c := '\n') (by decide) .nothing

theorem Tag.content_alone (tag : Tag) : Content tag.alone := by
  simpa using Content.alone tag .nothing

theorem Tag.content_around (tag : Tag) {inside : String} (content : Content inside) :
    Content (tag.around inside) := by
  simpa using Content.around tag content .nothing

/-- The characters of names are printable ASCII. -/
theorem isAllowed_of_isNameChar {c : Char} (valid : isNameChar c = true) : isAllowed c = true := by
  have printable : 0x20 ≤ c.toNat ∧ c.toNat < 0x80 := by
    delta isNameChar isNameStart Char.isAlpha Char.isUpper Char.isLower Char.isDigit at valid
    simp only [Bool.or_eq_true, Bool.and_eq_true, decide_eq_true_eq, beq_iff_eq, ge_iff_le,
      UInt32.le_iff_toNat_le] at valid
    change (((((65 ≤ c.toNat ∧ c.toNat ≤ 90 ∨ 97 ≤ c.toNat ∧ c.toNat ≤ 122) ∨ c = '_') ∨
      c = ':') ∨ 48 ≤ c.toNat ∧ c.toNat ≤ 57) ∨ c = '-') ∨ c = '.' at valid
    rcases valid with (((((upper | lower) | rfl) | rfl) | digit) | rfl) | rfl
    · omega
    · omega
    · decide
    · decide
    · omega
    · decide
    · decide
  simp only [isAllowed, Bool.or_eq_true, Bool.and_eq_true, decide_eq_true_eq, bne_iff_ne]
  omega

def AllAllowed (text : String) : Prop :=
  ∀ c ∈ text.toList, isAllowed c = true

instance (text : String) : Decidable (AllAllowed text) :=
  decidable_of_iff (text.toList.all isAllowed = true) List.all_eq_true

theorem allAllowed_iff {text : String} :
    AllAllowed text ↔ ∀ c, isAllowed c = false → c ∉ text.toList := by
  refine forall_congr' fun c => ?_
  cases isAllowed c <;> simp

theorem AllAllowed.not_mem {text : String} {c : Char} (allowed : AllAllowed text)
    (refused : isAllowed c = false) : c ∉ text.toList :=
  allAllowed_iff.mp allowed c refused

@[simp]
theorem allAllowed_append {first second : String} :
    AllAllowed (first ++ second) ↔ AllAllowed first ∧ AllAllowed second := by
  simp only [AllAllowed, String.toList_append, List.forall_mem_append]

theorem allAllowed_join {parts : List String} :
    AllAllowed (String.join parts) ↔ ∀ part ∈ parts, AllAllowed part := by
  simp only [AllAllowed, String.toList_join, List.mem_flatMap]
  grind

theorem allAllowed_name {name : String} (valid : isName name = true) : AllAllowed name := by
  intro c inside
  rw [isName] at valid
  cases letters : name.toList with
  | nil => simp [letters] at inside
  | cons first rest =>
    simp only [letters, Bool.and_eq_true, List.all_eq_true] at valid
    rw [letters] at inside
    refine isAllowed_of_isNameChar ?_
    rcases List.mem_cons.mp inside with rfl | later
    · simp [isNameChar, valid.1]
    · exact valid.2 c later

theorem Tag.allAllowed_write (tag : Tag) : AllAllowed tag.write := by
  rw [write, allAllowed_append, allAllowed_join]
  refine ⟨allAllowed_name tag.named, fun part listed => ?_⟩
  obtain ⟨pair, among, rfl⟩ := List.mem_map.mp listed
  have key : AllAllowed pair.1 :=
    allAllowed_name (List.all_eq_true.mp tag.keys _ (List.mem_map_of_mem among))
  have value : AllAllowed pair.2 := by
    intro c inside
    have quotable := List.all_eq_true.mp (tag.values _ (List.mem_map_of_mem among)) c inside
    simp only [isQuotable, Bool.and_eq_true] at quotable
    exact quotable.1.1.1
  simp only [assignment, allAllowed_append, key, value, and_true]
  decide

/-- Only the content of an element can have characters in it that XML does not allow. -/
theorem Tag.mem_around (tag : Tag) {inside : String} {c : Char} (refused : isAllowed c = false) :
    c ∈ (tag.around inside).toList ↔ c ∈ inside.toList := by
  have brackets : AllAllowed "<" ∧ AllAllowed ">" ∧ AllAllowed "</" := by decide
  obtain ⟨opens, ends, closes⟩ := brackets
  simp only [around, String.toList_append, List.mem_append, opens.not_mem refused,
    ends.not_mem refused, closes.not_mem refused, tag.allAllowed_write.not_mem refused,
    (allAllowed_name tag.named).not_mem refused, or_false, false_or]

theorem Tag.allAllowed_around (tag : Tag) {inside : String} (allowed : AllAllowed inside) :
    AllAllowed (tag.around inside) :=
  allAllowed_iff.mpr fun _ refused within =>
    allowed.not_mem refused ((tag.mem_around refused).mp within)

/-- Content consists of allowed characters. -/
theorem Content.allowed {text : String} (content : Content text) : AllAllowed text := by
  induction content with
  | nothing => decide
  | data plain _ ih =>
    refine allAllowed_append.mpr ⟨fun c inside => ?_, ih⟩
    obtain rfl : c = _ := by simpa using inside
    simp only [isData, Bool.and_eq_true] at plain
    exact plain.1.1.1
  | reference known _ ih =>
    have entity : ∀ entity ∈ entities, AllAllowed entity := by decide
    simp only [allAllowed_append, entity _ known, ih, and_true]
    decide
  | alone tag _ ih =>
    simp only [Tag.alone, allAllowed_append, tag.allAllowed_write, ih, and_true]
    decide
  | around tag _ _ inside ih => exact allAllowed_append.mpr ⟨tag.allAllowed_around inside, ih⟩

theorem Document.allowed {text : String} (document : Document text) : AllAllowed text := by
  cases document with
  | root tag content lines =>
    refine allAllowed_append.mpr ⟨tag.allAllowed_around content.allowed, fun c inside => ?_⟩
    rw [String.toList_ofList] at inside
    rw [List.eq_of_mem_replicate inside]
    decide

/-- A character as it is escaped: a reference for markup, and itself otherwise. -/
theorem content_escapeChar {c : Char} (allowed : isAllowed c = true) :
    Content (String.ofList (escapeChar c)) := by
  have entity {entity : String} (known : entity ∈ entities) : Content ("&" ++ entity ++ ";") := by
    simpa using Content.reference known .nothing
  rw [escapeChar]
  split
  · exact @entity "amp" (by decide)
  · split
    · exact @entity "lt" (by decide)
    · split
      · exact @entity "gt" (by decide)
      · split
        · exact @entity "quot" (by decide)
        next not_amp not_lt not_gt _ =>
          have plain : isData c = true := by simp [isData, allowed, not_amp, not_lt, not_gt]
          have data := Content.data plain .nothing
          rwa [String.append_empty, String.singleton_eq_ofList] at data

/-- Escaping makes content of every text that XML can write at all. -/
theorem content_escape {text : String} (allowed : AllAllowed text) : Content (escape text) := by
  have written : escape text =
      String.join (text.toList.map fun c => String.ofList (escapeChar c)) :=
    String.toList_inj.mp (by simp [escape, String.toList_join, List.flatMap_map])
  rw [written]
  refine .join fun part listed => ?_
  obtain ⟨c, inside, rfl⟩ := List.mem_map.mp listed
  exact content_escapeChar (allowed c inside)

theorem mem_escapeChar {c written : Char} (refused : isAllowed c = false) :
    c ∈ escapeChar written ↔ c = written := by
  -- Neither markup nor what is written for it is refused.
  have markup : ['&', '<', '>', '"'].all (fun written =>
      isAllowed written && (escapeChar written).all isAllowed) = true := by decide
  by_cases special : written ∈ ['&', '<', '>', '"']
  · obtain ⟨allowed, each⟩ := Bool.and_eq_true_iff.mp (List.all_eq_true.mp markup written special)
    constructor
    · intro inside
      simp [List.all_eq_true.mp each c inside] at refused
    · rintro rfl
      simp [allowed] at refused
  · simp only [List.mem_cons, List.not_mem_nil, or_false, not_or] at special
    obtain ⟨not_amp, not_lt, not_gt, not_quot⟩ := special
    rw [escapeChar, if_neg not_amp, if_neg not_lt, if_neg not_gt, if_neg not_quot,
      List.mem_singleton]

/-- Escaping does nothing about the characters that XML does not allow. -/
theorem mem_escape {text : String} {c : Char} (refused : isAllowed c = false) :
    c ∈ (escape text).toList ↔ c ∈ text.toList := by
  simp [escape, List.mem_flatMap, mem_escapeChar refused]

theorem offenceFrom?_eq_none_iff {text : List Char} {row column : Nat} :
    offenceFrom? row column text = none ↔ ∀ c ∈ text, isAllowed c = true := by
  induction text generalizing row column with
  | nil => simp [offenceFrom?]
  | cons c rest ih =>
    rw [offenceFrom?, List.forall_mem_cons]
    cases allowed : isAllowed c with
    | false => simp
    | true =>
      rw [if_neg (by simp)]
      split <;> simp [ih]

theorem offenceFrom?_eq_some {text : List Char} {row column : Nat} {offence : Offence}
    (found : offenceFrom? row column text = some offence) :
    offence.char ∈ text ∧ isAllowed offence.char = false := by
  induction text generalizing row column with
  | nil => cases found
  | cons c rest ih =>
    rw [offenceFrom?] at found
    split at found
    next refused =>
      cases found
      exact ⟨List.mem_cons_self, by simpa using refused⟩
    · split at found <;> exact (ih found).imp_left (List.mem_cons_of_mem _)

/-- A text without an offence is one of allowed characters. -/
theorem offence?_eq_none_iff {text : String} : offence? text = none ↔ AllAllowed text :=
  offenceFrom?_eq_none_iff

end CallAtlas.Text.Xml
