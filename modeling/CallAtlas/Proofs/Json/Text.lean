import CallAtlas.Json.Reader
import Mathlib.Tactic.SplitIfs
/-!
A text written between quotes is read back. Every character is written as an escape of one
letter, as an escape by number or as itself, and each of these is read as the unit of that
character (`readUnits_escapeChar`); units of whole characters spell them again.
-/
namespace CallAtlas.Json

variable {rest after : List Char} {units : List Nat}

theorem readUnits_plain {c : Char} (quote : c ≠ '"') (backslash : c ≠ '\\')
    (visible : ¬ c.toNat < 0x20) (read : readUnits rest = some (units, after)) :
    readUnits (c :: rest) = some (c.toNat :: units, after) := by
  simp [readUnits, backslash, visible, read]

/-- An escape of one letter. -/
theorem readUnits_letter {c : Char} {unit : Nat} (escape : escaped? c = some unit)
    (read : readUnits rest = some (units, after)) :
    readUnits ('\\' :: c :: rest) = some (unit :: units, after) := by
  have other : c ≠ 'u' := by
    rintro rfl
    simp [escaped?] at escape
  simp [readUnits, other, escape, read]

/-- An escape by number. -/
theorem readUnits_control {n : Nat} (control : n < 0x20)
    (read : readUnits rest = some (units, after)) :
    readUnits ('\\' :: 'u' :: '0' :: '0' ::
      Nat.digitChar (n / 16) :: Nat.digitChar (n % 16) :: rest) = some (n :: units, after) := by
  have spelled : ∀ n < 0x20, Text.Hex.number?
      ['0', '0', Nat.digitChar (n / 16), Nat.digitChar (n % 16)] = some n := by decide
  simp [readUnits, spelled n control, read]

theorem readUnits_escapeChar (c : Char) (read : readUnits rest = some (units, after)) :
    readUnits (escapeChar c ++ rest) = some (c.toNat :: units, after) := by
  unfold escapeChar
  split_ifs with quote backslash backspace tab feed page carriage control
  · rw [quote]
    exact readUnits_letter (by decide) read
  · rw [backslash]
    exact readUnits_letter (by decide) read
  · rw [backspace]
    exact readUnits_letter (by decide) read
  · rw [tab]
    exact readUnits_letter (by decide) read
  · rw [feed]
    exact readUnits_letter (by decide) read
  · rw [page]
    exact readUnits_letter (by decide) read
  · rw [carriage]
    exact readUnits_letter (by decide) read
  · exact readUnits_control control read
  · exact readUnits_plain quote backslash control read

theorem readUnits_flatMap (cs rest : List Char) :
    readUnits (cs.flatMap escapeChar ++ '"' :: rest) = some (cs.map Char.toNat, rest) := by
  induction cs with
  | nil => simp [readUnits]
  | cons c cs ih =>
    rw [List.flatMap_cons, List.append_assoc, List.map_cons]
    exact readUnits_escapeChar c ih

/-- No character is half of a surrogate pair. -/
theorem toNat_not_surrogate (c : Char) : ¬ (0xd800 ≤ c.toNat ∧ c.toNat ≤ 0xdfff) := by
  rcases c.valid with low | ⟨high, -⟩
  · change c.toNat < 0xd800 at low
    omega
  · change 0xdfff < c.toNat at high
    omega

theorem ofUnits?_map_toNat (cs : List Char) : ofUnits? (cs.map Char.toNat) = some cs := by
  induction cs with
  | nil => rfl
  | cons c cs ih =>
    have whole := toNat_not_surrogate c
    -- Units are looked at in pairs, so the last character is a case of its own.
    cases cs with
    | nil => simp only [List.map_cons, List.map_nil, ofUnits?, if_neg whole, Char.ofNat_toNat]
    | cons d ds =>
      have high : ¬ (0xd800 ≤ c.toNat ∧ c.toNat ≤ 0xdbff) := by omega
      have low : ¬ (0xdc00 ≤ c.toNat ∧ c.toNat ≤ 0xdfff) := by omega
      rw [List.map_cons] at ih
      rw [List.map_cons, List.map_cons, ofUnits?, if_neg high, if_neg low, ih, Option.map_some,
        Char.ofNat_toNat]

theorem toList_quote (text : String) :
    (quote text).toList = '"' :: (text.toList.flatMap escapeChar ++ ['"']) := by
  simp [quote]

/-- What is written between quotes is read back, up to the closing one. -/
@[simp]
theorem readText_flatMap (text : String) (rest : List Char) :
    readText (text.toList.flatMap escapeChar ++ '"' :: rest) = some (text, rest) := by
  simp [readText, readUnits_flatMap, ofUnits?_map_toNat]

end CallAtlas.Json
