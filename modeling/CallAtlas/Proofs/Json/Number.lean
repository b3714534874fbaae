import CallAtlas.Json.Reader
import Mathlib.Data.List.Basic
import Mathlib.Tactic.IntervalCases
/-!
A number is read back from the digits it is written with, as far as they go. They start with
no superfluous zero, there are exactly as many after the point as the number has places, and
together they spell the number without its point.
-/
namespace CallAtlas.Json

/-- A text that does not go on with a number in front of it. -/
def EndsNumber (rest : List Char) : Prop :=
  ∀ c ∈ rest.head?, c.isDigit = false ∧ c ≠ '.' ∧ c ≠ 'e' ∧ c ≠ 'E'

theorem isDigit_toDigits (n : Nat) : ∀ c ∈ Nat.toDigits 10 n, c.isDigit = true :=
  fun _ => Nat.isDigit_of_mem_toDigits (by decide) (by decide)

theorem head_toDigits {n : Nat} (positive : 0 < n) : (Nat.toDigits 10 n).head? ≠ some '0' := by
  induction n using Nat.strong_induction_on with
  | _ n ih =>
    rw [Nat.toDigits_eq_if (by decide)]
    split
    · interval_cases n <;> decide
    · -- The last digit leaves the first one as it is.
      have front := ih (n / 10) (by omega) (by omega)
      rwa [List.head?_append_of_ne_nil _ Nat.toDigits_ne_nil]

/-- The digits of a whole number are as they should be: there are some, and no zero comes
before others. -/
theorem toDigits_proper (n : Nat) :
    ¬ (Nat.toDigits 10 n = [] ∨
      (Nat.toDigits 10 n).length > 1 ∧ (Nat.toDigits 10 n).head? = some '0') := by
  rintro (empty | ⟨long, zero⟩)
  · exact Nat.toDigits_ne_nil empty
  · rcases Nat.eq_zero_or_pos n with rfl | positive
    · simp at long
    · exact head_toDigits positive zero

theorem span_digits {digits : List Char} (all : ∀ c ∈ digits, c.isDigit = true)
    (rest : List Char) (ends : ∀ c ∈ rest.head?, c.isDigit = false) :
    (digits ++ rest).takeWhile Char.isDigit = digits ∧
      (digits ++ rest).dropWhile Char.isDigit = rest := by
  rw [List.takeWhile_append_of_pos all, List.dropWhile_append_of_pos all]
  cases rest with
  | nil => simp
  | cons c rest =>
    have stop := ends c rfl
    simp [stop]

def fractionDigits (n places : Nat) : List Char :=
  let digits := Nat.toDigits 10 (n % 10 ^ places)
  List.replicate (places - digits.length) '0' ++ digits

section

variable (n : Nat) {places : Nat} (fractional : places ≠ 0)

theorem isDigit_fractionDigits (n places : Nat) :
    ∀ c ∈ fractionDigits n places, c.isDigit = true := by
  intro c member
  rcases List.mem_append.mp member with zero | digit
  · rw [List.eq_of_mem_replicate zero]
    rfl
  · exact isDigit_toDigits _ c digit

include fractional

theorem length_fractionDigits : (fractionDigits n places).length = places := by
  have short : (Nat.toDigits 10 (n % 10 ^ places)).length ≤ places := by
    rw [Nat.length_toDigits_le_iff (by decide) (by omega)]
    exact Nat.mod_lt _ (Nat.pow_pos (by decide))
  simp only [fractionDigits, List.length_append, List.length_replicate]
  omega

theorem fractionDigits_ne_nil : fractionDigits n places ≠ [] := by
  intro empty
  have count := length_fractionDigits n fractional
  rw [empty] at count
  exact fractional count.symm

theorem decimalNumber_placed :
    decimalNumber (Nat.toDigits 10 (n / 10 ^ places) ++ fractionDigits n places) = n := by
  have fraction : Nat.ofDigitChars 10 (fractionDigits n places) 0 = n % 10 ^ places := by
    rw [fractionDigits, Nat.ofDigitChars_append, Nat.ofDigitChars_replicate_zero, Nat.mul_zero,
      Nat.ofDigitChars_ten_toDigits]
  calc decimalNumber (Nat.toDigits 10 (n / 10 ^ places) ++ fractionDigits n places)
      = Nat.ofDigitChars 10 (fractionDigits n places)
          (Nat.ofDigitChars 10 (Nat.toDigits 10 (n / 10 ^ places)) 0) :=
        Nat.ofDigitChars_append 0
    _ = 10 ^ places * (n / 10 ^ places) + n % 10 ^ places := by
        rw [Nat.ofDigitChars_ten_toDigits, Nat.ofDigitChars_eq_ofDigitChars_zero,
          length_fractionDigits n fractional, fraction]
    _ = n := Nat.div_add_mod n (10 ^ places)

theorem toList_placed :
    (Decimal.placed n places).toList =
      Nat.toDigits 10 (n / 10 ^ places) ++ '.' :: fractionDigits n places := by
  simp [Decimal.placed, fractional, fractionDigits, Nat.toString_eq_repr, ← String.length_toList]

end

theorem toList_placed_zero (n : Nat) : (Decimal.placed n 0).toList = Nat.toDigits 10 n := by
  simp [Decimal.placed]

variable {rest : List Char}

theorem readMagnitude_whole (n : Nat) (ends : EndsNumber rest) :
    readMagnitude (Nat.toDigits 10 n ++ rest) = some ((n, 0), rest) := by
  obtain ⟨whole, after⟩ := span_digits (isDigit_toDigits n) rest fun c first => (ends c first).1
  have value : decimalNumber (Nat.toDigits 10 n) = n := Nat.ofDigitChars_ten_toDigits
  unfold readMagnitude
  simp only [whole, after, if_neg (toDigits_proper n)]
  cases rest with
  | nil => simp [value]
  | cons c rest =>
    obtain ⟨-, point, small, big⟩ := ends c rfl
    simp [value, point, small, big]

theorem readMagnitude_fractional (n : Nat) {places : Nat} (fractional : places ≠ 0)
    (ends : EndsNumber rest) :
    readMagnitude (Nat.toDigits 10 (n / 10 ^ places) ++ '.' :: (fractionDigits n places ++ rest)) =
      some ((n, places), rest) := by
  obtain ⟨whole, point⟩ := span_digits (isDigit_toDigits (n / 10 ^ places))
    ('.' :: (fractionDigits n places ++ rest)) (by simp)
  obtain ⟨fraction, after⟩ := span_digits (isDigit_fractionDigits n places) rest
    fun c first => (ends c first).1
  have value := decimalNumber_placed n fractional
  have count := length_fractionDigits n fractional
  unfold readMagnitude
  simp only [whole, point, if_neg (toDigits_proper (n / 10 ^ places)), fraction, after,
    if_neg (fractionDigits_ne_nil n fractional)]
  cases rest with
  | nil => simp [value, count]
  | cons c rest =>
    obtain ⟨-, -, small, big⟩ := ends c rfl
    simp [value, count, small, big]

theorem readMagnitude_placed (n places : Nat) (ends : EndsNumber rest) :
    readMagnitude ((Decimal.placed n places).toList ++ rest) = some ((n, places), rest) := by
  by_cases whole : places = 0
  · rw [whole, toList_placed_zero]
    exact readMagnitude_whole n ends
  · rw [toList_placed n whole, List.append_assoc]
    exact readMagnitude_fractional n whole ends

theorem placed_eq_cons (n places : Nat) :
    ∃ c tail, (Decimal.placed n places).toList = c :: tail ∧ c.isDigit = true := by
  have front (m : Nat) (more : List Char) :
      ∃ c tail, Nat.toDigits 10 m ++ more = c :: tail ∧ c.isDigit = true := by
    cases digits : Nat.toDigits 10 m with
    | nil => exact absurd digits Nat.toDigits_ne_nil
    | cons c tail =>
      have among : c ∈ Nat.toDigits 10 m := by simp [digits]
      exact ⟨c, tail ++ more, rfl, isDigit_toDigits m c among⟩
  by_cases whole : places = 0
  · rw [whole, toList_placed_zero, ← List.append_nil (Nat.toDigits 10 n)]
    exact front n []
  · rw [toList_placed n whole]
    exact front _ _

theorem toList_writeNumber (digits : Int) (places : Nat) :
    (writeNumber digits places).toList =
      (if digits < 0 then ['-'] else []) ++ (Decimal.placed digits.natAbs places).toList := by
  by_cases negative : digits < 0 <;> simp [writeNumber, negative]

/-- A number starts with its sign or with a digit. -/
theorem writeNumber_eq_cons (digits : Int) (places : Nat) :
    ∃ c tail, (writeNumber digits places).toList = c :: tail ∧ (c = '-' ∨ c.isDigit = true) := by
  rw [toList_writeNumber]
  by_cases negative : digits < 0
  · rw [if_pos negative]
    exact ⟨'-', _, rfl, .inl rfl⟩
  · obtain ⟨c, tail, text, digit⟩ := placed_eq_cons digits.natAbs places
    rw [if_neg negative, List.nil_append]
    exact ⟨c, tail, text, .inr digit⟩

/-- A number is read back up to where it ends. -/
theorem readNumber_writeNumber (digits : Int) (places : Nat) (ends : EndsNumber rest) :
    readNumber ((writeNumber digits places).toList ++ rest) =
      some (number digits places, rest) := by
  have magnitude := readMagnitude_placed digits.natAbs places ends
  rw [toList_writeNumber]
  by_cases negative : digits < 0
  · have value : -(digits.natAbs : Int) = digits := by omega
    rw [if_pos negative, List.append_assoc, List.singleton_append, readNumber, magnitude]
    simp only [Option.map_some, value]
  · have value : (digits.natAbs : Int) = digits := by omega
    obtain ⟨c, tail, text, digit⟩ := placed_eq_cons digits.natAbs places
    have unsigned : c ≠ '-' := by
      rintro rfl
      exact absurd digit (by decide)
    rw [if_neg negative, List.nil_append]
    rw [text, List.cons_append] at magnitude ⊢
    rw [readNumber, magnitude]
    · simp only [Option.map_some, value]
    · intro _ same
      exact unsigned (List.cons.inj same).1

end CallAtlas.Json
