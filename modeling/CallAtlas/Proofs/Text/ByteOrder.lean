import Mathlib.Tactic.SplitIfs
import CallAtlas.Text.Order
/-!
The order of texts is that of their bytes: of two texts, the one that comes earlier also has the
encoding that comes earlier, byte by byte (`bytes_lt`). A greater code point has the greater
encoding, whatever follows it (`utf8EncodeChar_append_lt`).
-/
namespace CallAtlas.Text

def bytes (text : String) : List UInt8 :=
  text.toUTF8.data.toList

theorem bytes_eq_flatMap (text : String) :
    bytes text = text.toList.flatMap String.utf8EncodeChar := by
  rw [bytes, String.toUTF8_eq_toByteArray, ← String.utf8Encode_toList]
  exact List.toList_data_toByteArray

/-- Of two numbers, the first digit to the base 64 that differs tells which is less. -/
theorem digits_lt {m n : Nat} (less : m < n) :
    m / 262144 < n / 262144 ∨ m / 262144 = n / 262144 ∧
      (m / 4096 % 64 < n / 4096 % 64 ∨ m / 4096 % 64 = n / 4096 % 64 ∧
        (m / 64 % 64 < n / 64 % 64 ∨ m / 64 % 64 = n / 64 % 64 ∧ m % 64 < n % 64)) := by
  have first : m / 262144 = m / 4096 / 64 ∧ n / 262144 = n / 4096 / 64 := by omega
  have second : m / 4096 = m / 64 / 64 ∧ n / 4096 = n / 64 / 64 := by omega
  rw [first.1, first.2, second.1, second.2]
  generalize same : m / 64 = x
  generalize also : n / 64 = y
  omega

theorem utf8EncodeChar_append_lt {a b : Char} (below : a.toNat < b.toNat) (left right : List UInt8) :
    String.utf8EncodeChar a ++ left < String.utf8EncodeChar b ++ right := by
  have bound : b.val.toNat < 0x110000 := by
    have valid := b.valid
    simp only [UInt32.isValidChar, Nat.isValidChar] at valid
    omega
  have digits := digits_lt below
  unfold Char.toNat at below digits
  have leading : (a.val.toNat / 262144 % 8 + 240) % 2 ^ 8 = a.val.toNat / 262144 + 240 ∧
      (b.val.toNat / 262144 % 8 + 240) % 2 ^ 8 = b.val.toNat / 262144 + 240 := by omega
  have trailing (n : Nat) : (n % 64 + 128) % 2 ^ 8 = n % 64 + 128 := by omega
  unfold String.utf8EncodeChar
  -- Encodings of different length differ in the first byte already. Those of one length hold the
  -- digits to the base 64.
  dsimp only
  split_ifs
  all_goals
    simp only [List.cons_append, List.nil_append, List.cons_lt_cons_iff, UInt8.lt_iff_toNat_lt,
      ← UInt8.toNat_inj, UInt8.toNat_ofNat', leading, trailing]
    omega

theorem utf8EncodeChar_ne_nil (c : Char) : String.utf8EncodeChar c ≠ [] := by
  unfold String.utf8EncodeChar
  dsimp only
  split_ifs <;> simp

theorem flatMap_utf8EncodeChar_lt {left right : List Char} (noLater : noLaterChars left right = true)
    (different : left ≠ right) :
    left.flatMap String.utf8EncodeChar < right.flatMap String.utf8EncodeChar := by
  induction left generalizing right with
  | nil =>
    obtain ⟨c, rest, rfl⟩ := List.exists_cons_of_ne_nil (Ne.symm different)
    rw [List.flatMap_nil, List.flatMap_cons]
    obtain ⟨byte, more, encoded⟩ := List.exists_cons_of_ne_nil (utf8EncodeChar_ne_nil c)
    rw [encoded]
    exact List.nil_lt_cons ..
  | cons a left ih =>
    cases right with
    | nil => simp [noLaterChars] at noLater
    | cons b right =>
      rw [List.flatMap_cons, List.flatMap_cons]
      rcases noLaterChars_cons_cons.mp noLater with below | ⟨same, further⟩
      · exact utf8EncodeChar_append_lt below _ _
      · obtain rfl : a = b := Char.ext (UInt32.toNat_inj.mp same)
        apply List.append_left_lt
        exact ih further fun equal => different (by rw [equal])

/-- A text that comes no later than another one has the bytes that come earlier. -/
theorem bytes_lt {left right : String} (noLater : noLater left right = true)
    (different : left ≠ right) : bytes left < bytes right := by
  rw [bytes_eq_flatMap, bytes_eq_flatMap]
  exact flatMap_utf8EncodeChar_lt noLater fun same => different (String.toList_inj.mp same)

end CallAtlas.Text
