/-!
The order of texts: the first character where two of them differ decides, by its code
point, and a text comes before what continues it. Encoded texts have the same order byte
by byte, since a greater code point has the greater encoding.
-/
namespace CallAtlas.Text

/-- Whether `left` comes no later than `right`. -/
def noLaterChars : List Char → List Char → Bool
  | [], _ => true
  | _ :: _, [] => false
  | a :: left, b :: right =>
    if a.toNat = b.toNat then noLaterChars left right else decide (a.toNat < b.toNat)

def noLater (left right : String) : Bool :=
  noLaterChars left.toList right.toList

theorem noLaterChars_cons_cons {a b : Char} {left right : List Char} :
    noLaterChars (a :: left) (b :: right) ↔
      a.toNat < b.toNat ∨ a.toNat = b.toNat ∧ noLaterChars left right := by
  by_cases same : a.toNat = b.toNat <;> simp [noLaterChars, same]

theorem noLaterChars_total (left right : List Char) :
    noLaterChars left right ∨ noLaterChars right left := by
  fun_induction noLaterChars left right with
  | case1 right => simp
  | case2 a left => simp [noLaterChars]
  | case3 a left b right same ih => simpa [noLaterChars, same] using ih
  | case4 a left b right differ =>
    rw [noLaterChars_cons_cons, decide_eq_true_eq]
    omega

theorem noLaterChars_trans {left middle right : List Char}
    (first : noLaterChars left middle) (second : noLaterChars middle right) :
    noLaterChars left right := by
  induction left generalizing middle right with
  | nil => simp [noLaterChars]
  | cons a left ih =>
    match middle, right with
    | [], _ => simp [noLaterChars] at first
    | _ :: _, [] => simp [noLaterChars] at second
    | b :: middle, c :: right =>
      rw [noLaterChars_cons_cons] at first second ⊢
      rcases first with below | ⟨same, first⟩ <;> rcases second with above | ⟨equal, second⟩
      · exact .inl (by omega)
      · exact .inl (by omega)
      · exact .inl (by omega)
      · exact .inr ⟨by omega, ih first second⟩

theorem noLaterChars_antisymm {left right : List Char}
    (first : noLaterChars left right) (second : noLaterChars right left) : left = right := by
  induction left generalizing right with
  | nil =>
    cases right with
    | nil => rfl
    | cons b right => simp [noLaterChars] at second
  | cons a left ih =>
    cases right with
    | nil => simp [noLaterChars] at first
    | cons b right =>
      rw [noLaterChars_cons_cons] at first second
      rcases first with below | ⟨same, first⟩ <;> rcases second with above | ⟨equal, second⟩
      · omega
      · omega
      · omega
      · rw [ih first second, Char.ext (UInt32.toNat_inj.mp same)]

end CallAtlas.Text
