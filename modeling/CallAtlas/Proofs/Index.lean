import Std.Data.HashMap.Lemmas
import Mathlib.Data.List.Induction
import Mathlib.Data.List.Nodup
/-!
A hash map that gives the place of each key in a list. The map and the list say the same
thing in both directions, so no key stands at two places and a key is in the map exactly
when it is in the list.
-/
namespace CallAtlas

/-- The map gives the place of every key of the list, and nothing else. -/
def Indexes (index : Std.HashMap String Nat) (keys : List String) : Prop :=
  ∀ (key : String) (place : Nat), index[key]? = some place ↔ keys[place]? = some key

namespace Indexes

variable {index : Std.HashMap String Nat} {keys : List String}

theorem nil : Indexes ∅ [] := by
  intro key place
  simp

theorem nodup (indexed : Indexes index keys) : keys.Nodup := by
  rw [List.nodup_iff_getElem?_ne_getElem?]
  intro i j before inside same
  obtain ⟨key, at_j⟩ : ∃ key, keys[j]? = some key := ⟨keys[j], List.getElem?_eq_getElem inside⟩
  have first := (indexed key i).mpr (same.trans at_j)
  have second := (indexed key j).mpr at_j
  rw [first, Option.some.injEq] at second
  omega

theorem contains_iff (indexed : Indexes index keys) (key : String) :
    index.contains key = true ↔ key ∈ keys := by
  rw [Std.HashMap.contains_eq_isSome_getElem?, Option.isSome_iff_exists, List.mem_iff_getElem?]
  simp only [indexed key]

theorem getElem?_eq_none_iff (indexed : Indexes index keys) (key : String) :
    index[key]? = none ↔ key ∉ keys := by
  rw [← indexed.contains_iff, Std.HashMap.contains_eq_isSome_getElem?]
  cases index[key]? <;> simp

/-- A new key goes to the end. -/
theorem push (indexed : Indexes index keys) {key : String} (fresh : key ∉ keys) :
    Indexes (index.insert key keys.length) (keys ++ [key]) := by
  intro other place
  have pushed : (keys ++ [key])[place]? = some other ↔
      keys[place]? = some other ∨ place = keys.length ∧ key = other := by
    rcases Nat.lt_trichotomy place keys.length with inside | rfl | outside
    · rw [List.getElem?_append_left inside]
      simp [Nat.ne_of_lt inside]
    · simp
    · rw [List.getElem?_eq_none (by simp; omega), List.getElem?_eq_none (by omega)]
      simp [Nat.ne_of_gt outside]
  rw [pushed, Std.HashMap.getElem?_insert]
  by_cases same : key = other
  · subst same
    have absent : keys[place]? ≠ some key := fun found => fresh (List.mem_of_getElem? found)
    simp [absent, eq_comm]
  · simp [same, indexed other place]

end Indexes

/-- A key that is mentioned again keeps its place among the distinct ones; a new one comes last. -/
theorem eraseDups_concat {α : Type} [DecidableEq α] (keys : List α) (key : α) :
    (keys ++ [key]).eraseDups =
      if key ∈ keys then keys.eraseDups else keys.eraseDups ++ [key] := by
  rw [List.eraseDups_append]
  by_cases known : key ∈ keys
  · simp [List.removeAll, known]
  · simp [List.removeAll, known, List.eraseDups_cons]

theorem nodup_eraseDups {α : Type} [DecidableEq α] (keys : List α) : keys.eraseDups.Nodup := by
  induction keys using List.reverseRecOn with
  | nil => simp
  | append_singleton keys key ih =>
    rw [eraseDups_concat]
    split
    · exact ih
    · next fresh =>
      refine List.nodup_append.mpr ⟨ih, List.nodup_singleton key, ?_⟩
      rintro other known _ last rfl
      rw [List.mem_singleton.mp last, List.mem_eraseDups] at known
      exact fresh known

end CallAtlas
