import CallAtlas.SymbolTable
import CallAtlas.Proofs.Index
/-!
The parts of a symbol table fit together. `slots` gives the place of every listed name and
of no other, so names are listed once, a name is known exactly when it is listed, and an
insertion adds a name at the end or leaves the list of names as it is.
-/
namespace CallAtlas.SymbolTable

def ids (table : SymbolTable) : List String :=
  table.toList.map (·.id)

/-- The slots lead to the definitions and back. -/
def Consistent (table : SymbolTable) : Prop :=
  Indexes table.slots table.ids

variable {table : SymbolTable}

theorem consistent_empty : empty.Consistent :=
  Indexes.nil

theorem Consistent.contains_iff (consistent : table.Consistent) (id : String) :
    table.contains id = true ↔ id ∈ table.ids :=
  Indexes.contains_iff consistent id

/-- An insertion replaces the definition of a known name where it stands, and appends that of a
new one. -/
theorem insert_cases (consistent : table.Consistent) (definition : Definition) :
    (∃ slot, table.ids[slot]? = some definition.id ∧
      (table.insert definition).toList = table.toList.set slot definition ∧
      (table.insert definition).slots = table.slots) ∨
    (definition.id ∉ table.ids ∧
      (table.insert definition).toList = table.toList ++ [definition] ∧
      (table.insert definition).slots = table.slots.insert definition.id table.ids.length) := by
  cases found : table.slots[definition.id]? with
  | some slot =>
    refine .inl ⟨slot, (consistent definition.id slot).mp found, ?_, ?_⟩
    · simp [insert, found, toList]
    · simp [insert, found]
  | none =>
    refine .inr ⟨(consistent.getElem?_eq_none_iff definition.id).mp found, ?_, ?_⟩
    · simp [insert, found, toList]
    · simp [insert, found, ids, toList]

theorem ids_insert (consistent : table.Consistent) (definition : Definition) :
    (table.insert definition).ids =
      if definition.id ∈ table.ids then table.ids else table.ids ++ [definition.id] := by
  rcases insert_cases consistent definition with ⟨slot, at_slot, list, -⟩ | ⟨fresh, list, -⟩
  · obtain ⟨inside, same⟩ := List.getElem?_eq_some_iff.mp at_slot
    rw [if_pos (List.mem_of_getElem? at_slot), ids, list, List.map_set, ← same]
    exact List.set_getElem_self inside
  · rw [if_neg fresh, ids, list, List.map_append]
    rfl

theorem Consistent.insert (consistent : table.Consistent) (definition : Definition) :
    (table.insert definition).Consistent := by
  have names := ids_insert consistent definition
  rcases insert_cases consistent definition with ⟨slot, at_slot, -, slots⟩ | ⟨fresh, -, slots⟩
  · rw [if_pos (List.mem_of_getElem? at_slot)] at names
    rw [Consistent, names, slots]
    exact consistent
  · rw [if_neg fresh] at names
    rw [Consistent, names, slots]
    exact consistent.push fresh

theorem Consistent.extend (consistent : table.Consistent) (definitions : List Definition) :
    (table.extend definitions).Consistent := by
  induction definitions generalizing table with
  | nil => exact consistent
  | cons definition rest ih => exact ih (consistent.insert definition)

theorem mem_ids_insert (consistent : table.Consistent) (definition : Definition) (id : String) :
    id ∈ (table.insert definition).ids ↔ id ∈ table.ids ∨ id = definition.id := by
  rw [ids_insert consistent]
  by_cases known : definition.id ∈ table.ids
  · rw [if_pos known]
    constructor
    · exact .inl
    · rintro (there | rfl)
      · exact there
      · exact known
  · rw [if_neg known, List.mem_append, List.mem_singleton]

theorem mem_ids_extend (consistent : table.Consistent) (definitions : List Definition)
    (id : String) :
    id ∈ (table.extend definitions).ids ↔
      id ∈ table.ids ∨ ∃ definition ∈ definitions, definition.id = id := by
  induction definitions generalizing table with
  | nil => simp [extend]
  | cons definition rest ih =>
    have step := ih (consistent.insert definition)
    rw [mem_ids_insert consistent] at step
    rw [extend, List.foldl_cons, ← extend, step, List.exists_mem_cons_iff, or_assoc, eq_comm]

theorem consistent_ofList (definitions : List Definition) : (ofList definitions).Consistent :=
  consistent_empty.extend definitions

/-- The names of a table are those of the definitions it was made from. -/
theorem mem_ids_ofList (definitions : List Definition) (id : String) :
    id ∈ (ofList definitions).ids ↔ ∃ definition ∈ definitions, definition.id = id := by
  rw [ofList, mem_ids_extend consistent_empty]
  simp [ids, toList, empty]

end CallAtlas.SymbolTable
