import Mathlib.Data.Finset.Card
import Mathlib.Data.List.Induction
import CallAtlas.Proofs.SymbolTable.Consistency
/-!
A symbol table is determined by the definitions that went into it. Each insertion fixes the
order of names by the first definition of a name and the answer for it by the last one
(`Follows.insert`), so a table made by any sequence of insertions and extensions can be read
off the list of what was inserted (`run_accountsFor_insertions`).
-/
namespace CallAtlas

def lastDefinition? (history : List Definition) (id : String) : Option Definition :=
  (history.filter (·.id == id)).getLast?

theorem lastDefinition?_concat (history : List Definition) (definition : Definition)
    (id : String) :
    lastDefinition? (history ++ [definition]) id =
      if definition.id = id then some definition else lastDefinition? history id := by
  by_cases same : definition.id = id <;> simp [lastDefinition?, same]

theorem lastDefinition?_eq_none_iff (history : List Definition) (id : String) :
    lastDefinition? history id = none ↔ ∀ definition ∈ history, definition.id ≠ id := by
  simp [lastDefinition?]

theorem lastDefinition?_eq_some {history : List Definition} {id : String} {definition : Definition}
    (last : lastDefinition? history id = some definition) :
    definition ∈ history ∧ definition.id = id := by
  have among := List.mem_of_getLast? last
  rwa [List.mem_filter, beq_iff_eq] at among

namespace SymbolTable

variable {table : SymbolTable} {history : List Definition}

/-- A stored slot is in range and holds a definition of its name. -/
theorem Consistent.slot_holds (consistent : table.Consistent) {id : String} {slot : Nat}
    (stored : table.slots[id]? = some slot) :
    ∃ definition, table.definitions[slot]? = some definition ∧ definition.id = id := by
  have listed := (consistent id slot).mp stored
  simpa [ids, toList] using listed

/-- The name of a definition is stored with the slot of that definition. -/
theorem Consistent.slot_found (consistent : table.Consistent) {slot : Nat}
    {definition : Definition} (held : table.definitions[slot]? = some definition) :
    table.slots[definition.id]? = some slot := by
  rw [consistent definition.id slot]
  simp [ids, toList, held]

theorem Consistent.slot_lt (consistent : table.Consistent) {id : String} {slot : Nat}
    (stored : table.slots[id]? = some slot) : slot < table.definitions.size := by
  obtain ⟨definition, held, -⟩ := consistent.slot_holds stored
  exact (Array.getElem?_eq_some_iff.mp held).1

/-- A name resolves to the definition that is listed for it. -/
theorem Consistent.resolve?_eq_some_iff (consistent : table.Consistent) {id : String}
    {definition : Definition} :
    table.resolve? id = some definition ↔ definition ∈ table.toList ∧ definition.id = id := by
  rw [toList, Array.mem_toList_iff, Array.mem_iff_getElem?]
  constructor
  · intro resolved
    obtain ⟨slot, stored, held⟩ := Option.bind_eq_some_iff.mp resolved
    obtain ⟨other, also, named⟩ := consistent.slot_holds stored
    rw [held, Option.some.injEq] at also
    subst also
    exact ⟨⟨slot, held⟩, named⟩
  · rintro ⟨⟨slot, held⟩, rfl⟩
    simp [resolve?, consistent.slot_found held, held]

theorem resolve?_insert (consistent : table.Consistent) (definition : Definition) (id : String) :
    (table.insert definition).resolve? id =
      if definition.id = id then some definition else table.resolve? id := by
  by_cases same : definition.id = id
  · subst same
    cases found : table.slots[definition.id]? with
    | some slot =>
      have inside := consistent.slot_lt found
      simp [resolve?, insert, found, inside]
    | none => simp [resolve?, insert, found]
  · rw [if_neg same]
    cases found : table.slots[definition.id]? with
    | some slot =>
      simp only [resolve?, insert, found]
      cases other : table.slots[id]? with
      | none => rfl
      | some place =>
        -- Two names never share a slot, so what is replaced is not what is asked for.
        have apart : slot ≠ place := by
          rintro rfl
          obtain ⟨held, at_slot, held_id⟩ := consistent.slot_holds found
          obtain ⟨held', at_slot', held_id'⟩ := consistent.slot_holds other
          rw [at_slot, Option.some.injEq] at at_slot'
          subst at_slot'
          exact same (held_id.symm.trans held_id')
        simp [Array.getElem?_setIfInBounds_ne apart]
    | none =>
      simp only [resolve?, insert, found, Std.HashMap.getElem?_insert, beq_iff_eq, if_neg same]
      cases other : table.slots[id]? with
      | none => rfl
      | some place =>
        have inside := consistent.slot_lt other
        simp [Array.getElem?_push, Nat.ne_of_lt inside]

theorem isOwner_insert (table : SymbolTable) (definition : Definition) (name : String) :
    (table.insert definition).isOwner name = true ↔
      table.isOwner name = true ∨ definition.owner = some name := by
  have owners : (table.insert definition).owners =
      definition.owner.elim table.owners table.owners.insert := by
    unfold insert
    cases table.slots[definition.id]? <;> cases definition.owner <;> rfl
  rw [isOwner, owners, isOwner]
  cases definition.owner with
  | none => simp
  | some owner => simp [or_comm]

/-- A table agrees with the definitions inserted so far. -/
structure Follows (table : SymbolTable) (history : List Definition) : Prop where
  consistent : table.Consistent
  order : table.ids = (history.map (·.id)).eraseDups
  resolved : ∀ id, table.resolve? id = lastDefinition? history id
  owned : ∀ name, table.isOwner name = true ↔ ∃ definition ∈ history, definition.owner = some name

namespace Follows

theorem empty : Follows .empty [] where
  consistent := consistent_empty
  order := rfl
  resolved id := by simp [resolve?, SymbolTable.empty, lastDefinition?]
  owned name := by simp [isOwner, SymbolTable.empty]

theorem mem_ids_iff (follows : table.Follows history) (id : String) :
    id ∈ table.ids ↔ ∃ definition ∈ history, definition.id = id := by
  rw [follows.order, List.mem_eraseDups, List.mem_map]

theorem insert (follows : table.Follows history) (definition : Definition) :
    (table.insert definition).Follows (history ++ [definition]) where
  consistent := follows.consistent.insert definition
  order := by
    rw [ids_insert follows.consistent, List.map_append, List.map_singleton, eraseDups_concat]
    simp only [follows.order, List.mem_eraseDups]
  resolved id := by
    rw [resolve?_insert follows.consistent, lastDefinition?_concat, follows.resolved]
  owned name := by
    rw [isOwner_insert, follows.owned]
    simp [or_and_right, exists_or]

theorem extend (follows : table.Follows history) (definitions : List Definition) :
    (table.extend definitions).Follows (history ++ definitions) := by
  induction definitions generalizing table history with
  | nil => simpa [SymbolTable.extend] using follows
  | cons definition rest ih =>
    have step := ih (follows.insert definition)
    rwa [List.append_assoc, List.singleton_append] at step

end Follows

theorem follows_ofList (definitions : List Definition) :
    (ofList definitions).Follows definitions := by
  have made := Follows.empty.extend definitions
  rwa [List.nil_append] at made

inductive Operation where
  | insert (definition : Definition)
  | extend (definitions : List Definition)
  deriving DecidableEq, Repr

namespace Operation

def apply (table : SymbolTable) : Operation → SymbolTable
  | insert definition => table.insert definition
  | extend definitions => table.extend definitions

def inserted : Operation → List Definition
  | insert definition => [definition]
  | extend definitions => definitions

end Operation

def run (operations : List Operation) : SymbolTable :=
  operations.foldl Operation.apply empty

theorem Follows.apply (follows : table.Follows history) (operation : Operation) :
    (operation.apply table).Follows (history ++ operation.inserted) := by
  cases operation with
  | insert definition => exact follows.insert definition
  | extend definitions => exact follows.extend definitions

theorem follows_run (operations : List Operation) :
    (run operations).Follows (operations.flatMap (·.inserted)) := by
  induction operations using List.reverseRecOn with
  | nil => exact .empty
  | append_singleton before operation ih =>
    have step := ih.apply operation
    rw [run, List.foldl_append, List.flatMap_append]
    simpa [run] using step

/-- What a table says, read off the definitions that were inserted. -/
structure AccountsFor (table : SymbolTable) (history : List Definition) : Prop where
  /-- A stored slot is in range and holds a definition of its name. -/
  slot_holds : ∀ (id : String) (slot : Nat), table.slots[id]? = some slot →
    ∃ definition, table.definitions[slot]? = some definition ∧ definition.id = id
  /-- The name of a definition leads to the slot of that definition. -/
  slot_found : ∀ (slot : Nat) (definition : Definition),
    table.definitions[slot]? = some definition → table.slots[definition.id]? = some slot
  distinct : (table.toList.map (·.id)).Nodup
  /-- Names are listed in order of first insertion. -/
  order : table.toList.map (·.id) = (history.map (·.id)).eraseDups
  /-- A name stands for what was inserted for it last. -/
  resolved : ∀ id, table.resolve? id = lastDefinition? history id
  unresolved : ∀ id, table.resolve? id = none ↔ ∀ definition ∈ history, definition.id ≠ id
  known : ∀ id, table.contains id = true ↔ ∃ definition ∈ history, definition.id = id
  size : table.size = (history.map (·.id)).toFinset.card
  owned : ∀ name, table.isOwner name = true ↔ ∃ definition ∈ history, definition.owner = some name

/-- Whatever is done to a table, it accounts for all that was inserted. -/
theorem run_accountsFor_insertions (operations : List Operation) :
    (run operations).AccountsFor (operations.flatMap (·.inserted)) := by
  have follows := follows_run operations
  refine ⟨?_, ?_, follows.consistent.nodup, follows.order, follows.resolved, ?_, ?_, ?_,
    follows.owned⟩
  · intro id slot stored
    exact follows.consistent.slot_holds stored
  · intro slot definition held
    exact follows.consistent.slot_found held
  · intro id
    rw [follows.resolved, lastDefinition?_eq_none_iff]
  · intro id
    rw [follows.consistent.contains_iff, follows.mem_ids_iff]
  · have names : (operations.flatMap (·.inserted) |>.map (·.id)).toFinset =
        (run operations).ids.toFinset := by
      rw [follows.order]
      ext id
      rw [List.mem_toFinset, List.mem_toFinset, List.mem_eraseDups]
    rw [names, List.toFinset_card_of_nodup follows.consistent.nodup]
    simp [size, ids, toList]

end SymbolTable

end CallAtlas
