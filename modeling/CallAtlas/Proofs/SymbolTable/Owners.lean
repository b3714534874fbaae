import CallAtlas.Proofs.SymbolTable.History
import CallAtlas.Proofs.Text.Cut
/-!
Owners and the definitions they own. A table remembers every owner for good, while a definition
gives way to the next one of its qualified name. That leaves no owner behind if a qualified name
settles the owner (`Follows.isOwner_iff_listed`), which it does where the names of functions have
no dot in them: it is then cut at its last dot, whatever stands before it.
-/
namespace CallAtlas

/-- A function with a name that has no dot. Its owner, if it has one, may be called anything. -/
structure Member where
  name : String
  owner : Option String
  file : String
  undotted : '.' ∉ name.toList

def Member.definition (member : Member) : Definition :=
  .ofName member.name member.owner member.file

theorem Member.id_eq_iff (one two : Member) :
    one.definition.id = two.definition.id ↔ one.owner = two.owner ∧ one.name = two.name :=
  qualify_eq_iff_of_undotted one.undotted two.undotted

namespace SymbolTable

variable {table : SymbolTable} {history : List Definition}

/-- A table lists the last definition of each name. -/
theorem Follows.mem_toList_iff (follows : table.Follows history) (definition : Definition) :
    definition ∈ table.toList ↔ lastDefinition? history definition.id = some definition := by
  rw [← follows.resolved, follows.consistent.resolve?_eq_some_iff, and_iff_left rfl]

/-- Where a qualified name settles the owner, an owner is one of a definition that is listed:
whatever takes the place of a definition has the same owner. -/
theorem Follows.isOwner_iff_listed (follows : table.Follows history)
    (settled : ∀ one ∈ history, ∀ two ∈ history, one.id = two.id → one.owner = two.owner)
    (name : String) :
    table.isOwner name = true ↔ ∃ definition ∈ table.toList, definition.owner = some name := by
  rw [follows.owned]
  constructor
  · rintro ⟨definition, among, owned⟩
    cases last : lastDefinition? history definition.id with
    | none => exact absurd rfl ((lastDefinition?_eq_none_iff _ _).mp last definition among)
    | some latest =>
      obtain ⟨latest_among, same⟩ := lastDefinition?_eq_some last
      refine ⟨latest, ?_, ?_⟩
      · rw [follows.mem_toList_iff, same, last]
      · rw [settled latest latest_among definition among same, owned]
  · rintro ⟨definition, listed, owned⟩
    have last := (follows.mem_toList_iff definition).mp listed
    exact ⟨definition, (lastDefinition?_eq_some last).1, owned⟩

/-- Of members with undotted names, two share a qualified name only if they have name and owner in
common. So the owners that a table knows are those of the definitions it lists, and they are those
of all the members that went in. -/
theorem owners_stay_truthful (members : List Member) :
    let table := ofList (members.map (·.definition))
    (∀ one two : Member, one.definition.id = two.definition.id ↔
      one.owner = two.owner ∧ one.name = two.name) ∧
    ∀ name, (table.isOwner name = true ↔
        ∃ definition ∈ table.toList, definition.owner = some name) ∧
      (table.isOwner name = true ↔ ∃ member ∈ members, member.owner = some name) := by
  intro table
  have follows : table.Follows (members.map (·.definition)) := follows_ofList _
  refine ⟨Member.id_eq_iff, fun name => ⟨follows.isOwner_iff_listed ?_ name, ?_⟩⟩
  · intro _ one_among _ two_among same
    obtain ⟨one, -, rfl⟩ := List.mem_map.mp one_among
    obtain ⟨two, -, rfl⟩ := List.mem_map.mp two_among
    exact ((one.id_eq_iff two).mp same).1
  · simp [follows.owned, Member.definition, Definition.ofName]

/-- A method of a class in a class, written again in another file, and one of an owner without a
name. -/
def redefinedMethod : List Member := [
  ⟨"run", some "A.B", "one.py", by decide⟩,
  ⟨"run", some "", "one.py", by decide⟩,
  ⟨"run", some "A.B", "two.py", by decide⟩]

/-- The first definition is gone and its owner is still one; the parts of a dotted owner are not. -/
theorem redefinedMethod_owners :
    let table := ofList (redefinedMethod.map (·.definition))
    ⟨"A.B.run", some "A.B", "one.py"⟩ ∉ table.toList ∧
      ⟨"A.B.run", some "A.B", "two.py"⟩ ∈ table.toList ∧
      table.isOwner "A.B" = true ∧ table.isOwner "" = true ∧ ¬ table.isOwner "B" = true := by
  intro table
  have follows : table.Follows (redefinedMethod.map (·.definition)) := follows_ofList _
  have owners (name : String) := (owners_stay_truthful redefinedMethod).2 name
  have latest : ⟨"A.B.run", some "A.B", "two.py"⟩ ∈ table.toList :=
    (follows.mem_toList_iff _).mpr (by decide)
  refine ⟨?_, latest, (owners "A.B").1.mpr ⟨_, latest, rfl⟩, ?_, ?_⟩
  · rw [follows.mem_toList_iff]
    decide
  · exact (owners "").2.mpr ⟨_, .tail _ (.head _), rfl⟩
  · rw [(owners "B").2]
    simp [redefinedMethod]

end SymbolTable

end CallAtlas
