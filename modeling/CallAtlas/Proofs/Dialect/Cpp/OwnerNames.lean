import CallAtlas.Proofs.Dialect.Cpp.Meaning
import CallAtlas.Proofs.Dialect.OutOfClass
/-!
The two ways to write a member of a C++ class. In the class the definition pass takes the name of
the class whole; out of class it reads the owner off the path, as what stands between its last two
`::`, without blanks around. The two agree exactly on class names that are a single segment
(`registered_alike_iff`). A qualified name or a `::` among template arguments makes two functions
out of one (`specialised_registered_apart`).
-/
namespace CallAtlas.Text

theorem length_trim_le (text : String) : (trim text).length ≤ text.length := by
  have back := (List.dropWhile_sublist isBlank
    (l := (text.toList.dropWhile isBlank).reverse)).length_le
  have front := (List.dropWhile_sublist isBlank (l := text.toList)).length_le
  simp only [List.length_reverse, String.length_toList] at back front
  simp only [trim, trimChars, String.length_ofList, List.length_reverse]
  omega

/-- A text of which only the end is trimmed still has the blanks at its front. -/
theorem trimChars_cons {c : Char} (solid : isBlank c = false) (rest : List Char) :
    ∃ front, (∀ b ∈ front, isBlank b = true) ∧ trimChars (c :: rest) = c :: front ++ trimChars rest := by
  have whole : rest.reverse =
      (rest.dropWhile isBlank).reverse ++ (rest.takeWhile isBlank).reverse := by
    rw [← List.reverse_append, List.takeWhile_append_dropWhile]
  have blanks : ∀ b ∈ rest.takeWhile isBlank, isBlank b = true :=
    List.all_eq_true.mp List.all_takeWhile
  have kept : trimChars (c :: rest) = c :: (rest.reverse.dropWhile isBlank).reverse := by
    rw [trimChars, List.dropWhile_cons_of_neg (by simp [solid]), List.reverse_cons,
      List.dropWhile_append]
    split
    next nothing => simp [List.isEmpty_iff.mp nothing, solid]
    next => simp
  rw [kept, whole, List.dropWhile_append, trimChars]
  split
  next nothing =>
    refine ⟨((rest.takeWhile isBlank).reverse.dropWhile isBlank).reverse, ?_, ?_⟩
    · intro b among
      refine blanks b ?_
      have within := (List.dropWhile_sublist isBlank).subset (List.mem_reverse.mp among)
      exact List.mem_reverse.mp within
    · simp [List.isEmpty_iff.mp nothing]
  next => exact ⟨rest.takeWhile isBlank, blanks, by simp⟩

end CallAtlas.Text

namespace CallAtlas.Dialect.Cpp

open Text

/-- A name that a path can carry as an owner: one segment, without blanks around it. -/
structure IsSegment (name : String) : Prop where
  filled : name ≠ ""
  single : ¬ "::".toList <:+: name.toList
  trimmed : trim name = name

theorem trim_lastSegment_eq_self_iff (name : String) :
    trim (lastSegment "::" name) = name ↔ ¬ "::".toList <:+: name.toList ∧ trim name = name := by
  have some_char : "::".toList ≠ [] := by decide
  rw [← cutLast?_eq_none_iff some_char, lastSegment]
  cases cut : cutLast? "::" name with
  | none => simp
  | some sides =>
    obtain ⟨before, after⟩ := sides
    have joined := ((cutLast?_eq_some_iff some_char).mp cut).joined
    have shorter : (trim after).length < name.length := by
      have letters := congrArg List.length joined
      have separator : "::".toList.length = 2 := by decide
      simp only [List.length_append, String.length_toList, separator] at letters
      have trimmed := length_trim_le after
      omega
    have other : trim after ≠ name := fun same => by
      rw [same] at shorter
      omega
    simp [other]

section Paths

variable {owner method : String}

/-- A path is cut before the method that it ends in. -/
theorem cutLast?_path (simple : ¬ "::".toList <:+: method.toList)
    (start : method.toList.head? ≠ some ':') :
    cutLast? "::" (owner ++ "::" ++ method) = some (owner, method) := by
  rw [cutLast?_eq_some_iff (by decide)]
  refine ⟨by simp, ?_⟩
  have letters : "::".toList = [':', ':'] := by decide
  rw [letters] at simple ⊢
  rw [List.cons_append, List.tail_cons, List.singleton_append, List.infix_cons_iff, not_or]
  refine ⟨fun starts => start ?_, simple⟩
  obtain ⟨rest, same⟩ := starts
  have second : method.toList = ':' :: rest := by simpa using same.symm
  simp [second]

/-- A colon at the start of the method goes with the two before it, and the last two cut. -/
theorem cutLast?_path_colon {rest : String} (simple : ¬ "::".toList <:+: (":" ++ rest).toList) :
    cutLast? "::" (owner ++ "::" ++ (":" ++ rest)) = some (owner ++ ":", rest) := by
  rw [cutLast?_eq_some_iff (by decide)]
  refine ⟨by simp, ?_⟩
  simpa using simple

theorem exists_id_ofPath (path : String) (scope : Option String) :
    ∃ written, (ofPath path).id scope = qualify written (splitPath path).2 := by
  unfold ofPath
  rcases splitPath path with ⟨_ | written, name⟩
  · exact ⟨scope, rfl⟩
  · exact ⟨some written, rfl⟩

/-- The id of a member that is written out of class, where `scope` is in force. -/
theorem id_ofPath (simple : ¬ "::".toList <:+: method.toList)
    (start : method.toList.head? ≠ some ':') (scope : Option String) :
    (ofPath (owner ++ "::" ++ method)).id scope =
      if trim (lastSegment "::" owner) = "" then qualify scope (trim method)
      else qualify (some (trim (lastSegment "::" owner))) (trim method) := by
  unfold ofPath splitPath
  rw [cutLast?_path simple start]
  by_cases nameless : trim (lastSegment "::" owner) = ""
  · simp [nameless, FunctionName.id, FunctionName.owner]
  · simp [nameless, FunctionName.id, FunctionName.owner]

/-- The id of a member that is written in its class. -/
theorem id_ofPath_simple (simple : ¬ "::".toList <:+: method.toList) (scope : Option String) :
    (ofPath method).id scope = qualify scope (trim method) := by
  have uncut := (cutLast?_eq_none_iff (by decide)).mpr simple
  unfold ofPath splitPath
  rw [uncut]
  rfl

/-- With a colon before it, a name is qualified differently whatever its owner is. -/
theorem qualify_ne_colon (scope : Option String) (owner rest : String) :
    qualify scope (trim rest) ≠ qualify (some owner) (trim (":" ++ rest)) := by
  obtain ⟨front, blanks, trimmed⟩ := trimChars_cons (c := ':') (by decide) rest.toList
  have letters : (qualify (some owner) (trim (":" ++ rest))).toList =
      owner.toList ++ '.' :: ':' :: front ++ (trim rest).toList := by
    simp [qualify, trim, trimmed]
  intro same
  have same := congrArg String.toList same
  rw [letters] at same
  cases scope with
  | none =>
    have length := congrArg List.length same
    simp only [qualify, List.length_append, List.length_cons] at length
    omega
  | some other =>
    -- what stands right before the name is a dot on the left, and a colon or a blank on the right
    have whole : other.toList ++ ['.'] ++ (trim rest).toList =
        owner.toList ++ '.' :: ':' :: front ++ (trim rest).toList := by
      simpa [qualify] using same
    have cut := List.append_cancel_right whole
    rcases front.eq_nil_or_concat' with empty | ⟨others, blank, filled⟩
    · have last := congrArg List.getLast? cut
      simp [empty] at last
    · subst filled
      rw [← List.cons_append, ← List.cons_append, ← List.append_assoc] at cut
      obtain ⟨-, dot⟩ := List.append_inj' cut rfl
      have white := blanks blank (by simp)
      rw [← (List.cons.inj dot).1] at white
      exact absurd white (by decide)

/-- A member has the same id in its class and out of it exactly if the name of the class is one
segment. -/
theorem id_ofPath_eq_iff {scope : Option String} (apart : scope ≠ some owner)
    (simple : ¬ "::".toList <:+: method.toList) :
    (ofPath (owner ++ "::" ++ method)).id scope = (ofPath method).id (some owner) ↔
      IsSegment owner ∧ method.toList.head? ≠ some ':' := by
  rw [id_ofPath_simple simple]
  by_cases start : method.toList.head? = some ':'
  · obtain ⟨rest, letters⟩ : ∃ rest, method.toList = ':' :: rest := by
      cases split : method.toList with
      | nil => simp [split] at start
      | cons c rest => simp_all
    obtain rfl : method = ":" ++ String.ofList rest :=
      String.toList_inj.mp (by simp [letters])
    obtain ⟨written, named⟩ := exists_id_ofPath (owner ++ "::" ++ (":" ++ String.ofList rest)) scope
    rw [named, splitPath_name, lastSegment, cutLast?_path_colon simple]
    simp [qualify_ne_colon]
  · rw [id_ofPath simple start]
    split
    next nameless =>
      have unnamed : ¬ IsSegment owner := fun segment => by
        have same := (trim_lastSegment_eq_self_iff owner).mpr ⟨segment.single, segment.trimmed⟩
        exact segment.filled (same.symm.trans nameless)
      have differ : qualify scope (trim method) ≠ qualify (some owner) (trim method) := by
        cases scope with
        | none => exact qualify_ne_self owner _
        | some other => exact fun same => apart (congrArg some (qualify_left_inj.mp same))
      simp [unnamed, differ]
    next named =>
      rw [qualify_left_inj, trim_lastSegment_eq_self_iff]
      constructor
      · intro bare
        obtain ⟨single, trimmed⟩ := bare
        refine ⟨⟨fun empty => named ?_, single, trimmed⟩, start⟩
        rw [(trim_lastSegment_eq_self_iff owner).mpr ⟨single, trimmed⟩, empty]
      · intro parts
        obtain ⟨segment, -⟩ := parts
        exact ⟨segment.single, segment.trimmed⟩

end Paths

def IsClass (node : TextTree) (name : Option String) : Prop :=
  (node.kind = "class_specifier" ∨ node.kind = "struct_specifier") ∧ node.childText? "name" = name

/-- A declarator names a function by a path, and the nearest class around it has a name, if there
is a class. -/
structure DeclaredAt (tree : TextTree) (place : Tree.Place String) (path : String)
    (around : Option String) : Prop where
  listed : place ∈ tree.places
  kind : place.node.kind = "function_declarator"
  path : HasPath place.node path
  around : InForce IsClass place.ancestors around

theorem opensClass_eq_some_iff (node : TextTree) (name : Option String) :
    opensClass node = some name ↔ IsClass node name := by
  simp [opensClass, IsClass, isOwnerKind]

theorem DeclaredAt.registered {tree : TextTree} {place : Tree.Place String} {path : String}
    {around : Option String} (declared : DeclaredAt tree place path around) (file : String) :
    ∃ definition, registeredAt? file place = some definition ∧
      definition.id = (ofPath path).id around := by
  have function : function? place.node = some (ofPath path) := by
    rw [function?, if_pos declared.kind]
    exact (declared?_eq_some_iff _ _).mpr ⟨path, declared.path, rfl⟩
  have scope := (inForce_iff opensClass_eq_some_iff _ _).mp declared.around
  exact ⟨(ofPath path).definition around file, by rw [registeredAt?, function, scope]; rfl, rfl⟩

/-- A member that is declared in its class and out of it is registered under one id exactly if the
name of the class is a single segment. -/
theorem registered_alike_iff (header source : TextTree) (file other : String)
    {inside outside : Tree.Place String} {owner method : String} {around : Option String}
    (inClass : DeclaredAt header inside method (some owner))
    (outOfClass : DeclaredAt source outside (owner ++ "::" ++ method) around)
    (apart : around ≠ some owner) (simple : ¬ "::".toList <:+: method.toList) :
    cpp.definitions header file = header.places.filterMap (registeredAt? file) ∧
      cpp.definitions source other = source.places.filterMap (registeredAt? other) ∧
      ∃ first second, registeredAt? file inside = some first ∧
        registeredAt? other outside = some second ∧
        (first.id = second.id ↔ IsSegment owner ∧ method.toList.head? ≠ some ':') := by
  obtain ⟨first, registered, named⟩ := inClass.registered file
  obtain ⟨second, also, written⟩ := outOfClass.registered other
  refine ⟨definitions_eq_registered header file, definitions_eq_registered source other,
    first, second, registered, also, ?_⟩
  rw [named, written, eq_comm]
  exact id_ofPath_eq_iff apart simple

/-- `class T { void m(); };` and `void T::m() {}`, without punctuation. The node for `T` may be of
any kind. -/
def declaredThenDefined (kind name method : String) : TextTree :=
  .node "translation_unit" none true "" [
    .node "class_specifier" none true ("class " ++ name) [
      .node kind (some "name") true name [],
      .node "field_declaration_list" (some "body") true "" [
        .node "field_declaration" none true ("void " ++ method ++ "();") [
          .node "function_declarator" (some "declarator") true (method ++ "()") [
            .node "field_identifier" (some "declarator") true method []]]]],
    .node "function_definition" none true ("void " ++ name ++ "::" ++ method ++ "() {}") [
      .node "function_declarator" (some "declarator") true (name ++ "::" ++ method ++ "()") [
        .node "qualified_identifier" (some "declarator") true (name ++ "::" ++ method) []]]]

theorem declaredThenDefined_declared (kind name method : String) :
    ∃ inside outside,
      DeclaredAt (declaredThenDefined kind name method) inside method (some name) ∧
      DeclaredAt (declaredThenDefined kind name method) outside (name ++ "::" ++ method) none := by
  refine ⟨_, _, ⟨List.mem_of_getElem? (i := 5) rfl, rfl, ⟨[], _, _, rfl, .inl rfl, by simp, rfl⟩, ?_⟩,
    ⟨List.mem_of_getElem? (i := 8) rfl, rfl, ⟨[], _, _, rfl, .inr (.inr rfl), by simp, rfl⟩, ?_⟩⟩
  · exact (inForce_iff opensClass_eq_some_iff _ _).mpr rfl
  · exact (inForce_iff opensClass_eq_some_iff _ _).mpr rfl

/-- A method of `Engine` is one function, in the class and out of it. -/
theorem engine_registered_once : IsSegment "Engine" ∧
    ∃ inside outside first second,
      DeclaredAt (declaredThenDefined "type_identifier" "Engine" "start") inside "start"
        (some "Engine") ∧
      DeclaredAt (declaredThenDefined "type_identifier" "Engine" "start") outside
        ("Engine" ++ "::" ++ "start") none ∧
      registeredAt? "engine.cpp" inside = some first ∧
      registeredAt? "engine.cpp" outside = some second ∧ first.id = second.id := by
  have segment : IsSegment "Engine" := ⟨by decide, by decide, by decide⟩
  obtain ⟨inside, outside, inClass, outOfClass⟩ :=
    declaredThenDefined_declared "type_identifier" "Engine" "start"
  obtain ⟨-, -, first, second, registered, also, alike⟩ :=
    registered_alike_iff _ _ "engine.cpp" "engine.cpp" inClass outOfClass (by simp) (by decide)
  exact ⟨segment, inside, outside, first, second, inClass, outOfClass, registered, also,
    alike.mpr ⟨segment, by decide⟩⟩

/-- A specialisation is registered under the end of its argument when it is written out of class,
and a nested class under the last of its names. -/
theorem specialised_registered_apart :
    (∃ inside outside,
      DeclaredAt (declaredThenDefined "template_type" "Box<std::string>" "put") inside "put"
        (some "Box<std::string>") ∧
      DeclaredAt (declaredThenDefined "template_type" "Box<std::string>" "put") outside
        ("Box<std::string>" ++ "::" ++ "put") none) ∧
    (∃ inside outside,
      DeclaredAt (declaredThenDefined "qualified_identifier" "Outer::Inner" "run") inside "run"
        (some "Outer::Inner") ∧
      DeclaredAt (declaredThenDefined "qualified_identifier" "Outer::Inner" "run") outside
        ("Outer::Inner" ++ "::" ++ "run") none) ∧
    (cpp.definitions (declaredThenDefined "template_type" "Box<std::string>" "put")
      "box.cpp").map (·.id) = ["Box<std::string>.put", "string>.put"] ∧
    (cpp.definitions (declaredThenDefined "qualified_identifier" "Outer::Inner" "run")
      "box.cpp").map (·.id) = ["Outer::Inner.run", "Inner.run"] :=
  ⟨declaredThenDefined_declared _ _ _, declaredThenDefined_declared _ _ _, by decide, by decide⟩

end CallAtlas.Dialect.Cpp
