import CallAtlas.Proofs.Dialect.Stateless
import CallAtlas.Proofs.Tree.Descent
/-!
What a node of Java gives a type and what it calls, told from its children. The type that stands
in a declaration or after `new` is the name below its type arguments. A call is written with a
receiver under a field of its own. In a tree without that field, the last identifier is the
method, and what counts as the receiver depends on what stands on either side of it.
`mem_givenTypes_iff` and `called?_eq_some_iff` say that the reader finds exactly these.

Only one node is told about here. Which binding and which caller are in force at a call is
settled for all languages with receivers alike.
-/
namespace CallAtlas.Dialect.Java

/-- A node stands for a type: by its own name, or by the name before its type arguments. -/
inductive NamesType : TextTree → String → Prop
  | name {node : TextTree}
      (kind : node.kind = "type_identifier" ∨ node.kind = "scoped_type_identifier") :
      NamesType node node.text
  | generic {node inner : TextTree} {type : String} (kind : node.kind = "generic_type")
      (first : node.firstNamed? = some inner) (names : NamesType inner type) : NamesType node type

/-- An expression `new T(...)` makes an object of the type `T`. -/
def Makes (expression : TextTree) (type : String) : Prop :=
  expression.kind = "object_creation_expression" ∧
    ∃ written, expression.child? "type" = some written ∧ NamesType written type

inductive Gives (node : TextTree) : String → String → Prop
  | assigned {target value : TextTree} {type : String}
      (kind : node.kind = "assignment_expression") (left : node.child? "left" = some target)
      (right : node.child? "right" = some value) (makes : Makes value type) :
      Gives node target.text type
  | made {declarator value : TextTree} {name type : String}
      (kind : node.kind = "local_variable_declaration")
      (among : declarator ∈ node.childrenUnder "declarator")
      (named : declarator.childText? "name" = some name)
      (initial : declarator.child? "value" = some value) (makes : Makes value type) :
      Gives node name type
  | declared {declarator written : TextTree} {name type : String}
      (kind : node.kind = "local_variable_declaration")
      (among : declarator ∈ node.childrenUnder "declarator")
      (named : declarator.childText? "name" = some name)
      (unmade : ∀ value made, declarator.child? "value" = some value → ¬ Makes value made)
      (stated : node.child? "type" = some written) (names : NamesType written type) :
      Gives node name type

def lastText? (kind : String) (nodes : List TextTree) : Option String :=
  (nodes.filter (·.kind == kind)).getLast?.map (·.text)

/-- A call names its method, and perhaps a receiver. -/
inductive Names (node : TextTree) : Option String → String → Prop
  | marked {object : TextTree} {method : String} (held : node.child? "object" = some object)
      (named : node.childText? "name" = some method) : Names node (some object.text) method
  | unmarked {early late : List TextTree} {method : TextTree}
      (bare : node.child? "object" = none) (split : node.children = early ++ method :: late)
      (identifier : method.kind = "identifier")
      (last : ∀ other ∈ late, other.kind ≠ "identifier") :
      Names node
        (lastText? "field_access" late <|> lastText? "identifier" early <|>
          lastText? "field_access" early)
        method.text

section Types

theorem typeText?_eq_some_iff (node : TextTree) (type : String) :
    typeText? node = some type ↔ NamesType node type := by
  have goal (kind : String) : typeName.goal kind = true ↔
      kind = "type_identifier" ∨ kind = "scoped_type_identifier" := by
    simp [typeName]
  have wrapper (kind : String) : typeName.wrapper kind = true ↔ kind = "generic_type" := by
    simp [typeName]
  have next (tree : TextTree) : typeName.next? tree = tree.firstNamed? := rfl
  rw [typeText?, Tree.text_descend_eq_some_iff]
  constructor
  · intro ⟨target, reaches, same⟩
    subst same
    induction reaches with
    | arrived here => exact .name ((goal _).mp here)
    | past _ wraps down _ ih =>
      rw [next] at down
      exact .generic ((wrapper _).mp wraps) down ih
  · intro names
    induction names with
    | name kind => exact ⟨_, .arrived ((goal _).mpr kind), rfl⟩
    | generic kind first names ih =>
      obtain ⟨target, reaches, same⟩ := ih
      refine ⟨target, .past ?_ ((wrapper _).mpr kind) ((next _).trans first) reaches, same⟩
      rw [kind]
      rfl

theorem created?_eq_some_iff (expression : TextTree) (type : String) :
    created? expression = some type ↔ Makes expression type := by
  unfold created? Makes
  split
  · next kind => simp [kind, Option.bind_eq_some_iff, typeText?_eq_some_iff]
  · next kind => simp [kind]

theorem initial_eq_some_iff (declarator : TextTree) (type : String) :
    (declarator.child? "value").bind created? = some type ↔
      ∃ value, declarator.child? "value" = some value ∧ Makes value type := by
  simp only [Option.bind_eq_some_iff, created?_eq_some_iff]

theorem initial_eq_none_iff (declarator : TextTree) :
    (declarator.child? "value").bind created? = none ↔
      ∀ value made, declarator.child? "value" = some value → ¬ Makes value made := by
  rw [Option.eq_none_iff_forall_ne_some]
  constructor
  · intro unmade value made initial makes
    exact unmade made ((initial_eq_some_iff _ _).mpr ⟨value, initial, makes⟩)
  · intro unmade made found
    obtain ⟨value, initial, makes⟩ := (initial_eq_some_iff _ _).mp found
    exact unmade value made initial makes

theorem stated_eq_some_iff (node : TextTree) (type : String) :
    (node.child? "type").bind typeText? = some type ↔
      ∃ written, node.child? "type" = some written ∧ NamesType written type := by
  simp only [Option.bind_eq_some_iff, typeText?_eq_some_iff]

theorem gives_of_mem_givenTypes {node : TextTree} {name type : String}
    (given : (name, type) ∈ givenTypes node) : Gives node name type := by
  unfold givenTypes at given
  split at given
  · next kind =>
    split at given
    · next target made left right =>
      cases List.mem_singleton.mp given
      obtain ⟨value, right, makes⟩ := Option.bind_eq_some_iff.mp right
      exact .assigned kind left right ((created?_eq_some_iff _ _).mp makes)
    · cases given
  · split at given
    · next kind =>
      obtain ⟨declarator, among, given⟩ := List.mem_filterMap.mp given
      split at given
      · next named initial =>
        cases given
        obtain ⟨value, initial, makes⟩ := (initial_eq_some_iff _ _).mp initial
        exact .made kind among named initial makes
      · next named unmade stated =>
        cases given
        obtain ⟨written, stated, names⟩ := (stated_eq_some_iff _ _).mp stated
        exact .declared kind among named ((initial_eq_none_iff _).mp unmade) stated names
      · cases given
    · cases given

theorem mem_givenTypes_of_gives {node : TextTree} {name type : String}
    (gives : Gives node name type) : (name, type) ∈ givenTypes node := by
  unfold givenTypes
  cases gives with
  | assigned kind left right makes =>
    simp [kind, left, right, (created?_eq_some_iff _ _).mpr makes]
  | made kind among named initial makes =>
    rw [if_neg (by simp [kind]), if_pos kind]
    apply List.mem_filterMap.mpr
    exact ⟨_, among, by simp [named, (initial_eq_some_iff _ _).mpr ⟨_, initial, makes⟩]⟩
  | declared kind among named unmade stated names =>
    rw [if_neg (by simp [kind]), if_pos kind]
    apply List.mem_filterMap.mpr
    exact ⟨_, among, by simp [named, (initial_eq_none_iff _).mpr unmade,
      (stated_eq_some_iff _ _).mpr ⟨_, stated, names⟩]⟩

/-- A variable of a declaration takes the type of what is made for it before the declared one. -/
theorem mem_givenTypes_iff (node : TextTree) (name type : String) :
    (name, type) ∈ givenTypes node ↔ Gives node name type :=
  ⟨gives_of_mem_givenTypes, mem_givenTypes_of_gives⟩

end Types

section Calls

variable {kind : String} {nodes early late : List TextTree}

theorem lastText?_cons (kind : String) (node : TextTree) (rest : List TextTree) :
    lastText? kind (node :: rest) =
      (lastText? kind rest <|> if node.kind = kind then some node.text else none) := by
  unfold lastText?
  by_cases same : node.kind = kind
  · rw [List.filter_cons_of_pos (by simp [same]), List.getLast?_cons]
    cases (rest.filter (·.kind == kind)).getLast? <;> simp [same]
  · rw [List.filter_cons_of_neg (by simp [same])]
    simp [same]

theorem lastText?_eq_none_iff : lastText? kind nodes = none ↔ ∀ node ∈ nodes, node.kind ≠ kind := by
  simp [lastText?]

theorem exists_split_of_lastText? {text : String} (found : lastText? kind nodes = some text) :
    ∃ early node late, nodes = early ++ node :: late ∧ node.kind = kind ∧
      ∀ other ∈ late, other.kind ≠ kind := by
  induction nodes generalizing text with
  | nil => cases found
  | cons first rest ih =>
    rw [lastText?_cons] at found
    cases later : lastText? kind rest with
    | some text =>
      obtain ⟨early, node, late, split, same, last⟩ := ih later
      exact ⟨first :: early, node, late, by rw [split, List.cons_append], same, last⟩
    | none =>
      have same : first.kind = kind := by
        by_contra other
        simp [later, other] at found
      exact ⟨[], first, rest, rfl, same, lastText?_eq_none_iff.mp later⟩

theorem unmarked_append (found : Option String × Option String) (early late : List TextTree) :
    unmarked found (early ++ late) = unmarked (unmarked found early) late := by
  induction early generalizing found with
  | nil => rfl
  | cons node rest ih =>
    rw [List.cons_append, unmarked, unmarked]
    split
    · exact ih _
    · split <;> exact ih _

theorem snd_unmarked (receiver method : Option String) (nodes : List TextTree) :
    (unmarked (receiver, method) nodes).2 = (lastText? "identifier" nodes <|> method) := by
  induction nodes generalizing receiver method with
  | nil => rfl
  | cons node rest ih =>
    rw [unmarked, lastText?_cons]
    split
    · rw [ih]
      cases lastText? "identifier" rest <;> rfl
    · split <;> rw [ih] <;> cases lastText? "identifier" rest <;> rfl

/-- Past the last identifier only the receiver can change. -/
theorem unmarked_of_last (receiver method : Option String)
    (last : ∀ other ∈ late, other.kind ≠ "identifier") :
    unmarked (receiver, method) late = (lastText? "field_access" late <|> receiver, method) := by
  induction late generalizing receiver with
  | nil => rfl
  | cons node rest ih =>
    obtain ⟨other, others⟩ := List.forall_mem_cons.mp last
    rw [unmarked, if_neg other, lastText?_cons]
    split <;> rw [ih _ others] <;> cases lastText? "field_access" rest <;> rfl

/-- What the next identifier takes for its receiver: the identifier before it, if there is one. -/
theorem receiver_of_unmarked (early : List TextTree) :
    ((unmarked (none, none) early).2 <|> (unmarked (none, none) early).1) =
      (lastText? "identifier" early <|> lastText? "field_access" early) := by
  cases found : lastText? "identifier" early with
  | some text =>
    rw [snd_unmarked, found]
    rfl
  | none =>
    rw [unmarked_of_last none none (lastText?_eq_none_iff.mp found)]
    cases lastText? "field_access" early <;> rfl

theorem unmarked_split {name : TextTree} (identifier : name.kind = "identifier")
    (last : ∀ other ∈ late, other.kind ≠ "identifier") :
    unmarked (none, none) (early ++ name :: late) =
      (lastText? "field_access" late <|> lastText? "identifier" early <|>
        lastText? "field_access" early, some name.text) := by
  rw [unmarked_append, ← receiver_of_unmarked early, unmarked, if_pos identifier]
  exact unmarked_of_last _ _ last

theorem receiverAndMethod_eq_iff (node : TextTree) (receiver : Option String) (method : String) :
    receiverAndMethod node = (receiver, some method) ↔ Names node receiver method := by
  unfold receiverAndMethod
  constructor
  · intro read
    split at read
    · next object held =>
      rw [Prod.mk.injEq] at read
      obtain ⟨same, named⟩ := read
      subst same
      exact .marked held named
    · next bare =>
      -- The method that was read is the last identifier, and the children are split there.
      have found : lastText? "identifier" node.children = some method := by
        have second := snd_unmarked none none node.children
        rw [read] at second
        cases text : lastText? "identifier" node.children <;> simp_all
      obtain ⟨early, name, late, split, identifier, last⟩ := exists_split_of_lastText? found
      rw [split, unmarked_split identifier last, Prod.mk.injEq, Option.some.injEq] at read
      obtain ⟨same, text⟩ := read
      subst same text
      exact .unmarked bare split identifier last
  · intro names
    cases names with
    | marked held named => rw [held, named]
    | unmarked bare split identifier last => rw [bare, split, unmarked_split identifier last]

theorem called?_eq_some_iff (node : TextTree) (receiver : Option String) (method : String) :
    Java.called? node = some (receiver, method) ↔
      node.kind = "method_invocation" ∧ Names node receiver method := by
  rw [← receiverAndMethod_eq_iff, Java.called?]
  split
  · next kind =>
    rcases receiverAndMethod node with ⟨found, _ | name⟩ <;> simp [kind]
  · next kind => simp [kind]

end Calls

end CallAtlas.Dialect.Java
