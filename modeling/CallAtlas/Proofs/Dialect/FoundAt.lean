import CallAtlas.Proofs.Dialect.Reading
import CallAtlas.Proofs.Dialect.StateAt
import CallAtlas.Proofs.Dialect.Traversal
/-!
What the call pass finds at a place, under either kind of scoping. The owner in force, the caller,
the type of a variable and the method that it holds are each the last of their kind that came up
before the place. So the calls of a file can be told place by place (`yields_calls`): what a call
names is resolved with what came before it, and nothing after it matters.
-/
namespace CallAtlas

namespace Tree

variable {α : Type}

theorem nodes_placesFrom :
    (∀ (tree : Tree α) position ancestors,
      (placesFrom position ancestors tree).map (·.node) = tree.preorder) ∧
    ∀ (trees : List (Tree α)) position ancestors i,
      (placesAll position ancestors i trees).map (·.node) = preorderAll trees := by
  refine forestInduction ?_ ?_ ?_
  · intro tree below position ancestors
    rw [placesFrom_eq, preorder_eq, List.map_cons, below]
  · intro position ancestors i
    rfl
  · intro tree rest here later position ancestors i
    rw [placesAll, List.map_append, here, later, preorderAll]

theorem map_node_places (tree : Tree α) : tree.places.map (·.node) = tree.preorder :=
  nodes_placesFrom.1 tree [] []

/-- What comes before a place is a front part of the listing. -/
theorem before_prefix (tree : Tree α) (place : Place α) : tree.before place <+: tree.places := by
  have rising := List.pairwise_map.mp tree.places_inDocumentOrder.rising
  unfold before
  generalize tree.places = listing at rising ⊢
  induction listing with
  | nil => exact List.nil_prefix
  | cons first rest ih =>
    obtain ⟨upward, rising⟩ := List.pairwise_cons.mp rising
    by_cases lower : first.position < place.position
    · rw [List.filter_cons_of_pos (by simpa using lower)]
      exact (List.prefix_cons_inj first).mpr (ih rising)
    · -- the listing rises, so nothing after `first` is before the place either
      have none_later : rest.filter (fun other => other.position < place.position) = [] := by
        apply List.filter_eq_nil_iff.mpr
        intro later listed
        have higher : ¬ later.position < place.position := fun below =>
          lower (List.lt_trans (upward later listed) below)
        simpa using higher
      rw [List.filter_cons_of_neg (by simpa using lower), none_later]
      exact List.nil_prefix

end Tree

namespace Scoping

def ownerAt (scoping : Scoping) (tree : TextTree) (place : Tree.Place String) : Option String :=
  match scoping with
  | lexical opens => enclosing opens place.ancestors
  | flat sets => ((tree.before place).filterMap fun other => sets other.node).getLast?

def visit (scoping : Scoping) (tree : TextTree) (place : Tree.Place String) : Visit :=
  ⟨scoping.ownerAt tree place, place.node⟩

/-- The owner that was set last. -/
theorem ownerAfter_nodes (sets : TextTree → Option String) (places : List (Tree.Place String)) :
    Traversal.ownerAfter sets none (places.map (·.node)) =
      (places.filterMap fun place => sets place.node).getLast? := by
  induction places using List.reverseRecOn with
  | nil => rfl
  | append_singleton early place ih =>
    unfold Traversal.ownerAfter at ih ⊢
    rw [List.map_append, List.foldl_append, ih]
    cases here : sets place.node <;> simp [here]

theorem flatVisits_places (sets : TextTree → Option String) (tree : TextTree) :
    ∀ early late, tree.places = early ++ late →
      flatVisits sets none (early.map (·.node)) = early.map ((flat sets).visit tree) := by
  intro early
  induction early using List.reverseRecOn with
  | nil => intro late split; rfl
  | append_singleton early place ih =>
    intro late split
    rw [List.append_assoc, List.singleton_append] at split
    rw [List.map_append, Traversal.flatVisits_append, ih _ split, List.map_append,
      ownerAfter_nodes, ← Tree.before_eq split]
    rfl

/-- Every place is visited with the owner in force there. -/
theorem visits_eq (scoping : Scoping) (tree : TextTree) :
    scoping.visits tree = tree.places.map (scoping.visit tree) := by
  cases scoping with
  | lexical opens => exact visits_lexical opens tree
  | flat sets =>
    rw [visits, ← tree.map_node_places]
    exact flatVisits_places sets tree tree.places [] (by simp)

end Scoping

namespace Dialect

variable (dialect : Dialect) (known : Knowledge) (tree : TextTree)

def stateAt (place : Tree.Place String) : CallState :=
  dialect.after known ((tree.before place).map (dialect.callScope.visit tree))

def foundAt (place : Tree.Place String) : List Call :=
  dialect.callsAt known ((tree.before place).map (dialect.callScope.visit tree))
    (dialect.callScope.visit tree place)

/-- The calls of a file are those found at its places. -/
theorem calls_eq_flatMap_foundAt :
    dialect.calls known tree = tree.places.flatMap (dialect.foundAt known tree) :=
  dialect.calls_eq_flatMap_of_visits known (dialect.callScope.visits_eq tree)

section Caller

/-- The caller is the function introduced last before the place. -/
theorem caller_stateAt_iff {introduces : Tree.Place String → String → Prop}
    (reads : ∀ place id,
      dialect.entered? (dialect.callScope.visit tree place) = some id ↔ introduces place id)
    (place : Tree.Place String) (caller : String) :
    (dialect.stateAt known tree place).caller = some caller ↔
      tree.LastBefore place introduces caller := by
  rw [stateAt, caller_after, List.filterMap_map]
  exact Tree.getLast?_before_eq_some_iff reads

end Caller

section Types

/-- The type that a node gives a variable, by the last of its bindings. -/
def boundTo? (name : String) (node : TextTree) : Option String :=
  ((dialect.boundIn known node).filter (·.1 == name)).getLast?.map (·.2)

/-- Declarators are gone through in turn, so that the last one for a variable gives its type. -/
theorem boundTo?_declarators {node : TextTree} (declarators : List TextTree)
    (name? : TextTree → Option String) (type : TextTree → String)
    (free : dialect.bindsOwnersOnly = false)
    (sites : dialect.sites node = declarators.filterMap fun declarator =>
      (name? declarator).map fun name => .bind name (type declarator)) (name given : String) :
    dialect.boundTo? known name node = some given ↔
      ∃ earlier declarator later, declarators = earlier ++ declarator :: later ∧
        name? declarator = some name ∧ type declarator = given ∧
        ∀ other ∈ later, name? other ≠ some name := by
  have bound : dialect.boundIn known node = declarators.filterMap fun declarator =>
      (name? declarator).map fun name => (name, type declarator) := by
    rw [boundIn, sites, List.filterMap_filterMap]
    congr 1
    funext declarator
    cases name? declarator with
    | none => rfl
    | some found => simp [bound?, free]
  have last : dialect.boundTo? known name node = (declarators.filterMap fun declarator =>
      if name? declarator = some name then some (type declarator) else none).getLast? := by
    rw [boundTo?, bound, ← List.getLast?_map, List.filter_filterMap, List.map_filterMap]
    congr 2
    funext declarator
    cases name? declarator with
    | none => rfl
    | some found => by_cases same : found = name <;> simp [same, Option.filter]
  rw [last, getLast?_filterMap_eq_some_iff]
  simp [and_assoc]

/-- Where the declarators share one type, a variable gets it from any of them. -/
theorem boundTo?_declarators_alike {node : TextTree} (declarators : List TextTree)
    (name? : TextTree → Option String) (type : String)
    (free : dialect.bindsOwnersOnly = false)
    (sites : dialect.sites node = declarators.filterMap fun declarator =>
      (name? declarator).map fun name => .bind name type) (name given : String) :
    dialect.boundTo? known name node = some given ↔
      type = given ∧ ∃ declarator ∈ declarators, name? declarator = some name := by
  have last := dialect.boundTo?_declarators known declarators name? (fun _ => type) free sites name
  constructor
  · intro bound
    obtain ⟨earlier, declarator, later, split, names, same, -⟩ := (last given).mp bound
    exact ⟨same, declarator, by simp [split], names⟩
  · intro ⟨same, declarator, listed, names⟩
    subst same
    -- from the end, the first declarator of the name is the last of them
    have some_there : (declarators.reverse.find? (name? · = some name)).isSome :=
      List.find?_isSome.mpr ⟨declarator, List.mem_reverse.mpr listed, decide_eq_true names⟩
    obtain ⟨final, found⟩ := Option.isSome_iff_exists.mp some_there
    obtain ⟨here, after, before, split, others⟩ := List.find?_eq_some_iff_append.mp found
    refine (last type).mpr
      ⟨before.reverse, final, after.reverse, ?_, of_decide_eq_true here, rfl, ?_⟩
    · rw [← List.reverse_reverse declarators, split]
      simp
    · intro other later
      simpa using others other (List.mem_reverse.mp later)

/-- A node that binds nothing gives no type. -/
theorem boundTo?_eq_none {node : TextTree}
    (other : ∀ site ∈ dialect.sites node, ∀ name type, site ≠ .bind name type) (name : String) :
    dialect.boundTo? known name node = none := by
  have nothing : dialect.boundIn known node = [] := by
    apply List.filterMap_eq_nil_iff.mpr
    intro site listed
    cases site with
    | bind name type => exact absurd rfl (other _ listed name type)
    | hold name receiver method => rfl
    | call callee knownOnly => rfl
  rw [boundTo?, nothing]
  rfl

theorem lookup_types_after (name : String) (visits : List Visit) :
    (dialect.after known visits).types.lookup name =
      (visits.filterMap fun visit => dialect.boundTo? known name visit.node).getLast? := by
  induction visits using List.reverseRecOn with
  | nil => rfl
  | append_singleton before visit ih =>
    have last : (dialect.boundIn known visit.node).reverse.lookup name =
        dialect.boundTo? known name visit.node := lookup_reverse _ name
    rw [after_append, types_callStep, List.lookup_append, last, ih, List.filterMap_append]
    cases here : dialect.boundTo? known name visit.node <;> simp [here]

/-- The type of a variable is the one it was given last before the place. -/
theorem lookup_types_stateAt (place : Tree.Place String) (name : String) :
    (dialect.stateAt known tree place).types.lookup name =
      ((tree.before place).filterMap fun other =>
        dialect.boundTo? known name other.node).getLast? := by
  rw [stateAt, lookup_types_after, List.filterMap_map]
  rfl

end Types

section Receivers

/-- What a receiver stands for at a place: the word for the owner itself stands for the owner in
force, and any other text for the type that it was given last. -/
inductive StandsFor (selfWord : String) (opens : TextTree → Option String → Prop)
    (gives : String → TextTree → String → Prop) (tree : TextTree) (place : Tree.Place String) :
    String → String → Prop
  | itself {type : String} (scope : InForce opens place.ancestors (some type)) :
      StandsFor selfWord opens gives tree place selfWord type
  | given {receiver type : String} (other : receiver ≠ selfWord)
      (last : tree.LastBefore place (fun earlier => gives receiver earlier.node) type) :
      StandsFor selfWord opens gives tree place receiver type

variable {tree} {selfWord : String} {opens? : TextTree → Option (Option String)}
  {opens : TextTree → Option String → Prop} {gives : String → TextTree → String → Prop}

theorem receiverType?_eq_some_iff (word : dialect.selfWord = some selfWord)
    (scoping : dialect.callScope = .lexical opens?)
    (opened : ∀ node owner, opens? node = some owner ↔ opens node owner)
    (given : ∀ name node type, dialect.boundTo? known name node = some type ↔ gives name node type)
    (place : Tree.Place String) (receiver type : String) :
    dialect.receiverType? (dialect.callScope.ownerAt tree place)
        (dialect.stateAt known tree place).types receiver = some type ↔
      StandsFor selfWord opens gives tree place receiver type := by
  have owner : dialect.callScope.ownerAt tree place = some type ↔
      InForce opens place.ancestors (some type) := by
    rw [scoping, inForce_iff opened]
    rfl
  have last : (dialect.stateAt known tree place).types.lookup receiver = some type ↔
      tree.LastBefore place (fun earlier => gives receiver earlier.node) type := by
    rw [lookup_types_stateAt]
    exact Tree.getLast?_before_eq_some_iff fun earlier => given receiver earlier.node
  rw [receiverType?, word]
  by_cases same : receiver = selfWord
  · subst same
    rw [if_pos rfl, owner]
    constructor
    · exact .itself
    · intro stands
      cases stands with
      | itself scope => exact scope
      | given other => exact absurd rfl other
  · have different : some selfWord ≠ some receiver := fun equal => same (Option.some.inj equal).symm
    rw [if_neg different, last]
    constructor
    · exact .given same
    · intro stands
      cases stands with
      | itself scope => exact absurd rfl same
      | given other last => exact last

/-- Where receivers are never taken for types, a member call needs one that stands for a type. -/
theorem resolve?_member_eq_some_iff (typed : dialect.literalReceivers = false)
    (owner : Option String) (state : CallState) (receiver method callee : String) :
    dialect.resolve? known owner state (.member receiver method) = some callee ↔
      ∃ type, dialect.receiverType? owner state.types receiver = some type ∧
        qualify (some type) method = callee := by
  unfold resolve?
  dsimp only
  cases dialect.receiverType? owner state.types receiver with
  | none => simp [typed]
  | some type => simp

end Receivers

section Held

/-- A node gives a variable a method to hold and does nothing else, or gives none. -/
def HoldsAlone : Prop :=
  ∀ node, (∃ name receiver method, dialect.sites node = [.hold name receiver method]) ∨
    ∀ site ∈ dialect.sites node, ∀ name receiver method, site ≠ .hold name receiver method

/-- The method that a visited node gives a variable to hold, where variables have these types. -/
def heldFrom? (types : List (String × String)) (visit : Visit) (name : String) :
    Option String :=
  match dialect.sites visit.node with
  | [.hold held receiver method] =>
    if held = name then
      (dialect.receiverType? visit.owner types receiver).map fun type => qualify (some type) method
    else none
  | _ => none

def heldAt? (name : String) (place : Tree.Place String) : Option String :=
  dialect.heldFrom? (dialect.stateAt known tree place).types (dialect.callScope.visit tree place)
    name

@[simp]
theorem held_record (state : CallState) (callee : String) :
    (state.record callee).held = state.held := by
  unfold CallState.record
  split
  · split <;> rfl
  · rfl

theorem held_siteStep_other (owner : Option String) (state : CallState) {site : Site}
    (other : ∀ name receiver method, site ≠ .hold name receiver method) :
    (dialect.siteStep known owner state site).held = state.held := by
  cases site with
  | bind name type =>
    simp only [siteStep]
    split <;> rfl
  | hold name receiver method => exact absurd rfl (other name receiver method)
  | call callee knownOnly =>
    simp only [siteStep]
    split
    · split
      · rfl
      · exact held_record state _
    · rfl

theorem held_sites_other (owner : Option String) {sites : List Site}
    (other : ∀ site ∈ sites, ∀ name receiver method, site ≠ .hold name receiver method)
    (state : CallState) :
    (sites.foldl (dialect.siteStep known owner) state).held = state.held := by
  induction sites generalizing state with
  | nil => rfl
  | cons site rest ih =>
    rw [List.foldl_cons, ih fun site later => other site (List.mem_cons_of_mem _ later)]
    exact dialect.held_siteStep_other known owner state (other site List.mem_cons_self)

/-- What a variable holds after a visit is what the visited node gave it, or else what it held. -/
theorem lookup_held_callStep (alone : dialect.HoldsAlone) (state : CallState) (visit : Visit)
    (name : String) :
    (dialect.callStep known state visit).held.lookup name =
      (dialect.heldFrom? state.types visit name <|> state.held.lookup name) := by
  rw [callStep_eq_foldl]
  rcases alone visit.node with ⟨held, receiver, method, single⟩ | other
  · rw [heldFrom?, single, List.foldl_cons, List.foldl_nil]
    simp only [siteStep, entering]
    cases dialect.receiverType? visit.owner state.types receiver with
    | none => simp
    | some type =>
      by_cases here : held = name
      · simp [here]
      · simp [here, List.lookup_cons, beq_false_of_ne (Ne.symm here)]
  · rw [dialect.held_sites_other known visit.owner other]
    have silent : dialect.heldFrom? state.types visit name = none := by
      unfold heldFrom?
      split
      · next held receiver method single =>
        rw [single] at other
        exact absurd rfl (other _ List.mem_cons_self held receiver method)
      · rfl
    rw [silent]
    rfl

/-- What a variable holds is what it was given last before the place, and that was settled where it
was given. -/
theorem lookup_held_stateAt (alone : dialect.HoldsAlone) (place : Tree.Place String)
    (name : String) :
    (dialect.stateAt known tree place).held.lookup name =
      ((tree.before place).filterMap (dialect.heldAt? known tree name)).getLast? := by
  have along : ∀ early late, tree.places = early ++ late →
      (dialect.after known (early.map (dialect.callScope.visit tree))).held.lookup name =
        (early.filterMap (dialect.heldAt? known tree name)).getLast? := by
    intro early
    induction early using List.reverseRecOn with
    | nil => intro late split; rfl
    | append_singleton early other ih =>
      intro late split
      rw [List.append_assoc, List.singleton_append] at split
      have arrival : dialect.after known (early.map (dialect.callScope.visit tree)) =
          dialect.stateAt known tree other := by
        rw [stateAt, Tree.before_eq split]
      rw [List.map_append, List.map_singleton, after_append,
        dialect.lookup_held_callStep known alone, ih _ split, arrival, List.filterMap_append]
      change (dialect.heldAt? known tree name other <|> _) = _
      cases here : dialect.heldAt? known tree name other <;> simp [here]
  obtain ⟨late, split⟩ := tree.before_prefix place
  exact along (tree.before place) late split.symm

end Held

section Calls

/-- A node is a call of the form that is read off it and nothing else, or it is no call. -/
structure ReadsCalls (form? : TextTree → Option (Callee × Bool)) : Prop where
  call : ∀ node form knownOnly, form? node = some (form, knownOnly) →
    dialect.sites node = [.call form knownOnly] ∧ dialect.function? node = none
  quiet : ∀ node, form? node = none →
    ∀ site ∈ dialect.sites node, ∀ form knownOnly, site ≠ .call form knownOnly

/-- The callee of a form of call, as far as it can be told at a place. It has to be defined if the
form asks for that. -/
def ResolvesAt (place : Tree.Place String) (form : Callee) (knownOnly : Bool) (callee : String) :
    Prop :=
  dialect.resolve? known (dialect.callScope.ownerAt tree place)
      (dialect.stateAt known tree place) form = some callee ∧
    (knownOnly = true → known.defines callee = true)

/-- The call that is made at a place: there is a caller, and it is another function than the one
that is called. -/
structure CallMadeAt (form? : TextTree → Option (Callee × Bool)) (place : Tree.Place String)
    (call : Call) : Prop where
  callee : ∃ form knownOnly, form? place.node = some (form, knownOnly) ∧
    dialect.ResolvesAt known tree place form knownOnly call.callee
  caller : (dialect.stateAt known tree place).caller = some call.caller
  other : call.caller ≠ call.callee

def callAt? (form? : TextTree → Option (Callee × Bool)) (place : Tree.Place String) :
    Option Call :=
  (form? place.node).bind fun (form, knownOnly) =>
    dialect.callFrom? known (dialect.callScope.ownerAt tree place)
      (dialect.stateAt known tree place) form knownOnly

variable {form? : TextTree → Option (Callee × Bool)}

variable {dialect} in
/-- It is enough to see that the sites of a node are its call, or else no calls. -/
theorem ReadsCalls.of_sites
    (nameless : ∀ node, ∀ site ∈ dialect.sites node, dialect.function? node = none)
    (sites : ∀ node, dialect.sites node =
        ((form? node).map fun read => Site.call read.1 read.2).toList ∨
      form? node = none ∧
        ∀ site ∈ dialect.sites node, ∀ form knownOnly, site ≠ .call form knownOnly) :
    dialect.ReadsCalls form? := by
  constructor
  · intro node form knownOnly read
    rcases sites node with single | ⟨silent, -⟩
    · rw [read] at single
      exact ⟨single, nameless node (.call form knownOnly) (by simp [single])⟩
    · rw [read] at silent
      cases silent
  · intro node silent site listed
    rcases sites node with single | ⟨-, quiet⟩
    · rw [single, silent] at listed
      cases listed
    · exact quiet site listed

theorem callFrom?_eq_some_iff (owner : Option String) (state : CallState) (form : Callee)
    (knownOnly : Bool) (call : Call) :
    dialect.callFrom? known owner state form knownOnly = some call ↔
      dialect.resolve? known owner state form = some call.callee ∧
        (knownOnly = true → known.defines call.callee = true) ∧
        state.caller = some call.caller ∧ call.caller ≠ call.callee := by
  obtain ⟨caller, callee⟩ := call
  unfold callFrom?
  cases state.caller with
  | none => simp
  | some entered =>
    cases dialect.resolve? known owner state form with
    | none => simp
    | some id => cases knownOnly <;> cases defined : known.defines id <;> grind

theorem callAt?_eq_some_iff (place : Tree.Place String) (call : Call) :
    dialect.callAt? known tree form? place = some call ↔
      dialect.CallMadeAt known tree form? place call := by
  unfold callAt?
  rw [Option.bind_eq_some_iff]
  constructor
  · intro ⟨⟨form, knownOnly⟩, here, made⟩
    obtain ⟨resolved, defined, caller, other⟩ := (callFrom?_eq_some_iff ..).mp made
    exact ⟨⟨form, knownOnly, here, resolved, defined⟩, caller, other⟩
  · intro ⟨⟨form, knownOnly, here, resolved, defined⟩, caller, other⟩
    exact ⟨(form, knownOnly), here,
      (callFrom?_eq_some_iff ..).mpr ⟨resolved, defined, caller, other⟩⟩

/-- The pass finds at a place the call that is made there, and no other. -/
theorem foundAt_eq (reads : dialect.ReadsCalls form?) (place : Tree.Place String) :
    dialect.foundAt known tree place = (dialect.callAt? known tree form? place).toList := by
  unfold foundAt callAt?
  cases here : form? place.node with
  | none => exact dialect.callsAt_quiet known _ (reads.quiet place.node here)
  | some read =>
    obtain ⟨single, nameless⟩ := reads.call place.node read.1 read.2 here
    exact dialect.callsAt_single known _ nameless single

theorem mem_foundAt_iff (reads : dialect.ReadsCalls form?) (place : Tree.Place String)
    (call : Call) :
    call ∈ dialect.foundAt known tree place ↔ dialect.CallMadeAt known tree form? place call := by
  rw [dialect.foundAt_eq known tree reads, Option.mem_toList, callAt?_eq_some_iff]

/-- The calls of a file are those made at its places, in document order. -/
theorem yields_calls (reads : dialect.ReadsCalls form?) :
    tree.Yields (dialect.CallMadeAt known tree form?) (dialect.calls known tree) := by
  refine ⟨tree.places_inDocumentOrder, dialect.callAt? known tree form?,
    dialect.callAt?_eq_some_iff known tree, ?_⟩
  rw [calls_eq_flatMap_foundAt, List.filterMap_eq_flatMap_toList]
  congr 1
  funext place
  exact dialect.foundAt_eq known tree reads place

end Calls

section Sole

variable {dialect} (sole : ∀ node, (dialect.sites node).length ≤ 1)

theorem sites_eq_of_mem {node : TextTree} (sole : (dialect.sites node).length ≤ 1) {site : Site}
    (listed : site ∈ dialect.sites node) : dialect.sites node = [site] := by
  cases sites : dialect.sites node with
  | nil => simp [sites] at listed
  | cons first rest =>
    rw [sites, List.length_cons] at sole
    have nothing : rest = [] := List.eq_nil_of_length_eq_zero (by omega)
    subst nothing
    rw [sites, List.mem_singleton] at listed
    rw [listed]

def soleCall? (dialect : Dialect) (node : TextTree) : Option (Callee × Bool) :=
  match dialect.sites node with
  | [.call form knownOnly] => some (form, knownOnly)
  | _ => none

include sole

theorem soleCall?_eq_some_iff (node : TextTree) (form : Callee) (knownOnly : Bool) :
    dialect.soleCall? node = some (form, knownOnly) ↔
      Site.call form knownOnly ∈ dialect.sites node := by
  unfold soleCall?
  constructor
  · intro read
    split at read
    · next single =>
      cases read
      simp [single]
    · cases read
  · intro listed
    rw [sites_eq_of_mem (sole node) listed]

theorem ReadsCalls.of_sole
    (nameless : ∀ node, ∀ site ∈ dialect.sites node, dialect.function? node = none) :
    dialect.ReadsCalls dialect.soleCall? := by
  constructor
  · intro node form knownOnly read
    have listed := (soleCall?_eq_some_iff sole node form knownOnly).mp read
    exact ⟨sites_eq_of_mem (sole node) listed, nameless node _ listed⟩
  · intro node silent site listed form knownOnly call
    rw [call] at listed
    rw [(soleCall?_eq_some_iff sole node form knownOnly).mpr listed] at silent
    cases silent

theorem HoldsAlone.of_sole : dialect.HoldsAlone := by
  intro node
  by_cases holds : ∃ name receiver method, Site.hold name receiver method ∈ dialect.sites node
  · obtain ⟨name, receiver, method, listed⟩ := holds
    exact .inl ⟨name, receiver, method, sites_eq_of_mem (sole node) listed⟩
  · refine .inr fun site listed name receiver method hold => holds ⟨name, receiver, method, ?_⟩
    exact hold ▸ listed

theorem boundTo?_of_sole (known : Knowledge) (free : dialect.bindsOwnersOnly = false)
    (name : String) (node : TextTree) (type : String) :
    dialect.boundTo? known name node = some type ↔ Site.bind name type ∈ dialect.sites node := by
  by_cases binds : ∃ held given, Site.bind held given ∈ dialect.sites node
  · obtain ⟨held, given, listed⟩ := binds
    have single := sites_eq_of_mem (sole node) listed
    have bound : dialect.boundIn known node = [(held, given)] := by
      simp [boundIn, bound?, single, free]
    rw [boundTo?, bound, single]
    by_cases same : held = name
    · simp [same, eq_comm]
    · simp [same, Ne.symm same]
  · have silent : dialect.boundTo? known name node = none := by
      apply dialect.boundTo?_eq_none
      intro site listed held given bind
      exact binds ⟨held, given, bind ▸ listed⟩
    rw [silent]
    constructor
    · intro given
      cases given
    · intro listed
      exact absurd ⟨name, type, listed⟩ binds

theorem heldFrom?_of_sole (types : List (String × String)) (visit : Visit) (name target : String) :
    dialect.heldFrom? types visit name = some target ↔
      ∃ receiver method type, Site.hold name receiver method ∈ dialect.sites visit.node ∧
        dialect.receiverType? visit.owner types receiver = some type ∧
        qualify (some type) method = target := by
  unfold heldFrom?
  constructor
  · intro held
    split at held
    · next single =>
      split at held
      · next same =>
        obtain ⟨type, stands, named⟩ := Option.map_eq_some_iff.mp held
        exact ⟨_, _, type, by simp [single, same], stands, named⟩
      · cases held
    · cases held
  · intro ⟨receiver, method, type, listed, stands, named⟩
    rw [sites_eq_of_mem (sole visit.node) listed]
    simp [stands, named]

end Sole

/-- The definitions of a file are those of the functions that its places introduce, in document
order. -/
theorem yields_definitions (file : String) :
    tree.Yields (fun place definition => ∃ function, dialect.function? place.node = some function ∧
        function.definition (dialect.definitionScope.ownerAt tree place) file = definition)
      (dialect.definitions tree file) := by
  refine ⟨tree.places_inDocumentOrder, fun place => (dialect.function? place.node).map
    (·.definition (dialect.definitionScope.ownerAt tree place) file), ?_, ?_⟩
  · intro place definition
    rw [Option.map_eq_some_iff]
  · rw [definitions, Scoping.visits_eq, List.filterMap_map]
    rfl

end Dialect

end CallAtlas
