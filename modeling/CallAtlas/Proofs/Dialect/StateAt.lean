import CallAtlas.Proofs.Dialect.CallPass
import CallAtlas.Proofs.Dialect.Scope
/-!
What the call pass knows at a node, read off the nodes before it. The types of variables are
the bindings made so far, latest first (`types_after`), as the caller is the function entered
last (`caller_after`). So the calls found at a node depend on what is before the node in
document order and on nothing else, and the calls of a file are those found at its places, each
looked at by itself (`calls_eq_flatMap_places`).
-/
namespace CallAtlas.Dialect

variable (dialect : Dialect) (known : Knowledge)

/-- The binding that a site makes. A type that owns nothing may not count as one. -/
def bound? : Site → Option (String × String)
  | .bind name type =>
    if dialect.bindsOwnersOnly && !known.owns type then none else some (name, type)
  | _ => none

def boundIn (node : TextTree) : List (String × String) :=
  (dialect.sites node).filterMap (dialect.bound? known)

theorem types_record (state : CallState) (callee : String) :
    (state.record callee).types = state.types := by
  unfold CallState.record
  split
  · split <;> rfl
  · rfl

theorem types_siteStep (owner : Option String) (state : CallState) (site : Site) :
    (dialect.siteStep known owner state site).types =
      (dialect.bound? known site).toList ++ state.types := by
  cases site with
  | bind name type =>
    simp only [siteStep, bound?]
    split <;> rfl
  | hold name receiver method =>
    simp only [siteStep, bound?]
    split <;> rfl
  | call callee knownOnly =>
    simp only [siteStep, bound?]
    split
    · split
      · rfl
      · exact types_record state _
    · rfl

theorem types_sites (owner : Option String) (sites : List Site) (state : CallState) :
    (sites.foldl (dialect.siteStep known owner) state).types =
      (sites.filterMap (dialect.bound? known)).reverse ++ state.types := by
  induction sites generalizing state with
  | nil => rfl
  | cons site rest ih =>
    rw [List.foldl_cons, ih, types_siteStep, List.filterMap_cons]
    cases dialect.bound? known site <;> simp

theorem types_callStep (state : CallState) (visit : Visit) :
    (dialect.callStep known state visit).types =
      (dialect.boundIn known visit.node).reverse ++ state.types := by
  rw [callStep, types_sites, boundIn]
  cases dialect.function? visit.node <;> rfl

/-- The types of variables are all bindings made so far, latest first. -/
theorem types_after (visits : List Visit) :
    (dialect.after known visits).types =
      (visits.flatMap fun visit => dialect.boundIn known visit.node).reverse := by
  induction visits using List.reverseRecOn with
  | nil => rfl
  | append_singleton before visit ih =>
    rw [after_append, types_callStep, ih]
    simp

/-- Latest first, the first entry for a name is the last one that was made. -/
theorem lookup_reverse (bindings : List (String × String)) (name : String) :
    bindings.reverse.lookup name = (bindings.filter (·.1 == name)).getLast?.map (·.2) := by
  induction bindings using List.reverseRecOn with
  | nil => rfl
  | append_singleton early binding ih =>
    obtain ⟨bound, type⟩ := binding
    rw [List.reverse_append, List.reverse_singleton, List.singleton_append, List.lookup_cons,
      List.filter_append, ih]
    by_cases same : bound = name
    · simp [same]
    · simp [same, beq_false_of_ne (Ne.symm same)]

/-- The call that a call site makes, if there is a caller, the callee can be told and counts,
and the two are not the same. -/
def callFrom? (owner : Option String) (state : CallState) (callee : Callee) (knownOnly : Bool) :
    Option Call :=
  match state.caller, dialect.resolve? known owner state callee with
  | some caller, some id =>
    if knownOnly && !known.defines id then none
    else if caller = id then none else some ⟨caller, id⟩
  | _, _ => none

theorem calls_siteStep (owner : Option String) (state : CallState) (callee : Callee)
    (knownOnly : Bool) :
    (dialect.siteStep known owner state (.call callee knownOnly)).calls.toList =
      state.calls.toList ++ (dialect.callFrom? known owner state callee knownOnly).toList := by
  simp only [siteStep, callFrom?, CallState.record]
  cases dialect.resolve? known owner state callee with
  | none => cases state.caller <;> simp
  | some id =>
    cases state.caller with
    | none => dsimp only; split <;> simp
    | some caller =>
      dsimp only
      split
      · simp
      · split <;> simp

/-- A node that is a call and nothing else makes the call that its site makes. -/
theorem callsAt_single (before : List Visit) {visit : Visit} {callee : Callee} {knownOnly : Bool}
    (nameless : dialect.function? visit.node = none)
    (single : dialect.sites visit.node = [.call callee knownOnly]) :
    dialect.callsAt known before visit =
      (dialect.callFrom? known visit.owner (dialect.after known before) callee
        knownOnly).toList := by
  have stepped : dialect.after known (before ++ [visit]) =
      dialect.siteStep known visit.owner (dialect.after known before)
        (.call callee knownOnly) := by
    rw [after_append, callStep, nameless, single]
    rfl
  rw [callsAt, stepped, calls_siteStep, ← Array.length_toList, List.drop_left]

theorem calls_sites_quiet (owner : Option String) {sites : List Site}
    (quiet : ∀ site ∈ sites, ∀ callee knownOnly, site ≠ .call callee knownOnly)
    (state : CallState) :
    (sites.foldl (dialect.siteStep known owner) state).calls = state.calls := by
  induction sites generalizing state with
  | nil => rfl
  | cons site rest ih =>
    rw [List.foldl_cons, ih fun site later => quiet site (List.mem_cons_of_mem _ later)]
    cases site with
    | bind name type =>
      simp only [siteStep]
      split <;> rfl
    | hold name receiver method =>
      simp only [siteStep]
      split <;> rfl
    | call callee knownOnly => exact absurd rfl (quiet _ List.mem_cons_self callee knownOnly)

/-- A node without a call makes none. -/
theorem callsAt_quiet (before : List Visit) {visit : Visit}
    (quiet : ∀ site ∈ dialect.sites visit.node, ∀ callee knownOnly,
      site ≠ .call callee knownOnly) : dialect.callsAt known before visit = [] := by
  have same : (dialect.after known (before ++ [visit])).calls =
      (dialect.after known before).calls := by
    rw [after_append, callStep, calls_sites_quiet dialect known visit.owner quiet]
    cases dialect.function? visit.node <;> rfl
  rw [callsAt, same, ← Array.length_toList, List.drop_length]

/-- If the pass visits every place of a tree in a given way, the calls of a file are those found at
its places, each looked at with what comes before it. -/
theorem calls_eq_flatMap_of_visits {visit : Tree.Place String → Visit} {tree : TextTree}
    (visited : dialect.callScope.visits tree = tree.places.map visit) :
    dialect.calls known tree = tree.places.flatMap fun place =>
      dialect.callsAt known ((tree.before place).map visit) (visit place) := by
  -- along the listing: what was found up to a place was found at the places before it
  have found : ∀ early late, tree.places = early ++ late →
      (dialect.after known (early.map visit)).calls.toList =
        early.flatMap fun place =>
          dialect.callsAt known ((tree.before place).map visit) (visit place) := by
    intro early
    induction early using List.reverseRecOn with
    | nil => intro late split; rfl
    | append_singleton early place ih =>
      intro late split
      rw [List.append_assoc, List.singleton_append] at split
      rw [List.map_append, List.map_singleton, (dialect.callsAt_spec known _ _).1,
        ih _ split, List.flatMap_append, List.flatMap_singleton, Tree.before_eq split]
  have all : dialect.calls known tree =
      (dialect.after known (tree.places.map visit)).calls.toList := by
    rw [calls, visited]
    rfl
  rw [all, found tree.places [] (by simp)]

/-- Under lexical scoping, the calls of a file are those found at its places, each looked at
with what comes before it. -/
theorem calls_eq_flatMap_places {opens : TextTree → Option (Option String)}
    (lexical : dialect.callScope = .lexical opens) (tree : TextTree) :
    dialect.calls known tree = tree.places.flatMap fun place =>
      dialect.callsAt known ((tree.before place).map (visitAt opens)) (visitAt opens place) := by
  apply calls_eq_flatMap_of_visits
  rw [lexical, visits_lexical]

end CallAtlas.Dialect
