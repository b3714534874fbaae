import CallAtlas.Proofs.Dialect.CallPass
import CallAtlas.Proofs.Tree.Place
/-!
What is read off the places of a tree. A relation says what a place means by itself or by what
stands before it. `LastBefore` is the last meaning that came up before a place, and `Yields` says
that a list holds what the places of a tree mean, in document order.
-/
namespace CallAtlas.Tree

variable {α β : Type}

/-- Of the places before another one, the last that means something means `b`. -/
def LastBefore (tree : Tree α) (place : Place α) (meant : Place α → β → Prop) (b : β) : Prop :=
  ∃ other ∈ tree.places, other.position < place.position ∧ meant other b ∧
    ∀ later ∈ tree.places, other.position < later.position → later.position < place.position →
      ∀ c, ¬ meant later c

def NoneBefore (tree : Tree α) (place : Place α) (meant : Place α → β → Prop) : Prop :=
  ∀ other ∈ tree.places, other.position < place.position → ∀ b, ¬ meant other b

/-- The places of a tree mean what the list holds: at most one thing each, in document order. -/
structure Yields (tree : Tree α) (meant : Place α → β → Prop) (found : List β) : Prop where
  order : tree.InDocumentOrder tree.places
  read : ∃ read? : Place α → Option β, (∀ place b, read? place = some b ↔ meant place b) ∧
    found = tree.places.filterMap read?

theorem mem_before_iff {tree : Tree α} {place other : Place α} :
    other ∈ tree.before place ↔ other ∈ tree.places ∧ other.position < place.position := by
  simp [before]

theorem rising_before (tree : Tree α) (place : Place α) :
    (tree.before place).Pairwise (·.position < ·.position) := by
  have rising := List.pairwise_map.mp tree.places_inDocumentOrder.rising
  exact rising.sublist List.filter_sublist

section Last

variable {tree : Tree α} {place : Place α} {read? : Place α → Option β}
  {meant : Place α → β → Prop}

/-- The last thing that was read before a place is the last meaning before it. -/
theorem getLast?_before_eq_some_iff (reads : ∀ place b, read? place = some b ↔ meant place b)
    {b : β} :
    ((tree.before place).filterMap read?).getLast? = some b ↔ tree.LastBefore place meant b := by
  rw [Dialect.getLast?_filterMap_eq_some_iff]
  have rising := tree.rising_before place
  constructor
  · intro ⟨early, other, late, split, here, silent⟩
    rw [split, List.pairwise_append, List.pairwise_cons] at rising
    obtain ⟨-, -, across⟩ := rising
    have listed : other ∈ tree.before place := by simp [split]
    obtain ⟨among, lower⟩ := mem_before_iff.mp listed
    refine ⟨other, among, lower, (reads other b).mp here, ?_⟩
    intro later amongLater after below c means
    have listedLater : later ∈ early ++ other :: late :=
      split ▸ mem_before_iff.mpr ⟨amongLater, below⟩
    rcases List.mem_append.mp listedLater with first | second
    · exact List.lt_asymm after (across later first other List.mem_cons_self)
    · rcases List.mem_cons.mp second with same | second
      · rw [same] at after
        exact List.lt_irrefl _ after
      · have nothing := silent later second
        rw [(reads later c).mpr means] at nothing
        cases nothing
  · intro ⟨other, among, lower, means, silent⟩
    obtain ⟨early, late, split⟩ := List.append_of_mem (mem_before_iff.mpr ⟨among, lower⟩)
    refine ⟨early, other, late, split, (reads other b).mpr means, ?_⟩
    intro later second
    rw [split, List.pairwise_append, List.pairwise_cons] at rising
    have listed : later ∈ tree.before place := by simp [split, second]
    obtain ⟨amongLater, below⟩ := mem_before_iff.mp listed
    have after := rising.2.1.1 later second
    apply Option.eq_none_iff_forall_ne_some.mpr
    intro c here
    exact silent later amongLater after below c ((reads later c).mp here)

theorem getLast?_before_eq_none_iff (reads : ∀ place b, read? place = some b ↔ meant place b) :
    ((tree.before place).filterMap read?).getLast? = none ↔ tree.NoneBefore place meant := by
  rw [List.getLast?_eq_none_iff, List.filterMap_eq_nil_iff]
  unfold NoneBefore
  simp only [mem_before_iff, Option.eq_none_iff_forall_ne_some, ne_eq, reads, and_imp]

end Last

theorem Yields.congr {tree : Tree α} {meant other : Place α → β → Prop} {found : List β}
    (yields : tree.Yields meant found) (same : ∀ place b, meant place b ↔ other place b) :
    tree.Yields other found := by
  obtain ⟨order, read?, reads, listed⟩ := yields
  exact ⟨order, read?, fun place b => (reads place b).trans (same place b), listed⟩

end CallAtlas.Tree
