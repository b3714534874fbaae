import CallAtlas.Dialect
import Mathlib.Data.List.Induction
/-!
What the call pass can do at one node. Sites leave the caller alone and only add calls that
go out from it; a function that a node introduces becomes the caller. So the caller at any
place is the function introduced last before it (`caller_after`), and every call has the
caller that was in force where it was found (`mem_calls_iff`, `caller_of_mem_callsAt`).
-/
namespace CallAtlas.Dialect

/-- The caller stayed, and calls were added that go out from it to another function. -/
structure CallState.Extends (before after : CallState) : Prop where
  caller : after.caller = before.caller
  calls : ∃ found, after.calls.toList = before.calls.toList ++ found ∧
    ∀ call ∈ found, before.caller = some call.caller ∧ call.caller ≠ call.callee

namespace CallState.Extends

theorem refl (state : CallState) : state.Extends state :=
  ⟨rfl, [], by simp, by simp⟩

theorem trans {first second third : CallState} (one : first.Extends second)
    (two : second.Extends third) : first.Extends third := by
  obtain ⟨caller, found, calls, outgoing⟩ := one
  obtain ⟨caller', found', calls', outgoing'⟩ := two
  refine ⟨caller'.trans caller, found ++ found', by rw [calls', calls, List.append_assoc], ?_⟩
  intro call member
  rcases List.mem_append.mp member with early | late
  · exact outgoing call early
  · rw [← caller]
    exact outgoing' call late

end CallState.Extends

theorem extends_record (state : CallState) (callee : String) :
    state.Extends (state.record callee) := by
  unfold CallState.record
  split
  · next caller entered =>
    split
    · exact .refl state
    · next other => exact ⟨rfl, [⟨caller, callee⟩], by simp, by simp [entered, other]⟩
  · exact .refl state

variable (dialect : Dialect) (known : Knowledge)

theorem extends_siteStep (owner : Option String) (state : CallState) (site : Site) :
    state.Extends (dialect.siteStep known owner state site) := by
  cases site with
  | bind name type =>
    simp only [siteStep]
    split
    · exact .refl state
    · exact ⟨rfl, [], by simp, by simp⟩
  | hold name receiver method =>
    simp only [siteStep]
    split
    · exact ⟨rfl, [], by simp, by simp⟩
    · exact .refl state
  | call callee knownOnly =>
    simp only [siteStep]
    split
    · split
      · exact .refl state
      · exact extends_record state _
    · exact .refl state

theorem extends_sites (owner : Option String) (sites : List Site) (state : CallState) :
    state.Extends (sites.foldl (dialect.siteStep known owner) state) := by
  induction sites generalizing state with
  | nil => exact .refl state
  | cons site rest ih => exact (dialect.extends_siteStep known owner state site).trans (ih _)

def entered? (visit : Visit) : Option String :=
  (dialect.function? visit.node).map (·.id visit.owner)

def entering (state : CallState) (visit : Visit) : CallState :=
  { state with caller := dialect.entered? visit <|> state.caller }

/-- A node enters the function it introduces, and then its sites are noted. -/
theorem callStep_eq_foldl (state : CallState) (visit : Visit) :
    dialect.callStep known state visit =
      (dialect.sites visit.node).foldl (dialect.siteStep known visit.owner)
        (dialect.entering state visit) := by
  rw [callStep, entering, entered?]
  cases dialect.function? visit.node <;> rfl

theorem callStep_extends (state : CallState) (visit : Visit) :
    (dialect.entering state visit).Extends (dialect.callStep known state visit) := by
  rw [callStep_eq_foldl]
  exact dialect.extends_sites known visit.owner _ _

def after (visits : List Visit) : CallState :=
  visits.foldl (dialect.callStep known) {}

theorem after_append (before : List Visit) (visit : Visit) :
    dialect.after known (before ++ [visit]) =
      dialect.callStep known (dialect.after known before) visit := by
  simp [after]

/-- The calls found at a visit that comes after others. -/
def callsAt (before : List Visit) (visit : Visit) : List Call :=
  (dialect.after known (before ++ [visit])).calls.toList.drop
    (dialect.after known before).calls.size

/-- A visit adds its calls to the others, and they go out from the function it enters or else
from the one entered before. -/
theorem callsAt_spec (before : List Visit) (visit : Visit) :
    (dialect.after known (before ++ [visit])).calls.toList =
        (dialect.after known before).calls.toList ++ dialect.callsAt known before visit ∧
      ∀ call ∈ dialect.callsAt known before visit,
        (dialect.after known (before ++ [visit])).caller = some call.caller ∧
          call.caller ≠ call.callee := by
  obtain ⟨caller, found, calls, outgoing⟩ :=
    dialect.callStep_extends known (dialect.after known before) visit
  have same : dialect.callsAt known before visit = found := by
    rw [callsAt, after_append, calls, entering, ← Array.length_toList, List.drop_left]
  rw [same, after_append, caller]
  exact ⟨calls, outgoing⟩

/-- A node without sites makes no calls. -/
theorem callsAt_eq_nil (before : List Visit) {visit : Visit}
    (quiet : dialect.sites visit.node = []) : dialect.callsAt known before visit = [] := by
  have same : (dialect.after known (before ++ [visit])).calls =
      (dialect.after known before).calls := by
    rw [after_append, callStep, quiet, List.foldl_nil]
    cases dialect.function? visit.node <;> rfl
  rw [callsAt, same, ← Array.length_toList, List.drop_length]

/-- The last of the results comes from the last element that gives one. -/
theorem getLast?_filterMap_eq_some_iff {α β : Type} {f : α → Option β} {list : List α} {b : β} :
    (list.filterMap f).getLast? = some b ↔
      ∃ before a after, list = before ++ a :: after ∧ f a = some b ∧ ∀ x ∈ after, f x = none := by
  rw [List.getLast?_filterMap, List.findSome?_eq_some_iff]
  constructor
  · rintro ⟨after, a, before, split, found, passed⟩
    refine ⟨before.reverse, a, after.reverse, ?_, found, by simpa using passed⟩
    rw [← list.reverse_reverse, split]
    simp
  · rintro ⟨before, a, after, rfl, found, passed⟩
    exact ⟨after.reverse, a, before.reverse, by simp, found, by simpa using passed⟩

/-- The caller is the function introduced last. -/
theorem caller_after (visits : List Visit) :
    (dialect.after known visits).caller = (visits.filterMap dialect.entered?).getLast? := by
  induction visits using List.reverseRecOn with
  | nil => rfl
  | append_singleton before visit ih =>
    rw [after_append, (dialect.callStep_extends known _ visit).caller, entering, ih]
    cases found : dialect.entered? visit <;> simp [found]

/-- A call goes out from the function introduced last, by the node itself if it introduces one. -/
theorem caller_of_mem_callsAt {before : List Visit} {visit : Visit} {call : Call}
    (member : call ∈ dialect.callsAt known before visit) :
    ((before ++ [visit]).filterMap dialect.entered?).getLast? = some call.caller ∧
      call.caller ≠ call.callee := by
  rw [← dialect.caller_after known]
  exact (dialect.callsAt_spec known before visit).2 call member

theorem mem_calls_after_iff (visits : List Visit) (call : Call) :
    call ∈ (dialect.after known visits).calls.toList ↔
      ∃ before visit rest, visits = before ++ visit :: rest ∧
        call ∈ dialect.callsAt known before visit := by
  induction visits using List.reverseRecOn with
  | nil => simp [after]
  | append_singleton early last ih =>
    rw [(dialect.callsAt_spec known early last).1, List.mem_append, ih]
    constructor
    · rintro (⟨before, visit, rest, rfl, member⟩ | member)
      · exact ⟨before, visit, rest ++ [last], by simp, member⟩
      · exact ⟨early, last, [], rfl, member⟩
    · rintro ⟨before, visit, rest, split, member⟩
      rcases List.eq_nil_or_concat rest with rfl | ⟨middle, final, rfl⟩
      · obtain ⟨rfl, same⟩ := List.append_inj' split rfl
        cases same
        exact .inr member
      · have cut : early ++ [last] = (before ++ visit :: middle) ++ [final] := by
          rw [split]
          simp
        obtain ⟨rfl, -⟩ := List.append_inj' cut rfl
        exact .inl ⟨before, visit, middle, rfl, member⟩

/-- Every call of a file was found at some visit. -/
theorem mem_calls_iff (tree : TextTree) (call : Call) :
    call ∈ dialect.calls known tree ↔
      ∃ before visit rest, dialect.callScope.visits tree = before ++ visit :: rest ∧
        call ∈ dialect.callsAt known before visit :=
  dialect.mem_calls_after_iff known _ call

end CallAtlas.Dialect
