import CallAtlas.Proofs.Dialect.CallPass
import CallAtlas.Proofs.Dialect.Sites
/-!
The call pass under two tables, one of which knows more. In a dialect whose calls never go to
one function or another depending on the table (`Dialect.Settled`), callers, types and held
methods are the same under both, and the larger table only ever lets more calls through. One
site keeps that up (`Within.siteStep`), one node does (`Within.callStep`), and so does the whole
pass (`Settled.calls_sublist`).
-/
namespace CallAtlas

variable {small large : SymbolTable}

/-- A policy keeps with more definitions what it keeps with fewer. -/
theorem EdgePolicy.admits_mono (policy : EdgePolicy)
    (more : ∀ id, small.contains id = true → large.contains id = true) {call : Call}
    (admitted : policy.admits small call = true) : policy.admits large call = true := by
  simp only [admits, Bool.and_eq_true] at admitted ⊢
  refine ⟨admitted.1, ?_⟩
  cases policy with
  | calleeKnown => exact more _ admitted.2
  | bothKnown =>
    have ends := Bool.and_eq_true_iff.mp admitted.2
    exact Bool.and_eq_true_iff.mpr ⟨more _ ends.1, more _ ends.2⟩

namespace Dialect

/-- What a call goes to does not depend on what is defined: variables take every type, and no
call has the choice between a member of its owner and a name of its own. -/
structure Settled (dialect : Dialect) : Prop where
  bindsAll : dialect.bindsOwnersOnly = false
  choiceless : ∀ node, ∀ site ∈ dialect.sites node, ∀ name knownOnly,
    site ≠ .call (.plain name) knownOnly

/-- Under the larger table the pass knows the same, and has found the calls that are kept under
the smaller one, with perhaps more in between. -/
structure CallState.Within (policy : EdgePolicy) (small large : SymbolTable)
    (left right : CallState) : Prop where
  caller : left.caller = right.caller
  types : left.types = right.types
  held : left.held = right.held
  calls : (left.calls.toList.filter (policy.admits small)).Sublist
    (right.calls.toList.filter (policy.admits large))

variable {dialect : Dialect} {policy : EdgePolicy} {left right : CallState}

/-- A call that could go to one function only goes to it under every table. -/
theorem resolve?_eq_of_same {callee : Callee} (choiceless : ∀ name, callee ≠ .plain name)
    (types : left.types = right.types) (held : left.held = right.held)
    (known other : Knowledge) (owner : Option String) :
    dialect.resolve? known owner left callee = dialect.resolve? other owner right callee := by
  cases callee with
  | plain name => exact absurd rfl (choiceless name)
  | named id => rfl
  | member receiver method => rw [resolve?, resolve?, types]
  | ownMember method => rfl
  | held name => rw [resolve?, resolve?, held]

namespace CallState.Within

/-- A call that only the pass under the larger table records. -/
theorem record_right (within : Within policy small large left right) (callee : String) :
    Within policy small large left (right.record callee) := by
  unfold CallState.record
  split
  · split
    · exact within
    · refine ⟨within.caller, within.types, within.held, ?_⟩
      rw [Array.toList_push, List.filter_append]
      exact within.calls.trans (List.sublist_append_left _ _)
  · exact within

/-- A call that both record. -/
theorem record (within : Within policy small large left right)
    (more : ∀ id, small.contains id = true → large.contains id = true) (callee : String) :
    Within policy small large (left.record callee) (right.record callee) := by
  unfold CallState.record
  rw [within.caller]
  split
  · next caller _ =>
    split
    · exact within
    · refine ⟨rfl, within.types, within.held, ?_⟩
      rw [Array.toList_push, Array.toList_push, List.filter_append, List.filter_append]
      refine within.calls.append ?_
      cases kept : policy.admits small ⟨caller, callee⟩ with
      | true => simp [kept, policy.admits_mono more kept]
      | false => simp [kept]
  · exact within

theorem siteStep (within : Within policy small large left right)
    (more : ∀ id, small.contains id = true → large.contains id = true)
    (bindsAll : dialect.bindsOwnersOnly = false) (owner : Option String) {site : Site}
    (choiceless : ∀ name knownOnly, site ≠ .call (.plain name) knownOnly) :
    Within policy small large (dialect.siteStep small.knowledge owner left site)
      (dialect.siteStep large.knowledge owner right site) := by
  cases site with
  | bind name type =>
    simp only [Dialect.siteStep, bindsAll, Bool.false_and, Bool.false_eq_true, if_false]
    exact ⟨within.caller, by rw [within.types], within.held, within.calls⟩
  | hold name receiver method =>
    simp only [Dialect.siteStep, within.types]
    split
    · exact ⟨within.caller, rfl, by rw [within.held], within.calls⟩
    · exact within
  | call callee knownOnly =>
    have resolved : dialect.resolve? small.knowledge owner left callee =
        dialect.resolve? large.knowledge owner right callee := by
      refine resolve?_eq_of_same (fun name same => ?_) within.types within.held _ _ owner
      exact choiceless name knownOnly (by rw [same])
    simp only [Dialect.siteStep, resolved]
    split
    next id _ =>
      cases knownOnly with
      | false => exact within.record more id
      | true =>
        cases known : small.knowledge.defines id with
        | true =>
          have also : large.knowledge.defines id = true := more id known
          simp only [also, Bool.not_true, Bool.and_false, Bool.false_eq_true, if_false]
          exact within.record more id
        | false =>
          simp only [Bool.not_false, Bool.and_true, if_true, Bool.true_and]
          split
          · exact within
          · exact within.record_right id
    · exact within

theorem sites (within : Within policy small large left right)
    (more : ∀ id, small.contains id = true → large.contains id = true)
    (bindsAll : dialect.bindsOwnersOnly = false) (owner : Option String) {sites : List Site}
    (choiceless : ∀ site ∈ sites, ∀ name knownOnly, site ≠ .call (.plain name) knownOnly) :
    Within policy small large (sites.foldl (dialect.siteStep small.knowledge owner) left)
      (sites.foldl (dialect.siteStep large.knowledge owner) right) := by
  induction sites generalizing left right with
  | nil => exact within
  | cons site rest ih =>
    have step := within.siteStep more bindsAll owner (choiceless site List.mem_cons_self)
    exact ih step fun site later => choiceless site (List.mem_cons_of_mem _ later)

theorem callStep (within : Within policy small large left right)
    (more : ∀ id, small.contains id = true → large.contains id = true)
    (settled : dialect.Settled) (visit : Visit) :
    Within policy small large (dialect.callStep small.knowledge left visit)
      (dialect.callStep large.knowledge right visit) := by
  unfold Dialect.callStep
  refine Within.sites ?_ more settled.bindsAll visit.owner (settled.choiceless visit.node)
  cases dialect.function? visit.node with
  | none => exact within
  | some function => exact ⟨rfl, within.types, within.held, within.calls⟩

theorem visits (within : Within policy small large left right)
    (more : ∀ id, small.contains id = true → large.contains id = true)
    (settled : dialect.Settled) (visits : List Visit) :
    Within policy small large (visits.foldl (dialect.callStep small.knowledge) left)
      (visits.foldl (dialect.callStep large.knowledge) right) := by
  induction visits generalizing left right with
  | nil => exact within
  | cons visit rest ih => exact ih (within.callStep more settled visit)

end CallState.Within

/-- The calls of a file that are kept under a table are kept, in order, under a larger one. -/
theorem Settled.calls_sublist (settled : dialect.Settled)
    (more : ∀ id, small.contains id = true → large.contains id = true) (policy : EdgePolicy)
    (tree : TextTree) :
    ((dialect.calls small.knowledge tree).filter (policy.admits small)).Sublist
      ((dialect.calls large.knowledge tree).filter (policy.admits large)) := by
  have start : CallState.Within policy small large {} {} := ⟨rfl, rfl, rfl, by simp⟩
  exact (start.visits more settled (dialect.callScope.visits tree)).calls

end Dialect

/-- In these four languages no call has a choice. -/
theorem Language.settled {language : Language}
    (among : language ∈ [Language.go, .javaScript, .c, .php]) : language.dialect.Settled := by
  have facts : language.dialect.bindsOwnersOnly = false ∧
      ∀ entry ∈ language.siteForms, ∀ knownOnly, entry.2 ≠ .call .plain knownOnly := by
    simp only [List.mem_cons, List.not_mem_nil, or_false] at among
    rcases among with rfl | rfl | rfl | rfl <;> exact ⟨rfl, by decide⟩
  refine ⟨facts.1, fun node site listed name knownOnly same => ?_⟩
  have form := form_of_mem_sites listed
  rw [same] at form
  exact facts.2 _ form knownOnly rfl

end CallAtlas
