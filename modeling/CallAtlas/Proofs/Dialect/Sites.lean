import CallAtlas.Language
/-!
The forms of what nodes bind and call. Each language has a table of them, node kind by node kind
(`Language.siteForms`), and there is one lemma for each reader that it keeps to its table. What is
true of all sites of a language is then a fact about a short list.
-/
namespace CallAtlas

open Dialect

/-- How a call names what it calls, without the names. -/
inductive CalleeForm where
  | plain
  | named
  | member
  | ownMember
  | held
  deriving DecidableEq, Repr

/-- What a node does, without the names. -/
inductive SiteForm where
  | bind
  | hold
  | call (how : CalleeForm) (knownOnly : Bool)
  deriving DecidableEq, Repr

def Callee.form : Callee → CalleeForm
  | plain _ => .plain
  | named _ => .named
  | member _ _ => .member
  | ownMember _ => .ownMember
  | held _ => .held

def Site.form : Site → SiteForm
  | bind _ _ => .bind
  | hold _ _ _ => .hold
  | call callee knownOnly => .call callee.form knownOnly

/-- It makes no call that counts even if nothing of that name is defined. -/
def SiteForm.isChecked : SiteForm → Bool
  | call _ knownOnly => knownOnly
  | _ => true

/-- What nodes of a kind can do in a language. -/
def Language.siteForms : Language → List (String × SiteForm)
  | python => [("assignment", .bind), ("call", .call .plain true), ("call", .call .member true)]
  | java =>
    [("assignment_expression", .bind), ("local_variable_declaration", .bind),
      ("method_invocation", .call .plain false), ("method_invocation", .call .member false)]
  | go => [("call_expression", .call .named false)]
  | javaScript =>
    [("variable_declarator", .bind), ("assignment_expression", .bind),
      ("call_expression", .call .named false), ("call_expression", .call .member false)]
  | cpp =>
    [("declaration", .bind), ("call_expression", .call .plain false),
      ("call_expression", .call .named false), ("call_expression", .call .member false)]
  | c =>
    [("declaration", .bind), ("parameter_declaration", .bind),
      ("call_expression", .call .named true), ("call_expression", .call .member false)]
  | php =>
    [("assignment_expression", .bind), ("assignment_expression", .hold),
      ("function_call_expression", .call .held true),
      ("function_call_expression", .call .named true),
      ("member_call_expression", .call .member true),
      ("scoped_call_expression", .call .ownMember true),
      ("scoped_call_expression", .call .named true)]

namespace Dialect

variable {node : TextTree} {site : Site}

theorem Python.form_of_mem_sites (listed : site ∈ sites node) :
    (node.kind, site.form) ∈ Language.siteForms .python := by
  -- Each branch of the reader settles the kind of the node and the form of what it lists.
  unfold sites assignment callee at listed
  repeat' split at listed
  all_goals simp_all [Language.siteForms, Site.form, Callee.form]

theorem Java.form_of_mem_declaration (listed : site ∈ declaration node) : site.form = .bind := by
  obtain ⟨declarator, -, found⟩ := List.mem_filterMap.mp listed
  unfold declarator? at found
  split at found
  · obtain ⟨type, -, same⟩ := Option.map_eq_some_iff.mp found
    rw [← same, Site.form]
  · cases found

theorem Java.form_of_mem_sites (listed : site ∈ sites node) :
    (node.kind, site.form) ∈ Language.siteForms .java := by
  unfold sites at listed
  split at listed
  · unfold assignment at listed
    repeat' split at listed
    all_goals simp_all [Language.siteForms, Site.form]
  · split at listed
    · next kind =>
      rw [kind, form_of_mem_declaration listed]
      decide
    · unfold invocation at listed
      repeat' split at listed
      all_goals simp_all [Language.siteForms, Site.form, Callee.form]

theorem Go.form_of_mem_sites (listed : site ∈ sites node) :
    (node.kind, site.form) ∈ Language.siteForms .go := by
  unfold sites at listed
  repeat' split at listed
  all_goals simp_all [Language.siteForms, Site.form, Callee.form]

theorem JavaScript.form_of_mem_sites (listed : site ∈ sites node) :
    (node.kind, site.form) ∈ Language.siteForms .javaScript := by
  unfold sites bindingUnder binding call at listed
  repeat' split at listed
  all_goals simp_all [Language.siteForms, Site.form, Callee.form]

theorem Cpp.form_of_mem_declaration (listed : site ∈ declaration node) : site.form = .bind := by
  unfold declaration at listed
  split at listed
  · obtain ⟨declarator, -, found⟩ := List.mem_filterMap.mp listed
    obtain ⟨name, -, same⟩ := Option.map_eq_some_iff.mp found
    rw [← same, Site.form]
  · cases listed

theorem Cpp.form_of_mem_sites (listed : site ∈ sites node) :
    (node.kind, site.form) ∈ Language.siteForms .cpp := by
  unfold sites at listed
  split at listed
  · next kind =>
    rw [kind, form_of_mem_declaration listed]
    decide
  · unfold call at listed
    repeat' split at listed
    all_goals simp_all [Language.siteForms, Site.form, Callee.form]

theorem C.form_of_mem_declaration (listed : site ∈ declaration node) : site.form = .bind := by
  unfold declaration at listed
  split at listed
  · obtain ⟨declarator, -, found⟩ := List.mem_filterMap.mp listed
    split at found
    · cases found
    · obtain ⟨name, -, same⟩ := Option.map_eq_some_iff.mp found
      rw [← same, Site.form]
  · cases listed

theorem C.form_of_mem_sites (listed : site ∈ sites node) :
    (node.kind, site.form) ∈ Language.siteForms .c := by
  unfold sites at listed
  split at listed
  · next kind =>
    rw [form_of_mem_declaration listed]
    rcases kind with kind | kind <;> rw [kind] <;> decide
  · unfold call at listed
    repeat' split at listed
    all_goals simp_all [Language.siteForms, Site.form, Callee.form]

theorem Php.form_of_mem_sites (listed : site ∈ sites node) :
    (node.kind, site.form) ∈ Language.siteForms .php := by
  unfold sites assignment functionCall memberCall scopedCall at listed
  repeat' split at listed
  all_goals simp_all [Language.siteForms, Site.form, Callee.form]

end Dialect

namespace Language

variable {language : Language} {node : TextTree} {site : Site}

/-- A node does only what the table of its language has for its kind. -/
theorem form_of_mem_sites (listed : site ∈ language.dialect.sites node) :
    (node.kind, site.form) ∈ language.siteForms := by
  cases language with
  | python => exact Python.form_of_mem_sites listed
  | java => exact Java.form_of_mem_sites listed
  | go => exact Go.form_of_mem_sites listed
  | javaScript => exact JavaScript.form_of_mem_sites listed
  | cpp => exact Cpp.form_of_mem_sites listed
  | c => exact C.form_of_mem_sites listed
  | php => exact Php.form_of_mem_sites listed

end Language

end CallAtlas
