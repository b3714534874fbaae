import CallAtlas.Proofs.Dialect.Reading
import CallAtlas.Proofs.Dialect.Stateless
import CallAtlas.Proofs.Tree.Relabel
/-!
What stands around the dot of a Python call. A call `r.m()` is read from its text, cut at the last
dot, and not from the object and the name that the tree has for it. So white space, a line break or
a comment beside the dot goes into the receiver or the method. The callee is then another one than
the tree tells (`calleeAt_eq_iff`), and it is the name of no function, since it has a gap in it
(`not_gapless_calleeAt`).
-/
namespace CallAtlas.Dialect.Python

open Text

/-- Characters that divide tokens: white space, and the marks without width that count as such. -/
def isGap (c : Char) : Bool :=
  isBlank c || c.toNat == 0xfeff || c.toNat == 0x200b || c.toNat == 0x2060

inductive IsSpacing : List Char → Prop
  | nothing : IsSpacing []
  | gap {c : Char} {rest : List Char} (white : isGap c = true) (more : IsSpacing rest) :
      IsSpacing (c :: rest)
  /-- A line that goes on after a backslash. -/
  | joined {c : Char} {rest : List Char} (broken : c = '\n' ∨ c = '\r')
      (more : IsSpacing (c :: rest)) : IsSpacing ('\\' :: c :: rest)
  | comment {note rest : List Char} (line : '\n' ∉ note) (more : IsSpacing rest) :
      IsSpacing ('#' :: note ++ '\n' :: rest)

theorem IsSpacing.of_gaps {spacing : List Char} (gaps : spacing.all isGap = true) :
    IsSpacing spacing := by
  induction spacing with
  | nil => exact .nothing
  | cons c rest ih =>
    rw [List.all_cons, Bool.and_eq_true] at gaps
    exact .gap gaps.1 (ih gaps.2)

/-- Spacing ends in a gap, also after a comment. -/
theorem IsSpacing.isGap_last {spacing : List Char} (spaced : IsSpacing spacing) :
    ∀ c, spacing.getLast? = some c → isGap c = true := by
  induction spaced with
  | nothing => simp
  | @gap first rest white more ih =>
    intro c last
    rw [List.getLast?_cons] at last
    cases ending : rest.getLast? with
    | none =>
      rw [ending, Option.getD_none, Option.some.injEq] at last
      exact last ▸ white
    | some final =>
      rw [ending, Option.getD_some] at last
      exact ih c (ending.trans last)
  | @joined first rest broken more ih =>
    intro c last
    rw [List.getLast?_cons_cons] at last
    exact ih c last
  | @comment note rest line more ih =>
    intro c last
    rw [List.getLast?_append, List.getLast?_cons] at last
    cases ending : rest.getLast? with
    | none =>
      rw [ending] at last
      obtain rfl : '\n' = c := by simpa using last
      decide
    | some final =>
      rw [ending] at last
      exact ih c (ending.trans (by simpa using last))

/-- A text with no gap in it, such as a name. -/
def Gapless (text : String) : Prop :=
  ∀ c ∈ text.toList, isGap c = false

instance (text : String) : Decidable (Gapless text) :=
  decidable_of_iff (text.toList.all (!isGap ·) = true) (by simp [Gapless])

/-- An attribute is spelled as an object, a dot and a name, with spacing before and after the
dot. -/
structure Spelled (function : TextTree) (receiver before after method : String) : Prop where
  kind : function.kind = "attribute"
  object : function.childText? "object" = some receiver
  name : function.childText? "attribute" = some method
  text : function.text = receiver ++ before ++ "." ++ after ++ method
  front : IsSpacing before.toList
  back : IsSpacing after.toList
  undotted : '.' ∉ method.toList

def CallsAttribute (node function : TextTree) : Prop :=
  node.kind = "call" ∧ node.child? "function" = some function ∧ function.kind = "attribute"

/-- The texts of a tree are as the tokens of a source make them: names have no gap in them, and a
called attribute is spelled from its parts. -/
structure Tidy (tree : TextTree) : Prop where
  identifiers : ∀ place ∈ tree.places, place.node.kind = "identifier" → Gapless place.node.text
  classes : ∀ place ∈ tree.places, place.node.kind = "class_definition" →
    ∀ name, place.node.childText? "name" = some name → Gapless name
  attributes : ∀ place ∈ tree.places, ∀ function, CallsAttribute place.node function →
    ∃ receiver before after method, Spelled function receiver before after method

/-- What a node calls, told from the tree: an attribute by its object and its name, all else by its
text. -/
def calledByParts? (node : TextTree) : Option (Option String × String) :=
  match node.child? "function" with
  | some function =>
    if node.kind = "call" ∧ function.kind = "attribute" then
      match function.childText? "object", function.childText? "attribute" with
      | some receiver, some method => some (some receiver, method)
      | _, _ => none
    else called? node
  | none => none

/-- Whether a node calls an attribute that is written with something around its dot. -/
def isLoose (node : TextTree) : Bool :=
  match node.child? "function" with
  | some function =>
    match function.childText? "object", function.childText? "attribute" with
    | some receiver, some method =>
      node.kind == "call" && function.kind == "attribute" &&
        function.text != receiver ++ "." ++ method
    | _, _ => false
  | none => false

section Cut

variable {function : TextTree} {receiver before after method : String}

/-- Where the text of an attribute is cut: what stands after the dot goes with the method, up to a
dot in a comment. -/
theorem Spelled.cut (spelled : Spelled function receiver before after method) :
    ∃ front back, cutLast? "." function.text =
        some (receiver ++ before ++ front, back ++ method) ∧
      '.' ∉ (back ++ method).toList ∧ (after = "" → front = "" ∧ back = "") ∧
      (after ≠ "" → ∃ c ∈ back.toList, isGap c = true) := by
  obtain ⟨⟨front, back⟩, found⟩ : ∃ sides, cutLast? "." ("." ++ after) = some sides := by
    refine Option.ne_none_iff_exists'.mp fun uncut => ?_
    have absent := (cutLast?_eq_none_iff (by decide)).mp uncut
    exact absent ⟨[], after.toList, by simp⟩
  obtain ⟨joined, last⟩ := (cutLast?_eq_some_iff (by decide)).mp found
  have dot : ".".toList = ['.'] := by decide
  rw [dot, List.singleton_append, List.tail_cons, List.singleton_infix_iff] at last
  rw [String.toList_append, dot, List.singleton_append, List.singleton_append] at joined
  have undotted : '.' ∉ (back ++ method).toList := by
    simp [last, spelled.undotted]
  have text : function.text = receiver ++ before ++ front ++ "." ++ (back ++ method) := by
    rw [spelled.text, ← String.toList_inj]
    simp only [String.toList_append, dot, List.append_assoc, List.singleton_append]
    rw [← List.cons_append, joined]
    simp
  refine ⟨front, back, by rw [text, cutLast?_dot undotted], undotted, ?_, ?_⟩
  · intro empty
    have length := congrArg List.length joined
    simp only [empty, String.toList_empty, List.length_append, List.length_cons, List.length_nil]
      at length
    constructor
    · exact String.toList_eq_nil_iff.mp (List.eq_nil_of_length_eq_zero (by omega))
    · exact String.toList_eq_nil_iff.mp (List.eq_nil_of_length_eq_zero (by omega))
  · intro filled
    -- the last character after the dot is a gap, so it does not end the part before the cut
    obtain ⟨start, c, ends⟩ := after.toList.eq_nil_or_concat'.resolve_left (by simpa using filled)
    have gap : isGap c = true := spelled.back.isGap_last c (by simp [ends])
    rcases back.toList.eq_nil_or_concat' with nothing | ⟨others, final, letters⟩
    · rw [ends, nothing, ← List.cons_append] at joined
      obtain ⟨-, same⟩ := List.append_inj' joined rfl
      rw [(List.cons.inj same).1] at gap
      exact absurd gap (by decide)
    · rw [ends, letters, ← List.cons_append, ← List.cons_append, ← List.append_assoc] at joined
      obtain ⟨-, same⟩ := List.append_inj' joined rfl
      exact ⟨c, by simp [letters, (List.cons.inj same).1], gap⟩

theorem Spelled.called? {node : TextTree} (spelled : Spelled function receiver before after method)
    (calls : CallsAttribute node function) :
    ∃ front back, Python.called? node = some (some (receiver ++ before ++ front), back ++ method) ∧
      '.' ∉ (back ++ method).toList ∧ (after = "" → front = "" ∧ back = "") ∧
      (after ≠ "" → ∃ c ∈ back.toList, isGap c = true) := by
  obtain ⟨front, back, cut, parts⟩ := spelled.cut
  obtain ⟨kind, held, -⟩ := calls
  refine ⟨front, back, ?_, parts⟩
  simp [Python.called?, kind, Tree.childText?, held, cut]

theorem Spelled.calledByParts? {node : TextTree}
    (spelled : Spelled function receiver before after method)
    (calls : CallsAttribute node function) :
    Python.calledByParts? node = some (some receiver, method) := by
  obtain ⟨kind, held, dotted⟩ := calls
  simp [Python.calledByParts?, kind, held, dotted, spelled.object, spelled.name]

/-- Something stands around the dot if the text is longer than its parts. -/
theorem Spelled.isLoose_eq_false_iff {node : TextTree}
    (spelled : Spelled function receiver before after method)
    (calls : CallsAttribute node function) :
    isLoose node = false ↔ before = "" ∧ after = "" := by
  obtain ⟨kind, held, dotted⟩ := calls
  have loose : isLoose node = (function.text != receiver ++ "." ++ method) := by
    simp [isLoose, kind, held, dotted, spelled.object, spelled.name]
  rw [loose, bne_eq_false_iff_eq, spelled.text]
  constructor
  · intro same
    have length := congrArg String.length same
    simp only [String.length_append] at length
    have nothing : before.length = 0 ∧ after.length = 0 := by omega
    simpa using nothing
  · intro close
    obtain ⟨front, back⟩ := close
    simp [front, back]

end Cut

section Names

variable {tree : TextTree} {place : Tree.Place String} {known : Knowledge}

/-- A binding is made of two identifiers below the node that makes it. -/
theorem mem_constructions {node : TextTree} {name type : String}
    (given : (name, type) ∈ constructions node) :
    ∃ target value made, target ∈ node.children ∧ value ∈ node.children ∧ made ∈ value.children ∧
      target.kind = "identifier" ∧ made.kind = "identifier" ∧ target.text = name ∧
      made.text = type := by
  unfold constructions at given
  split at given
  · split at given
    · next target value made left right function =>
      split at given
      · next kinds =>
        obtain ⟨rfl, rfl⟩ := Prod.mk.inj (List.mem_singleton.mp given)
        rw [right, Option.bind_some] at function
        exact ⟨target, value, made, List.mem_of_find?_eq_some left, List.mem_of_find?_eq_some right,
          List.mem_of_find?_eq_some function, kinds.1, kinds.2.2, rfl, rfl⟩
      · cases given
    · cases given
  · cases given

/-- A variable with a type is an identifier, and so is its type. -/
theorem Tidy.gapless_of_typeAt (tidy : Tidy tree) {name type : String}
    (typed : Language.python.typeAt known tree place name = some type) :
    Gapless name ∧ Gapless type := by
  obtain ⟨⟨bound, made⟩, last, rfl⟩ := Option.map_eq_some_iff.mp typed
  obtain ⟨among, same⟩ := List.mem_filter.mp (List.mem_of_getLast? last)
  obtain rfl : bound = name := by simpa using same
  obtain ⟨other, listed, given⟩ := List.mem_flatMap.mp among
  have here := (Tree.mem_before_iff.mp listed).1
  obtain ⟨target, value, function, below, beside, under, identifier, also, rfl, rfl⟩ :=
    mem_constructions (List.mem_filter.mp given).1
  obtain ⟨first, firstListed, rfl⟩ := Tree.exists_place_of_child here below
  obtain ⟨second, secondListed, rfl⟩ := Tree.exists_place_of_child here beside
  obtain ⟨third, thirdListed, rfl⟩ := Tree.exists_place_of_child secondListed under
  exact ⟨tidy.identifiers first firstListed identifier, tidy.identifiers third thirdListed also⟩

theorem Tidy.gapless_of_nearestOwner (tidy : Tidy tree) (listed : place ∈ tree.places)
    {owner : String} (owned : Language.python.nearestOwner place.ancestors = some owner) :
    Gapless owner := by
  obtain ⟨node, found, name⟩ := Option.bind_eq_some_iff.mp owned
  have kind : node.kind = "class_definition" := by
    have kind := List.find?_some found
    simpa [Language.kinds] using kind
  obtain ⟨other, among, rfl⟩ := Tree.exists_place_of_ancestor listed (List.mem_of_find?_eq_some found)
  exact tidy.classes other among kind owner name

/-- What a receiver stands for has no gap in it, unless it is the receiver itself. -/
theorem Tidy.receiverAt_cases (tidy : Tidy tree) (listed : place ∈ tree.places)
    (known : Knowledge) (receiver : String) :
    Language.python.receiverAt known tree place receiver = receiver ∨
      Gapless receiver ∧ Gapless (Language.python.receiverAt known tree place receiver) := by
  unfold Language.receiverAt
  split
  · next self =>
    have gapless : Gapless receiver := by
      obtain rfl : "self" = receiver := Option.some.inj self
      decide
    cases owned : Language.python.nearestOwner place.ancestors with
    | none => exact .inl rfl
    | some owner => exact .inr ⟨gapless, tidy.gapless_of_nearestOwner listed owned⟩
  · cases typed : Language.python.typeAt known tree place receiver with
    | none => exact .inl rfl
    | some type => exact .inr (tidy.gapless_of_typeAt typed)

/-- A receiver that ends in spacing stands for itself, and never for what it stands for without. -/
theorem Tidy.receiverAt_spaced (tidy : Tidy tree) (listed : place ∈ tree.places)
    (known : Knowledge) (receiver : String) {before : String} (spaced : IsSpacing before.toList)
    (filled : before ≠ "") :
    Language.python.receiverAt known tree place (receiver ++ before) = receiver ++ before ∧
      Language.python.receiverAt known tree place receiver ≠ receiver ++ before ∧
      ¬ Gapless (receiver ++ before) := by
  have gapped : ¬ Gapless (receiver ++ before) := by
    intro gapless
    obtain ⟨start, c, ends⟩ := before.toList.eq_nil_or_concat'.resolve_left (by simpa using filled)
    have gap := spaced.isGap_last c (by simp [ends])
    rw [gapless c (by simp [ends])] at gap
    cases gap
  refine ⟨?_, fun same => ?_, gapped⟩
  · rcases tidy.receiverAt_cases listed known (receiver ++ before) with itself | ⟨gapless, -⟩
    · exact itself
    · exact absurd gapless gapped
  · rcases tidy.receiverAt_cases listed known receiver with itself | ⟨-, gapless⟩
    · have length := congrArg String.length (itself.symm.trans same)
      rw [String.length_append] at length
      exact filled (String.length_eq_zero_iff.mp (by omega))
    · rw [same] at gapless
      exact gapped gapless

end Names

section Callee

variable {tree : TextTree} {place : Tree.Place String} {function : TextTree}
  {receiver before after method : String}

/-- The callee is the one that the tree tells exactly if nothing stands around the dot. -/
theorem calleeAt_eq_iff (tidy : Tidy tree) (known : Knowledge) (listed : place ∈ tree.places)
    (calls : CallsAttribute place.node function)
    (spelled : Spelled function receiver before after method) :
    ∃ called, Python.called? place.node = some called ∧
      (Language.python.calleeAt known tree place called =
          qualify (some (Language.python.receiverAt known tree place receiver)) method ↔
        before = "" ∧ after = "") := by
  obtain ⟨front, back, called, undotted, tight, loose⟩ := spelled.called? calls
  refine ⟨_, called, ?_⟩
  rw [Language.calleeAt, qualify_inj_of_undotted undotted spelled.undotted]
  by_cases nothing : after = ""
  · obtain ⟨rfl, rfl⟩ := tight nothing
    simp only [String.append_empty, String.empty_append, and_true, nothing]
    by_cases close : before = ""
    · simp [close]
    · obtain ⟨itself, other, -⟩ := tidy.receiverAt_spaced listed known receiver spelled.front close
      simp [itself, close, other.symm]
  · obtain ⟨c, among, -⟩ := loose nothing
    have longer : back ++ method ≠ method := by
      intro same
      have length := congrArg String.length same
      rw [String.length_append] at length
      have positive := List.length_pos_of_mem among
      rw [String.length_toList] at positive
      omega
    simp [nothing, longer]

/-- The callee of a call with something around the dot has a gap in it. -/
theorem not_gapless_calleeAt (tidy : Tidy tree) (known : Knowledge) (listed : place ∈ tree.places)
    (calls : CallsAttribute place.node function)
    (spelled : Spelled function receiver before after method) (loose : isLoose place.node = true) :
    ∃ called, Python.called? place.node = some called ∧
      ¬ Gapless (Language.python.calleeAt known tree place called) := by
  obtain ⟨front, back, called, -, tight, gapped⟩ := spelled.called? calls
  refine ⟨_, called, fun gapless => ?_⟩
  by_cases nothing : after = ""
  · obtain ⟨rfl, rfl⟩ := tight nothing
    have far : before ≠ "" := fun close => by
      rw [(spelled.isLoose_eq_false_iff calls).mpr ⟨close, nothing⟩] at loose
      cases loose
    obtain ⟨itself, -, gapped⟩ :=
      tidy.receiverAt_spaced listed known receiver spelled.front far
    refine gapped fun c inside => gapless c ?_
    rw [Language.calleeAt, String.append_empty, itself, qualify, String.append_assoc,
      String.toList_append]
    exact List.mem_append_left _ inside
  · obtain ⟨c, among, gap⟩ := gapped nothing
    have inside : c ∈ (Language.python.calleeAt known tree place
        (some (receiver ++ before ++ front), back ++ method)).toList := by
      simp [Language.calleeAt, qualify, among]
    rw [gapless c inside] at gap
    cases gap

end Callee

end CallAtlas.Dialect.Python
