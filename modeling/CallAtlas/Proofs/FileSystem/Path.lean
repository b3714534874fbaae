import Mathlib.Data.List.Infix
import CallAtlas.FileSystem.Lookup
import CallAtlas.Proofs.Text.Cut
/-!
The names in a path. Slashes only divide: the names of two paths with a slash between them are
those of the one and then those of the other (`names_slash`), so joining paths appends their
names. A path that ends in a name is followed by going to the directory that holds it and
entering the name there (`EndsIn.steps_eq`). What a walk has joined to its root name by name is
taken off it again, however the root is spelled (`relative?_foldl_join`).
-/
namespace CallAtlas.Text

variable {separator : Char}

theorem splitChars_ne_nil (text : List Char) : splitChars separator text ≠ [] := by
  cases text with
  | nil => simp [splitChars]
  | cons c rest =>
    rw [splitChars]
    split
    · simp
    · split <;> simp

/-- A separator ends one stretch and starts the next. -/
theorem splitChars_append (first second : List Char) :
    splitChars separator (first ++ separator :: second) =
      splitChars separator first ++ splitChars separator second := by
  induction first with
  | nil => simp [splitChars]
  | cons c rest ih =>
    rw [List.cons_append, splitChars, splitChars, ih]
    by_cases same : c = separator
    · simp [same]
    · obtain ⟨stretch, more, cut⟩ := List.exists_cons_of_ne_nil
        (@splitChars_ne_nil separator rest)
      simp [same, cut]

theorem splitChars_plain {text : List Char} (absent : separator ∉ text) :
    splitChars separator text = [text] := by
  induction text with
  | nil => rfl
  | cons c rest ih =>
    simp only [List.mem_cons, not_or] at absent
    rw [splitChars, if_neg (Ne.symm absent.1), ih absent.2]

/-- A stretch has no separator in it, and its characters are some of those of the text. -/
theorem splitChars_stretch {text stretch : List Char} (among : stretch ∈ splitChars separator text) :
    separator ∉ stretch ∧ stretch ⊆ text := by
  induction text generalizing stretch with
  | nil =>
    rw [splitChars, List.mem_singleton] at among
    simp [among]
  | cons c rest ih =>
    obtain ⟨first, more, cut⟩ := List.exists_cons_of_ne_nil
      (@splitChars_ne_nil separator rest)
    rw [splitChars, cut] at among
    rw [cut] at ih
    by_cases same : c = separator
    · rw [if_pos same] at among
      rcases List.mem_cons.mp among with rfl | among
      · simp
      · exact ⟨(ih among).1, List.subset_cons_of_subset c (ih among).2⟩
    · rw [if_neg same] at among
      rcases List.mem_cons.mp among with rfl | among
      · obtain ⟨absent, within⟩ := ih List.mem_cons_self
        exact ⟨by simp [absent, Ne.symm same], List.cons_subset_cons c within⟩
      · obtain ⟨absent, within⟩ := ih (List.mem_cons_of_mem first among)
        exact ⟨absent, List.subset_cons_of_subset c within⟩

end CallAtlas.Text

namespace CallAtlas.Path

open Text

/-- A name that stands for itself wherever it is written in a path. -/
structure IsPlain (name : String) : Prop where
  filled : name ≠ ""
  undivided : '/' ∉ name.toList
  writable : Char.ofNat 0 ∉ name.toList
  not_here : name ≠ "."
  not_up : name ≠ ".."

/-- A name that something in a directory can have. -/
structure IsName (name : String) : Prop extends IsPlain name where
  short : name.utf8ByteSize ≤ FileSystem.maxName

@[simp]
theorem names_empty : names "" = [] := by
  rfl

theorem names_slash (first second : String) :
    names (first ++ "/" ++ second) = names first ++ names second := by
  have letters : (first ++ "/" ++ second).toList = first.toList ++ '/' :: second.toList := by simp
  rw [names, split, letters, splitChars_append, List.map_append, List.filter_append]
  rfl

theorem names_undivided {name : String} (filled : name ≠ "") (undivided : '/' ∉ name.toList) :
    names name = [name] := by
  rw [names, split, splitChars_plain undivided]
  simp [filled]

theorem mem_names {path name : String} (among : name ∈ names path) :
    name ≠ "" ∧ '/' ∉ name.toList ∧ name.toList ⊆ path.toList := by
  rw [names, List.mem_filter, split, List.mem_map] at among
  obtain ⟨⟨stretch, among, rfl⟩, filled⟩ := among
  rw [String.toList_ofList]
  exact ⟨by simpa using filled, splitChars_stretch among⟩

/-- The names that are entered on a path stand for themselves. -/
theorem isPlain_of_mem_names {path name : String} (writable : Char.ofNat 0 ∉ path.toList)
    (among : .enter name ∈ (names path).map Step.ofName) : IsPlain name := by
  obtain ⟨written, among, entered⟩ := List.mem_map.mp among
  obtain ⟨filled, undivided, within⟩ := mem_names among
  rw [Step.ofName] at entered
  split at entered
  · cases entered
  next not_here =>
    split at entered
    · cases entered
    next not_up =>
      cases entered
      exact ⟨filled, undivided, fun inside => writable (within inside), not_here, not_up⟩

theorem isPlain_of_mem_steps {path name : String} (writable : Char.ofNat 0 ∉ path.toList)
    (among : .enter name ∈ steps path) : IsPlain name := by
  rw [steps] at among
  rcases List.mem_append.mp among with among | slash
  · exact isPlain_of_mem_names writable among
  · split at slash <;> simp at slash

theorem asksDirectory_append {first second : String} (filled : second ≠ "") :
    asksDirectory (first ++ second) = asksDirectory second := by
  have letters : second.toList ≠ [] := by simpa using filled
  rw [asksDirectory, asksDirectory, String.toList_append, List.getLast?_append,
    Option.or_of_isSome (by simpa using letters)]

theorem isAbsolute_append {first second : String} (filled : first ≠ "") :
    isAbsolute (first ++ second) = isAbsolute first := by
  have letters : first.toList ≠ [] := by simpa using filled
  rw [isAbsolute, isAbsolute, String.toList_append, List.head?_append,
    Option.or_of_isSome (by simpa using letters)]

/-- A path that ends in a slash, without that slash. -/
theorem eq_append_slash {path : String} (ends : asksDirectory path = true) :
    ∃ stem, path = stem ++ "/" := by
  rw [asksDirectory, beq_iff_eq, List.getLast?_eq_some_iff] at ends
  obtain ⟨stem, letters⟩ := ends
  exact ⟨String.ofList stem, String.toList_inj.mp (by simp [letters])⟩

/-- Joining paths appends their names. -/
theorem names_join {base relative : String} (below : isAbsolute relative = false) :
    names (join base relative) = names base ++ names relative := by
  rw [join, below, Bool.false_or]
  by_cases empty : base = ""
  · simp [empty]
  · rw [if_neg (by simpa using empty)]
    cases ends : asksDirectory base with
    | true =>
      obtain ⟨stem, rfl⟩ := eq_append_slash ends
      have bare : names (stem ++ "/") = names stem := by
        simpa using names_slash stem ""
      rw [if_pos rfl, names_slash, bare]
    | false => rw [if_neg (by simp), names_slash]

theorem isAbsolute_join {base relative : String} (below : isAbsolute relative = false)
    (filled : base ≠ "") : isAbsolute (join base relative) = isAbsolute base := by
  rw [join, below, Bool.false_or, if_neg (by simpa using filled)]
  split
  · exact isAbsolute_append filled
  · rw [String.append_assoc]
    exact isAbsolute_append filled

theorem asksDirectory_join {base relative : String} (filled : relative ≠ "") :
    asksDirectory (join base relative) = asksDirectory relative := by
  rw [join]
  split
  · rfl
  · split <;> exact asksDirectory_append filled

theorem mem_join {base relative : String} {c : Char} (inside : c ∈ (join base relative).toList) :
    c ∈ base.toList ∨ c = '/' ∨ c ∈ relative.toList := by
  rw [join] at inside
  split at inside
  · exact .inr (.inr inside)
  · split at inside <;> simp only [String.toList_append, List.mem_append] at inside
    · exact inside.imp_right .inr
    · rcases inside with (inside | slash) | inside
      · exact .inl inside
      · exact .inr (.inl (by simpa using slash))
      · exact .inr (.inr inside)

/-- A path ends in a name: nothing is asked of what it leads to. -/
structure EndsIn (path name : String) : Prop where
  last : (names path).getLast? = some name
  plain : asksDirectory path = false
  not_here : name ≠ "."
  not_up : name ≠ ".."

theorem EndsIn.unique {path name other : String} (ends : EndsIn path name)
    (also : EndsIn path other) : name = other := by
  have same := ends.last
  rw [also.last, Option.some.injEq] at same
  exact same.symm

theorem EndsIn.filled {path name : String} (ends : EndsIn path name) : path ≠ "" := by
  rintro rfl
  cases ends.last

theorem EndsIn.steps_eq {path name : String} (ends : EndsIn path name) :
    steps path = (names path).dropLast.map Step.ofName ++ [.enter name] := by
  obtain ⟨before, listed⟩ := List.getLast?_eq_some_iff.mp ends.last
  have entered : Step.ofName name = .enter name := by
    rw [Step.ofName, if_neg ends.not_here, if_neg ends.not_up]
  rw [steps, listed, ends.plain]
  simp [entered]

theorem isAbsolute_undivided {name : String} (undivided : '/' ∉ name.toList) :
    isAbsolute name = false := by
  rw [isAbsolute, beq_eq_false_iff_ne]
  intro head
  exact undivided (List.mem_of_mem_head? head)

theorem asksDirectory_undivided {name : String} (undivided : '/' ∉ name.toList) :
    asksDirectory name = false := by
  rw [asksDirectory, beq_eq_false_iff_ne]
  intro last
  exact undivided (List.mem_of_mem_getLast? last)

theorem IsName.names_join {name : String} (named : IsName name) (base : String) :
    names (join base name) = names base ++ [name] := by
  rw [Path.names_join (isAbsolute_undivided named.undivided),
    names_undivided named.filled named.undivided]

theorem IsName.endsIn_join {name : String} (named : IsName name) (base : String) :
    EndsIn (join base name) name where
  last := by simp [named.names_join]
  plain := by rw [asksDirectory_join named.filled, asksDirectory_undivided named.undivided]
  not_here := named.not_here
  not_up := named.not_up

/-- Names that are joined by slashes can be read back. -/
theorem names_joined {names : List String} (named : ∀ name ∈ names, IsName name) :
    Path.names (Text.join "/" names) = names := by
  induction names with
  | nil => rfl
  | cons name rest ih =>
    have first := named name List.mem_cons_self
    have alone := names_undivided first.filled first.undivided
    cases rest with
    | nil => exact alone
    | cons next more =>
      rw [Text.join, names_slash, alone, ih fun other among => named other (.tail _ among)]
      · rfl
      · simp

theorem map_names_joined {found : List (List String)}
    (named : ∀ names ∈ found, ∀ name ∈ names, IsName name) :
    (found.map (Text.join "/")).map Path.names = found := by
  rw [List.map_map]
  refine (List.map_congr_left fun names among => ?_).trans (List.map_id found)
  exact names_joined (named names among)

theorem join_append {base first second : String} (filled : first ≠ "") :
    join base (first ++ second) = join base first ++ second := by
  rw [join, join, isAbsolute_append filled]
  split
  · rfl
  · split <;> simp only [String.append_assoc]

theorem isAbsolute_joined {name : String} (named : IsName name) (rest : List String) :
    isAbsolute (Text.join "/" (name :: rest)) = false := by
  have relative := isAbsolute_undivided named.undivided
  cases rest with
  | nil => exact relative
  | cons next more =>
    rw [Text.join, String.append_assoc, isAbsolute_append named.filled, relative]
    simp

/-- Going on by one name after the other is the same as going on by all of them at once. -/
theorem join_joined {names : List String} (named : ∀ name ∈ names, IsName name)
    (filled : names ≠ []) (base : String) :
    join base (Text.join "/" names) = names.foldl join base := by
  induction names generalizing base with
  | nil => exact absurd rfl filled
  | cons name rest ih =>
    obtain ⟨first, others⟩ := List.forall_mem_cons.mp named
    cases rest with
    | nil => rfl
    | cons next more =>
      have relative := isAbsolute_joined (List.forall_mem_cons.mp others).1 more
      have ends := first.endsIn_join base
      rw [List.foldl_cons, ← ih others (by simp), Text.join, String.append_assoc,
        join_append first.filled, join.eq_def (join base name), relative, ends.plain]
      · simp [ends.filled, String.append_assoc]
      · simp

theorem IsName.spelled_join {base name : String} (named : IsName name)
    (spelled : Char.ofNat 0 ∉ base.toList) : Char.ofNat 0 ∉ (join base name).toList := by
  intro inside
  rcases mem_join inside with inside | slash | inside
  · exact spelled inside
  · exact absurd slash (by decide)
  · exact named.writable inside

theorem spelled_foldl_join {names : List String} (named : ∀ name ∈ names, IsName name)
    {base : String} (spelled : Char.ofNat 0 ∉ base.toList) :
    Char.ofNat 0 ∉ (names.foldl join base).toList := by
  induction names generalizing base with
  | nil => exact spelled
  | cons name rest ih =>
    obtain ⟨first, others⟩ := List.forall_mem_cons.mp named
    exact ih others (first.spelled_join spelled)

theorem IsName.utf8ByteSize_le_join {name : String} (named : IsName name) (base : String) :
    base.utf8ByteSize ≤ (join base name).utf8ByteSize := by
  rw [join, isAbsolute_undivided named.undivided, Bool.false_or]
  split
  next empty =>
    rw [eq_of_beq empty]
    exact Nat.zero_le _
  · split <;> simp only [String.utf8ByteSize_append] <;> omega

/-- No name makes a path shorter. -/
theorem utf8ByteSize_le_foldl_join {names : List String} (named : ∀ name ∈ names, IsName name)
    (base : String) : base.utf8ByteSize ≤ (names.foldl join base).utf8ByteSize := by
  induction names generalizing base with
  | nil => exact Nat.le_refl _
  | cons name rest ih =>
    obtain ⟨first, others⟩ := List.forall_mem_cons.mp named
    exact Nat.le_trans (first.utf8ByteSize_le_join base) (ih others (join base name))

theorem IsName.components_join {name : String} (named : IsName name) (base : String) :
    components (join base name) = components base ++ [name] := by
  rw [components, components, named.names_join, List.filter_append]
  simp [named.not_here]

/-- A root may start at the top, with `.`, or with neither, and a name below it changes nothing
there. -/
theorem IsName.parts_join {name : String} (named : IsName name) (base : String) :
    parts (join base name) = parts base ++ [name] := by
  have relative := isAbsolute_undivided named.undivided
  rw [parts, parts, named.components_join, named.names_join, List.append_assoc]
  -- With an empty base the name itself comes first, and it is neither the top nor `.`.
  by_cases empty : base = ""
  · have joined : join base name = name := by simp [join, empty]
    rw [joined, relative, empty]
    simp [named.not_here, isAbsolute]
  · rw [isAbsolute_join relative empty]
    cases names base <;> simp [named.not_here]

theorem components_foldl_join {names : List String} (named : ∀ name ∈ names, IsName name)
    (base : String) : components (names.foldl join base) = components base ++ names := by
  induction names generalizing base with
  | nil => simp
  | cons name rest ih =>
    obtain ⟨first, others⟩ := List.forall_mem_cons.mp named
    rw [List.foldl_cons, ih others, first.components_join, List.append_assoc]
    rfl

theorem parts_foldl_join {names : List String} (named : ∀ name ∈ names, IsName name)
    (base : String) : parts (names.foldl join base) = parts base ++ names := by
  induction names generalizing base with
  | nil => simp
  | cons name rest ih =>
    obtain ⟨first, others⟩ := List.forall_mem_cons.mp named
    rw [List.foldl_cons, ih others, first.parts_join, List.append_assoc]
    rfl

/-- Taking a path off those below it leaves the names on the way, however it is spelled. -/
theorem relative?_foldl_join {names : List String} (named : ∀ name ∈ names, IsName name)
    (filled : names ≠ []) (base : String) :
    relative? base (names.foldl join base) = some (Text.join "/" names) := by
  have rest : (parts base).isPrefixOf? (parts (names.foldl join base)) = some names :=
    List.isPrefixOf?_eq_some_iff_append_eq.mpr (parts_foldl_join named base).symm
  rw [relative?, rest]
  cases names with
  | nil => exact absurd rfl filled
  | cons name rest => rfl

theorem fileName?_foldl_join {names : List String} (named : ∀ name ∈ names, IsName name)
    (filled : names ≠ []) (base : String) :
    fileName? (names.foldl join base) = names.getLast? := by
  have last := List.getLast?_eq_some_getLast filled
  have not_up := (named _ (List.getLast_mem filled)).not_up
  rw [fileName?, components_foldl_join named, List.getLast?_append, last]
  simp [not_up]

/-- What stands after the last slash of a path has no slash in it. -/
theorem lastSegment_undivided (path : String) : '/' ∉ (lastSegment "/" path).toList := by
  have some_char : "/".toList ≠ [] := by decide
  have letters : "/".toList = ['/'] := by decide
  rw [lastSegment]
  cases cut : cutLast? "/" path with
  | none =>
    have absent := (cutLast?_eq_none_iff some_char).mp cut
    rw [letters, List.singleton_infix_iff] at absent
    exact absent
  | some sides =>
    have last := ((cutLast?_eq_some_iff some_char).mp cut).last
    rw [letters, List.singleton_append, List.tail_cons, List.singleton_infix_iff] at last
    exact last

/-- A path with something written after it ends in its last name with that after it. -/
theorem names_append {path suffix : String} (filled : suffix ≠ "")
    (undivided : '/' ∉ suffix.toList) :
    (names (path ++ suffix)).getLast? = some (lastSegment "/" path ++ suffix) := by
  have some_char : "/".toList ≠ [] := by decide
  have whole : names (lastSegment "/" path ++ suffix) = [lastSegment "/" path ++ suffix] := by
    refine names_undivided (by simp [filled]) ?_
    simp [lastSegment_undivided, undivided]
  cases cut : cutLast? "/" path with
  | none =>
    have same : lastSegment "/" path = path := by rw [lastSegment, cut]
    rw [same] at whole ⊢
    simp [whole]
  | some sides =>
    obtain ⟨before, after⟩ := sides
    have same : lastSegment "/" path = after := by rw [lastSegment, cut]
    have joined : path = before ++ "/" ++ after :=
      String.toList_inj.mp (by simp [((cutLast?_eq_some_iff some_char).mp cut).joined])
    rw [same] at whole ⊢
    rw [joined, String.append_assoc, names_slash, whole]
    simp

end CallAtlas.Path
