import Mathlib.Data.List.Nodup
import CallAtlas.Extraction
import CallAtlas.Proofs.FileSystem.WellFormed
/-!
Walks of a file system that has grown. A walk that met no error comes upon everything again,
in the same order, and in between upon what was added there (`walkDirectory_padded`). Only a
new directory can be in its way, by a path that has become too long.
-/
namespace CallAtlas

/-- A list has further elements in between. -/
inductive Padded {α : Type} (extra : α → Prop) : List α → List α → Prop where
  | nil : Padded extra [] []
  | keep {old new} (element : α) (rest : Padded extra old new) :
      Padded extra (element :: old) (element :: new)
  | insert {element old new} (among : extra element) (rest : Padded extra old new) :
      Padded extra old (element :: new)

namespace Padded

variable {α β : Type} {extra : α → Prop} {more : β → Prop} {old new : List α}

theorem refl (elements : List α) : Padded extra elements elements := by
  induction elements with
  | nil => exact .nil
  | cons element rest ih => exact .keep element ih

theorem of_extra (among : ∀ element ∈ new, extra element) : Padded extra [] new := by
  induction new with
  | nil => exact .nil
  | cons element rest ih =>
    exact .insert (among element List.mem_cons_self) (ih fun other also => among other (.tail _ also))

theorem append {later newer : List α} (first : Padded extra old new)
    (second : Padded extra later newer) : Padded extra (old ++ later) (new ++ newer) := by
  induction first with
  | nil => exact second
  | keep element _ ih => exact .keep element ih
  | insert among _ ih => exact .insert among ih

theorem flatMap {f g : α → List β} (padded : Padded extra old new)
    (kept : ∀ element ∈ old, Padded more (f element) (g element))
    (inserted : ∀ element ∈ new, extra element → ∀ found ∈ g element, more found) :
    Padded more (old.flatMap f) (new.flatMap g) := by
  induction padded with
  | nil => exact .nil
  | keep element _ ih =>
    rw [List.flatMap_cons, List.flatMap_cons]
    exact (kept element List.mem_cons_self).append
      (ih (fun other among => kept other (.tail _ among))
        fun other among => inserted other (.tail _ among))
  | insert among _ ih =>
    rw [List.flatMap_cons]
    exact (of_extra (inserted _ List.mem_cons_self among)).append
      (ih kept fun other also => inserted other (.tail _ also))

theorem map {f : α → β} (padded : Padded extra old new)
    (still : ∀ element, extra element → more (f element)) :
    Padded more (old.map f) (new.map f) := by
  induction padded with
  | nil => exact .nil
  | keep element _ ih => exact .keep (f element) ih
  | insert among _ ih => exact .insert (still _ among) ih

theorem of_filter (accepted : α → Bool) (elements : List α) :
    Padded (accepted · = false) (elements.filter accepted) elements := by
  induction elements with
  | nil => exact .nil
  | cons element rest ih =>
    cases choice : accepted element with
    | true =>
      rw [List.filter_cons_of_pos choice]
      exact .keep element ih
    | false =>
      rw [List.filter_cons_of_neg (by simp [choice])]
      exact .insert choice ih

theorem filter_eq {accepted : α → Bool} (padded : Padded extra old new)
    (refused : ∀ element, extra element → accepted element = false) :
    new.filter accepted = old.filter accepted := by
  induction padded with
  | nil => rfl
  | keep element _ ih => rw [List.filter_cons, List.filter_cons, ih]
  | insert among _ ih => rw [List.filter_cons_of_neg (by simp [refused _ among]), ih]

theorem sublist (padded : Padded extra old new) : old.Sublist new := by
  induction padded with
  | nil => exact .slnil
  | keep element _ ih => exact ih.cons_cons element
  | insert _ _ ih => exact ih.cons _

theorem filter (padded : Padded extra old new) (accepted : α → Bool) :
    Padded extra (old.filter accepted) (new.filter accepted) := by
  induction padded with
  | nil => exact .nil
  | keep element _ ih =>
    rw [List.filter_cons, List.filter_cons]
    split
    · exact .keep element ih
    · exact ih
  | insert among _ ih =>
    rw [List.filter_cons]
    split
    · exact .insert among ih
    · exact ih

theorem eq_of_none (padded : Padded extra old new) (none : ∀ element, ¬ extra element) :
    old = new := by
  induction padded with
  | nil => rfl
  | keep element _ ih => rw [ih]
  | insert among => exact absurd among (none _)

/-- What the image of a list has further elements in between is an image too. -/
theorem exists_map {f : β → α} {list : List β} (padded : Padded extra old (list.map f)) :
    ∃ sparse, old = sparse.map f ∧ Padded (fun element => extra (f element)) sparse list := by
  generalize image : list.map f = new at padded
  induction padded generalizing list with
  | nil =>
    obtain rfl := List.map_eq_nil_iff.mp image
    exact ⟨[], rfl, .nil⟩
  | keep element _ ih =>
    obtain ⟨first, rest, rfl, rfl, same⟩ := List.map_eq_cons_iff.mp image
    obtain ⟨sparse, rfl, within⟩ := ih same
    exact ⟨first :: sparse, rfl, .keep first within⟩
  | insert among _ ih =>
    obtain ⟨first, rest, rfl, rfl, same⟩ := List.map_eq_cons_iff.mp image
    obtain ⟨sparse, rfl, within⟩ := ih same
    exact ⟨sparse, rfl, .insert among within⟩

end Padded

namespace FileSystem

variable {fs before after : FileSystem} {location place : Location} {path above name : String}
  {item : Item} {added : List (Location × Item)} {following : Bool} {inside : List Opened}

theorem WellFormed.item?_of_mem (wellFormed : fs.WellFormed) (listed : (location, item) ∈ fs.items) :
    fs.item? location = some item := by
  obtain ⟨holder, name, spot, -, -⟩ := wellFormed.held _ listed
  have filled : location ≠ [] := by simp [show location = _ from spot]
  rw [item?, if_neg filled]
  exact lookup_of_mem wellFormed.distinct listed

theorem mem_entry_iff {stored : Location × Item} {entry : String × Item} :
    (if stored.1.dropLast = location then stored.1.getLast?.map (·, stored.2) else none) =
        some entry ↔ stored = (location ++ [entry.1], entry.2) := by
  obtain ⟨place, item⟩ := stored
  obtain ⟨name, listed⟩ := entry
  constructor
  · intro found
    split at found
    next below =>
      obtain ⟨last, ends, same⟩ := Option.map_eq_some_iff.mp found
      cases same
      have whole : place = location ++ [name] := by
        rw [← below, List.dropLast_append_getLast? name ends]
      rw [whole]
    · cases found
  · rintro ⟨⟩
    simp

/-- The entries of a directory are what stands right below it. -/
theorem WellFormed.mem_listing_iff (wellFormed : fs.WellFormed) :
    (name, item) ∈ fs.listing location ↔ fs.item? (location ++ [name]) = some item := by
  rw [listing, List.mem_mergeSort, List.mem_filterMap]
  simp only [mem_entry_iff]
  constructor
  · rintro ⟨_, listed, rfl⟩
    exact wellFormed.item?_of_mem listed
  · intro found
    exact ⟨_, mem_of_item? (by simp) found, rfl⟩

theorem WellFormed.nodup_listing (wellFormed : fs.WellFormed) (location : Location) :
    (fs.listing location).Nodup := by
  rw [listing, (List.mergeSort_perm _ _).nodup_iff]
  refine (List.Nodup.of_map _ wellFormed.distinct).filterMap fun one two entry first second => ?_
  rw [mem_entry_iff.mp first, mem_entry_iff.mp second]

theorem listing_sorted (fs : FileSystem) (location : Location) :
    (fs.listing location).Pairwise fun a b => Text.noLater a.1 b.1 = true := by
  rw [listing]
  apply List.pairwise_mergeSort
  · intro a b c
    exact Text.noLaterChars_trans
  · intro a b
    exact Bool.or_eq_true_iff.mpr (Text.noLaterChars_total a.1.toList b.1.toList)

/-- The entries that a directory had are among those that it has, in the same order. -/
theorem Grows.listing_eq (grows : Grows before after added) (old : before.WellFormed)
    (new : after.WellFormed) (location : Location) :
    (after.listing location).filter (fun entry => (before.item? (location ++ [entry.1])).isSome) =
      before.listing location := by
  have same (entry : String × Item) :
      entry ∈ (after.listing location).filter
          (fun entry => (before.item? (location ++ [entry.1])).isSome) ↔
        entry ∈ before.listing location := by
    obtain ⟨name, item⟩ := entry
    rw [List.mem_filter, new.mem_listing_iff, old.mem_listing_iff, Option.isSome_iff_exists]
    constructor
    · rintro ⟨found, stood, earlier⟩
      rwa [grows.keeps.item earlier, ← earlier] at found
    · intro found
      exact ⟨grows.keeps.item found, item, found⟩
  have perm := (List.perm_ext_iff_of_nodup ((new.nodup_listing location).filter _)
    (old.nodup_listing location)).mpr same
  refine perm.eq_of_pairwise ?_ ((after.listing_sorted location).filter _)
    (before.listing_sorted location)
  -- Two entries that come no later than each other have the same name, so they are one.
  rintro ⟨name, item⟩ ⟨other, stored⟩ first second before_it after_it
  obtain rfl : name = other := String.toList_inj.mp (Text.noLaterChars_antisymm before_it after_it)
  rw [same, old.mem_listing_iff] at first
  rw [old.mem_listing_iff, first, Option.some.injEq] at second
  rw [second]

theorem locate_of_tooLong {last : LastStep} (spelled : Char.ofNat 0 ∉ path.toList)
    (long : maxPath < path.utf8ByteSize) : fs.locate path last = .error .nameTooLong := by
  have filled : path ≠ "" := by
    rintro rfl
    cases long
  have refused : pathError? path = some .nameTooLong := by
    simp [pathError?, spelled, filled, long]
  rw [locate, refused]

/-- What a directory holds is reached by the path of the directory with the name, if that is not
too long and no link is in the way. -/
theorem WellFormed.locate_join_of_short (wellFormed : fs.WellFormed)
    (located : fs.locate above = .ok place) (found : fs.item? (place ++ [name]) = some item)
    (solid : ∀ target, item ≠ .link target)
    (short : (Path.join above name).utf8ByteSize ≤ maxPath) :
    fs.locate (Path.join above name) = .ok (place ++ [name]) := by
  obtain ⟨named, directory⟩ := wellFormed.held_of_item? found
  obtain ⟨spelled, -, -⟩ := pathError?_eq_none_iff.mp (locate_eq_ok_iff.mp located).1
  have writable : pathError? (Path.join above name) = none :=
    pathError?_eq_none_iff.mpr
      ⟨named.spelled_join spelled, (named.endsIn_join above).filled, short⟩
  exact (isEntry_join named located directory writable).locate_present found solid

/-- A directory below one that a path leads to is reached by the path with its name, if that
is not too long. -/
theorem WellFormed.locate_join (wellFormed : fs.WellFormed) (located : fs.locate above = .ok place)
    (found : fs.item? (place ++ [name]) = some .directory) :
    fs.locate (Path.join above name) = .ok (place ++ [name]) ∨
      fs.locate (Path.join above name) = .error .nameTooLong ∧
        maxPath < (Path.join above name).utf8ByteSize := by
  have named := (wellFormed.held_of_item? found).1
  obtain ⟨spelled, -, -⟩ := pathError?_eq_none_iff.mp (locate_eq_ok_iff.mp located).1
  by_cases long : maxPath < (Path.join above name).utf8ByteSize
  · exact .inr ⟨locate_of_tooLong (named.spelled_join spelled) long, long⟩
  · exact .inl (wellFormed.locate_join_of_short located found (by simp) (Nat.not_lt.mp long))

theorem locate_mono (keeps : Keeps before after) (located : before.locate path = .ok location) :
    after.locate path = .ok location := by
  obtain ⟨writable, leads⟩ := locate_eq_ok_iff.mp located
  rw [locate_eq_ok_iff, keeps.startOf_eq]
  exact ⟨writable, leads.mono keeps⟩

/-- What a walk comes upon in one entry of a directory that it is inside of. -/
def walkEntry (fs : FileSystem) (following : Bool) (inside : List Opened) (location : Location)
    (path : String) (entry : String × Item) : Findings :=
  match entry.2 with
  | .file _ => [.ok [entry.1]]
  | .directory =>
    Findings.under (fs.walkDirectory following inside (location ++ [entry.1])
      (Path.join path entry.1)) entry.1
  | .link _ =>
    if following then
      match fs.locate (Path.join path entry.1) with
      | .error cause => [.error (.io (Path.join path entry.1) cause)]
      | .ok target =>
        match fs.item? target with
        | some (.file _) => [.ok [entry.1]]
        | some .directory =>
          match inside.find? (·.location == target) with
          | some ancestor => [.error (.loop (Path.join path entry.1) ancestor.path)]
          | none =>
            Findings.under (fs.walkDirectory following inside target (Path.join path entry.1))
              entry.1
        | _ => []
    else []

theorem walkDirectory_of_error {cause : OsError} (failed : fs.locate path = .error cause) :
    fs.walkDirectory following inside location path = [.error (.io path cause)] := by
  rw [walkDirectory, failed]

theorem walkDirectory_of_ok (located : fs.locate path = .ok place) :
    fs.walkDirectory following inside location path =
      (fs.listing location).flatMap
        (fs.walkEntry following (⟨location, path⟩ :: inside) location path) := by
  rw [walkDirectory, located]
  dsimp only
  conv_rhs => rw [← List.attach_map_subtype_val (fs.listing location), List.flatMap_map]
  congr 1
  funext ⟨⟨name, item⟩, listed⟩
  cases item with
  | file file => rfl
  | directory => rfl
  | link target =>
    rw [walkEntry]
    cases following with
    | false => simp only [Bool.false_eq_true, if_false]
    | true =>
      cases reached : fs.locate (Path.join path name) with
      | error cause => simp only [if_true]
      | ok target =>
        simp only [if_true]
        split
        next found => simp only [found]
        next found =>
          split
          next around => simp only [found, around]
          next around => simp only [found, around]
        · simp only

/-- Something new stands in the way of a walk: a directory whose path is too long. -/
def NewlyTooLong (before after : FileSystem) (cause : WalkError) : Prop :=
  ∃ above name place, cause = .io (Path.join above name) .nameTooLong ∧
    maxPath < (Path.join above name).utf8ByteSize ∧ after.locate above = .ok place ∧
    after.item? (place ++ [name]) = some .directory ∧ before.item? (place ++ [name]) = none

/-- What a walk comes upon only because a file system has grown by directories and by files with
names of some kind. -/
def IsExtra (before after : FileSystem) (kind : String → Prop) :
    Except WalkError (List String) → Prop
  | .ok names => ∃ name, names.getLast? = some name ∧ kind name
  | .error cause => NewlyTooLong before after cause

/-- A file system has grown by directories and by files with names of some kind. -/
structure Expands (before after : FileSystem) (kind : String → Prop)
    (added : List (Location × Item)) : Prop where
  old : before.WellFormed
  new : after.WellFormed
  grows : Grows before after added
  only : ∀ entry ∈ added, entry.2 = .directory ∨
    ∃ holder name file, entry = (holder ++ [name], .file file) ∧ kind name

variable {kind : String → Prop} {finding : Except WalkError (List String)}

theorem IsExtra.under (extra : IsExtra before after kind finding) (name : String) :
    IsExtra before after kind (finding.map (name :: ·)) := by
  cases finding with
  | error cause => exact extra
  | ok names =>
    obtain ⟨last, ends, known⟩ := extra
    exact ⟨last, by rw [List.getLast?_cons, ends, Option.getD_some], known⟩

theorem padded_under {found more : Findings} (padded : Padded (IsExtra before after kind) found more)
    (name : String) : Padded (IsExtra before after kind) (found.under name) (more.under name) :=
  padded.map fun _ extra => extra.under name

/-- What is new in a directory is a directory or a file of the kind. -/
theorem Expands.entry_cases (expands : Expands before after kind added)
    (found : after.item? (location ++ [name]) = some item)
    (absent : before.item? (location ++ [name]) = none) :
    item = .directory ∨ ∃ file, item = .file file ∧ kind name := by
  rcases expands.grows.item_cases found with stood | ⟨-, among⟩
  · rw [absent] at stood
    cases stood
  · rcases expands.only _ among with directory | ⟨holder, last, file, same, known⟩
    · exact .inl directory
    · obtain ⟨spot, rfl⟩ := Prod.mk.inj same
      obtain ⟨-, ⟨⟩⟩ := List.append_inj' spot rfl
      exact .inr ⟨file, rfl, known⟩

/-- All that a walk comes upon in a new directory is extra. -/
theorem Expands.walk_new (expands : Expands before after kind added)
    (located : after.locate above = .ok place)
    (found : after.item? (place ++ [name]) = some .directory)
    (absent : before.item? (place ++ [name]) = none) :
    ∀ finding ∈ after.walkDirectory following inside (place ++ [name]) (Path.join above name),
      IsExtra before after kind finding := by
  generalize spot : place ++ [name] = location
  generalize written : Path.join above name = path
  induction inside, location, path using walkDirectory.induct after generalizing above place name with
  | case1 inside location path cause failed =>
    subst spot written
    rcases expands.new.locate_join located found with reached | ⟨refused, long⟩
    · rw [reached] at failed
      cases failed
    · rw [walkDirectory_of_error refused]
      simp only [List.mem_singleton, forall_eq]
      exact ⟨above, name, place, rfl, long, located, found, absent⟩
  | case2 inside location path target reached directories _ =>
    subst spot written
    have here : after.locate (Path.join above name) = .ok (place ++ [name]) := by
      rcases expands.new.locate_join located found with here | ⟨refused, -⟩
      · exact here
      · rw [refused] at reached
        cases reached
    rw [walkDirectory_of_ok here]
    intro finding among
    obtain ⟨⟨last, item⟩, listed, among⟩ := List.mem_flatMap.mp among
    have below := expands.new.mem_listing_iff.mp listed
    have nothing : before.item? (place ++ [name] ++ [last]) = none := by
      -- Whatever stood there would have been held by the directory, which is new.
      by_contra stood
      obtain ⟨old, stood⟩ := Option.ne_none_iff_exists'.mp stood
      rw [(expands.old.held_of_item? stood).2] at absent
      cases absent
    rcases expands.entry_cases below nothing with rfl | ⟨file, rfl, known⟩
    · obtain ⟨within, met, rfl⟩ := List.mem_map.mp among
      exact (directories last listed here below nothing rfl rfl within met).under last
    · rw [List.mem_singleton.mp among]
      exact ⟨last, rfl, known⟩

def Findings.Clean (findings : Findings) : Prop :=
  ∀ cause, .error cause ∉ findings

theorem Findings.Clean.of_under {findings : Findings} (clean : (findings.under name).Clean) :
    findings.Clean :=
  fun cause among => clean cause (List.mem_map.mpr ⟨_, among, rfl⟩)

@[simp]
theorem Findings.files_map_ok (found : List (List String)) :
    Findings.files (found.map .ok) = .ok found := by
  induction found with
  | nil => rfl
  | cons names rest ih =>
    rw [List.map_cons, Findings.files, ih]
    rfl

/-- Where files are found, nothing else was come upon. -/
theorem Findings.eq_map_of_files {findings : Findings} {found : List (List String)}
    (success : findings.files = .ok found) : findings = found.map .ok := by
  induction findings generalizing found with
  | nil =>
    cases success
    rfl
  | cons finding rest ih =>
    cases finding with
    | error cause => cases success
    | ok names =>
      rw [Findings.files] at success
      cases further : Findings.files rest with
      | error cause =>
        rw [further] at success
        cases success
      | ok more =>
        rw [further] at success
        cases success
        rw [ih further, List.map_cons]

theorem Findings.clean_of_files {findings : Findings} {found : List (List String)}
    (success : findings.files = .ok found) : findings.Clean := by
  simp [eq_map_of_files success, Clean]

theorem exists_locate_of_files {found : List (List String)}
    (success : (fs.walk following path).files = .ok found) :
    ∃ location, fs.locate path = .ok location := by
  cases located : fs.locate path with
  | ok location => exact ⟨location, rfl⟩
  | error cause =>
    rw [walk, located] at success
    cases success

/-- The files of a walk are come upon from where its path leads. -/
theorem mem_walkDirectory_of_files {found : List (List String)}
    (located : fs.locate path = .ok location) (files : (fs.walk following path).files = .ok found)
    {names : List String} (among : names ∈ found) :
    .ok names ∈ fs.walkDirectory following [] location path := by
  have all : fs.walkDirectory following [] location path = found.map .ok := by
    simpa only [walk, located] using Findings.eq_map_of_files files
  rw [all]
  exact List.mem_map_of_mem among

theorem checkRoot_eq_ok_iff : fs.checkRoot path = .ok () ↔ fs.stat path = .ok .directory := by
  rw [checkRoot, isThere, isDirectory]
  cases fs.stat path with
  | error cause => simp
  | ok item => cases item <;> simp

/-- Where a walk of an entry met no error, it now comes upon the same and perhaps upon more. -/
theorem Expands.walkEntry_padded (expands : Expands before after kind added)
    (located : before.locate path = .ok location)
    (deeper : ∀ target, before.locate (Path.join path name) = .ok target →
      before.item? target = some .directory →
      (target = location ++ [name] ∨ inside.find? (·.location == target) = none) →
      (before.walkDirectory following inside target (Path.join path name)).Clean →
      Padded (IsExtra before after kind)
        (before.walkDirectory following inside target (Path.join path name))
        (after.walkDirectory following inside target (Path.join path name)))
    (stood : before.item? (location ++ [name]) = some item)
    (clean : (before.walkEntry following inside location path (name, item)).Clean) :
    Padded (IsExtra before after kind)
      (before.walkEntry following inside location path (name, item))
      (after.walkEntry following inside location path (name, item)) := by
  cases item with
  | file file => exact .refl _
  | directory =>
    simp only [walkEntry] at clean ⊢
    have clean := clean.of_under
    rcases expands.old.locate_join located stood with reached | ⟨refused, -⟩
    · exact padded_under (deeper _ reached stood (.inl rfl) clean) name
    · rw [walkDirectory_of_error refused] at clean
      exact absurd List.mem_cons_self (clean _)
  | link target =>
    rw [walkEntry] at clean
    rw [walkEntry, walkEntry]
    cases following with
    | false =>
      simp only [Bool.false_eq_true, if_false]
      exact .nil
    | true =>
      cases reached : before.locate (Path.join path name) with
      | error cause =>
        simp only [reached, if_true] at clean
        exact absurd List.mem_cons_self (clean _)
      | ok target =>
        simp only [reached, locate_mono expands.grows.keeps reached, if_true] at clean ⊢
        rcases expands.old.item_of_locate reached with directory | ⟨file, found⟩
        · simp only [directory, expands.grows.keeps.item directory] at clean ⊢
          cases around : inside.find? (·.location == target) with
          | some ancestor =>
            simp only [around] at clean
            exact absurd List.mem_cons_self (clean _)
          | none =>
            simp only [around] at clean ⊢
            exact padded_under (deeper target reached directory (.inr around) clean.of_under) name
        · simp only [found, expands.grows.keeps.item found]
          exact .refl _

/-- A walk that met no error comes upon the same and in between upon what is new. -/
theorem Expands.walkDirectory_padded (expands : Expands before after kind added)
    (located : before.locate path = .ok location)
    (clean : (before.walkDirectory following inside location path).Clean) :
    Padded (IsExtra before after kind) (before.walkDirectory following inside location path)
      (after.walkDirectory following inside location path) := by
  -- By the walk as it was: each of its steps is a step of the walk as it is now.
  induction inside, location, path using walkDirectory.induct before with
  | case1 inside location path cause failed =>
    rw [failed] at located
    cases located
  | case2 inside location path _ _ directories links =>
    rw [walkDirectory_of_ok located] at clean ⊢
    rw [walkDirectory_of_ok (locate_mono expands.grows.keeps located)]
    have listings := Padded.of_filter
      (fun entry => (before.item? (location ++ [entry.1])).isSome) (after.listing location)
    rw [expands.grows.listing_eq expands.old expands.new location] at listings
    refine listings.flatMap ?_ ?_
    · rintro ⟨name, item⟩ listed
      have stood := expands.old.mem_listing_iff.mp listed
      refine expands.walkEntry_padded located (fun target reached found place clean => ?_) stood
        fun cause among => clean cause (List.mem_flatMap.mpr ⟨_, listed, among⟩)
      rcases place with rfl | around
      · refine directories name ?_ reached clean
        exact expands.old.mem_listing_iff.mpr found
      · exact links name target found around reached clean
    · rintro ⟨name, item⟩ listed absent finding among
      have found := expands.new.mem_listing_iff.mp listed
      have nothing : before.item? (location ++ [name]) = none := by simpa using absent
      rcases expands.entry_cases found nothing with rfl | ⟨file, rfl, known⟩
      · obtain ⟨within, met, rfl⟩ := List.mem_map.mp among
        have reached := locate_mono expands.grows.keeps located
        exact (expands.walk_new reached found nothing within met).under name
      · rw [List.mem_singleton.mp among]
        exact ⟨name, rfl, known⟩

end FileSystem

end CallAtlas
