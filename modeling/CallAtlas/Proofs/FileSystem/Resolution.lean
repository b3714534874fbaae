import CallAtlas.FileSystem.Edit
import CallAtlas.Proofs.FileSystem.Path
/-!
Where a path leads. `Leads` says step by step how a location is reached, and following steps
succeeds exactly with the locations that it gives (`followLinks_eq_ok_iff`). Two facts about
it carry the rest. What is reached stays reached when things are added to a file system
(`Leads.mono`). And a path that ends in a name leads to that name in the directory in which
it is to be looked up (`Leads.before_name`).
-/
namespace CallAtlas.FileSystem

open CallAtlas.Path (Step)

/-- Steps lead from a directory to a location, through at most some number of links. -/
inductive Leads (fs : FileSystem) (last : LastStep) :
    Nat → Location → List Step → Location → Prop where
  | here {links place} : Leads fs last links place [] place
  | stay {links place rest location} (further : Leads fs last links place rest location) :
      Leads fs last links place (.stay :: rest) location
  | slash {links place rest location} (further : Leads fs last links place rest location) :
      Leads fs last links place (.slash :: rest) location
  | up {links place rest location} (further : Leads fs last links place.dropLast rest location) :
      Leads fs last links place (.up :: rest) location
  | directory {links place name rest location} (open_end : ¬ (rest = [.slash] ∧ last = .create))
      (short : name.utf8ByteSize ≤ maxName)
      (found : fs.item? (place ++ [name]) = some .directory)
      (further : Leads fs last links (place ++ [name]) rest location) :
      Leads fs last links place (.enter name :: rest) location
  | file {links place name file} (short : name.utf8ByteSize ≤ maxName)
      (found : fs.item? (place ++ [name]) = some (.file file)) :
      Leads fs last links place [.enter name] (place ++ [name])
  | missing {links place name} (creating : last = .create) (short : name.utf8ByteSize ≤ maxName)
      (absent : fs.item? (place ++ [name]) = none) :
      Leads fs last links place [.enter name] (place ++ [name])
  | kept {links place name target} (keeping : last = .keep) (short : name.utf8ByteSize ≤ maxName)
      (found : fs.item? (place ++ [name]) = some (.link target)) :
      Leads fs last links place [.enter name] (place ++ [name])
  | link {links place name rest location target}
      (open_end : ¬ (rest = [.slash] ∧ last = .create)) (passing : ¬ (rest = [] ∧ last = .keep))
      (short : name.utf8ByteSize ≤ maxName)
      (found : fs.item? (place ++ [name]) = some (.link target))
      (further : Leads fs last links (if Path.isAbsolute target then [] else place)
        (Path.steps target ++ rest) location) :
      Leads fs last (links + 1) place (.enter name :: rest) location

variable {fs before after : FileSystem} {last : LastStep} {links : Nat}
  {place location : Location} {name path : String} {steps rest : List Step}

/-- Steps that can be followed lead somewhere, if what is left to `onLink` does. -/
theorem leads_of_follow {onLink : Location → List Step → Except OsError Location}
    (beyond : ∀ place steps, onLink place steps = .ok location →
      ∃ fewer, links = fewer + 1 ∧ Leads fs last fewer place steps location)
    (success : follow fs last onLink place steps = .ok location) :
    Leads fs last links place steps location := by
  induction steps generalizing place with
  | nil =>
    cases success
    exact .here
  | cons step rest ih =>
    cases step with
    | stay => exact .stay (ih success)
    | slash => exact .slash (ih success)
    | up => exact .up (ih success)
    | enter name =>
      rw [follow] at success
      split at success
      · cases success
      next open_end =>
        split at success
        · cases success
        next long =>
          have short := Nat.not_lt.mp long
          split at success
          next absent =>
            split at success
            next creating =>
              obtain ⟨rfl, creating⟩ := creating
              cases success
              exact .missing creating short absent
            · cases success
          next found => exact .directory open_end short found (ih success)
          next found =>
            split at success
            next bare =>
              subst bare
              cases success
              exact .file short found
            · cases success
          next target found =>
            split at success
            next keeping =>
              obtain ⟨rfl, keeping⟩ := keeping
              cases success
              exact .kept keeping short found
            next passing =>
              obtain ⟨fewer, rfl, further⟩ := beyond _ _ success
              exact .link open_end passing short found further

theorem leads_of_followLinks (success : followLinks fs last links place steps = .ok location) :
    Leads fs last links place steps location := by
  induction links generalizing place steps with
  | zero => exact leads_of_follow (fun _ _ impossible => by cases impossible) success
  | succ links ih => exact leads_of_follow (fun _ _ further => ⟨links, rfl, ih further⟩) success

/-- At every number of links, steps are followed alike up to the first link. -/
theorem followLinks_eq (fs : FileSystem) (last : LastStep) (links : Nat) :
    ∃ onLink, followLinks fs last links = follow fs last onLink ∧
      ∀ fewer, links = fewer + 1 → onLink = followLinks fs last fewer := by
  cases links with
  | zero => exact ⟨_, rfl, fun _ impossible => by omega⟩
  | succ links =>
    refine ⟨_, rfl, fun fewer same => ?_⟩
    rw [Nat.succ.inj same]

theorem Leads.followLinks (leads : Leads fs last links place steps location) :
    followLinks fs last links place steps = .ok location := by
  induction leads with
  | @here links _ =>
    obtain ⟨_, same, -⟩ := followLinks_eq fs last links
    rw [same, follow]
  | @stay links _ _ _ _ ih | @slash links _ _ _ _ ih | @up links _ _ _ _ ih =>
    obtain ⟨_, same, -⟩ := followLinks_eq fs last links
    rw [same] at ih ⊢
    rw [follow, ih]
  | @directory links _ _ _ _ open_end short found _ ih =>
    obtain ⟨_, same, -⟩ := followLinks_eq fs last links
    rw [same] at ih ⊢
    rw [follow, if_neg open_end, if_neg (Nat.not_lt.mpr short), found]
    exact ih
  | @file links _ _ _ short found =>
    obtain ⟨_, same, -⟩ := followLinks_eq fs last links
    rw [same, follow, if_neg (by simp), if_neg (Nat.not_lt.mpr short), found]
    rfl
  | @missing links _ _ creating short absent =>
    obtain ⟨_, same, -⟩ := followLinks_eq fs last links
    rw [same, follow, if_neg (by simp), if_neg (Nat.not_lt.mpr short), absent]
    simp [creating]
  | @kept links _ _ _ keeping short found =>
    obtain ⟨_, same, -⟩ := followLinks_eq fs last links
    rw [same, follow, if_neg (by simp), if_neg (Nat.not_lt.mpr short), found]
    simp [keeping]
  | @link links _ _ _ _ _ open_end passing short found _ ih =>
    obtain ⟨_, same, further⟩ := followLinks_eq fs last (links + 1)
    rw [same, follow, if_neg open_end, if_neg (Nat.not_lt.mpr short), found]
    simp only [if_neg passing]
    rw [further links rfl, ih]

/-- Following steps succeeds exactly with the location that they lead to. -/
theorem followLinks_eq_ok_iff :
    followLinks fs last links place steps = .ok location ↔
      Leads fs last links place steps location :=
  ⟨leads_of_followLinks, Leads.followLinks⟩

/-- Everything that stands in one file system stands in another, where paths start alike. -/
structure Keeps (before after : FileSystem) : Prop where
  item : ∀ {location item}, before.item? location = some item → after.item? location = some item
  start : after.workingDirectory = before.workingDirectory

theorem Keeps.startOf_eq (keeps : Keeps before after) (path : String) :
    after.startOf path = before.startOf path := by
  rw [startOf, startOf, keeps.start]

/-- What is reached stays reached when things are added. -/
theorem Leads.mono (keeps : Keeps before after)
    (leads : Leads before .follow links place steps location) :
    Leads after .follow links place steps location := by
  induction leads with
  | here => exact .here
  | stay _ ih => exact .stay ih
  | slash _ ih => exact .slash ih
  | up _ ih => exact .up ih
  | directory open_end short found _ ih => exact .directory open_end short (keeps.item found) ih
  | file short found => exact .file short (keeps.item found)
  | missing creating => cases creating
  | kept keeping => cases keeping
  | link open_end passing short found _ ih =>
    exact .link open_end passing short (keeps.item found) ih

/-- Files that were added lead nowhere, so steps that do not end in a name led to the same
place without them. -/
theorem Leads.without_files (plain : ∀ location item, after.item? location = some item →
      before.item? location = some item ∨ ∃ file, item = .file file)
    (leads : Leads after .follow links place steps location)
    (ends : ∀ name, steps.getLast? ≠ some (.enter name)) :
    Leads before .follow links place steps location := by
  have shorter {step : Step} {rest : List Step}
      (ends : ∀ name, (step :: rest).getLast? ≠ some (.enter name)) :
      ∀ name, rest.getLast? ≠ some (.enter name) := by
    cases rest <;> simp_all
  induction leads with
  | here => exact .here
  | stay _ ih => exact .stay (ih (shorter ends))
  | slash _ ih => exact .slash (ih (shorter ends))
  | up _ ih => exact .up (ih (shorter ends))
  | directory open_end short found _ ih =>
    have stood := (plain _ _ found).resolve_right (by rintro ⟨file, ⟨⟩⟩)
    exact .directory open_end short stood (ih (shorter ends))
  | file | kept | missing => exact absurd rfl (ends _)
  | @link _ _ name rest _ target open_end passing short found _ ih =>
    have stood := (plain _ _ found).resolve_right (by rintro ⟨file, ⟨⟩⟩)
    have filled : rest ≠ [] := by
      rintro rfl
      exact ends name rfl
    refine .link open_end passing short stood (ih ?_)
    rw [List.getLast?_append, Option.or_of_isSome (by simpa using filled)]
    exact shorter ends

/-- A slash changes nothing after steps that lead to a directory. -/
theorem Leads.slashed (leads : Leads fs .follow links place steps location)
    (found : fs.item? location = some .directory) :
    Leads fs .follow links place (steps ++ [.slash]) location := by
  induction leads with
  | here => exact .slash .here
  | stay _ ih => exact .stay (ih found)
  | slash _ ih => exact .slash (ih found)
  | up _ ih => exact .up (ih found)
  | directory _ short stands _ ih => exact .directory (by simp) short stands (ih found)
  | file _ stands =>
    rw [stands] at found
    cases found
  | missing creating => cases creating
  | kept keeping => cases keeping
  | link _ _ short stands _ ih =>
    rw [List.cons_append]
    refine .link (by simp) (by simp) short stands ?_
    rw [← List.append_assoc]
    exact ih found

/-- Steps that end in a name lead to a directory first. What stands in it under the name is
reached, unless it is a link that has to be gone through. -/
theorem Leads.before_name (leads : Leads fs last links place (steps ++ [.enter name]) location) :
    ∃ holder, Leads fs .follow links place (steps ++ [.slash]) holder ∧
      name.utf8ByteSize ≤ maxName ∧
      (location = holder ++ [name] ∧ (fs.item? location = none → last = .create) ∨
        last ≠ .keep ∧ ∃ target, fs.item? (holder ++ [name]) = some (.link target)) := by
  generalize whole : steps ++ [.enter name] = all at leads
  induction leads generalizing steps with
  | here => simp at whole
  | stay _ ih | slash _ ih | up _ ih =>
    cases steps with
    | nil => simp at whole
    | cons step steps =>
      obtain ⟨rfl, rfl⟩ := List.cons.inj whole
      obtain ⟨holder, leads, reached⟩ := ih rfl
      exact ⟨holder, by constructor; exact leads, reached⟩
  | @directory _ place entered _ _ _ short found further ih =>
    cases steps with
    | nil =>
      obtain ⟨same, rfl⟩ := List.cons.inj whole
      cases same
      cases further
      exact ⟨place, .slash .here, short, .inl ⟨rfl, fun absent => by simp [found] at absent⟩⟩
    | cons step steps =>
      obtain ⟨rfl, rfl⟩ := List.cons.inj whole
      obtain ⟨holder, leads, reached⟩ := ih rfl
      exact ⟨holder, .directory (by simp) short found leads, reached⟩
  | @file _ place _ _ short found =>
    obtain ⟨rfl, same⟩ := List.append_eq_singleton_iff.mp whole |>.resolve_right (by simp)
    cases same
    exact ⟨place, .slash .here, short, .inl ⟨rfl, fun absent => by simp [found] at absent⟩⟩
  | @missing _ place _ creating short =>
    obtain ⟨rfl, same⟩ := List.append_eq_singleton_iff.mp whole |>.resolve_right (by simp)
    cases same
    exact ⟨place, .slash .here, short, .inl ⟨rfl, fun _ => creating⟩⟩
  | @kept _ place _ _ _ short found =>
    obtain ⟨rfl, same⟩ := List.append_eq_singleton_iff.mp whole |>.resolve_right (by simp)
    cases same
    exact ⟨place, .slash .here, short, .inl ⟨rfl, fun absent => by simp [found] at absent⟩⟩
  | @link _ place _ _ _ target _ passing short found _ ih =>
    cases steps with
    | nil =>
      obtain ⟨same, rfl⟩ := List.cons.inj whole
      cases same
      exact ⟨place, .slash .here, short, .inr ⟨by simpa using passing, target, found⟩⟩
    | cons step steps =>
      obtain ⟨rfl, rfl⟩ := List.cons.inj whole
      obtain ⟨holder, leads, reached⟩ := ih (List.append_assoc ..)
      rw [List.append_assoc] at leads
      exact ⟨holder, .link (by simp) (by simp) short found leads, reached⟩

/-- From the directory that steps lead to, a name is entered. -/
theorem Leads.enter {holder : Location}
    (leads : Leads fs .follow links place (steps ++ [.slash]) holder)
    (single : ∀ links, Leads fs last links holder [.enter name] location) :
    Leads fs last links place (steps ++ [.enter name]) location := by
  have open_end (steps : List Step) : ¬ (steps ++ [.enter name] = [.slash] ∧ last = .create) := by
    rintro ⟨same, -⟩
    simpa using congrArg List.getLast? same
  generalize whole : steps ++ [.slash] = all at leads
  induction leads generalizing steps with
  | here => simp at whole
  | stay _ ih | up _ ih =>
    cases steps with
    | nil => simp at whole
    | cons step steps =>
      obtain ⟨rfl, rfl⟩ := List.cons.inj whole
      constructor
      exact ih single rfl
  | slash further ih =>
    cases steps with
    | nil =>
      obtain ⟨-, rfl⟩ := List.cons.inj whole
      cases further
      exact single _
    | cons step steps =>
      obtain ⟨rfl, rfl⟩ := List.cons.inj whole
      exact .slash (ih single rfl)
  | directory _ short found _ ih =>
    cases steps with
    | nil => simp at whole
    | cons step steps =>
      obtain ⟨rfl, rfl⟩ := List.cons.inj whole
      exact .directory (open_end steps) short found (ih single rfl)
  | file | missing | kept =>
    have ends := congrArg List.getLast? whole
    simp at ends
  | link _ _ short found _ ih =>
    cases steps with
    | nil => simp at whole
    | cons step steps =>
      obtain ⟨rfl, rfl⟩ := List.cons.inj whole
      rw [List.cons_append]
      refine .link (open_end steps) (by simp) short found ?_
      rw [← List.append_assoc]
      exact ih single (List.append_assoc ..)

end CallAtlas.FileSystem
