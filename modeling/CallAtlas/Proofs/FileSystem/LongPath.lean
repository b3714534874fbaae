import CallAtlas.Proofs.FileSystem.Walk
/-!
Roots that are nearly as long as a path may be. A root can be written with any number of slashes
after it, so that it is just short enough to be looked up and what is right below it is not
(`sourceFiles_slashed`).
-/
namespace CallAtlas

namespace Path

/-- The place where paths start, with slashes after it. -/
def slashed (count : Nat) : String :=
  String.ofList ('.' :: List.replicate count '/')

variable (count : Nat)

@[simp]
theorem toList_slashed : (slashed count).toList = '.' :: List.replicate count '/' :=
  String.toList_ofList

theorem names_slashed : names (slashed count) = ["."] := by
  have stretches : Text.splitChars '/' (List.replicate count '/') =
      List.replicate (count + 1) [] := by
    induction count with
    | zero => rfl
    | succ count ih =>
      rw [List.replicate_succ, Text.splitChars, if_pos rfl, ih, ← List.replicate_succ]
  rw [names, Text.split, toList_slashed, Text.splitChars, if_neg (by decide), stretches,
    List.replicate_succ]
  simp

theorem slashed_succ : slashed (count + 1) = slashed count ++ "/" :=
  String.toList_inj.mp (by simp [List.replicate_succ'])

theorem utf8ByteSize_slashed : (slashed count).utf8ByteSize = count + 1 := by
  induction count with
  | zero => rfl
  | succ count ih =>
    rw [slashed_succ, String.utf8ByteSize_append, ih]
    rfl

@[simp]
theorem asksDirectory_slashed : asksDirectory (slashed (count + 1)) = true := by
  rw [slashed_succ, asksDirectory_append (by decide)]
  rfl

@[simp]
theorem slashed_ne_empty : slashed count ≠ "" := by
  intro empty
  have letters := toList_slashed count
  simp [empty] at letters

theorem join_slashed {name : String} (relative : isAbsolute name = false) :
    join (slashed (count + 1)) name = slashed (count + 1) ++ name := by
  simp [join, relative]

end Path

namespace FileSystem

variable {fs : FileSystem} {count : Nat}

theorem locate_slashed (top : fs.workingDirectory = []) (short : count + 2 ≤ maxPath) :
    fs.locate (Path.slashed (count + 1)) = .ok [] := by
  have start : fs.startOf (Path.slashed (count + 1)) = [] := by simp [startOf, top]
  have steps : Path.steps (Path.slashed (count + 1)) = [.stay, .slash] := by
    rw [Path.steps, Path.names_slashed, Path.asksDirectory_slashed]
    rfl
  rw [locate_eq_ok_iff, start, steps, pathError?_eq_none_iff, Path.utf8ByteSize_slashed]
  refine ⟨⟨?_, Path.slashed_ne_empty _, short⟩, .stay (.slash .here)⟩
  rw [Path.toList_slashed]
  simp

theorem checkRoot_slashed (top : fs.workingDirectory = []) (short : count + 2 ≤ maxPath) :
    fs.checkRoot (Path.slashed (count + 1)) = .ok () := by
  rw [checkRoot_eq_ok_iff, stat, locate_slashed top short]
  rfl

/-- What is right below such a root can be too far away to be looked up. -/
theorem locate_below_slashed {name : String} (named : Path.IsName name)
    (long : maxPath < count + 2 + name.utf8ByteSize) :
    fs.locate (Path.slashed (count + 1) ++ name) = .error .nameTooLong := by
  apply locate_of_tooLong
  · simp [named.writable]
  · rw [String.utf8ByteSize_append, Path.utf8ByteSize_slashed]
    exact long

/-- A walk from the top goes through what is listed there. -/
theorem walk_slashed (top : fs.workingDirectory = []) (short : count + 2 ≤ maxPath) :
    fs.walk false (Path.slashed (count + 1)) = (fs.listing []).flatMap
      (fs.walkEntry false [⟨[], Path.slashed (count + 1)⟩] [] (Path.slashed (count + 1))) := by
  have located := locate_slashed top short
  rw [walk, located]
  exact walkDirectory_of_ok located

/-- A directory right below such a root can be in the way of a walk. -/
theorem sourceFiles_slashed {name : String} {rest : List (String × Item)}
    (top : fs.workingDirectory = []) (short : count + 2 ≤ maxPath) (named : Path.IsName name)
    (listed : fs.listing [] = (name, .directory) :: rest)
    (long : maxPath < count + 2 + name.utf8ByteSize) (language : Language) :
    fs.sourceFiles (Path.slashed (count + 1)) language false =
      .error (.walk (.io (Path.slashed (count + 1) ++ name) .nameTooLong)) := by
  have joined : Path.join (Path.slashed (count + 1)) name = Path.slashed (count + 1) ++ name :=
    Path.join_slashed count (Path.isAbsolute_undivided named.undivided)
  rw [sourceFiles, walk_slashed top short, listed, List.flatMap_cons, walkEntry]
  simp only [joined, walkDirectory_of_error (locate_below_slashed named long)]
  rfl

end FileSystem

end CallAtlas
