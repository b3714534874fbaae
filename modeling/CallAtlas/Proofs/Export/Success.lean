import CallAtlas.Proofs.CallGraph.Consistency
import CallAtlas.Proofs.Drawing
import CallAtlas.Proofs.Export.Atomicity
/-!
When an export succeeds. If the output directory can be made and nothing in it bears a name of
the run, every file of the run can be written (`writes_of_absent`). Then only the drawing can
be in the way. It is refused exactly if an identifier has a character in it that XML does not
allow, because escaping gives such a character no other form; and for the sake of one label
the document and the table of the run are given up as well.
-/
namespace CallAtlas.FileSystem

open Text.Xml

variable {fs after : FileSystem} {out runId name : String} {encode : ImageEncoder}
  {graph : CallGraph} {files : List (String × File)}

/-- The output directory of a run can be made, its files have names that a directory can hold, as
any identifier of hexadecimal digits and dashes gives them, and nothing stands in their places. -/
structure HasRoom (fs : FileSystem) (out runId : String) : Prop where
  made : (fs.makeDirectories out).2 = .ok ()
  named : ∀ extension ∈ Artifacts.extensions, Path.IsName (runId ++ extension)
  absent : ∀ path ∈ (Artifacts.ofRun out runId true).paths,
    (fs.makeDirectories out).1.lstat path = .error .notFound

/-- A path at which nothing is found, in a directory that is there, means a missing entry. -/
theorem isEntry_of_absent (named : Path.IsName name) (there : out = "" ∨ fs.isDirectory out = true)
    (absent : fs.lstat (Path.join out name) = .error .notFound) :
    ∃ holder, fs.IsEntry (Path.join out name) holder name ∧
      fs.item? (holder ++ [name]) = none := by
  have writable : pathError? (Path.join out name) = none := by
    cases refused : pathError? (Path.join out name) with
    | none => rfl
    | some cause =>
      -- The only path that is refused as not found is the empty one.
      rw [lstat, locate, refused] at absent
      obtain rfl : cause = .notFound := Except.error.inj absent
      have empty : Path.join out name = "" := by
        by_contra filled
        rw [pathError?, if_neg filled] at refused
        split at refused
        · cases refused
        · split at refused <;> cases refused
      exact absurd empty (named.endsIn_join out).filled
  have entry : ∃ holder, fs.IsEntry (Path.join out name) holder name := by
    rcases there with rfl | directory
    · refine ⟨fs.startOf (Path.join "" name), named.endsIn_join "",
        holder_eq_ok_iff.mpr ⟨writable, ?_⟩, named.short⟩
      rw [named.names_join, List.dropLast_concat, Path.names_empty]
      exact .slash .here
    · obtain ⟨location, located, found⟩ := isDirectory_iff.mp directory
      exact ⟨location, isEntry_join named located found writable⟩
  obtain ⟨holder, entry⟩ := entry
  refine ⟨holder, entry, ?_⟩
  cases found : fs.item? (holder ++ [name]) with
  | none => rfl
  | some item =>
    rw [entry.lstat_eq found] at absent
    cases absent

/-- Files can be written one after another to different places where nothing stands. -/
theorem writes_of_absent (absent : ∀ file ∈ files, ∃ holder name,
      fs.IsEntry file.1 holder name ∧ fs.item? (holder ++ [name]) = none)
    (apart : Path.EndApart (files.map (·.1))) : ∃ after, Writes fs files after := by
  induction files generalizing fs with
  | nil => exact ⟨fs, .nil fs⟩
  | cons file rest ih =>
    obtain ⟨path, file⟩ := file
    obtain ⟨different, apart⟩ := List.pairwise_cons.mp apart
    obtain ⟨holder, name, entry, nothing⟩ := absent _ List.mem_cons_self
    have grows := grows_put nothing (.file file)
    have still : ∀ other ∈ rest, ∃ place last,
        (fs.put (holder ++ [name]) (.file file)).IsEntry other.1 place last ∧
          (fs.put (holder ++ [name]) (.file file)).item? (place ++ [last]) = none := by
      intro other among
      obtain ⟨place, last, there, missing⟩ := absent other (.tail _ among)
      have other_name : last ≠ name := by
        rintro rfl
        exact different other.1 (List.mem_map_of_mem among) (by rw [entry.ends.last, there.ends.last])
      refine ⟨place, last, there.mono grows.keeps, ?_⟩
      rw [grows.item?_eq, missing, Option.none_or]
      simp [other_name]
    obtain ⟨after, writes⟩ := ih still apart
    exact ⟨after, .cons (entry.fileLocation_eq nothing) writes⟩

theorem writeImage_of_accepted {path : String} (accepted : offence? (Drawing.render graph) = none) :
    fs.writeImage encode graph path =
      fs.writeArtifact (fun refusal => .image refusal.cause) path (encode (Drawing.render graph))
        none := by
  unfold writeImage
  generalize Drawing.render graph = scene at accepted ⊢
  simp only [accepted, Option.map_none]

theorem writeImage_of_offence {path : String} {offence : Offence}
    (refused : offence? (Drawing.render graph) = some offence) :
    fs.writeImage encode graph path = (fs, .error (.render (.scene offence))) := by
  unfold writeImage
  generalize Drawing.render graph = scene at refused ⊢
  simp only [refused, Option.map_some]

/-- With a drawing that is accepted, an export succeeds if its files can be written. -/
theorem exportAs_of_writes (accepted : offence? (Drawing.render graph) = none)
    (writes : Writes fs ((Artifacts.ofRun out runId true).files encode graph) after) :
    fs.exportAs encode graph out runId true = (after, .ok (.ofRun out runId true)) := by
  obtain - | ⟨drawn, - | ⟨linked, - | ⟨tabled, done⟩⟩⟩ := writes
  cases done
  dsimp only [Artifacts.ofRun] at linked tabled
  simp only [exportAs, writeArtifacts, writeImage?, Artifacts.ofRun, if_true,
    writeImage_of_accepted accepted, writeNodeLink, writeFlatTable, writeArtifact, write, drawn,
    linked, tabled, Except.mapError]

/-- Nothing is left of an export whose drawing is refused. -/
theorem exportAs_of_offence {offence : Offence}
    (refused : offence? (Drawing.render graph) = some offence)
    (free : ∀ path ∈ (Artifacts.ofRun out runId true).paths, fs.IsFree path) :
    fs.exportAs encode graph out runId true = (fs, .error (.render (.scene offence))) := by
  have failed : (fs.exportAs encode graph out runId true).2 =
      .error (.render (.scene offence)) := by
    simp only [exportAs, writeArtifacts, writeImage?, Artifacts.ofRun, if_true,
      writeImage_of_offence refused]
  rcases exportAs_cases encode graph {} free with ⟨cause, left⟩ | ⟨_, _, -, -, done⟩
  · rw [left] at failed ⊢
    rw [show cause = .render (.scene offence) from Except.error.inj failed]
  · rw [done] at failed
    cases failed

section Room

variable (room : fs.HasRoom out runId) (encode) (graph)
include room

theorem HasRoom.exportRun_eq :
    fs.exportRun encode graph out runId true =
      (fs.makeDirectories out).1.exportAs encode graph out runId true := by
  have made := room.made
  rw [exportRun]
  generalize fs.makeDirectories out = result at made ⊢
  obtain ⟨reached, outcome⟩ := result
  subst made
  rfl

theorem HasRoom.free : ∀ path ∈ (Artifacts.ofRun out runId true).paths,
    (fs.makeDirectories out).1.IsFree path := by
  intro path among
  simp [IsFree, room.absent path among]

/-- Where there is room for a run, all its files can be written. -/
theorem HasRoom.writes : ∃ after, Writes (fs.makeDirectories out).1
    ((Artifacts.ofRun out runId true).files encode graph) after := by
  refine writes_of_absent (fun file listed => ?_) (Artifacts.files_apart encode graph)
  have among := (Artifacts.mem_paths_iff encode graph _ file.1).mpr ⟨file.2, listed⟩
  have spelled : ∃ extension ∈ Artifacts.extensions,
      file.1 = Path.join out (runId ++ extension) := by
    simpa [Artifacts.paths, Artifacts.ofRun, Artifacts.extensions, or_assoc] using among
  obtain ⟨extension, known, spelled⟩ := spelled
  have nothing := room.absent _ among
  rw [spelled] at nothing ⊢
  obtain ⟨holder, missing⟩ := isEntry_of_absent (room.named extension known)
    (isDirectory_of_makeDirectories room.made) nothing
  exact ⟨holder, _, missing⟩

theorem HasRoom.exportRun_of_writable (writable : Drawing.Writable graph) :
    ∃ after, fs.exportRun encode graph out runId true = (after, .ok (.ofRun out runId true)) ∧
      (fs.makeDirectories out).1.AddsFiles after
        ((Artifacts.ofRun out runId true).files encode graph) := by
  have accepted : offence? (Drawing.render graph) = none :=
    offence?_eq_none_iff.mpr (Drawing.document_render writable).allowed
  obtain ⟨after, writes⟩ := room.writes encode graph
  have done := exportAs_of_writes accepted writes
  rw [room.exportRun_eq]
  rcases exportAs_cases encode graph {} room.free with
    ⟨cause, failed⟩ | ⟨_, added, grows, stores, also⟩
  · rw [done] at failed
    cases failed
  · exact ⟨_, also, stores.addsFiles grows (Artifacts.files_apart encode graph)⟩

theorem HasRoom.exportRun_of_not_writable (refused : ¬ Drawing.Writable graph) :
    ∃ offence, fs.exportRun encode graph out runId true =
        ((fs.makeDirectories out).1, .error (.render (.scene offence))) ∧
      isAllowed offence.char = false ∧
      ∃ node ∈ graph.nodes, offence.char ∈ node.id.toList := by
  cases found : offence? (Drawing.render graph) with
  | none => exact absurd (Drawing.writable_of_allAllowed (offence?_eq_none_iff.mp found)) refused
  | some offence =>
    obtain ⟨inside, refused⟩ := offenceFrom?_eq_some found
    refine ⟨offence, ?_, refused, (Drawing.mem_render_iff refused).mp inside⟩
    rw [room.exportRun_eq, exportAs_of_offence found room.free]

end Room

/-- Where there is room for a run, its export with an image adds all three files if its drawing is
an XML document, that is, if XML can write the identifiers of all nodes. Otherwise it fails
because of a character of an identifier, and leaves no file. -/
theorem exportRun_decided_by_labels (fs : FileSystem) (encode : ImageEncoder)
    (graph : CallGraph) (out runId : String) (room : fs.HasRoom out runId) :
    (Document (Drawing.render graph) ↔ Drawing.Writable graph) ∧
    (Drawing.Writable graph →
      ∃ after, fs.exportRun encode graph out runId true = (after, .ok (.ofRun out runId true)) ∧
        (fs.makeDirectories out).1.AddsFiles after
          ((Artifacts.ofRun out runId true).files encode graph)) ∧
    (¬ Drawing.Writable graph →
      ∃ offence, fs.exportRun encode graph out runId true =
          ((fs.makeDirectories out).1, .error (.render (.scene offence))) ∧
        isAllowed offence.char = false ∧
        ∃ node ∈ graph.nodes, offence.char ∈ node.id.toList) :=
  ⟨Drawing.document_render_iff, room.exportRun_of_writable encode graph,
    room.exportRun_of_not_writable encode graph⟩

theorem empty_hasRoom : HasRoom {} "out" "run" where
  made := rfl
  named := by
    intro extension known
    simp only [Artifacts.extensions, List.mem_cons, List.not_mem_nil, or_false] at known
    rcases known with rfl | rfl | rfl <;>
      exact ⟨⟨by decide, by decide, by decide, by decide, by decide⟩, by decide⟩
  absent := by
    have paths : (Artifacts.ofRun "out" "run" true).paths =
        ["out/run.json", "out/run.csv", "out/run.png"] := by rfl
    rw [paths]
    simp only [List.forall_mem_cons]
    exact ⟨rfl, rfl, rfl, by simp⟩

/-- The graph of one definition. -/
theorem mem_nodes_singleton {definition : Definition} {node : CallGraph.Node} :
    node ∈ (CallGraph.empty.addDefinition definition).nodes ↔ node = .ofDefinition definition := by
  have fresh : definition.id ∉ CallGraph.empty.ids := by simp [CallGraph.ids, CallGraph.empty]
  rw [← Array.mem_toList_iff,
    CallGraph.nodes_addDefinition_fresh CallGraph.consistent_empty fresh]
  simp [CallGraph.empty]

/-- A class `C` with a method whose name is a quoted piece of markup. -/
def markupLabel : CallGraph :=
  .addDefinition .empty (.ofName "\"<&>\"" (some "C") "m.js")

/-- Markup in an identifier does no harm. -/
theorem markupLabel_exported : HasRoom {} "out" "run" ∧ Drawing.Writable markupLabel ∧
    ∀ encode, ∃ after, exportRun {} encode markupLabel "out" "run" true =
        (after, .ok (.ofRun "out" "run" true)) ∧
      (makeDirectories {} "out").1.AddsFiles after
        ((Artifacts.ofRun "out" "run" true).files encode markupLabel) := by
  have writable : Drawing.Writable markupLabel := by
    intro node among
    obtain rfl := mem_nodes_singleton.mp among
    decide
  exact ⟨empty_hasRoom, writable, fun encode =>
    (exportRun_decided_by_labels {} encode markupLabel "out" "run" empty_hasRoom).2.1
      writable⟩

/-- A class `C` with a method whose name is a quoted control character. -/
def controlLabel : CallGraph :=
  .addDefinition .empty (.ofName "\"\x01\"" (some "C") "m.js")

/-- One control character in an identifier, and nothing is exported. -/
theorem controlLabel_refused : HasRoom {} "out" "run" ∧
    ∀ encode, ∃ offence, offence.char = Char.ofNat 1 ∧
      exportRun {} encode controlLabel "out" "run" true =
        ((makeDirectories {} "out").1, .error (.render (.scene offence))) := by
  have refused : ¬ Drawing.Writable controlLabel := by
    intro writable
    have allowed := writable _ (mem_nodes_singleton.mpr rfl)
    revert allowed
    decide
  have single : (CallGraph.Node.ofDefinition (.ofName "\"\x01\"" (some "C") "m.js")).id.toList.all
      (fun c => isAllowed c || c == Char.ofNat 1) = true := by decide
  refine ⟨empty_hasRoom, fun encode => ?_⟩
  obtain ⟨offence, failed, bad, node, among, inside⟩ :=
    empty_hasRoom.exportRun_of_not_writable encode controlLabel refused
  obtain rfl := mem_nodes_singleton.mp among
  refine ⟨offence, ?_, failed⟩
  simpa [bad] using List.all_eq_true.mp single _ inside

end CallAtlas.FileSystem
