import CallAtlas.Proofs.CallGraph.History
import CallAtlas.Proofs.Drawing
import CallAtlas.Proofs.Text.Markup
/-!
Labels in a drawing. Where things are drawn depends on the shape of a graph alone: how many nodes
it has, and between which places its edges run (`spring_unnamed`). So a drawing consists of
segments that the shape determines, with the escaped identifiers between them
(`render_eq_weave`). In the segments there are one circle and one text for each node and at most
one line for each edge, and whatever is looked up by place is there (`LookupsInRange`).
-/
namespace CallAtlas

/-- The graph of a shape: so many nodes without names, and edges between their places. -/
def CallGraph.unnamed (count : Nat) (endpoints : Array (Nat × Nat)) : CallGraph where
  nodes := Array.replicate count ⟨"", none⟩
  endpoints

@[simp]
theorem CallGraph.nodeCount_unnamed (count : Nat) (endpoints : Array (Nat × Nat)) :
    (unnamed count endpoints).nodeCount = count :=
  Array.size_replicate

namespace Layout

variable {rows : Array (List (Nat × Nat))} {graph : CallGraph}

/-- A layout depends on the shape of a graph alone. -/
theorem spring_unnamed (graph : CallGraph) :
    spring graph = spring (.unnamed graph.nodeCount graph.endpoints) := by
  rw [spring, spring, neighbors, neighbors, CallGraph.nodeCount_unnamed]
  rfl

/-- There is a row for each node, and every neighbour in it is a node. -/
structure InRange (count : Nat) (rows : Array (List (Nat × Nat))) : Prop where
  size : rows.size = count
  inside : ∀ row ∈ rows, ∀ neighbor ∈ row, neighbor.1 < count

theorem ListsNeighbors.inRange (lists : ListsNeighbors graph rows) :
    InRange graph.nodeCount rows where
  size := lists.size
  inside := by
    intro row among neighbor listed
    obtain ⟨place, found⟩ := Array.getElem?_of_mem among
    exact ((lists.listed place row found neighbor.1 neighbor.2).mp listed).1

/-- Whatever is looked up by place while a graph is laid out and drawn is there. -/
structure LookupsInRange (graph : CallGraph) : Prop where
  /-- Neighbours are looked up among the places of the nodes. -/
  neighbors : InRange graph.nodeCount (neighbors graph)
  /-- There are as many places as nodes, however often they are moved. -/
  moved : ∀ distance cooling iterations temperature,
    (cool distance (Layout.neighbors graph) cooling iterations temperature
      (circle graph.nodeCount)).size = graph.nodeCount
  /-- Both ends of every edge have a place in the layout. -/
  ends : ∀ ends ∈ graph.endpoints, ends.1 < (spring graph).size ∧ ends.2 < (spring graph).size

theorem lookupsInRange (consistent : graph.Consistent) : LookupsInRange graph := by
  have inside : ∀ ends ∈ graph.endpoints.toList,
      ends.1 < graph.nodeCount ∧ ends.2 < graph.nodeCount := by
    have bounds := consistent.inside
    rwa [CallGraph.length_ids] at bounds
  constructor
  · exact (listsNeighbors consistent).inRange
  · intro distance cooling iterations temperature
    rw [size_cool, circle, Array.size_map, Array.size_range]
  · intro ends among
    rw [size_spring]
    exact inside ends (Array.mem_toList_iff.mpr among)

end Layout

namespace Drawing

open Text.Xml

/-- Segments of text in turn with the labels that stand between them. -/
def weave : List String → List String → String
  | segment :: segments, label :: labels => segment ++ label ++ weave segments labels
  | segments, labels => String.join segments ++ String.join labels

/-- The segments of a drawing from some point on: what is left to write before the next label, and
the places of the labels to come. -/
def segmentsFrom (before : String) : List Point → List String
  | [] => [before ++ closing]
  | point :: points => (before ++ labelStart point) :: segmentsFrom labelStop points

def placesOf (count : Nat) (endpoints : Array (Nat × Nat)) : Array Point :=
  (Layout.spring (.unnamed count endpoints)).map toCanvas

def unlabelled (points : Array Point) (endpoints : List (Nat × Nat)) : String :=
  opening ++ String.join (endpoints.filterMap (arrow? points)) ++
    String.join (points.toList.map circle)

def segments (count : Nat) (endpoints : Array (Nat × Nat)) : List String :=
  segmentsFrom (unlabelled (placesOf count endpoints) endpoints.toList)
    (placesOf count endpoints).toList

theorem length_placesOf (count : Nat) (endpoints : Array (Nat × Nat)) :
    (placesOf count endpoints).toList.length = count := by
  rw [Array.length_toList, placesOf, Array.size_map, Layout.size_spring,
    CallGraph.nodeCount_unnamed]

theorem length_segmentsFrom (before : String) (points : List Point) :
    (segmentsFrom before points).length = points.length + 1 := by
  induction points generalizing before with
  | nil => rfl
  | cons point points ih => rw [segmentsFrom, List.length_cons, ih, List.length_cons]

theorem length_segments (count : Nat) (endpoints : Array (Nat × Nat)) :
    (segments count endpoints).length = count + 1 := by
  rw [segments, length_segmentsFrom, length_placesOf]

/-- The labels at some places, after what stands before them. -/
theorem weave_segmentsFrom (before : String) {labels : List String} {points : List Point}
    (each : labels.length = points.length) :
    weave (segmentsFrom before points) labels =
      before ++ String.join ((labels.zip points).map fun (label, point) =>
        labelStart point ++ label ++ labelStop) ++ closing := by
  induction points generalizing before labels with
  | nil =>
    obtain rfl := List.length_eq_zero_iff.mp each
    simp [segmentsFrom, weave]
  | cons point points ih =>
    obtain ⟨label, rest, rfl⟩ := List.exists_cons_of_length_eq_add_one each
    rw [segmentsFrom, weave, ih labelStop (Nat.succ.inj each)]
    simp [String.append_assoc]

/-- A drawing is the segments of its shape, with the escaped identifiers between them. -/
theorem render_eq_weave (graph : CallGraph) :
    render graph =
      weave (segments graph.nodeCount graph.endpoints) (graph.ids.map escape) := by
  have each : (graph.ids.map escape).length =
      (placesOf graph.nodeCount graph.endpoints).toList.length := by
    rw [List.length_map, CallGraph.length_ids, length_placesOf, CallGraph.nodeCount]
  rw [segments, weave_segmentsFrom _ each, unlabelled, placesOf, ← Layout.spring_unnamed, render]
  simp only [CallGraph.ids, List.zip_map_left, List.map_map]
  rfl

/-- The tags that are counted: a line for an edge, a circle and a text for a node, and the end
of the text. -/
def counted : List String := ["line", "circle", "text", "/text"]

variable {name : String}

theorem plain_of_counted (known : name ∈ counted) : '<' ∉ name.toList := by
  have plain : ∀ name ∈ counted, '<' ∉ name.toList := by decide
  exact plain name known

/-- No two of the tags start alike. -/
theorem apart_of_counted {other : String} (known : name ∈ counted) (also : other ∈ counted) :
    name.toList <+: other.toList ∨ other.toList <+: name.toList → name = other := by
  have apart : ∀ name ∈ counted, ∀ other ∈ counted,
      name.toList <+: other.toList ∨ other.toList <+: name.toList → name = other := by decide
  exact apart name known other also

theorem tagCount_arrow (known : name ∈ counted) (start stop : Point) :
    tagCount name (arrow start stop) = if name = "line" then 1 else 0 := by
  rw [arrow_eq, Tag.alone, String.append_assoc]
  have also : "line" ∈ counted := by decide
  exact (arrowTag start stop).tagCount_eq (by decide) (apart_of_counted known also)

theorem tagCount_circle (known : name ∈ counted) (point : Point) :
    tagCount name (circle point) = if name = "circle" then 1 else 0 := by
  rw [circle_eq, Tag.alone, String.append_assoc]
  have also : "circle" ∈ counted := by decide
  exact (circleTag point).tagCount_eq (by decide) (apart_of_counted known also)

theorem tagCount_labelStart (known : name ∈ counted) (point : Point) :
    tagCount name (labelStart point) = if name = "text" then 1 else 0 := by
  rw [labelStart_eq]
  have also : "text" ∈ counted := by decide
  exact (labelTag point).tagCount_eq (by decide) (apart_of_counted known also)

/-- The start of a drawing, tag by tag. -/
def openingTags : List String :=
  ["<" ++ rootTag.write ++ (">" ++ "\n"), "<" ++ definitionsTag.write ++ ">",
    "<" ++ headTag.write ++ ">", "<" ++ strokeTag.write ++ "/>", "</" ++ headTag.name ++ ">",
    "</" ++ definitionsTag.name ++ (">" ++ "\n"), "<" ++ backgroundTag.write ++ ("/>" ++ "\n")]

theorem opening_eq_join : opening = String.join openingTags := by
  rw [opening_eq]
  simp only [ground, openingTags, Tag.around, Tag.alone, String.join_cons, String.join_nil,
    String.append_assoc, String.append_empty]

theorem startsTag_openingTags : ∀ tag ∈ openingTags, StartsTag tag := by
  simp only [openingTags, String.append_assoc, List.forall_mem_cons, startsTag_open,
    startsTag_close, List.not_mem_nil, false_imp_iff, implies_true, and_self]

/-- A tag of another kind does not count. -/
theorem tagCount_other (known : name ∈ counted) (tag : Tag) {after : String}
    (plain : '<' ∉ after.toList) (other : tag.name ∈ ["svg", "defs", "marker", "path", "rect"]) :
    tagCount name ("<" ++ tag.write ++ after) = 0 := by
  have unlike : ∀ name ∈ counted, ∀ other ∈ ["svg", "defs", "marker", "path", "rect"],
      ¬ (name.toList <+: other.toList ∨ other.toList <+: name.toList) := by decide
  have apart := unlike name known tag.name other
  rw [tag.tagCount_eq plain fun alike => absurd alike apart, if_neg]
  intro same
  simp [same] at apart

theorem tagCount_opening (known : name ∈ counted) : tagCount name opening = 0 := by
  have ends : ∀ name ∈ counted, tagCount name ("</" ++ headTag.name ++ ">") = 0 ∧
      tagCount name ("</" ++ definitionsTag.name ++ (">" ++ "\n")) = 0 := by decide
  have bare : '<' ∉ (">" ++ "\n").toList ∧ '<' ∉ ">".toList ∧ '<' ∉ "/>".toList ∧
      '<' ∉ ("/>" ++ "\n").toList := by decide
  obtain ⟨line, wide, alone, last⟩ := bare
  rw [opening_eq_join, tagCount_join (plain_of_counted known) startsTag_openingTags, openingTags]
  simp only [List.map_cons, List.map_nil, tagCount_other known rootTag line (by decide),
    tagCount_other known definitionsTag wide (by decide),
    tagCount_other known headTag wide (by decide), tagCount_other known strokeTag alone (by decide),
    tagCount_other known backgroundTag last (by decide), ends name known]
  rfl

/-- The ends of texts are counted, and not that of the drawing. -/
theorem tagCount_ends (known : name ∈ counted) :
    tagCount name closing = 0 ∧ tagCount name labelStop = if name = "/text" then 1 else 0 := by
  have fixed : ∀ name ∈ counted, tagCount name closing = 0 ∧
      tagCount name labelStop = if name = "/text" then 1 else 0 := by decide
  exact fixed name known

theorem startsTag_arrow (start stop : Point) : StartsTag (arrow start stop) := by
  rw [arrow_eq, Tag.alone, String.append_assoc, String.append_assoc]
  exact startsTag_open _

theorem startsTag_circle (point : Point) : StartsTag (circle point) := by
  rw [circle_eq, Tag.alone, String.append_assoc, String.append_assoc]
  exact startsTag_open _

theorem startsTag_labelStart (point : Point) : StartsTag (labelStart point) := by
  rw [labelStart_eq, String.append_assoc]
  exact startsTag_open _

theorem startsTag_closing : StartsTag closing :=
  startsTag_close "svg>\n"

/-- In the segments, what stands before the labels counts, and then each label with its end. -/
theorem tagCount_segmentsFrom (known : name ∈ counted) (before : String) (points : List Point) :
    ((segmentsFrom before points).map (tagCount name)).sum =
      tagCount name before +
        points.length * ((if name = "text" then 1 else 0) + if name = "/text" then 1 else 0) := by
  have plain := plain_of_counted known
  obtain ⟨none, stop⟩ := tagCount_ends known
  induction points generalizing before with
  | nil => simp [segmentsFrom, tagCount_append plain startsTag_closing, none]
  | cons point points ih =>
    rw [segmentsFrom, List.map_cons, List.sum_cons, ih, stop,
      tagCount_append plain (startsTag_labelStart point), tagCount_labelStart known]
    rw [List.length_cons, Nat.add_mul, Nat.one_mul]
    omega

theorem exists_arrow {points : Array Point} {endpoints : List (Nat × Nat)} {text : String}
    (listed : text ∈ endpoints.filterMap (arrow? points)) :
    ∃ start stop, text = arrow start stop := by
  obtain ⟨ends, -, drawn⟩ := List.mem_filterMap.mp listed
  rw [arrow?] at drawn
  split at drawn
  · obtain ⟨⟨start, stop⟩, -, same⟩ := Option.map_eq_some_iff.mp drawn
    exact ⟨start, stop, same.symm⟩
  · cases drawn

/-- What stands before the labels: a line for each edge that is drawn, and a circle for each
node. -/
theorem tagCount_unlabelled (known : name ∈ counted) (points : Array Point)
    (endpoints : List (Nat × Nat)) :
    tagCount name (unlabelled points endpoints) =
      (endpoints.filterMap (arrow? points)).length * (if name = "line" then 1 else 0) +
        points.toList.length * if name = "circle" then 1 else 0 := by
  have plain := plain_of_counted known
  have arrows : ∀ text ∈ endpoints.filterMap (arrow? points),
      StartsTag text ∧ tagCount name text = if name = "line" then 1 else 0 := by
    intro text listed
    obtain ⟨start, stop, rfl⟩ := exists_arrow listed
    exact ⟨startsTag_arrow start stop, tagCount_arrow known start stop⟩
  have circles : ∀ text ∈ points.toList.map circle,
      StartsTag text ∧ tagCount name text = if name = "circle" then 1 else 0 := by
    intro text listed
    obtain ⟨point, -, rfl⟩ := List.mem_map.mp listed
    exact ⟨startsTag_circle point, tagCount_circle known point⟩
  rw [unlabelled, tagCount_append plain (startsTag_join fun text listed => (circles text listed).1),
    tagCount_append plain (startsTag_join fun text listed => (arrows text listed).1),
    tagCount_opening known,
    tagCount_join_of_each plain (fun text listed => (arrows text listed).1)
      fun text listed => (arrows text listed).2,
    tagCount_join_of_each plain (fun text listed => (circles text listed).1)
      fun text listed => (circles text listed).2,
    List.length_map, Nat.zero_add]

structure Frames (segments : List String) (nodes edges : Nat) : Prop where
  /-- A label stands between each two of them. -/
  length : segments.length = nodes + 1
  circles : (segments.map (tagCount "circle")).sum = nodes
  texts : (segments.map (tagCount "text")).sum = nodes
  textEnds : (segments.map (tagCount "/text")).sum = nodes
  lines : (segments.map (tagCount "line")).sum ≤ edges

theorem frames_segments (count : Nat) (endpoints : Array (Nat × Nat)) :
    Frames (segments count endpoints) count endpoints.size := by
  let lines := (endpoints.toList.filterMap (arrow? (placesOf count endpoints))).length
  have drawn : lines ≤ endpoints.size := List.length_filterMap_le ..
  have total (name : String) (known : name ∈ counted) :
      ((segments count endpoints).map (tagCount name)).sum =
        lines * (if name = "line" then 1 else 0) + count * (if name = "circle" then 1 else 0) +
          count * ((if name = "text" then 1 else 0) + if name = "/text" then 1 else 0) := by
    rw [segments, tagCount_segmentsFrom known, tagCount_unlabelled known, length_placesOf]
  constructor
  · exact length_segments count endpoints
  · simp [total "circle" (by decide)]
  · simp [total "text" (by decide)]
  · simp [total "/text" (by decide)]
  · simpa [total "line" (by decide)] using drawn

/-- Labels are filled into segments that the shape of a graph determines, and cannot add markup
to them. -/
theorem labels_only_fill_in (count : Nat) (endpoints : Array (Nat × Nat)) :
    ∃ segments : List String, Frames segments count endpoints.size ∧
      (∀ graph : CallGraph, graph.nodeCount = count → graph.endpoints = endpoints →
        render graph = weave segments (graph.ids.map escape)) ∧
      (∀ operations, Layout.LookupsInRange (CallGraph.run operations)) ∧
      ∀ text : String, (∀ c ∈ ['<', '>', '"'], c ∉ (escape text).toList) ∧
        RefersOnly (escape text).toList ∧ unescape (escape text) = text := by
  refine ⟨segments count endpoints, frames_segments count endpoints, ?_, ?_, ?_⟩
  · intro graph nodes ends
    rw [render_eq_weave, nodes, ends]
  · intro operations
    exact Layout.lookupsInRange (CallGraph.follows_run operations).consistent
  · intro text
    exact ⟨not_mem_escape text, refersOnly_escape text, unescape_escape text⟩

/-- A graph of two nodes, the first of which calls the second. -/
def oneCall (caller callee : String) : CallGraph where
  nodes := #[⟨caller, none⟩, ⟨callee, none⟩]
  endpoints := #[(0, 1)]

/-- Names that look like markup stand where plain ones do. -/
theorem markupNames_fill_in :
    ∃ segments, Frames segments 2 1 ∧ render (oneCall "a" "b") = weave segments ["a", "b"] ∧
      render (oneCall "</text>" "&lt;") = weave segments ["&lt;/text&gt;", "&amp;lt;"] := by
  obtain ⟨segments, frames, filled, -⟩ := labels_only_fill_in 2 #[(0, 1)]
  have plain : (oneCall "a" "b").ids.map escape = ["a", "b"] := by decide
  have marked : (oneCall "</text>" "&lt;").ids.map escape = ["&lt;/text&gt;", "&amp;lt;"] := by
    decide
  refine ⟨segments, frames, ?_, ?_⟩
  · rw [filled _ rfl rfl, plain]
  · rw [filled _ rfl rfl, marked]

end Drawing

end CallAtlas
