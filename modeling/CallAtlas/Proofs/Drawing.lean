import CallAtlas.Drawing
import CallAtlas.Proofs.Json.Number
import CallAtlas.Proofs.Layout
import CallAtlas.Proofs.Text.Xml
/-!
The drawing of a call graph as an XML document. Every node has a place in the layout
(`size_spring`), so every label is drawn. All else in a drawing is markup around numbers, and
its characters do no harm. So a drawing is a document exactly if XML can write the identifiers
of its nodes (`document_render_iff`), and if it cannot, one of their characters is to blame
(`mem_render_iff`). Only the form of the numbers matters here, and not what they are.
-/
namespace CallAtlas

namespace Drawing

open Text.Xml

theorem isQuotable_of_isDigit {c : Char} (digit : c.isDigit = true) : isQuotable c = true := by
  have allowed : isAllowed c = true := isAllowed_of_isNameChar (by simp [isNameChar, digit])
  have markup : ∀ markup ∈ ['<', '&', '"'], c ≠ markup := by
    have none : ['<', '&', '"'].all (fun markup => !markup.isDigit) = true := by decide
    rintro _ among rfl
    simpa [digit] using List.all_eq_true.mp none _ among
  simp only [List.forall_mem_cons] at markup
  simp [isQuotable, allowed, markup]

theorem quotable_placed (n places : Nat) :
    (Decimal.placed n places).toList.all isQuotable = true := by
  have digits {text : List Char} (all : ∀ c ∈ text, c.isDigit = true) :
      text.all isQuotable = true :=
    List.all_eq_true.mpr fun c inside => isQuotable_of_isDigit (all c inside)
  by_cases whole : places = 0
  · rw [whole, Json.toList_placed_zero]
    exact digits (Json.isDigit_toDigits n)
  · rw [Json.toList_placed n whole, List.all_append, List.all_cons,
      digits (Json.isDigit_toDigits _), digits (Json.isDigit_fractionDigits n places)]
    decide

/-- A number can stand between quotes. -/
@[simp]
theorem quotable_render (format : Decimal.Format) (x : Float) :
    (format.render x).toList.all isQuotable = true := by
  rw [Decimal.Format.render]
  cases Decimal.Value.ofBits x.toBits with
  | nan => simp only [Decimal.Format.write]; decide
  | infinite negative => cases negative <;> simp only [Decimal.Format.write] <;> decide
  | finite negative mantissa exponent =>
    simp only [Decimal.Format.write, String.toList_append, List.all_append, Bool.and_eq_true]
    refine ⟨?_, quotable_placed _ _⟩
    split <;> decide

def arrowTag (start stop : Point) : Tag where
  name := "line"
  attributes := [("x1", coordinate.render start.x), ("y1", coordinate.render start.y),
    ("x2", coordinate.render stop.x), ("y2", coordinate.render stop.y), ("stroke", "black"),
    ("stroke-width", "1"), ("marker-end", "url(#arrow)")]
  values := by
    simp only [List.map_cons, List.map_nil, List.forall_mem_cons, quotable_render, true_and]
    decide

theorem arrow_eq (start stop : Point) : arrow start stop = (arrowTag start stop).alone ++ "\n" := by
  -- An equation lemma for so long a text is slow to make.
  delta arrow
  apply String.toList_inj.mp
  simp only [arrowTag, Tag.alone, Tag.write, Tag.assignment, List.map_cons, List.map_nil,
    String.join_cons, String.join_nil, String.toList_append, List.append_assoc]
  rfl

def circleTag (point : Point) : Tag where
  name := "circle"
  attributes := [("cx", coordinate.render point.x), ("cy", coordinate.render point.y), ("r", "14"),
    ("fill", "#add8e6"), ("stroke", "black"), ("stroke-width", "0.25")]
  values := by
    simp only [List.map_cons, List.map_nil, List.forall_mem_cons, quotable_render, true_and]
    decide

theorem circle_eq (point : Point) : circle point = (circleTag point).alone ++ "\n" := by
  delta circle
  apply String.toList_inj.mp
  simp only [circleTag, Tag.alone, Tag.write, Tag.assignment, List.map_cons, List.map_nil,
    String.join_cons, String.join_nil, String.toList_append, List.append_assoc]
  rfl

def labelTag (point : Point) : Tag where
  name := "text"
  attributes := [("x", coordinate.render point.x), ("y", coordinate.render point.y),
    ("font-family", "sans-serif"), ("font-size", "11"), ("text-anchor", "middle"),
    ("dominant-baseline", "central")]
  values := by
    simp only [List.map_cons, List.map_nil, List.forall_mem_cons, quotable_render, true_and]
    decide

theorem labelStart_eq (point : Point) : labelStart point = "<" ++ (labelTag point).write ++ ">" := by
  delta labelStart
  apply String.toList_inj.mp
  simp only [labelTag, Tag.write, Tag.assignment, List.map_cons, List.map_nil, String.join_cons,
    String.join_nil, String.toList_append, List.append_assoc]
  rfl

theorem label_eq (id : String) (point : Point) :
    label id point = (labelTag point).around (escape id) ++ "\n" := by
  have stop : labelStop = "</" ++ (labelTag point).name ++ ">" ++ "\n" := by rfl
  rw [label, labelStart_eq, stop, Tag.around]
  simp only [String.append_assoc]

def rootTag : Tag where
  name := "svg"
  attributes := [("xmlns", "http://www.w3.org/2000/svg"), ("width", "2400"), ("height", "2400"),
    ("viewBox", "0 0 2400 2400")]

def headTag : Tag where
  name := "marker"
  attributes := [("id", "arrow"), ("viewBox", "0 0 10 10"), ("refX", "10"), ("refY", "5"),
    ("markerWidth", "8"), ("markerHeight", "8"), ("markerUnits", "userSpaceOnUse"),
    ("orient", "auto")]

def strokeTag : Tag where
  name := "path"
  attributes := [("d", "M0,0 L10,5 L0,10"), ("fill", "none"), ("stroke", "black"),
    ("stroke-width", "1.5")]

def backgroundTag : Tag where
  name := "rect"
  attributes := [("width", "100%"), ("height", "100%"), ("fill", "white")]

def definitionsTag : Tag where
  name := "defs"
  attributes := []

/-- What stands in a drawing before its arrows. -/
def ground : String :=
  "\n" ++ definitionsTag.around (headTag.around strokeTag.alone) ++ "\n" ++
    backgroundTag.alone ++ "\n"

theorem opening_eq : opening = "<" ++ rootTag.write ++ ">" ++ ground := by
  decide +kernel

theorem content_ground : Content ground :=
  have head := definitionsTag.content_around (headTag.content_around strokeTag.content_alone)
  (((content_newline.append head).append content_newline).append
    backgroundTag.content_alone).append content_newline

def figures (graph : CallGraph) : String :=
  let points := (Layout.spring graph).map toCanvas
  String.join (graph.endpoints.toList.filterMap (arrow? points)) ++
    String.join (points.toList.map circle) ++
    String.join ((graph.nodes.toList.zip points.toList).map fun (node, point) =>
      label node.id point)

/-- A drawing is one element around its ground and its figures. -/
theorem render_eq (graph : CallGraph) :
    render graph = rootTag.around (ground ++ figures graph) ++ "\n" := by
  have ending : closing = "</" ++ rootTag.name ++ ">" ++ "\n" := by decide +kernel
  simp only [render, opening_eq, ending, figures, Tag.around, String.append_assoc]

theorem content_arrows (points : Array Point) (ends : List (Nat × Nat)) :
    Content (String.join (ends.filterMap (arrow? points))) := by
  refine .join fun text listed => ?_
  obtain ⟨pair, -, drawn⟩ := List.mem_filterMap.mp listed
  rw [arrow?] at drawn
  split at drawn
  · obtain ⟨⟨start, stop⟩, -, rfl⟩ := Option.map_eq_some_iff.mp drawn
    dsimp only
    rw [arrow_eq]
    exact (arrowTag start stop).content_alone.append content_newline
  · cases drawn

theorem content_circles (points : List Point) : Content (String.join (points.map circle)) := by
  refine .join fun text listed => ?_
  obtain ⟨point, -, rfl⟩ := List.mem_map.mp listed
  rw [circle_eq]
  exact (circleTag point).content_alone.append content_newline

theorem content_label {id : String} (allowed : AllAllowed id) (point : Point) :
    Content (label id point) := by
  rw [label_eq]
  exact ((labelTag point).content_around (content_escape allowed)).append content_newline

/-- XML can write the identifiers of all nodes. -/
def Writable (graph : CallGraph) : Prop :=
  ∀ node ∈ graph.nodes, AllAllowed node.id

variable {graph : CallGraph} {c : Char}

theorem content_figures (writable : Writable graph) : Content (figures graph) := by
  refine ((content_arrows _ _).append (content_circles _)).append (.join fun text listed => ?_)
  obtain ⟨⟨node, point⟩, paired, rfl⟩ := List.mem_map.mp listed
  have among : node ∈ graph.nodes := by simpa using (List.of_mem_zip paired).1
  exact content_label (writable node among) point

theorem mem_label_iff (refused : isAllowed c = false) (id : String) (point : Point) :
    c ∈ (label id point).toList ↔ c ∈ id.toList := by
  rw [label_eq, String.toList_append, List.mem_append, (labelTag point).mem_around refused,
    mem_escape refused, or_iff_left (content_newline.allowed.not_mem refused)]

/-- No identifier is left out of the figures. -/
theorem mem_figures_iff (refused : isAllowed c = false) :
    c ∈ (figures graph).toList ↔ ∃ node ∈ graph.nodes, c ∈ node.id.toList := by
  have covered : graph.nodes.toList.length ≤
      ((Layout.spring graph).map toCanvas).toList.length := by
    rw [Array.length_toList, Array.length_toList, Array.size_map, Layout.size_spring]
    rfl
  have labelled := List.map_fst_zip covered
  simp only [figures, String.toList_append, List.mem_append,
    (content_arrows _ _).allowed.not_mem refused, (content_circles _).allowed.not_mem refused,
    false_or]
  rw [String.toList_join, List.mem_flatMap]
  simp only [List.mem_map]
  constructor
  · rintro ⟨_, ⟨⟨node, point⟩, paired, rfl⟩, inside⟩
    exact ⟨node, by simpa using (List.of_mem_zip paired).1,
      (mem_label_iff refused node.id point).mp inside⟩
  · rintro ⟨node, among, inside⟩
    rw [← Array.mem_toList_iff, ← labelled] at among
    obtain ⟨⟨_, point⟩, paired, rfl⟩ := List.mem_map.mp among
    exact ⟨_, ⟨_, paired, rfl⟩, (mem_label_iff refused _ point).mpr inside⟩

/-- A character that XML does not allow gets into a drawing only by an identifier, and from
every identifier. -/
theorem mem_render_iff (refused : isAllowed c = false) :
    c ∈ (render graph).toList ↔ ∃ node ∈ graph.nodes, c ∈ node.id.toList := by
  rw [render_eq, String.toList_append, List.mem_append, rootTag.mem_around refused,
    or_iff_left (content_newline.allowed.not_mem refused), String.toList_append, List.mem_append,
    or_iff_right (content_ground.allowed.not_mem refused), mem_figures_iff refused]

/-- A drawing in allowed characters has only such identifiers. -/
theorem writable_of_allAllowed (allowed : AllAllowed (render graph)) : Writable graph := by
  intro node among
  refine allAllowed_iff.mpr fun c refused inside => ?_
  exact allowed.not_mem refused ((mem_render_iff refused).mpr ⟨node, among, inside⟩)

theorem document_render (writable : Writable graph) : Document (render graph) := by
  rw [render_eq]
  exact .root rootTag (content_ground.append (content_figures writable)) 1

/-- A drawing is an XML document exactly if XML can write the identifiers. -/
theorem document_render_iff : Document (render graph) ↔ Writable graph :=
  ⟨fun document => writable_of_allAllowed document.allowed, document_render⟩

end Drawing

end CallAtlas
