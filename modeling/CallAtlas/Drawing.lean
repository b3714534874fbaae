import CallAtlas.Layout
import CallAtlas.Text.Xml
/-!
The drawing of a call graph as an SVG document on a square canvas: arrows first, then a
circle for each node, then the labels. An arrow runs from circle to circle and is left
out where the circles touch. How the document is painted is not told here.
-/
namespace CallAtlas.Drawing

/-- Width and height of the canvas, in pixels. -/
def canvasSize : Nat := 2400

def canvas : Float := 2400.0

def margin : Float := 120.0

def radius : Float := 14.0

/-- Coordinates of a drawing have two places. -/
def coordinate : Decimal.Format := ⟨2, true⟩

def toCanvas (point : Point) : Point :=
  let half := (canvas - 2.0 * margin) / 2.0
  let center := canvas / 2.0
  ⟨center + point.x * half, center + point.y * half⟩

/-- The part of a line that lies outside the circles at its ends, if the circles do not touch. -/
def trimToCircles (a b : Point) : Option (Point × Point) :=
  let dx := b.x - a.x
  let dy := b.y - a.y
  let length := Float.sqrt (dx * dx + dy * dy)
  if length ≤ 2.0 * radius then none
  else
    let ux := dx / length
    let uy := dy / length
    some (⟨a.x + ux * radius, a.y + uy * radius⟩, ⟨b.x - ux * radius, b.y - uy * radius⟩)

def opening : String :=
  let size := toString canvasSize
  "<svg xmlns=\"http://www.w3.org/2000/svg\" width=\"" ++ size ++ "\" height=\"" ++ size ++
    "\" viewBox=\"0 0 " ++ size ++ " " ++ size ++ "\">\n" ++
  "<defs><marker id=\"arrow\" viewBox=\"0 0 10 10\" refX=\"10\" refY=\"5\" markerWidth=\"8\" " ++
    "markerHeight=\"8\" markerUnits=\"userSpaceOnUse\" orient=\"auto\"><path " ++
    "d=\"M0,0 L10,5 L0,10\" fill=\"none\" stroke=\"black\" stroke-width=\"1.5\"/></marker></defs>\n" ++
  "<rect width=\"100%\" height=\"100%\" fill=\"white\"/>\n"

def arrow (start stop : Point) : String :=
  "<line x1=\"" ++ coordinate.render start.x ++ "\" y1=\"" ++ coordinate.render start.y ++
    "\" x2=\"" ++ coordinate.render stop.x ++ "\" y2=\"" ++ coordinate.render stop.y ++
    "\" stroke=\"black\" stroke-width=\"1\" marker-end=\"url(#arrow)\"/>\n"

/-- The arrow of an edge, if both ends have a place and their circles do not touch. -/
def arrow? (points : Array Point) (ends : Nat × Nat) : Option String :=
  match points[ends.1]?, points[ends.2]? with
  | some a, some b => (trimToCircles a b).map fun (start, stop) => arrow start stop
  | _, _ => none

def circle (point : Point) : String :=
  "<circle cx=\"" ++ coordinate.render point.x ++ "\" cy=\"" ++ coordinate.render point.y ++
    "\" r=\"14\" fill=\"#add8e6\" stroke=\"black\" stroke-width=\"0.25\"/>\n"

/-- What stands before the label of a node. -/
def labelStart (point : Point) : String :=
  "<text x=\"" ++ coordinate.render point.x ++ "\" y=\"" ++ coordinate.render point.y ++
    "\" font-family=\"sans-serif\" font-size=\"11\" text-anchor=\"middle\" " ++
    "dominant-baseline=\"central\">"

/-- What stands after the label of a node. -/
def labelStop : String := "</text>\n"

def label (id : String) (point : Point) : String :=
  labelStart point ++ Text.Xml.escape id ++ labelStop

def closing : String := "</svg>\n"

def render (graph : CallGraph) : String :=
  let points := (Layout.spring graph).map toCanvas
  opening ++ String.join (graph.endpoints.toList.filterMap (arrow? points)) ++
    String.join (points.toList.map circle) ++
    String.join ((graph.nodes.toList.zip points.toList).map fun (node, point) =>
      label node.id point) ++
    closing

end CallAtlas.Drawing
