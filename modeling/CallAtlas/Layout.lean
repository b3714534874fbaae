import CallAtlas.CallGraph
import CallAtlas.Decimal.Fixed
/-!
Spring layout. Nodes start on a circle; then every pair repels, joined nodes attract in
proportion to the number of edges between them, and the step cools down evenly. The
result is centred and scaled so that its largest coordinate is one. Nothing is random,
so a graph always gets the same layout. Edges count the same in both directions, and an
edge from a node to itself counts for nothing.

Coordinates are doubles, and their arithmetic is the machine's: which result it gives is not
known to any proof.
-/
namespace CallAtlas

structure Point where
  x : Float
  y : Float
  deriving Repr

namespace Layout

/-- The distance that joined nodes tend to. -/
def defaultDistance : Float := 1.5

def defaultIterations : Nat := 100

/-- The least distance that forces are computed for. -/
def leastDistance : Float := 0.01

/-- The greater of two numbers; a NaN gives way to the other one. -/
def larger (a b : Float) : Float :=
  if a.isNaN then b else if b.isNaN then a else if a < b then b else a

/-- The length of a vector, kept away from zero. -/
def clampedLength (dx dy : Float) : Float :=
  larger (Float.sqrt (dx * dx + dy * dy)) leastDistance

/-- A node's neighbours with the number of edges between, after one more edge to `target`. -/
def addNeighbor (neighbors : List (Nat × Nat)) (target : Nat) : List (Nat × Nat) :=
  match neighbors with
  | [] => [(target, 1)]
  | (place, count) :: rest =>
    if place = target then (place, count + 1) :: rest
    else (place, count) :: addNeighbor rest target

def joinEnds (rows : Array (List (Nat × Nat))) (ends : Nat × Nat) : Array (List (Nat × Nat)) :=
  if ends.1 = ends.2 then rows
  else (rows.modify ends.1 (addNeighbor · ends.2)).modify ends.2 (addNeighbor · ends.1)

/-- For each node its neighbours, with the number of edges between in either direction. -/
def neighbors (graph : CallGraph) : Array (List (Nat × Nat)) :=
  graph.endpoints.foldl joinEnds (Array.replicate graph.nodeCount [])

/-- Places evenly spaced on a circle. -/
def circle (count : Nat) : Array Point :=
  (Array.range count).map fun place =>
    let angle := 2.0 * 3.141592653589793 * Float.ofNat place / Float.ofNat count
    ⟨0.5 + 0.5 * Float.cos angle, 0.5 + 0.5 * Float.sin angle⟩

/-- Adds to `push` the push that `other` gives to `point`. -/
def repel (distance : Float) (point : Point) (push : Point) (other : Point) : Point :=
  let dx := point.x - other.x
  let dy := point.y - other.y
  let length := clampedLength dx dy
  let force := distance * distance / (length * length)
  ⟨push.x + dx * force, push.y + dy * force⟩

/-- Adds to `push` the pull of `count` edges between `point` and `other`. -/
def attract (distance : Float) (point : Point) (push : Point) (other : Point) (count : Nat) :
    Point :=
  let dx := point.x - other.x
  let dy := point.y - other.y
  let length := clampedLength dx dy
  let force := Float.ofNat count * length / distance
  ⟨push.x - dx * force, push.y - dy * force⟩

def displacement (distance : Float) (points : Array Point) (neighbors : List (Nat × Nat))
    (place : Nat) (point : Point) : Point :=
  let pushed := points.toList.zipIdx.foldl
    (fun push (other, spot) => if spot = place then push else repel distance point push other)
    ⟨0.0, 0.0⟩
  neighbors.foldl
    (fun push (spot, count) =>
      match points[spot]? with
      | some other => attract distance point push other count
      | none => push) pushed

/-- Moves a point along a displacement, by no more than the temperature allows. -/
def move (temperature : Float) (point delta : Point) : Point :=
  let length := clampedLength delta.x delta.y
  ⟨point.x + delta.x * temperature / length, point.y + delta.y * temperature / length⟩

/-- Moves every point once. All forces are those before the move. -/
def relax (distance : Float) (rows : Array (List (Nat × Nat))) (temperature : Float)
    (points : Array Point) : Array Point :=
  points.mapIdx fun place point =>
    move temperature point (displacement distance points (rows[place]?.getD []) place point)

/-- Moves every point once for each iteration, cooling down in between. -/
def cool (distance : Float) (rows : Array (List (Nat × Nat))) (cooling : Float) :
    (iterations : Nat) → (temperature : Float) → Array Point → Array Point
  | 0, _, points => points
  | iterations + 1, temperature, points =>
    cool distance rows cooling iterations (temperature - cooling)
      (relax distance rows temperature points)

/-- Centres points on the origin and scales them so that the largest coordinate is one. -/
def rescale (points : Array Point) : Array Point :=
  let count := Float.ofNat points.size
  let centerX := points.foldl (fun sum point => sum + point.x) 0.0 / count
  let centerY := points.foldl (fun sum point => sum + point.y) 0.0 / count
  let centered := points.map fun point => (⟨point.x - centerX, point.y - centerY⟩ : Point)
  let extent := centered.foldl
    (fun extent point => larger (larger extent point.x.abs) point.y.abs) 0.0
  if extent > 0.0 then centered.map fun point => ⟨point.x / extent, point.y / extent⟩
  else centered

/-- The places of a graph's nodes, in the order of the nodes. -/
def spring (graph : CallGraph) (distance : Float := defaultDistance)
    (iterations : Nat := defaultIterations) : Array Point :=
  if graph.nodeCount = 0 then #[]
  else if graph.nodeCount = 1 then #[⟨0.0, 0.0⟩]
  else
    let temperature : Float := 0.1
    let cooling := temperature / (Float.ofNat iterations + 1.0)
    rescale (cool distance (neighbors graph) cooling iterations temperature
      (circle graph.nodeCount))

/-- Coordinates of a layout are shown with six places, and zero without a sign. -/
def coordinate : Decimal.Format := ⟨6, false⟩

end Layout

end CallAtlas
