import TouchStream.Gesture
import TouchStream.Number.Single

/-!
# Routes

A route is the list of points that a finger passed. It is reduced to its turning points and then read as a
swipe.

While a segment grows, the unit offsets from its start to its points are summed up. Their average tells
where the segment is heading; when the next point lies more than a right angle off that heading, the segment
ends where the average predicts, and a new one starts there.

* `Route.turningPoints`: the first point, the points where segments end, and the last point.
* `Route.classify`: the swipe that two or three turning points stand for.
* `Route.recognize`: the swipe of a route, if it is one.
-/

namespace TouchStream.Route

/-! ## Turning points -/

/-- A reduction in progress: the turning points so far and the segment that grows from the last of them. -/
structure Reduction where
  turns : List Point
  /-- Where the segment starts. -/
  start : Point
  /-- The sum of the unit offsets from the start to the points of the segment. -/
  offsets : Point
  /-- The number of points of the segment. -/
  count : Nat
  /-- The distance from the start to the last point seen. -/
  reach : Float32
deriving DecidableEq, Repr

namespace Reduction

/-- The reduction of a route of one point. -/
def begin (first : Point) : Reduction := ⟨[first], first, .zero, 0, 0⟩

/-- The average of the unit offsets. -/
def average (r : Reduction) : Point := r.offsets.shrink (Single.ofNat r.count)

/-- The point that the segment is predicted to have reached. -/
def predicted (r : Reduction) : Point := r.start + r.average.scale r.reach

/-- Whether the next point lies more than a right angle off the heading of the segment. -/
def turnsAt (r : Reduction) (next : Point) : Bool :=
  0 < r.count && r.average.dot (next - r.predicted).direction < 0

/-- Ends the segment at the predicted point and starts a new one there. -/
def turn (r : Reduction) : Reduction :=
  { r with turns := r.turns ++ [r.predicted], start := r.predicted, offsets := .zero, count := 0 }

/-- Adds a point to the segment. -/
def grow (r : Reduction) (next : Point) : Reduction :=
  let offset := next - r.start
  let reach := offset.length
  { r with
    reach
    count := r.count + 1
    offsets := if Point.epsilon < reach then r.offsets + offset.shrink reach else r.offsets }

/-- Takes in the next point of the route. -/
def step (r : Reduction) (next : Point) : Reduction :=
  if r.turnsAt next then r.turn.grow next else r.grow next

end Reduction

/-- The first point of a route, its turning points, and its last point. -/
def turningPoints : List Point → List Point
  | [] => []
  | first :: rest => (rest.foldl Reduction.step (.begin first)).turns ++ rest.getLast?.toList

/-! ## Swipes -/

/-- The swipe along two or three points. -/
def classify : List Point → Option Gesture
  | [a, b] => some (.swipe (.between a b))
  | [a, b, c] => some (.turnedSwipe (.between a b) (.between b c))
  | _ => none

/-- The swipe of a route, if it has at least two points and at most one turn. -/
def recognize (route : List Point) : Option Gesture :=
  if route.length < 2 then none else classify (turningPoints route)

end TouchStream.Route
