import TouchStream.Geometry

/-!
# Gestures

The gestures of an accessibility service, with their numbers, and the directions of a swipe.

* `Gesture.code`, `Gesture.ofCode?`: gestures are numbered in the order of `Gesture.all`.
* `Direction.between`: the direction of the straight way between two points.
* `Gesture.turnedSwipe`: the swipe that goes one way and then another.
-/

namespace TouchStream

/-- The gestures of the service. Only those of one finger are ever recognized here. -/
inductive Gesture
  | invalid
  | swipeUp
  | swipeDown
  | swipeLeft
  | swipeRight
  | swipeLeftThenRight
  | swipeRightThenLeft
  | swipeUpThenDown
  | swipeDownThenUp
  | swipeLeftThenUp
  | swipeLeftThenDown
  | swipeRightThenUp
  | swipeRightThenDown
  | swipeUpThenLeft
  | swipeUpThenRight
  | swipeDownThenLeft
  | swipeDownThenRight
  | tap
  | doubleTap
  | doubleTapHold
  | drag
  | swipeSlowly
  | tripleTap
  | scale
  | scroll
  | twoFingerSingleTap
  | twoFingerDoubleTap
  | twoFingerDoubleTapAndHold
  | twoFingerTripleTap
  | twoFingerTripleTapAndHold
  | threeFingerSingleTap
  | threeFingerDoubleTap
  | threeFingerDoubleTapAndHold
  | threeFingerTripleTap
  | threeFingerTripleTapAndHold
  | fourFingerSingleTap
  | fourFingerDoubleTap
  | fourFingerDoubleTapAndHold
  | fourFingerTripleTap
  | fourFingerTripleTapAndHold
  | threeFingerSwipeUp
  | threeFingerSwipeDown
  | threeFingerSwipeLeft
  | threeFingerSwipeRight
  | fourFingerSwipeUp
  | fourFingerSwipeDown
  | fourFingerSwipeLeft
  | fourFingerSwipeRight
deriving DecidableEq, Repr

namespace Gesture

/-- Every gesture with its name, in the order of the numbers. -/
def table : List (Gesture × String) :=
  [(invalid, "Invalid"),
   (swipeUp, "SwipeUp"), (swipeDown, "SwipeDown"),
   (swipeLeft, "SwipeLeft"), (swipeRight, "SwipeRight"),
   (swipeLeftThenRight, "SwipeLeftThenRight"), (swipeRightThenLeft, "SwipeRightThenLeft"),
   (swipeUpThenDown, "SwipeUpThenDown"), (swipeDownThenUp, "SwipeDownThenUp"),
   (swipeLeftThenUp, "SwipeLeftThenUp"), (swipeLeftThenDown, "SwipeLeftThenDown"),
   (swipeRightThenUp, "SwipeRightThenUp"), (swipeRightThenDown, "SwipeRightThenDown"),
   (swipeUpThenLeft, "SwipeUpThenLeft"), (swipeUpThenRight, "SwipeUpThenRight"),
   (swipeDownThenLeft, "SwipeDownThenLeft"), (swipeDownThenRight, "SwipeDownThenRight"),
   (tap, "Tap"), (doubleTap, "DoubleTap"), (doubleTapHold, "DoubleTapHold"),
   (drag, "Drag"), (swipeSlowly, "SwipeSlowly"), (tripleTap, "TripleTap"),
   (scale, "Scale"), (scroll, "Scroll"),
   (twoFingerSingleTap, "TwoFingerSingleTap"),
   (twoFingerDoubleTap, "TwoFingerDoubleTap"),
   (twoFingerDoubleTapAndHold, "TwoFingerDoubleTapAndHold"),
   (twoFingerTripleTap, "TwoFingerTripleTap"),
   (twoFingerTripleTapAndHold, "TwoFingerTripleTapAndHold"),
   (threeFingerSingleTap, "ThreeFingerSingleTap"),
   (threeFingerDoubleTap, "ThreeFingerDoubleTap"),
   (threeFingerDoubleTapAndHold, "ThreeFingerDoubleTapAndHold"),
   (threeFingerTripleTap, "ThreeFingerTripleTap"),
   (threeFingerTripleTapAndHold, "ThreeFingerTripleTapAndHold"),
   (fourFingerSingleTap, "FourFingerSingleTap"),
   (fourFingerDoubleTap, "FourFingerDoubleTap"),
   (fourFingerDoubleTapAndHold, "FourFingerDoubleTapAndHold"),
   (fourFingerTripleTap, "FourFingerTripleTap"),
   (fourFingerTripleTapAndHold, "FourFingerTripleTapAndHold"),
   (threeFingerSwipeUp, "ThreeFingerSwipeUp"), (threeFingerSwipeDown, "ThreeFingerSwipeDown"),
   (threeFingerSwipeLeft, "ThreeFingerSwipeLeft"), (threeFingerSwipeRight, "ThreeFingerSwipeRight"),
   (fourFingerSwipeUp, "FourFingerSwipeUp"), (fourFingerSwipeDown, "FourFingerSwipeDown"),
   (fourFingerSwipeLeft, "FourFingerSwipeLeft"), (fourFingerSwipeRight, "FourFingerSwipeRight")]

/-- Every gesture, in the order of the numbers. -/
def all : List Gesture := table.map (·.1)

/-- The number of a gesture. -/
def code (g : Gesture) : Nat := g.ctorIdx

/-- The gesture with a number. -/
def ofCode? (n : Nat) : Option Gesture := all[n]?

theorem ofCode?_code (g : Gesture) : ofCode? g.code = some g := by cases g <;> rfl

/-- The name of a gesture. -/
def name (g : Gesture) : String := (table.lookup g).getD ""

theorem mem_table (g : Gesture) : (g, g.name) ∈ table := by cases g <;> decide

/-- Whether a gesture is a swipe of one finger, straight or with one turn. -/
def isSwipe (g : Gesture) : Bool := swipeUp.code ≤ g.code && g.code ≤ swipeDownThenRight.code

end Gesture

/-! ## Directions -/

/-- The direction of a straight swipe. -/
inductive Direction
  | up
  | down
  | left
  | right
deriving DecidableEq, Repr

namespace Direction

/-- Every direction with its name. -/
def table : List (Direction × String) :=
  [(up, "Up"), (down, "Down"), (left, "Left"), (right, "Right")]

/-- The name of a direction. -/
def name (d : Direction) : String := (table.lookup d).getD ""

/-- The direction from one point to another. The longer axis decides, and the horizontal one when the two
are equal. -/
def between (a b : Point) : Direction :=
  let offset := b - a
  if offset.y.abs ≤ offset.x.abs then
    if Point.epsilon < offset.x then right else left
  else if offset.y < Point.epsilon then up else down

end Direction

namespace Gesture

/-- The swipe in one direction. -/
def swipe : Direction → Gesture
  | .up => swipeUp
  | .down => swipeDown
  | .left => swipeLeft
  | .right => swipeRight

/-- The swipe in one direction and then in another, which is a plain swipe when the two are the same. -/
def turnedSwipe : Direction → Direction → Gesture
  | .up, .up => swipeUp
  | .up, .down => swipeUpThenDown
  | .up, .left => swipeUpThenLeft
  | .up, .right => swipeUpThenRight
  | .down, .up => swipeDownThenUp
  | .down, .down => swipeDown
  | .down, .left => swipeDownThenLeft
  | .down, .right => swipeDownThenRight
  | .left, .up => swipeLeftThenUp
  | .left, .down => swipeLeftThenDown
  | .left, .left => swipeLeft
  | .left, .right => swipeLeftThenRight
  | .right, .up => swipeRightThenUp
  | .right, .down => swipeRightThenDown
  | .right, .left => swipeRightThenLeft
  | .right, .right => swipeRight

end Gesture

end TouchStream
