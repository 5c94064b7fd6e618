/-!
# Points of the screen

Positions and offsets are pairs of single precision coordinates. `x` grows to the right and `y` downwards.
Every operation rounds after each arithmetic step.
-/

namespace TouchStream

/-- A position on the screen, or the offset between two. -/
structure Point where
  x : Float32
  y : Float32
deriving DecidableEq, Repr

namespace Point

/-- The origin. -/
def zero : Point := ⟨0, 0⟩

instance : Inhabited Point := ⟨zero⟩
instance : Add Point := ⟨fun a b => ⟨a.x + b.x, a.y + b.y⟩⟩
instance : Sub Point := ⟨fun a b => ⟨a.x - b.x, a.y - b.y⟩⟩

/-- The offset stretched by a factor. -/
def scale (v : Point) (k : Float32) : Point := ⟨v.x * k, v.y * k⟩

/-- The offset shortened by a factor. -/
def shrink (v : Point) (k : Float32) : Point := ⟨v.x / k, v.y / k⟩

/-- The scalar product. -/
def dot (v w : Point) : Float32 := v.x * w.x + v.y * w.y

/-- The square of the length. -/
def lengthSquared (v : Point) : Float32 := v.dot v

/-- The length. -/
def length (v : Point) : Float32 := v.lengthSquared.sqrt

/-- The length up to which an offset counts as none. -/
def epsilon : Float32 := 0.0001

/-- The offset of length one in the direction of `v`, or none where `v` is too short to have one. -/
def direction (v : Point) : Point :=
  let length := v.length
  if epsilon < length then v.shrink length else zero

/-- The distance between two points. -/
def distance (a b : Point) : Float32 := (b - a).length

/-- The square of the distance between two points. -/
def distanceSquared (a b : Point) : Float32 := (b - a).lengthSquared

/-- Whether `b` lies a step away from `a`: at least `stepX` across or `stepY` up or down. -/
def isStepAway (a b : Point) (stepX stepY : Float32) : Bool :=
  stepX ≤ (b.x - a.x).abs || stepY ≤ (b.y - a.y).abs

end Point

end TouchStream
