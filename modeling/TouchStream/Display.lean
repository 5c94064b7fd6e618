import TouchStream.Geometry
import TouchStream.Number.Single

/-!
# Display metrics

The distances that tell a tap from a movement are given in physical or device independent units. They
are turned into pixels of the display at hand, and are a pixel each where no display is known.
-/

namespace TouchStream

/-- The size of a display in pixels and its density. -/
structure Display where
  width : UInt32
  height : UInt32
  dpi : Float32
  pixelRatio : Float32
deriving DecidableEq, Repr

/-- Millimetres per inch. -/
def millimetresPerInch : Float32 := 25.4

/-- Ten millimetres on the display, taking `pixels` for the pixels of an inch. -/
def tenMillimetres (pixels : Float32) : Float32 := pixels / millimetresPerInch * 10

/-- The distances in pixels that the recognizer goes by. -/
structure Thresholds where
  /-- The distance from the anchor beyond which a finger swipes. -/
  swipeStart : Float32
  /-- The least horizontal step between two points of a route. -/
  stepX : Float32
  /-- The least vertical step between two points of a route. -/
  stepY : Float32
  /-- The squared distance below which two taps are at the same place. -/
  tapSlopSquared : Float32
deriving DecidableEq, Repr

namespace Thresholds

/-- The square of a slop in device independent pixels, after rounding it to whole pixels. -/
def slopSquared (pixelRatio slop : Float32) : Float32 :=
  let pixels := Single.truncate (pixelRatio * slop + 0.5)
  pixels * pixels

/-- The distances on a display, for a slop in device independent pixels and a route step in inches. -/
def ofDisplay (display : Option Display) (tapSlop routeStep : Float32) : Thresholds :=
  match display with
  | some d =>
    let step := Single.atLeast 1 (d.dpi * routeStep)
    ⟨tenMillimetres d.dpi, step, step, slopSquared d.pixelRatio tapSlop⟩
  | none => ⟨1, 1, 1, slopSquared 1 tapSlop⟩

end Thresholds

/-- The distance beyond which a held touch is a drag. It grows with the width of the display. -/
def dragThreshold : Option Display → Float32
  | some d => tenMillimetres d.width.toFloat32 / 150
  | none => 1

end TouchStream
