import TouchStream.Route
import TouchStream.Settings
import TouchStream.Signal
import TouchStream.Timers

/-!
# The recognizer

The recognizer reads the samples of one finger on a touch screen as a tap, a double tap, a long press or a
swipe. It works in two layers: taps and long presses go by two timers, and a finger that leaves its anchor
by more than a threshold swipes along a route, which is read when the finger lifts.

* `Recognizer.pointer`: the handling of one sample.
* `Recognizer.fire`: what the expiry of a timer decides.
* `Recognizer.advance`: the firing of all timers that are due.
* `Recognizer.receive`: the recognizer as a stage. A sample that it consumes is not passed on.
-/

namespace TouchStream

/-- The timers of the recognizer. -/
inductive RecognizerTimer
  /-- The finger has been down for long. -/
  | longPress
  /-- No second tap has followed the first. -/
  | singleTap
deriving DecidableEq, Repr

namespace RecognizerTimer

/-- Every timer with the name it has in files. -/
def table : List (RecognizerTimer × String) := [(longPress, "longpress"), (singleTap, "singletap")]

/-- The text shown for a timer. -/
def label : RecognizerTimer → String
  | longPress => "LongPress"
  | singleTap => "SingleTap"

end RecognizerTimer

/-- The state of the recognizer. -/
structure Recognizer where
  settings : RecognizerSettings
  thresholds : Thresholds
  timers : Timers RecognizerTimer
  /-- An interaction is being read. -/
  recognizing : Bool
  /-- The finger has left its anchor by more than the threshold. -/
  swiping : Bool
  /-- The finger was held for long. -/
  heldLong : Bool
  /-- The finger came down for the second tap of a double tap. -/
  secondTapBegun : Bool
  /-- The next up completes a double tap. -/
  awaitingSecondUp : Bool
  /-- A down has started a tap. -/
  tapBegun : Bool
  /-- The finger is down. -/
  fingerDown : Bool
  /-- The last interaction ended as what may be the first tap of two. -/
  firstTapDone : Bool
  /-- The interaction was reported as a gesture. -/
  classified : Bool
  /-- The interaction was reported as cancelled. -/
  cancelled : Bool
  /-- The points that the finger passed. -/
  route : List Point
  /-- Where the finger was last known to have moved far. -/
  anchor : Point
  /-- When the finger was at the anchor. -/
  anchorTime : Micros
  /-- The last point of the route. -/
  lastPoint : Point
  /-- The last down that was accepted. -/
  lastDown : Option Sample
  /-- The up that ended the last tap. -/
  lastUp : Option Sample
deriving DecidableEq, Repr

/-- What the recognizer makes of a sample: its next state, what it decided, and whether it consumed the
sample. -/
structure Outcome where
  state : Recognizer
  decisions : List Decision
  consumed : Bool

namespace Recognizer

/-- A recognizer with the given limits, for a display. -/
def new (settings : RecognizerSettings) (display : Option Display) : Recognizer where
  settings
  thresholds := .ofDisplay display settings.tapSlop settings.routeStep
  timers := .empty
  recognizing := false
  swiping := false
  heldLong := false
  secondTapBegun := false
  awaitingSecondUp := false
  tapBegun := false
  fingerDown := false
  firstTapDone := false
  classified := false
  cancelled := false
  route := []
  anchor := .zero
  anchorTime := 0
  lastPoint := .zero
  lastDown := none
  lastUp := none

/-! ## Timers -/

/-- Arms the timer of a long press. -/
def awaitLongPress (r : Recognizer) (now : Micros) : Recognizer :=
  { r with timers := r.timers.arm .longPress (now.later r.settings.longPressTimeout) }

/-- Arms the timer that waits for a second tap. -/
def awaitSecondTap (r : Recognizer) (now : Micros) : Recognizer :=
  { r with timers := r.timers.arm .singleTap (now.later r.settings.doubleTapTimeout) }

/-- Disarms a timer. -/
def disarm (r : Recognizer) (t : RecognizerTimer) : Recognizer :=
  { r with timers := r.timers.disarm t }

/-! ## Reports -/

/-- Reports a gesture, at most one in an interaction. -/
def complete (r : Recognizer) (g : Gesture) : Recognizer × List Decision :=
  if r.classified then (r, []) else ({ r with classified := true }, [.completed g])

/-- Reports a double tap, unless a gesture was reported already. -/
def completeDouble (r : Recognizer) (s : Sample) : Recognizer × List Decision :=
  if r.classified then (r, []) else ({ r with classified := true }, [.doubleTap s])

/-- Reports that the interaction was given up, unless a gesture or that was reported already. -/
def giveUp (r : Recognizer) (s : Sample) : Recognizer × List Decision :=
  if r.cancelled || r.classified then (r, []) else ({ r with cancelled := true }, [.cancelled s])

/-! ## Resetting -/

/-- Ends the reading of taps. -/
def resetTaps (r : Recognizer) : Recognizer :=
  { (r.disarm .longPress).disarm .singleTap with
    heldLong := false, secondTapBegun := false, tapBegun := false, awaitingSecondUp := false }

/-- Ends the interaction. The last down and up stay. -/
def clear (r : Recognizer) : Recognizer :=
  { r.resetTaps with
    firstTapDone := false, swiping := false, recognizing := false, route := [],
    fingerDown := false }

/-! ## Downs -/

/-- Whether a down at a position is the second of a double tap: it follows the first tap within the limits,
and at the same place. -/
def isSecondTap (r : Recognizer) (s : Sample) (position : Point) : Bool :=
  match r.lastDown, r.lastUp with
  | some down, some up =>
    let gap := s.time.since up.time
    r.firstTapDone && r.settings.minDoubleTapInterval ≤ gap && gap ≤ r.settings.doubleTapTimeout
      && match down.position with
        | some first => first.distanceSquared position < r.thresholds.tapSlopSquared
        | none => false
  | _, _ => false

/-- Expects the up that completes a double tap. -/
def beginSecondTap (r : Recognizer) : Recognizer :=
  { r.disarm .singleTap with secondTapBegun := true, awaitingSecondUp := true }

/-- Begins a tap of its own. A first tap that was waiting for a second one is reported. -/
def beginTap (r : Recognizer) (now : Micros) : Recognizer × List Decision :=
  let (r, ds) :=
    if r.timers.isPending .singleTap && r.firstTapDone && !r.fingerDown then r.complete .tap
    else (r, [])
  ({ r with awaitingSecondUp := false, firstTapDone := false }.awaitSecondTap now, ds)

/-- Begins an interaction with a down at a position. -/
def beginInteraction (r : Recognizer) (s : Sample) (position : Point) : Recognizer :=
  { r.awaitLongPress s.time with
    lastDown := some s, tapBegun := true, fingerDown := true, heldLong := false,
    classified := false, cancelled := false, recognizing := true, swiping := false,
    route := [position], anchor := position, anchorTime := s.time, lastPoint := position }

/-- A finger comes down. -/
def down (r : Recognizer) (s : Sample) : Outcome :=
  if r.awaitingSecondUp && r.heldLong then ⟨r, [], true⟩
  else if 1 < s.pointerCount then ⟨r.clear, [], false⟩
  else
    match s.position with
    | none => ⟨r, [], false⟩
    | some position =>
      let (r, ds) :=
        if r.isSecondTap s position then (r.beginSecondTap, []) else r.beginTap s.time
      ⟨r.beginInteraction s position, ds, false⟩

/-! ## Moves -/

/-- A double tap is given up when the finger moves further than the slop. -/
def giveUpDoubleTap (r : Recognizer) (s : Sample) (offset : Float32) : Recognizer × List Decision :=
  if r.awaitingSecondUp && r.settings.touchSlop < offset then
    { r with awaitingSecondUp := false, firstTapDone := false }.giveUp s
  else (r, [])

/-- The finger has moved far: it is no tap, and the anchor follows it. -/
def moveAnchor (r : Recognizer) (position : Point) (now : Micros) : Recognizer :=
  { (r.disarm .singleTap).disarm .longPress with
    anchor := position, anchorTime := now, firstTapDone := false, awaitingSecondUp := false }

/-- Whether a finger that stays near its anchor has taken too long. -/
def isOverdue (r : Recognizer) (now : Micros) : Bool :=
  (if r.swiping then r.settings.startedTimeout else r.settings.notStartedTimeout)
    < now.since r.anchorTime

/-- Gives up the interaction of a finger that has taken too long. -/
def abandon (r : Recognizer) : Recognizer :=
  { r.resetTaps with firstTapDone := false, recognizing := false, swiping := false, route := [] }

/-- Whether a position lies a step away from the last point of the route. -/
def isNewPoint (r : Recognizer) (position : Point) : Bool :=
  r.lastPoint.isStepAway position r.thresholds.stepX r.thresholds.stepY

/-- Adds a position to the route if it lies a step away from the last point. -/
def extendRoute (r : Recognizer) (position : Point) : Recognizer :=
  if r.isNewPoint position then { r with route := r.route ++ [position], lastPoint := position }
  else r

/-- A finger moves. -/
def move (r : Recognizer) (s : Sample) : Outcome :=
  if r.awaitingSecondUp && r.heldLong then ⟨r, [], false⟩
  else if !r.recognizing then ⟨r, [], false⟩
  else
    match s.position with
    | none => ⟨r, [], false⟩
    | some position =>
      let offset := r.anchor.distance position
      let (r, given) := r.giveUpDoubleTap s offset
      if r.thresholds.swipeStart < offset then
        let r := r.moveAnchor position s.time
        if r.swiping then ⟨r.extendRoute position, given, true⟩
        else ⟨{ r with swiping := true }, given ++ [.started], true⟩
      else if !r.firstTapDone && r.isOverdue s.time then
        let (r, ds) := r.giveUp s
        ⟨r.abandon, given ++ ds, true⟩
      else ⟨r.extendRoute position, given, r.swiping⟩

/-! ## Ups -/

/-- The end of a touch that was neither a swipe nor a double tap. -/
def tapUp (r : Recognizer) (s : Sample) : Recognizer :=
  let r := { r with fingerDown := false }
  let r :=
    if r.heldLong then { r.disarm .singleTap with heldLong := false }
    else if !r.secondTapBegun && r.tapBegun then
      let r := { r with firstTapDone := true }
      if !r.timers.isPending .singleTap && !r.classified then r.awaitSecondTap s.time else r
    else r
  { r.disarm .longPress with
    lastUp := some s, secondTapBegun := false, recognizing := false, route := [] }

/-- The route with the position of the up, if that lies a step away from the last point. -/
def closeRoute (r : Recognizer) (s : Sample) : List Point :=
  match s.position with
  | some position => if r.isNewPoint position then r.route ++ [position] else r.route
  | none => r.route

/-- The end of a swipe: its route is read. -/
def swipeUp (r : Recognizer) (s : Sample) : Recognizer × List Decision :=
  match Route.recognize (r.closeRoute s) with
  | some g => r.complete g
  | none => r.giveUp s

/-- A finger lifts. -/
def up (r : Recognizer) (s : Sample) : Outcome :=
  if s.pointerCount ≠ 1 then ⟨r, [], false⟩
  else if !r.recognizing then ⟨{ r.disarm .longPress with fingerDown := false }, [], false⟩
  else if r.awaitingSecondUp then
    if r.heldLong then ⟨r.clear, [], false⟩
    else
      let (r, ds) := r.clear.completeDouble s
      ⟨r, ds, true⟩
  else if r.swiping then
    let (r, ds) := r.swipeUp s
    ⟨r.clear, ds, true⟩
  else ⟨r.tapUp s, [], false⟩

/-! ## Samples -/

/-- The stream of samples is aborted. -/
def cancel (r : Recognizer) (s : Sample) : Outcome :=
  let (r, ds) := r.clear.giveUp s
  ⟨r, ds, false⟩

/-- What the recognizer makes of a sample. Only samples of a touch screen concern it. -/
def pointer (r : Recognizer) (s : Sample) : Outcome :=
  if s.source ≠ .touchscreen then ⟨r, [], false⟩
  else
    match s.action with
    | .down => r.down s
    | .move => r.move s
    | .up => r.up s
    | .cancel => r.cancel s

/-! ## Expiry -/

/-- What the expiry of a timer decides. -/
def fire (r : Recognizer) : RecognizerTimer → Recognizer × List Decision
  | .singleTap =>
    if !r.fingerDown && r.firstTapDone && !r.classified then
      let (r, ds) := r.complete .tap
      (r.clear, ds)
    else (r, [])
  | .longPress =>
    if r.fingerDown && !r.swiping && !r.classified then
      ({ r.disarm .singleTap with heldLong := true, classified := true },
        (r.lastDown.map .longPress).toList)
    else (r, [])

/-- Fires timers that are due, at most `rounds` of them. -/
def fireDue (now : Micros) : (rounds : Nat) → Recognizer → Recognizer × List Decision
  | 0, r => (r, [])
  | rounds + 1, r =>
    match r.timers.takeDue now with
    | none => (r, [])
    | some (t, timers) =>
      let (r, ds) := { r with timers }.fire t.kind
      let (r, more) := fireDue now rounds r
      (r, ds ++ more)

/-- Fires all timers that are due. No expiry arms a timer, so there are no more rounds than timers. -/
def advance (r : Recognizer) (now : Micros) : Recognizer × List Decision :=
  fireDue now r.timers.size r

/-! ## The recognizer as a stage -/

/-- Gives up all state and all timers. -/
def destroy (r : Recognizer) : Recognizer :=
  { ({ r with timers := r.timers.disarmAll } : Recognizer).clear with
    lastDown := none, lastUp := none }

/-- What the recognizer makes of a message. -/
def receive (r : Recognizer) : Message → Reply Recognizer
  | .event (.pointer s) =>
    let o := r.pointer s
    ⟨o.state, o.consumed, o.decisions.map .decision ++ if o.consumed then [] else [.sample s]⟩
  | .event e => ⟨r, false, [.message (.event e)]⟩
  | .time now =>
    let (r, ds) := r.advance now
    ⟨r, false, ds.map .decision ++ [.message (.time now)]⟩
  | .clear source =>
    ⟨if source = .touchscreen then r.clear else r, false, [.message (.clear source)]⟩
  | .destroy => ⟨r.destroy, false, [.message .destroy]⟩

/-! ## Text -/

/-- The text of a pending timer. -/
def timerText (t : PendingTimer RecognizerTimer) : String :=
  "TimerEntry \x7b kind: " ++ t.kind.label ++ ", deadline: " ++ toString t.deadline.toNat
    ++ ", seq: " ++ toString t.order ++ " \x7d"

/-- The state in words, for tracing. -/
def describe (r : Recognizer) : String :=
  "GestureRecognizer \x7b recognizing: " ++ toString r.recognizing
    ++ ", gesture_started: " ++ toString r.swiping
    ++ ", long_pressed: " ++ toString r.heldLong
    ++ ", double_tap_active: " ++ toString r.awaitingSecondUp
    ++ ", first_tap_up: " ++ toString r.firstTapDone
    ++ ", route_len: " ++ toString r.route.length
    ++ ", timers: TimerQueue \x7b entries: ["
    ++ ", ".intercalate (r.timers.pending.map timerText)
    ++ "], next_seq: " ++ toString r.timers.armed ++ " \x7d \x7d"

end Recognizer

end TouchStream
