import TouchStream.Event

/-!
# Decisions

What the recognizer has to say about a touch, and how a listener takes it.
-/

namespace TouchStream

/-- A decision of the recognizer. -/
inductive Decision
  /-- A swipe started. -/
  | started
  /-- A gesture was completed. -/
  | completed (g : Gesture)
  /-- The interaction was given up at a sample. -/
  | cancelled (s : Sample)
  /-- A double tap ended with a sample. -/
  | doubleTap (s : Sample)
  /-- The finger that came down with a sample was held for long. -/
  | longPress (s : Sample)
deriving DecidableEq, Repr

namespace Decision

/-- The text of a time. -/
def timeText (t : Micros) : String := toString t.toNat ++ "us"

/-- The text of a decision. -/
def text : Decision → String
  | started => "started"
  | completed g => "completed " ++ g.name
  | cancelled s => "cancelled at " ++ timeText s.time
  | doubleTap s => "double tap at " ++ timeText s.time
  | longPress s => "long press at " ++ timeText s.time

/-- The sample that a decision is about. -/
def sample? : Decision → Option Sample
  | started => none
  | completed _ => none
  | cancelled s => some s
  | doubleTap s => some s
  | longPress s => some s

end Decision

/-- What comes of telling a listener. -/
inductive Response
  | heard
  | ignored
  /-- The listener failed, and whoever told it ends there. -/
  | failed
deriving DecidableEq, Repr

/-- A listener, by what comes of each decision it is told. -/
abbrev Listener := Decision → Response

namespace Listener

/-- The listener that hears everything. -/
def attentive : Listener := fun _ => .heard

/-- The listener that hears everything but long presses. -/
def withoutLongPress : Listener
  | .longPress _ => .ignored
  | _ => .heard

end Listener

end TouchStream
