import TouchStream.Time

/-!
# Timers

Pending timers, at most one of each kind. A timer has a deadline; of several that are due, the one
with the earliest deadline goes first, and of equal deadlines the one that was armed first.

* `Timers.arm`, `Timers.disarm`, `Timers.disarmAll`: arm and disarm timers.
* `Timers.takeDue`: takes out the first timer that is due.
-/

namespace TouchStream

/-- A pending timer. `order` tells how many timers were armed before it. -/
structure PendingTimer (κ : Type) where
  kind : κ
  deadline : Micros
  order : Nat
deriving DecidableEq, Repr

namespace PendingTimer

variable {κ : Type}

/-- Whether a timer goes before another: by deadline, and then by the order of arming. -/
def before (s t : PendingTimer κ) : Bool :=
  s.deadline < t.deadline || (s.deadline == t.deadline && s.order < t.order)

/-- The timer of a list that goes before all others. -/
def first? : List (PendingTimer κ) → Option (PendingTimer κ)
  | [] => none
  | t :: ts =>
    match first? ts with
    | none => some t
    | some s => some (if s.before t then s else t)

end PendingTimer

/-- The pending timers in the order of arming, and the number of timers armed so far. -/
structure Timers (κ : Type) where
  pending : List (PendingTimer κ)
  armed : Nat
deriving DecidableEq, Repr

namespace Timers

variable {κ : Type} [DecidableEq κ]

/-- No timer was ever armed. -/
def empty : Timers κ := ⟨[], 0⟩

instance : Inhabited (Timers κ) := ⟨empty⟩

/-- Disarms a kind of timer. -/
def disarm (q : Timers κ) (kind : κ) : Timers κ :=
  { q with pending := q.pending.filter (·.kind ≠ kind) }

/-- Disarms every timer. -/
def disarmAll (q : Timers κ) : Timers κ := { q with pending := [] }

/-- Arms a kind of timer, in place of one that is pending. -/
def arm (q : Timers κ) (kind : κ) (deadline : Micros) : Timers κ :=
  ⟨(q.disarm kind).pending ++ [⟨kind, deadline, q.armed⟩], q.armed + 1⟩

/-- The deadline of a kind of timer, if one is pending. -/
def deadline? (q : Timers κ) (kind : κ) : Option Micros :=
  (q.pending.find? (·.kind = kind)).map (·.deadline)

/-- Whether a kind of timer is pending. -/
def isPending (q : Timers κ) (kind : κ) : Bool := q.pending.any (·.kind = kind)

/-- Whether no timer is pending. -/
def isEmpty (q : Timers κ) : Bool := q.pending.isEmpty

/-- The number of pending timers. -/
def size (q : Timers κ) : Nat := q.pending.length

/-- Whether disarming a kind takes a timer out. -/
def disarms (q : Timers κ) (kind : κ) : Bool := (q.disarm kind).size ≠ q.size

/-- The earliest deadline of the pending timers. -/
def nextDeadline (q : Timers κ) : Option Micros :=
  q.pending.foldr (fun t d => earlierDeadline (some t.deadline) d) none

/-- The first timer that is due. -/
def firstDue (q : Timers κ) (now : Micros) : Option (PendingTimer κ) :=
  PendingTimer.first? (q.pending.filter (·.deadline ≤ now))

/-- Takes out the first timer that is due. -/
def takeDue (q : Timers κ) (now : Micros) : Option (PendingTimer κ × Timers κ) :=
  (q.firstDue now).map fun t => (t, q.disarm t.kind)

end Timers

end TouchStream
