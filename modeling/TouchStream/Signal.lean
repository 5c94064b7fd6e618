import TouchStream.Decision

/-!
# Signals between stages

The stages of a chain pass signals on to one another. A signal is either a message, which the next stage
receives, or a report on its way out, which every later stage lets through.

* `Listener.take`: the reports that a listener lets through.
* `Reply`: what a stage makes of a message.
* `relay`: what a stage makes of a run of signals.
-/

namespace TouchStream

/-- What a stage can be given. -/
inductive Message
  | event (e : Event)
  /-- The clock has come to a time. -/
  | time (now : Micros)
  /-- The touch in progress on a kind of device is to be forgotten. -/
  | clear (source : PointerSource)
  /-- All state and all timers are to be given up. -/
  | destroy
deriving DecidableEq, Repr

/-- What leaves a chain. -/
inductive Report
  | decided (d : Decision)
  | delivered (e : Event)
deriving DecidableEq, Repr

namespace Report

/-- The decision of a report that holds one. -/
def decision? : Report → Option Decision
  | decided d => some d
  | delivered _ => none

/-- The event of a report that holds one. -/
def event? : Report → Option Event
  | decided _ => none
  | delivered e => some e

end Report

/-- The decisions among reports. -/
def decisionsOf (rs : List Report) : List Decision := rs.filterMap Report.decision?

/-- The events among reports. -/
def deliveriesOf (rs : List Report) : List Event := rs.filterMap Report.event?

/-- The reports that a listener lets through: the decisions that it hears and the events between them, up to the
first decision at which it fails. The flag tells whether there is such a one. -/
def Listener.take (listener : Listener) : List Report → List Report × Bool
  | [] => ([], false)
  | .decided d :: rest =>
    match listener d with
    | .failed => ([], true)
    | .heard =>
      let (rest, failed) := listener.take rest
      (.decided d :: rest, failed)
    | .ignored => listener.take rest
  | .delivered e :: rest =>
    let (rest, failed) := listener.take rest
    (.delivered e :: rest, failed)

/-- What one stage passes to the next. -/
inductive Signal
  | message (m : Message)
  | report (r : Report)
deriving DecidableEq, Repr

namespace Signal

/-- The signal that passes a pointer sample on. -/
def sample (s : Sample) : Signal := .message (.event (.pointer s))

/-- The signal that reports a decision. -/
def decision (d : Decision) : Signal := .report (.decided d)

/-- The report that a signal is, if it is one. -/
def report? : Signal → Option Report
  | message _ => none
  | report r => some r

end Signal

/-- What a stage makes of a message: its next state, whether it took charge of the message, and the signals
that it passes on. -/
structure Reply (σ : Type) where
  state : σ
  handled : Bool
  out : List Signal

/-- What a stage makes of a run of signals: it receives the messages and lets the reports through. -/
def relay {σ : Type} (receive : σ → Message → Reply σ) : σ → List Signal → σ × List Signal
  | s, [] => (s, [])
  | s, .report r :: rest =>
    let (s, out) := relay receive s rest
    (s, .report r :: out)
  | s, .message m :: rest =>
    let reply := receive s m
    let (s, out) := relay receive reply.state rest
    (s, reply.out ++ out)

end TouchStream
