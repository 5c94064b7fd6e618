import TouchStream.Recognizer
import TouchStream.TouchFilter

/-!
# Chains of stages

A chain is a list of stages, the head first. A message given to the head runs down the chain as far as the
stages pass it on; what passes the last stage is lost, and the reports come out.

* `Chain.send`: gives the head a message.
* `Chain.relay`: runs signals through all stages of a chain.
* `Chain.nextDeadline`: the earliest deadline of all recognizers in a chain.
-/

namespace TouchStream

/-- A stage of a chain. -/
inductive Stage
  /-- Passes everything on. -/
  | passThrough
  | filter (f : TouchFilter)
  | recognizer (r : Recognizer)
  /-- Delivers every event and passes the rest on. -/
  | sink
deriving DecidableEq, Repr

namespace Stage

/-- The name of a stage, for tracing. -/
def name : Stage → String
  | passThrough => "pass-through"
  | filter _ => "screen-touch"
  | recognizer _ => "gesture-recognizer"
  | sink => "sink"

/-- What a sink makes of a message. It takes charge of samples and keys. -/
def deliver : Message → Bool × List Signal
  | .event (.accessibility a) => (false, [.report (.delivered (.accessibility a))])
  | .event e => (true, [.report (.delivered e)])
  | m => (false, [.message m])

/-- What a stage makes of a message. -/
def receive : Stage → Message → Reply Stage
  | passThrough, m => ⟨passThrough, false, [.message m]⟩
  | filter f, m =>
    let reply := f.receive m
    ⟨filter reply.state, reply.handled, reply.out⟩
  | recognizer r, m =>
    let reply := r.receive m
    ⟨recognizer reply.state, reply.handled, reply.out⟩
  | sink, m =>
    let (handled, out) := deliver m
    ⟨sink, handled, out⟩

/-- The earliest deadline that a stage waits for. -/
def nextDeadline : Stage → Option Micros
  | recognizer r => r.timers.nextDeadline
  | _ => none

/-- The number of timers that a stage has pending. -/
def pendingTimers : Stage → Nat
  | recognizer r => r.timers.size
  | _ => 0

end Stage

/-- A chain of stages, the head first. -/
abbrev Chain := List Stage

namespace Chain

/-- Runs signals through all stages of a chain. -/
def relay : Chain → List Signal → Chain × List Report
  | [], signals => ([], signals.filterMap Signal.report?)
  | stage :: rest, signals =>
    let (stage, passed) := TouchStream.relay Stage.receive stage signals
    let (rest, reports) := relay rest passed
    (stage :: rest, reports)

/-- Gives the head a message. The result tells whether the head took charge of it, and what came out. -/
def send : Chain → Message → Chain × Bool × List Report
  | [], _ => ([], false, [])
  | stage :: rest, m =>
    let reply := stage.receive m
    let (rest, reports) := relay rest reply.out
    (reply.state :: rest, reply.handled, reports)

/-- The earliest deadline that any stage waits for. -/
def nextDeadline (c : Chain) : Option Micros :=
  c.foldr (fun stage d => earlierDeadline stage.nextDeadline d) none

/-- The number of timers that are pending in a chain. -/
def pendingTimers (c : Chain) : Nat := c.foldr (fun stage n => stage.pendingTimers + n) 0

/-- The place of a head, in words, for tracing. -/
def describeHead (c : Chain) : String :=
  match c.head? with
  | some stage => "Link \x7b next: Some(\"" ++ stage.name ++ "\") \x7d"
  | none => "Link \x7b next: None \x7d"

end Chain

end TouchStream
