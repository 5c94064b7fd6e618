import TouchStream.Pipeline

/-!
# The worker

A worker owns a pipeline and a clock of its own. Commands wait in a queue and are taken one by one, in the
order in which they were submitted. The worker also wakes by itself when the pipeline's next deadline has been
reached. The timer that wakes it counts whole milliseconds, but not from the start of the worker, so it may wake at any
time from the deadline on. In the usual schedule both start together, and it wakes at the deadline rounded up.

* `Worker.move`, `Worker.run`: the moves of a worker, in any order that a schedule gives them.
* `Worker.sleep`: the schedule that lets the clock run on, with all wakings on the way.
* `Worker.settle`: the one that takes every command and then wakes as often as it is time to.

When the listener fails, the worker is gone, and what would have followed the decision never happens.
-/

namespace TouchStream

/-- What a worker can be told. -/
inductive Command
  | event (e : Event)
  | clear (source : PointerSource)
  /-- Ends the worker. Its timers are given up. A handle that is dropped is a shutdown submitted last: it is
  noticed when no command waits any more, and none can come after it. -/
  | shutdown
deriving DecidableEq, Repr

/-- The text of the error that tells that a worker is gone. -/
def workerClosedMessage : String := "Pipeline worker has shut down"

/-- The state of a worker. -/
structure Worker where
  /-- The pipeline, until the worker is gone. -/
  pipeline : Option Pipeline
  /-- The commands that wait, the first one first. -/
  queue : List Command
  listener : Listener
  /-- Microseconds since the worker started. -/
  clock : Nat

namespace Worker

/-- A worker that starts with a pipeline. -/
def start (p : Pipeline) (listener : Listener) : Worker := ⟨some p, [], listener, 0⟩

/-- Whether the worker can still be told anything. -/
def isOpen (w : Worker) : Bool := w.pipeline.isSome

/-! ## Moves -/

/-- The worker without its pipeline. Commands that still wait are lost. -/
def close (w : Worker) : Worker := { w with pipeline := none, queue := [] }

/-- The worker after a step of its pipeline, and the reports of the step that the listener lets through. -/
def after (w : Worker) (step : Pipeline × List Report) : Worker × List Report :=
  let (reports, failed) := w.listener.take step.2
  (if failed then w.close else { w with pipeline := some step.1 }, reports)

/-- Puts a command at the end of the queue, as long as there is a worker. -/
def submit (w : Worker) (c : Command) : Worker :=
  if w.isOpen then { w with queue := w.queue ++ [c] } else w

/-- Takes the first command, if there is one. -/
def take (w : Worker) : Worker × List Report :=
  match w.pipeline, w.queue with
  | some p, .event e :: rest =>
    let (p, _, reports) := p.feed e
    { w with queue := rest }.after (p, reports)
  | some p, .clear source :: rest => { w with queue := rest }.after (p.clear source)
  | some p, .shutdown :: _ =>
    let (w, reports) := w.after p.destroy
    (w.close, reports)
  | _, _ => (w, [])

/-- The reading of the clock as a time of the pipeline. -/
def now (w : Worker) : Micros := .ofNat (min w.clock Micros.last.toNat)

/-- Wakes, if the next deadline has been reached. The pipeline comes at least to the deadline. -/
def wake (w : Worker) : Worker × List Report :=
  match w.pipeline with
  | none => (w, [])
  | some p =>
    match p.nextDeadline with
    | none => (w, [])
    | some deadline =>
      if deadline.toNat ≤ w.clock then w.after (p.advance (max w.now deadline)) else (w, [])

/-- What can happen next to a worker. -/
inductive Move
  | submit (c : Command)
  | take
  | wake
  /-- The clock runs on. -/
  | tick (span : Nat)
deriving DecidableEq, Repr

/-- One move. -/
def move (w : Worker) : Move → Worker × List Report
  | .submit c => (w.submit c, [])
  | .take => w.take
  | .wake => w.wake
  | .tick span => ({ w with clock := w.clock + span }, [])

/-- The moves of a schedule, one after another. -/
def run (w : Worker) : List Move → Worker × List Report
  | [] => (w, [])
  | m :: ms =>
    let (w, reports) := w.move m
    let (w, more) := run w ms
    (w, reports ++ more)

/-! ## The usual schedule -/

/-- The time at which a worker wakes for a deadline: the first whole millisecond that is not before it. -/
def wakeTime (deadline : Micros) : Nat := (deadline.toNat + 999) / 1000 * 1000

/-- The time at which the worker wakes next. -/
def nextWake (w : Worker) : Option Nat := (w.pipeline.bind Pipeline.nextDeadline).map wakeTime

/-- The number of timers that the pipeline has pending. -/
def pendingTimers (w : Worker) : Nat := (w.pipeline.map Pipeline.pendingTimers).getD 0

/-- The clock runs on to `limit`, and stops at most `rounds` times on the way for a waking. Each waking fires a
timer, so there are no more of them than timers. -/
def sleepUntil (limit : Nat) : (rounds : Nat) → Worker → Worker × List Report
  | 0, w => ({ w with clock := limit }, [])
  | rounds + 1, w =>
    match w.nextWake with
    | none => ({ w with clock := limit }, [])
    | some t =>
      if limit < t then ({ w with clock := limit }, [])
      else
        let (w, reports) := { w with clock := max w.clock t }.wake
        let (w, more) := sleepUntil limit rounds w
        (w, reports ++ more)

/-- Lets the clock run on for a span, with all wakings on the way. -/
def sleep (w : Worker) (span : Nat) : Worker × List Report :=
  sleepUntil (w.clock + span) w.pendingTimers w

/-- Takes every command, then wakes as often as it is time to. -/
def settle (w : Worker) : Worker × List Report :=
  let (w, taken) := w.run (List.replicate w.queue.length .take)
  let (w, woken) := w.sleep 0
  (w, taken ++ woken)

end Worker

end TouchStream
