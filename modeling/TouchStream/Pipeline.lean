import TouchStream.Chain

/-!
# The pipeline

The pipeline is the chain of the touch filter, the recognizer and the stages that receive what the recognizer
lets on. It keeps a clock that the times of the samples drive, and fires the timers that the clock passes.

* `Pipeline.Plan.build`: a pipeline, or why there is none.
* `Pipeline.pointer`: feeds a sample. Timers that are due before it fire first.
* `Pipeline.advance`: moves the clock on.
* `Pipeline.flush`: fires every pending timer.
* `Pipeline.handle`: all that can be asked of a pipeline.
-/

namespace TouchStream

/-- The state of the pipeline. -/
structure Pipeline where
  filter : TouchFilter
  recognizer : Recognizer
  /-- The stages behind the recognizer. -/
  output : Chain
  clock : Micros
  destroyed : Bool
deriving DecidableEq, Repr

namespace Pipeline

/-! ## Building -/

/-- Why a pipeline cannot be built. -/
inductive BuildError
  | missingListener
  | settings (fault : SettingsFault)
deriving DecidableEq, Repr

/-- The text of a build error. -/
def BuildError.message : BuildError → String
  | missingListener => "No gesture listener registered"
  | settings fault => "Configuration error: " ++ fault.report

/-- What a pipeline is built from. -/
structure Plan where
  config : Configuration := {}
  /-- The display at hand, which goes before the one of the configuration. -/
  display : Option Display := none
  listener : Option Listener := none
  /-- The stages behind the recognizer. -/
  output : Chain := []

/-- The pipeline of a plan that names a listener and has usable settings. -/
def Plan.build (plan : Plan) : Except BuildError Pipeline :=
  match plan.listener, plan.config.recognizer.check with
  | none, _ => .error .missingListener
  | some _, .error fault => .error (.settings fault)
  | some _, .ok () =>
    let display := plan.display.or plan.config.display
    .ok {
      filter := .new plan.config.filter display
      recognizer := .new plan.config.recognizer display
      output := plan.output
      clock := 0
      destroyed := false }

/-! ## Running -/

/-- All stages of the pipeline, the head first. -/
def chain (p : Pipeline) : Chain := .filter p.filter :: .recognizer p.recognizer :: p.output

/-- Gives the head a message. -/
def send (p : Pipeline) (m : Message) : Pipeline × Bool × List Report :=
  let reply := p.filter.receive m
  let (recognizer, passed) := relay Recognizer.receive p.recognizer reply.out
  let (output, reports) := p.output.relay passed
  ({ p with filter := reply.state, recognizer, output }, reply.handled, reports)

/-- The earliest deadline that is pending. -/
def nextDeadline (p : Pipeline) : Option Micros :=
  earlierDeadline p.recognizer.timers.nextDeadline p.output.nextDeadline

/-- The number of pending timers. -/
def pendingTimers (p : Pipeline) : Nat := p.recognizer.timers.size + p.output.pendingTimers

/-- Moves the clock on to a time and fires every timer that is due by then. The clock never goes back. -/
def advance (p : Pipeline) (now : Micros) : Pipeline × List Report :=
  let clock := max p.clock now
  let (p, _, reports) := { p with clock }.send (.time clock)
  (p, reports)

/-- Fires the timers that are due before a time. -/
def catchUp (p : Pipeline) (time : Micros) : Pipeline × List Report :=
  match p.nextDeadline with
  | some deadline => if deadline < time then p.advance (time - 1) else (p, [])
  | none => (p, [])

/-- Feeds a sample. A timer that is due at the time of the sample fires after it. -/
def pointer (p : Pipeline) (s : Sample) : Pipeline × Bool × List Report :=
  let (p, early) := p.catchUp s.time
  let (p, handled, reports) :=
    { p with clock := max p.clock s.time }.send (.event (.pointer s))
  (p, handled, early ++ reports)

/-- Feeds an event. Only samples carry a time that the pipeline goes by. -/
def feed (p : Pipeline) : Event → Pipeline × Bool × List Report
  | .pointer s => p.pointer s
  | e => p.send (.event e)

/-- Forgets the touch in progress on a kind of device. -/
def clear (p : Pipeline) (source : PointerSource) : Pipeline × List Report :=
  let (p, _, reports) := p.send (.clear source)
  (p, reports)

/-- Moves the clock on from deadline to deadline, at most `rounds` times. -/
def flushRounds : (rounds : Nat) → Pipeline → Pipeline × List Report
  | 0, p => (p, [])
  | rounds + 1, p =>
    match p.nextDeadline with
    | none => (p, [])
    | some deadline =>
      let (p, reports) := p.advance deadline
      let (p, more) := flushRounds rounds p
      (p, reports ++ more)

/-- Fires every pending timer. Each round fires one at least, so there are no more rounds than timers. -/
def flush (p : Pipeline) : Pipeline × List Report := flushRounds p.pendingTimers p

/-- Gives up all state and all timers, the first time it is asked to. -/
def destroy (p : Pipeline) : Pipeline × List Report :=
  if p.destroyed then (p, [])
  else
    let (p, _, reports) := { p with destroyed := true }.send .destroy
    (p, reports)

/-- What can be asked of a pipeline. -/
inductive Request
  | feed (e : Event)
  | advance (now : Micros)
  | flush
  | clear (source : PointerSource)
  | destroy
deriving DecidableEq, Repr

/-- Does what is asked. The result tells whether an event was taken charge of. -/
def handle (p : Pipeline) : Request → Pipeline × Bool × List Report
  | .feed e => p.feed e
  | .advance now =>
    let (p, reports) := p.advance now
    (p, false, reports)
  | .flush =>
    let (p, reports) := p.flush
    (p, false, reports)
  | .clear source =>
    let (p, reports) := p.clear source
    (p, false, reports)
  | .destroy =>
    let (p, reports) := p.destroy
    (p, false, reports)

/-- The state in words, for tracing. -/
def describe (p : Pipeline) : String :=
  "Pipeline \x7b head: \"" ++ (Stage.filter p.filter).name ++ "\", clock: "
    ++ toString p.clock.toNat ++ ", destroyed: " ++ toString p.destroyed ++ " \x7d"

end Pipeline

end TouchStream
