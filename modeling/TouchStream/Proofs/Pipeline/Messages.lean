import Mathlib.Data.List.Basic
import TouchStream.Proofs.Chain.Time
import TouchStream.Proofs.Pipeline.Run

/-!
# What reaches the stages of a pipeline

A request comes down to messages for the head: times at which timers are to fire, and
then what was asked for. The filter lets messages on to the recognizer, and what the
recognizer makes of them goes to the stages behind it. Over a whole run each of the
three can be read on its own.

* `Pipeline.messages`: what the head is given at a request.
* `Pipeline.toRecognizer`, `Pipeline.toOutput`: what reaches the recognizer in a run,
  and what reaches the stages behind it.
* `Pipeline.run_eq`: the recognizer after a run is the recognizer after what reached it,
  and the reports of the run are what the stages behind make of what reached them.
* `Pipeline.decides`: the decisions of a run, as its reports have them (`decisionsOf_run`).
* `Pipeline.eventsIn`: the events that are handed on. Sinks deliver them (`deliveriesOf_run`).
-/

namespace TouchStream

theorem decisionsIn_append (xs ys : List Signal) :
    decisionsIn (xs ++ ys) = decisionsIn xs ++ decisionsIn ys := by
  rw [decisionsIn, List.filterMap_append, decisionsOf, List.filterMap_append]
  rfl

/-- The events among signals. -/
def Pipeline.eventsIn (out : List Signal) : List Event :=
  out.filterMap fun
    | .message (.event e) => some e
    | _ => none

theorem Pipeline.eventsIn_append (xs ys : List Signal) :
    eventsIn (xs ++ ys) = eventsIn xs ++ eventsIn ys := List.filterMap_append

/-- The event that a signal carries, be it on its way or delivered. -/
def Signal.event? : Signal → Option Event
  | message (.event e) => some e
  | message _ => none
  | report r => r.event?

/-! ## The filter -/

namespace TouchFilter

/-- The messages that the filter lets on for one. -/
def passes (f : TouchFilter) : Message → List Message
  | .event (.pointer s) => (f.pointer s).2.2.map fun x => .event (.pointer x)
  | m => [m]

/-- The filter after some messages, and the messages that it lets on. -/
def pass (f : TouchFilter) : List Message → TouchFilter × List Message
  | [] => (f, [])
  | m :: ms =>
    let (f', more) := (f.receive m).state.pass ms
    (f', f.passes m ++ more)

theorem pass_cons (f : TouchFilter) (m : Message) (ms : List Message) :
    f.pass (m :: ms) =
      (((f.receive m).state.pass ms).1, f.passes m ++ ((f.receive m).state.pass ms).2) := rfl

theorem out_receive (f : TouchFilter) (m : Message) :
    (f.receive m).out = (f.passes m).map .message := by
  cases m with
  | event e =>
    cases e with
    | pointer s =>
      show (f.pointer s).2.2.map Signal.sample = _
      rw [passes, List.map_map]
      rfl
    | key k => rfl
    | accessibility a => rfl
  | time now => rfl
  | clear source => rfl
  | destroy => rfl

theorem relay_messages (f : TouchFilter) (ms : List Message) :
    relay receive f (ms.map .message) = ((f.pass ms).1, (f.pass ms).2.map .message) := by
  induction ms generalizing f with
  | nil => rfl
  | cons m ms ih => rw [List.map_cons, relay, ih, f.out_receive, pass_cons, List.map_append]

end TouchFilter

/-! ## The recognizer -/

namespace Recognizer

/-- What a recognizer passes on while it is given messages. -/
def handsOn (r : Recognizer) : List Message → List Signal
  | [] => []
  | m :: ms => (r.receive m).out ++ (r.receive m).state.handsOn ms

theorem handsOn_cons (r : Recognizer) (m : Message) (ms : List Message) :
    r.handsOn (m :: ms) = (r.receive m).out ++ (r.receive m).state.handsOn ms := rfl

theorem handsOn_append (r : Recognizer) (ms ms' : List Message) :
    r.handsOn (ms ++ ms') = r.handsOn ms ++ (r.after ms).handsOn ms' := by
  induction ms generalizing r with
  | nil => rfl
  | cons m ms ih => rw [List.cons_append, handsOn_cons, ih, handsOn_cons, List.append_assoc]; rfl

theorem relay_messages (r : Recognizer) (ms : List Message) :
    relay receive r (ms.map .message) = (r.after ms, r.handsOn ms) := by
  induction ms generalizing r with
  | nil => rfl
  | cons m ms ih => rw [List.map_cons, relay, ih]; rfl

end Recognizer

/-- A recognizer reports its decisions and passes messages on. -/
theorem Recognizer.exists_out_eq (r : Recognizer) (m : Message) :
    ∃ (ds : List Decision) (ms : List Message),
      (r.receive m).out = ds.map .decision ++ ms.map .message := by
  cases m with
  | event e =>
    cases e with
    | pointer s =>
      refine ⟨(r.pointer s).decisions,
        if (r.pointer s).consumed then [] else [.event (.pointer s)], ?_⟩
      rw [receive]
      split <;> rfl
    | key k => exact ⟨[], [_], rfl⟩
    | accessibility a => exact ⟨[], [_], rfl⟩
  | time now => exact ⟨(r.advance now).2, [_], rfl⟩
  | clear source => exact ⟨[], [_], rfl⟩
  | destroy => exact ⟨[], [_], rfl⟩

/-- So all events that it hands on are on their way. -/
theorem Recognizer.carried_handsOn (r : Recognizer) (ms : List Message) :
    (r.handsOn ms).filterMap Signal.event? = Pipeline.eventsIn (r.handsOn ms) := by
  induction ms generalizing r with
  | nil => rfl
  | cons m ms ih =>
    obtain ⟨ds, out, hout⟩ := r.exists_out_eq m
    rw [handsOn_cons, List.filterMap_append, Pipeline.eventsIn_append, ih, hout]
    congr 1
    refine List.filterMap_congr fun x hx => ?_
    rcases List.mem_append.mp hx with hx | hx
    · obtain ⟨d, -, rfl⟩ := List.mem_map.mp hx
      rfl
    · obtain ⟨m, -, rfl⟩ := List.mem_map.mp hx
      cases m <;> rfl

theorem Stage.relay_recognizer (r : Recognizer) (xs : List Signal) :
    relay Stage.receive (.recognizer r) xs =
      (.recognizer (relay Recognizer.receive r xs).1, (relay Recognizer.receive r xs).2) := by
  induction xs generalizing r with
  | nil => rfl
  | cons x xs ih =>
    cases x with
    | message m => simp only [relay, Stage.receive, ih]
    | report r' => simp only [relay, ih]

/-! ## Chains -/

namespace Chain

/-- Gives the head messages one after another. -/
def run (c : Chain) : List Message → Chain × List Report
  | [] => (c, [])
  | m :: ms =>
    let (c, _, reports) := c.send m
    let (c, more) := c.run ms
    (c, reports ++ more)

theorem run_cons (c : Chain) (m : Message) (ms : List Message) :
    c.run (m :: ms) =
      (((c.send m).1.run ms).1, (c.send m).2.2 ++ ((c.send m).1.run ms).2) := rfl

theorem run_append (c : Chain) (ms ms' : List Message) :
    c.run (ms ++ ms') =
      (((c.run ms).1.run ms').1, (c.run ms).2 ++ ((c.run ms).1.run ms').2) := by
  induction ms generalizing c with
  | nil => rfl
  | cons m ms ih => simp only [List.cons_append, run_cons, ih, List.append_assoc]

/-- In a chain of a filter, a recognizer and further stages, the filter hears all
messages, the recognizer what the filter lets on, and the others what it hands on. -/
theorem run_front (f : TouchFilter) (r : Recognizer) (output : Chain) (ms : List Message) :
    Chain.run (.filter f :: .recognizer r :: output) ms =
      (.filter (f.pass ms).1 :: .recognizer (r.after (f.pass ms).2) ::
          (output.relay (r.handsOn (f.pass ms).2)).1,
        (output.relay (r.handsOn (f.pass ms).2)).2) := by
  induction ms generalizing f r output with
  | nil =>
    have hnone := output.relay_reports []
    rw [List.map_nil] at hnone
    simp only [run, TouchFilter.pass, Recognizer.handsOn, hnone]
    rfl
  | cons m ms ih =>
    have hsend : Chain.send (.filter f :: .recognizer r :: output) m =
        (.filter (f.receive m).state :: .recognizer (r.after (f.passes m)) ::
            (output.relay (r.handsOn (f.passes m))).1,
          (f.receive m).handled, (output.relay (r.handsOn (f.passes m))).2) := by
      simp only [send, Stage.receive, relay, Stage.relay_recognizer, f.out_receive,
        Recognizer.relay_messages]
    rw [run_cons, hsend, ih]
    simp only [TouchFilter.pass_cons, Recognizer.handsOn_append, Recognizer.after_append,
      output.relay_append]

end Chain

/-! ## Plain stages -/

/-- Plain stages report no decisions of their own and swallow none. -/
theorem Stage.decisionsIn_relay {stage : Stage} (h : stage.isPlain = true) (xs : List Signal) :
    decisionsIn (relay Stage.receive stage xs).2 = decisionsIn xs := by
  induction xs with
  | nil => rfl
  | cons x xs ih =>
    cases x with
    | message m =>
      have hnone : decisionsIn (stage.receive m).out = [] := by
        rcases out_plain h m with ⟨-, e, -, hout⟩ | ⟨-, hout⟩
        · rw [hout]
          rfl
        · rw [hout]
          rfl
      rw [relay, receive_plain h, decisionsIn_append, hnone, ih]
      rfl
    | report r =>
      cases r with
      | decided d =>
        show d :: decisionsIn (relay Stage.receive stage xs).2 = d :: decisionsIn xs
        rw [ih]
      | delivered e => exact ih

theorem Chain.IsPlain.decisionsOf_relay {c : Chain} (h : c.IsPlain) (xs : List Signal) :
    decisionsOf (c.relay xs).2 = decisionsIn xs := by
  induction c generalizing xs with
  | nil => rfl
  | cons stage rest ih =>
    obtain ⟨hstage, hrest⟩ := List.forall_mem_cons.mp h
    rw [Chain.relay, ih hrest, Stage.decisionsIn_relay hstage]

/-- Plain stages lose no event and invent none. -/
theorem Stage.carried_relay {stage : Stage} (h : stage.isPlain = true) (xs : List Signal) :
    (relay receive stage xs).2.filterMap Signal.event? = xs.filterMap Signal.event? := by
  induction xs with
  | nil => rfl
  | cons x xs ih =>
    cases x with
    | message m =>
      have hsame : (stage.receive m).out.filterMap Signal.event? =
          [Signal.message m].filterMap Signal.event? := by
        rcases out_plain h m with ⟨-, e, rfl, hout⟩ | ⟨-, hout⟩
        · rw [hout]
          rfl
        · rw [hout]
      rw [relay, receive_plain h, List.filterMap_append, hsame, ih, ← List.filterMap_append,
        List.singleton_append]
    | report r => rw [relay, List.filterMap_cons, List.filterMap_cons, ih]

/-- Behind a sink no event is on its way any more. -/
theorem Stage.eventsIn_relay {stage : Stage} (h : stage.isPlain = true) {xs : List Signal}
    (hall : stage = .sink ∨ Pipeline.eventsIn xs = []) :
    Pipeline.eventsIn (relay receive stage xs).2 = [] := by
  induction xs with
  | nil => rfl
  | cons x xs ih =>
    have hrest : stage = .sink ∨ Pipeline.eventsIn xs = [] :=
      hall.imp_right fun hnone => List.filterMap_eq_nil_iff.mpr
        (List.forall_mem_cons.mp (List.filterMap_eq_nil_iff.mp hnone)).2
    cases x with
    | message m =>
      have hnone : Pipeline.eventsIn (stage.receive m).out = [] := by
        rcases out_plain h m with ⟨-, e, -, hout⟩ | ⟨hother, hout⟩
        · rw [hout]
          rfl
        · rw [hout]
          cases m with
          | event e =>
            rcases hall with hsink | hnone
            · exact absurd rfl (hother hsink e)
            · cases hnone
          | time now => rfl
          | clear source => rfl
          | destroy => rfl
      rw [relay, receive_plain h, Pipeline.eventsIn_append, hnone, ih hrest]
      rfl
    | report r => exact ih hrest

/-- Plain stages with a sink among them deliver every event, in the order in which they come. -/
theorem Chain.IsPlain.deliveriesOf_relay {c : Chain} (h : c.IsPlain) {xs : List Signal}
    (hall : .sink ∈ c ∨ Pipeline.eventsIn xs = []) :
    deliveriesOf (c.relay xs).2 = xs.filterMap Signal.event? := by
  induction c generalizing xs with
  | nil =>
    have hnone : Pipeline.eventsIn xs = [] := hall.resolve_left List.not_mem_nil
    rw [relay, deliveriesOf, List.filterMap_filterMap]
    refine List.filterMap_congr fun x hx => ?_
    cases x with
    | report r => rfl
    | message m =>
      cases m with
      | event e => cases List.filterMap_eq_nil_iff.mp hnone _ hx
      | time now => rfl
      | clear source => rfl
      | destroy => rfl
  | cons stage rest ih =>
    obtain ⟨hstage, hrest⟩ := List.forall_mem_cons.mp h
    have hleft : .sink ∈ rest ∨
        Pipeline.eventsIn (TouchStream.relay Stage.receive stage xs).2 = [] := by
      rcases hall with hsink | hnone
      · rcases List.mem_cons.mp hsink with rfl | hsink
        · exact Or.inr (Stage.eventsIn_relay hstage (Or.inl rfl))
        · exact Or.inl hsink
      · exact Or.inr (Stage.eventsIn_relay hstage (Or.inr hnone))
    rw [relay, ih hrest hleft, Stage.carried_relay hstage]

namespace Pipeline

variable {p : Pipeline}

/-! ## Requests -/

/-- The time that the head is told before a sample, if a timer is due before it. -/
def wakings (p : Pipeline) (time : Micros) : List Message :=
  if DueBefore p.nextDeadline time then [.time (max p.clock (time - 1))] else []

/-- The times that the head is told in a flush. -/
def flushTimes : (rounds : Nat) → Pipeline → List Message
  | 0, _ => []
  | rounds + 1, p =>
    match p.nextDeadline with
    | none => []
    | some deadline => .time (max p.clock deadline) :: flushTimes rounds (p.advance deadline).1

/-- What the head is given at a request. -/
def messages (p : Pipeline) : Request → List Message
  | .feed (.pointer s) => p.wakings s.time ++ [.event (.pointer s)]
  | .feed e => [.event e]
  | .advance now => [.time (max p.clock now)]
  | .flush => flushTimes p.pendingTimers p
  | .clear source => [.clear source]
  | .destroy => if p.destroyed then [] else [.destroy]

theorem chain_send (p : Pipeline) (m : Message) :
    p.chain.send m = ((p.send m).1.chain, (p.send m).2.1, (p.send m).2.2) := by
  simp only [chain, send, Chain.send, Chain.relay, Stage.receive, Stage.relay_recognizer]

theorem run_single (p : Pipeline) (m : Message) :
    p.chain.run [m] = ((p.send m).1.chain, (p.send m).2.2) := by
  rw [Chain.run_cons, chain_send, Chain.run, List.append_nil]

theorem run_advance_time (p : Pipeline) (now : Micros) :
    p.chain.run [.time (max p.clock now)] = ((p.advance now).1.chain, (p.advance now).2) :=
  run_single p _

theorem catchUp_eq_if (p : Pipeline) (time : Micros) :
    p.catchUp time =
      if DueBefore p.nextDeadline time then p.advance (time - 1) else (p, []) := by
  unfold catchUp
  cases h : p.nextDeadline with
  | none =>
    rw [if_neg]
    rintro ⟨d, hd, -⟩
    cases hd
  | some d => simp [DueBefore]

theorem run_wakings (p : Pipeline) (time : Micros) :
    p.chain.run (p.wakings time) = ((p.catchUp time).1.chain, (p.catchUp time).2) := by
  rw [wakings, catchUp_eq_if]
  split
  · exact run_advance_time p _
  · rfl

theorem run_flushTimes (n : Nat) (p : Pipeline) :
    p.chain.run (flushTimes n p) = ((flushRounds n p).1.chain, (flushRounds n p).2) := by
  induction n generalizing p with
  | zero => rfl
  | succ n ih =>
    unfold flushTimes flushRounds
    cases p.nextDeadline with
    | none => rfl
    | some d =>
      have hfirst := run_advance_time p d
      show p.chain.run ([.time (max p.clock d)] ++ flushTimes n (p.advance d).1) = _
      rw [Chain.run_append, hfirst, ih]

/-- A request does to the stages what its messages do. -/
theorem handle_eq_run (p : Pipeline) (request : Request) :
    p.chain.run (p.messages request) =
      ((p.handle request).1.chain, (p.handle request).2.2) := by
  cases request with
  | feed e =>
    cases e with
    | pointer s =>
      -- the clock is set between the two, and no stage sees it
      have hsend := run_single
        { (p.catchUp s.time).1 with clock := max (p.catchUp s.time).1.clock s.time }
        (.event (.pointer s))
      show p.chain.run (p.wakings s.time ++ [.event (.pointer s)]) = _
      rw [Chain.run_append, run_wakings]
      exact congrArg (fun x => (x.1, (p.catchUp s.time).2 ++ x.2)) hsend
    | key k => exact run_single p _
    | accessibility a => exact run_single p _
  | advance now => exact run_advance_time p now
  | flush => exact run_flushTimes _ p
  | clear source => exact run_single p _
  | destroy =>
    simp only [messages, handle, destroy]
    split
    · rfl
    · exact run_single { p with destroyed := true } .destroy

/-! ## Runs -/

/-- The messages that reach the recognizer in a run. -/
def toRecognizer (p : Pipeline) : List Request → List Message
  | [] => []
  | request :: requests =>
    (p.filter.pass (p.messages request)).2 ++ (p.handle request).1.toRecognizer requests

/-- What reaches the stages behind the recognizer in a run. -/
def toOutput (p : Pipeline) (requests : List Request) : List Signal :=
  p.recognizer.handsOn (p.toRecognizer requests)

/-- What is decided in a run. -/
def decides (p : Pipeline) (requests : List Request) : List Decision :=
  decisionsIn (p.toOutput requests)

theorem handle_front (p : Pipeline) (request : Request) :
    (p.handle request).1.filter = (p.filter.pass (p.messages request)).1 ∧
      (p.handle request).1.recognizer =
        p.recognizer.after (p.filter.pass (p.messages request)).2 ∧
      (p.handle request).1.output = (p.output.relay
        (p.recognizer.handsOn (p.filter.pass (p.messages request)).2)).1 ∧
      (p.handle request).2.2 = (p.output.relay
        (p.recognizer.handsOn (p.filter.pass (p.messages request)).2)).2 := by
  have hrun := handle_eq_run p request
  rw [chain, Chain.run_front, chain, Prod.mk.injEq] at hrun
  simp only [List.cons.injEq, Stage.filter.injEq, Stage.recognizer.injEq] at hrun
  exact ⟨hrun.1.1.symm, hrun.1.2.1.symm, hrun.1.2.2.symm, hrun.2.symm⟩

theorem toRecognizer_single (p : Pipeline) (request : Request) :
    p.toRecognizer [request] = (p.filter.pass (p.messages request)).2 :=
  List.append_nil _

theorem toRecognizer_cons (p : Pipeline) (request : Request) (requests : List Request) :
    p.toRecognizer (request :: requests) =
      p.toRecognizer [request] ++ (p.handle request).1.toRecognizer requests := by
  rw [toRecognizer_single]
  rfl

theorem recognizer_handle (p : Pipeline) (request : Request) :
    (p.handle request).1.recognizer = p.recognizer.after (p.toRecognizer [request]) := by
  rw [toRecognizer_single]
  exact (handle_front p request).2.1

theorem run_append (p : Pipeline) (requests more : List Request) :
    (p.run (requests ++ more)).1 = ((p.run requests).1.run more).1 := by
  induction requests generalizing p with
  | nil => rfl
  | cons request requests ih => exact ih _

theorem reports_append (p : Pipeline) (requests more : List Request) :
    (p.run (requests ++ more)).2.2 =
      (p.run requests).2.2 ++ ((p.run requests).1.run more).2.2 := by
  induction requests generalizing p with
  | nil => rfl
  | cons request requests ih =>
    have hrest := ih (p.handle request).1
    show (p.handle request).2.2 ++ ((p.handle request).1.run (requests ++ more)).2.2 = _
    rw [hrest, ← List.append_assoc]
    rfl

theorem toOutput_cons (p : Pipeline) (request : Request) (requests : List Request) :
    p.toOutput (request :: requests) =
      p.toOutput [request] ++ (p.handle request).1.toOutput requests := by
  rw [toOutput, toRecognizer_cons, Recognizer.handsOn_append, ← recognizer_handle]
  rfl

theorem decides_cons (p : Pipeline) (request : Request) (requests : List Request) :
    p.decides (request :: requests) =
      p.decides [request] ++ (p.handle request).1.decides requests := by
  simp only [decides, toOutput_cons p request requests, decisionsIn_append]

theorem decides_feed (p : Pipeline) (e : Event) (requests : List Request) :
    p.decides (.feed e :: requests) = p.decides [.feed e] ++ (p.feed e).1.decides requests :=
  p.decides_cons (.feed e) requests

/-- The recognizer of a pipeline goes by what reaches it, and the stages behind it and
the reports go by what it hands on. -/
theorem run_eq (p : Pipeline) (requests : List Request) :
    (p.run requests).1.recognizer = p.recognizer.after (p.toRecognizer requests) ∧
      (p.run requests).1.output = (p.output.relay (p.toOutput requests)).1 ∧
      (p.run requests).2.2 = (p.output.relay (p.toOutput requests)).2 := by
  induction requests generalizing p with
  | nil =>
    have hnone := p.output.relay_reports []
    rw [List.map_nil] at hnone
    simp only [toOutput, toRecognizer, Recognizer.handsOn, hnone]
    exact ⟨rfl, rfl, rfl⟩
  | cons request requests ih =>
    obtain ⟨-, -, houtput, hreports⟩ := handle_front p request
    rw [← toRecognizer_single] at houtput hreports
    obtain ⟨ih1, ih2, ih3⟩ := ih (p.handle request).1
    rw [toOutput_cons, p.output.relay_append, toOutput, ← houtput, ← hreports]
    refine ⟨?_, ih2, ?_⟩
    · rw [toRecognizer_cons, Recognizer.after_append, ← recognizer_handle]
      exact ih1
    · rw [← ih3]
      rfl

/-- With plain stages behind the recognizer, what is decided in a run is what its reports
say. -/
theorem decisionsOf_run (h : p.output.IsPlain) (requests : List Request) :
    decisionsOf (p.run requests).2.2 = p.decides requests := by
  rw [(run_eq p requests).2.2, h.decisionsOf_relay]
  rfl

/-- So it is after any other run. -/
theorem decisionsOf_run_after (h : p.output.IsPlain) (past requests : List Request) :
    decisionsOf ((p.run past).1.run requests).2.2 = (p.run past).1.decides requests := by
  have hkept : (p.run past).1.output = p.output := run_output h past
  exact decisionsOf_run (hkept.symm ▸ h) requests

/-- With a sink among them, the reports also say which events were handed on. -/
theorem deliveriesOf_run (h : p.output.IsPlain) (hsink : .sink ∈ p.output)
    (requests : List Request) :
    deliveriesOf (p.run requests).2.2 = eventsIn (p.toOutput requests) := by
  rw [(run_eq p requests).2.2, h.deliveriesOf_relay (Or.inl hsink)]
  exact p.recognizer.carried_handsOn _

end Pipeline

end TouchStream
