import TouchStream.Proofs.Pipeline.CatchUp
import TouchStream.Proofs.Worker

/-!
# Commands of a worker

What is submitted to a worker waits in its queue. Whatever the order of submissions, wakings and
takings, the commands come to the pipeline in the order in which they were submitted, each of them
once, up to the first shutdown. A handle that is given up ends the queue as a shutdown does.

* `run_running`: what the worker asked of its pipeline, what waits and what was submitted are
  accounted for together, and the reports are those of the requests.
* `requests_length_le`: every waking takes a timer away, so between two commands there are no more
  wakings than timers.
* `commands_served_once`: both together, for every schedule of a worker whose listener never fails.
-/

namespace TouchStream

/-! ## Giving everything up -/

theorem Chain.relay_destroy (c : Chain) : (c.relay [.message .destroy]).2 = [] := by
  induction c with
  | nil => rfl
  | cons stage rest ih => cases stage <;> exact ih

/-- A pipeline that is destroyed has nothing more to report. -/
theorem Pipeline.reports_destroy (p : Pipeline) : (p.handle .destroy).2.2 = [] := by
  simp only [handle, destroy]
  split
  · rfl
  · exact Chain.relay_destroy p.output

/-- Moving the clock to a deadline that is pending, or beyond it, takes a timer away. -/
theorem Pipeline.pendingTimers_advance_max_lt {p : Pipeline} {d : Micros}
    (hd : p.nextDeadline = some d) (now : Micros) :
    (p.advance (max now d)).1.pendingTimers < p.pendingTimers := by
  have hdue : d ≤ max p.clock (max now d) :=
    UInt64.le_trans (Micros.le_max_right now d) (Micros.le_max_right p.clock _)
  rw [advance_eq_elapsed, pendingTimers_eq_timed, pendingTimers_eq_timed, timed_elapsed]
  exact Chain.pendingTimers_elapse_lt hd hdue

/-! ## Listeners that never fail -/

/-- No decision makes the listener fail. -/
def Listener.NeverFails (listener : Listener) : Prop := ∀ d, listener d ≠ .failed

theorem Listener.NeverFails.take {listener : Listener} (h : listener.NeverFails)
    (rs : List Report) : (listener.take rs).2 = false := by
  induction rs with
  | nil => rfl
  | cons r rs ih =>
    cases r with
    | delivered e => exact ih
    | decided d =>
      cases hd : listener d with
      | failed => exact absurd hd (h d)
      | heard => simp only [Listener.take, hd, ih]
      | ignored => simp only [Listener.take, hd, ih]

namespace Worker

open Pipeline (Request)

variable {w : Worker} {p : Pipeline} {m : Move} {ms : List Move} {listener : Listener}
  {queue : List Command} {clock : Nat}

/-! ## Commands -/

/-- The command that is submitted, if one is. -/
def Move.command? : Move → Option Command
  | .submit c => some c
  | _ => none

/-- The commands among requests. The others come of the wakings of the worker. -/
def commandsOf (requests : List Request) : List Command :=
  requests.filterMap fun
    | .feed e => some (.event e)
    | .clear source => some (.clear source)
    | .destroy => some .shutdown
    | .advance _ => none
    | .flush => none

theorem commandsOf_append (requests more : List Request) :
    commandsOf (requests ++ more) = commandsOf requests ++ commandsOf more :=
  List.filterMap_append

/-- A worker that owns a pipeline, and the commands that wait. -/
def running (p : Pipeline) (queue : List Command) (listener : Listener) (clock : Nat) : Worker :=
  ⟨some p, queue, listener, clock⟩

/-- A worker that is gone. -/
def ended (listener : Listener) (clock : Nat) : Worker := ⟨none, [], listener, clock⟩

/-- What has been asked of a pipeline: the commands among the requests are the first ones of those that arrived,
without a shutdown, and nothing is reported but what the pipeline makes of the requests. -/
structure Asked (listener : Listener) (p : Pipeline) (arrived : List Command) (requests : List Request)
    (waiting : List Command) (reports : List Report) : Prop where
  commands : arrived = commandsOf requests ++ waiting
  no_shutdown : .shutdown ∉ commandsOf requests
  reports : reports = (listener.take (p.run requests).2.2).1

theorem Asked.trans (h : listener.NeverFails) {arrived more waiting : List Command} {first rest : List Request}
    {reports later : List Report} (hfirst : Asked listener p arrived first queue reports)
    (hrest : Asked listener (p.run first).1 (queue ++ more) rest waiting later) :
    Asked listener p (arrived ++ more) (first ++ rest) waiting (reports ++ later) where
  commands := by
    rw [commandsOf_append, List.append_assoc, ← hrest.commands, hfirst.commands, List.append_assoc]
  no_shutdown := by
    rw [commandsOf_append, List.mem_append, not_or]
    exact ⟨hfirst.no_shutdown, hrest.no_shutdown⟩
  reports := by
    rw [Pipeline.reports_append, listener.take_append _ (h.take _), hfirst.reports, hrest.reports]

/-! ## One move -/

theorem after_running (h : listener.NeverFails) (p : Pipeline) (queue : List Command) (clock : Nat)
    (step : Pipeline × List Report) :
    (running p queue listener clock).after step =
      (running step.1 queue listener clock, (listener.take step.2).1) := by
  unfold after
  dsimp only [running]
  rw [h.take]
  rfl

/-- A move of a worker that runs serves the first command, or wakes, or asks nothing of the
pipeline. The worker ends with the first command if that is a shutdown. -/
theorem move_running (h : listener.NeverFails) (p : Pipeline) (queue : List Command) (clock : Nat)
    (m : Move) :
    let w := running p queue listener clock
    let requests := (w.request? m).toList
    (∃ queue' clock', (w.move m).1 = running (p.run requests).1 queue' listener clock' ∧
        Asked listener p (queue ++ m.command?.toList) requests queue' (w.move m).2) ∨
      ∃ left, queue = .shutdown :: left ∧ m.command? = none ∧ requests = [.destroy] ∧
        w.move m = (ended listener clock, []) := by
  intro w requests
  have hreports (request : Request) : (p.run [request]).2.2 = (p.handle request).2.2 :=
    List.append_nil _
  cases m with
  | submit c =>
    exact Or.inl ⟨queue ++ [c], clock, rfl, rfl, by simp [requests, request?, commandsOf], rfl⟩
  | tick span =>
    exact Or.inl ⟨queue, clock + span, rfl, List.append_nil queue,
      by simp [requests, request?, commandsOf], rfl⟩
  | wake =>
    dsimp only [move]
    rcases wake_eq (w := w) rfl with ⟨hrequest, hwake⟩ | ⟨now, hrequest, hwake⟩
    · simp only [requests, hrequest, hwake]
      exact Or.inl ⟨queue, clock, rfl, List.append_nil queue, by simp [commandsOf], rfl⟩
    · have hafter := after_running h p queue clock
      simp only [requests, hrequest, hwake, Option.toList_some]
      refine Or.inl ⟨queue, clock, congrArg Prod.fst (hafter _), List.append_nil queue, by simp [commandsOf], ?_⟩
      rw [hreports]
      exact congrArg Prod.snd (hafter _)
  | take =>
    cases queue with
    | nil =>
      exact Or.inl ⟨[], clock, rfl, rfl, by simp [requests, request?, commandsOf, w, running], rfl⟩
    | cons c left =>
      cases c with
      | event e =>
        have hafter := after_running h p left clock ((p.feed e).1, (p.feed e).2.2)
        refine Or.inl ⟨left, clock, congrArg Prod.fst hafter, List.append_nil _, ?_, ?_⟩
        · simp [requests, request?, commandsOf, w, running]
        · exact (congrArg Prod.snd hafter).trans
            (congrArg (fun rs => (listener.take rs).1) (hreports (.feed e)).symm)
      | clear source =>
        have hafter := after_running h p left clock (p.clear source)
        refine Or.inl ⟨left, clock, congrArg Prod.fst hafter, List.append_nil _, ?_, ?_⟩
        · simp [requests, request?, commandsOf, w, running]
        · exact (congrArg Prod.snd hafter).trans
            (congrArg (fun rs => (listener.take rs).1) (hreports (.clear source)).symm)
      | shutdown =>
        have hafter := after_running h p (.shutdown :: left) clock p.destroy
        have hsilent : p.destroy.2 = [] := p.reports_destroy
        refine Or.inr ⟨left, rfl, rfl, rfl, ?_⟩
        show ((w.after p.destroy).1.close, (w.after p.destroy).2) = _
        rw [hafter, hsilent]
        rfl

theorem request_ended (listener : Listener) (clock : Nat) (m : Move) :
    (ended listener clock).request? m = none := by
  cases m <;> rfl

theorem run_ended (listener : Listener) (clock : Nat) (ms : List Move) :
    (∃ clock', (ended listener clock).run ms = (ended listener clock', [])) ∧
      (ended listener clock).requests ms = [] := by
  induction ms generalizing clock with
  | nil => exact ⟨⟨clock, rfl⟩, rfl⟩
  | cons m ms ih =>
    have hmove : ∃ clock', (ended listener clock).move m = (ended listener clock', []) := by
      cases m with
      | tick span => exact ⟨clock + span, rfl⟩
      | submit c => exact ⟨clock, rfl⟩
      | take => exact ⟨clock, rfl⟩
      | wake => exact ⟨clock, rfl⟩
    obtain ⟨clock', hmove⟩ := hmove
    obtain ⟨⟨clock'', hrun⟩, hrequests⟩ := ih clock'
    refine ⟨⟨clock'', ?_⟩, ?_⟩
    · rw [run_cons, hmove, hrun]
      rfl
    · rw [requests, request_ended, hmove, hrequests]
      rfl

/-! ## Whole schedules -/

theorem requests_cons (w : Worker) (m : Move) (ms : List Move) :
    w.requests (m :: ms) = (w.request? m).toList ++ (w.move m).1.requests ms := rfl

theorem commands_cons (m : Move) (ms : List Move) :
    (m :: ms).filterMap Move.command? = m.command?.toList ++ ms.filterMap Move.command? := by
  rw [List.filterMap_cons]
  cases m.command? <;> rfl

/-- What has been served and what waits are what was submitted, until a shutdown is served. -/
theorem run_running (h : listener.NeverFails) (p : Pipeline) (queue : List Command) (clock : Nat)
    (ms : List Move) :
    let w := running p queue listener clock
    let arrived := queue ++ ms.filterMap Move.command?
    (∃ queue' clock', (w.run ms).1 = running (p.run (w.requests ms)).1 queue' listener clock' ∧
        Asked listener p arrived (w.requests ms) queue' (w.run ms).2) ∨
      ∃ given left clock', w.requests ms = given ++ [.destroy] ∧ (w.run ms).1 = ended listener clock' ∧
        Asked listener p arrived given (.shutdown :: left) (w.run ms).2 := by
  induction ms generalizing p queue clock with
  | nil =>
    exact Or.inl ⟨queue, clock, rfl, List.append_nil queue, by simp [requests, commandsOf], rfl⟩
  | cons m ms ih =>
    intro w arrived
    rw [run_cons, requests_cons]
    have harrived : arrived = queue ++ m.command?.toList ++ ms.filterMap Move.command? := by
      rw [List.append_assoc, ← commands_cons]
    rw [harrived]
    rcases move_running h p queue clock m with
      ⟨queue₁, clock₁, hstate, hasked⟩ | ⟨left, rfl, hcommand, hrequest, hmove⟩
    · -- the worker runs on, and the rest of the schedule finds it with the first request done
      generalize ((running p queue listener clock).request? m).toList = first at *
      rw [hstate]
      rcases ih (p.run first).1 queue₁ clock₁ with
        ⟨queue₂, clock₂, hstate₂, hasked₂⟩ | ⟨given, left, clock₂, hrequests₂, hstate₂, hasked₂⟩
      · refine Or.inl ⟨queue₂, clock₂, ?_, hasked.trans h hasked₂⟩
        rw [Pipeline.run_append]
        exact hstate₂
      · refine Or.inr ⟨first ++ given, left, clock₂, ?_, hstate₂, hasked.trans h hasked₂⟩
        rw [hrequests₂, List.append_assoc]
    · -- the shutdown is served, and nothing after it
      obtain ⟨⟨clock', hrun⟩, hrequests⟩ := run_ended listener clock ms
      rw [hrequest, hmove, hcommand, hrun, hrequests]
      refine Or.inr ⟨[], left ++ ms.filterMap Move.command?, clock', rfl, rfl, ?_, by simp [commandsOf], rfl⟩
      rw [Option.toList_none, List.append_nil]
      rfl

/-! ## Wakings -/

/-- What a move asks of the pipeline and what is no command moves the clock to a deadline, or
beyond it. -/
theorem request_of_no_command {request : Request}
    (hrequest : (running p queue listener clock).request? m = some request)
    (hnone : commandsOf [request] = []) :
    ∃ now d, p.nextDeadline = some d ∧ request = .advance (max now d) := by
  cases m with
  | submit c => cases hrequest
  | tick span => cases hrequest
  | take =>
    cases queue with
    | nil => cases hrequest
    | cons c left =>
      obtain rfl := Option.some.inj hrequest
      cases c <;> cases hnone
  | wake =>
    obtain ⟨d, hd, hwake⟩ := Option.bind_eq_some_iff.mp hrequest
    split at hwake
    · exact ⟨_, d, hd, (Option.some.inj hwake).symm⟩
    · cases hwake

/-- A request that is no command takes a timer away. -/
theorem pendingTimers_of_no_command
    (hnone : commandsOf ((running p queue listener clock).request? m).toList = []) :
    ((running p queue listener clock).request? m).toList.length +
        (p.run ((running p queue listener clock).request? m).toList).1.pendingTimers ≤
      p.pendingTimers := by
  cases hrequest : (running p queue listener clock).request? m with
  | none => exact Nat.le_of_eq (Nat.zero_add _)
  | some request =>
    rw [hrequest] at hnone
    obtain ⟨now, d, hd, rfl⟩ := request_of_no_command hrequest hnone
    have hfewer := Pipeline.pendingTimers_advance_max_lt hd now
    show 1 + (p.advance (max now d)).1.pendingTimers ≤ p.pendingTimers
    omega

/-- A worker that serves no command wakes at most as often as it has timers. -/
theorem requests_length_le (h : listener.NeverFails) (p : Pipeline) (queue : List Command)
    (clock : Nat) {ms : List Move}
    (hnone : commandsOf ((running p queue listener clock).requests ms) = []) :
    ((running p queue listener clock).requests ms).length +
        ((running p queue listener clock).run ms).1.pendingTimers ≤ p.pendingTimers := by
  induction ms generalizing p queue clock with
  | nil => exact Nat.le_of_eq (Nat.zero_add _)
  | cons m ms ih =>
    rw [requests_cons, commandsOf_append, List.append_eq_nil_iff] at hnone
    obtain ⟨hfirst, hrest⟩ := hnone
    have hfewer := pendingTimers_of_no_command hfirst
    rw [run_cons, requests_cons, List.length_append]
    rcases move_running h p queue clock m with
      ⟨queue₁, clock₁, hstate, -⟩ | ⟨left, rfl, -, hrequest, -⟩
    · dsimp only
      rw [hstate] at hrest ⊢
      have hlater := ih _ _ _ hrest
      omega
    · rw [hrequest] at hfirst
      cases hfirst

theorem pendingTimers_wake_lt (h : listener.NeverFails)
    (hwake : (running p queue listener clock).request? .wake ≠ none) :
    ((running p queue listener clock).move .wake).1.pendingTimers < p.pendingTimers := by
  have hrequest : ∃ now, (running p queue listener clock).request? .wake = some (.advance now) := by
    rcases wake_eq (w := running p queue listener clock) rfl with ⟨hnone, -⟩ | ⟨now, hsome, -⟩
    · exact absurd hnone hwake
    · exact ⟨now, hsome⟩
  obtain ⟨now, hrequest⟩ := hrequest
  have hnone : commandsOf ((running p queue listener clock).request? .wake).toList = [] := by
    rw [hrequest]
    rfl
  have hfewer := pendingTimers_of_no_command hnone
  rcases move_running h p queue clock .wake with ⟨_, _, hstate, -⟩ | ⟨_, -, -, hdestroy, -⟩
  · rw [hstate]
    rw [hrequest] at hfewer ⊢
    exact Nat.lt_of_lt_of_le (Nat.lt_add_of_pos_left Nat.one_pos) hfewer
  · rw [hrequest] at hdestroy
    cases hdestroy

/-! ## What a worker does for its commands -/

/-- A schedule of a worker that starts with a pipeline serves its commands. -/
structure Serves (p : Pipeline) (listener : Listener) (moves : List Move) : Prop where
  /-- Nothing is reported but what the pipeline makes of the requests. -/
  reports : ((start p listener).run moves).2 =
    (listener.take (p.run ((start p listener).requests moves)).2.2).1
  /-- While the worker is there, the commands that were submitted are those that came to the
  pipeline, followed by those that wait. No shutdown has come yet. -/
  waiting : ((start p listener).run moves).1.isOpen = true →
    ((start p listener).run moves).1.pipeline =
        some (p.run ((start p listener).requests moves)).1 ∧
      moves.filterMap Move.command? =
        commandsOf ((start p listener).requests moves) ++ ((start p listener).run moves).1.queue ∧
      .shutdown ∉ commandsOf ((start p listener).requests moves)
  /-- When the worker is gone, what came to the pipeline before it was destroyed are the commands
  before the first shutdown. Destroying it reported nothing, and nothing more will happen. -/
  ended : ((start p listener).run moves).1.isOpen = false →
    ∃ given left, (start p listener).requests moves = given ++ [.destroy] ∧
      moves.filterMap Move.command? = commandsOf given ++ .shutdown :: left ∧
      .shutdown ∉ commandsOf given ∧
      ((start p listener).run moves).2 = (listener.take (p.run given).2.2).1 ∧
      ∀ more, (((start p listener).run moves).1.run more).2 = [] ∧
        ((start p listener).run moves).1.requests more = []
  /-- A waking takes a timer away, also one that comes too early, so a stretch of the schedule in
  which no command is served has no more wakings than there are timers. -/
  wakings : ∀ before stretch after, moves = before ++ stretch ++ after →
    let w := ((start p listener).run before).1
    (w.request? .wake ≠ none → (w.move .wake).1.pendingTimers < w.pendingTimers) ∧
      (∀ q d, w.pipeline = some q → q.nextDeadline = some d →
        ∀ now, (q.advance (max now d)).1.pendingTimers < w.pendingTimers) ∧
      (commandsOf (w.requests stretch) = [] → (w.requests stretch).length ≤ w.pendingTimers)

/-- **No command is lost, doubled or moved.** Whatever the schedule of submissions, takings and
wakings, a worker whose listener never fails serves its commands: each of them once and in the
order in which they were submitted, up to the first shutdown and no further. -/
theorem commands_served_once (h : listener.NeverFails) (p : Pipeline) (moves : List Move) :
    Serves p listener moves := by
  have hrun := run_running h p [] 0 moves
  refine ⟨?_, ?_, ?_, ?_⟩
  · rcases hrun with ⟨_, _, -, hasked⟩ | ⟨given, _, _, hrequests, -, hasked⟩
    · exact hasked.reports
    · show ((running p [] listener 0).run moves).2 =
        (listener.take (p.run ((running p [] listener 0).requests moves)).2.2).1
      have hsilent : ((p.run given).1.run [.destroy]).2.2 = [] :=
        (List.append_nil _).trans (p.run given).1.reports_destroy
      rw [hasked.reports, hrequests, Pipeline.reports_append, hsilent, List.append_nil]
  · intro hopen
    rcases hrun with ⟨queue, clock, hstate, hasked⟩ | ⟨_, _, _, -, hstate, -⟩
    · refine ⟨congrArg Worker.pipeline hstate, ?_, hasked.no_shutdown⟩
      exact hasked.commands.trans (congrArg _ (congrArg Worker.queue hstate).symm)
    · rw [show ((start p listener).run moves).1 = _ from hstate] at hopen
      cases hopen
  · intro hgone
    rcases hrun with ⟨_, _, hstate, -⟩ | ⟨given, left, clock, hrequests, hstate, hasked⟩
    · rw [show ((start p listener).run moves).1 = _ from hstate] at hgone
      cases hgone
    · refine ⟨given, left, hrequests, hasked.commands, hasked.no_shutdown, hasked.reports, fun more => ?_⟩
      obtain ⟨⟨_, hmore⟩, hnomore⟩ := run_ended listener clock more
      rw [show ((start p listener).run moves).1 = _ from hstate]
      exact ⟨congrArg Prod.snd hmore, hnomore⟩
  · intro before stretch after _
    rcases run_running h p [] 0 before with ⟨queue, clock, hstate, -⟩ | ⟨_, _, clock, -, hstate, -⟩
    · rw [show ((start p listener).run before).1 = _ from hstate]
      refine ⟨pendingTimers_wake_lt h, fun q d hq hd now => ?_, fun hnone => ?_⟩
      · obtain rfl := Option.some.inj hq
        exact Pipeline.pendingTimers_advance_max_lt hd now
      · exact Nat.le_of_add_right_le (requests_length_le h _ queue clock hnone)
    · rw [show ((start p listener).run before).1 = _ from hstate]
      refine ⟨fun hwake => absurd rfl hwake, fun q d hq => ?_, fun _ => ?_⟩
      · cases hq
      · rw [(run_ended listener clock stretch).2]
        exact Nat.le_refl _

/-- Between two fingers on the screen the worker wakes for the first one. The shutdown is taken
before the second one is lifted, and the up is never handled. -/
theorem commands_served_once_shut_down :
    let p : Pipeline := ⟨.new {} none, .new {} none, [.sink], 0, false⟩
    let touch (action : PointerAction) (time : Micros) : Command :=
      .event (.pointer (.touch action ⟨10, 10⟩ time))
    let moves : List Move :=
      [.submit (touch .down 0), .take, .tick 300000, .wake, .wake, .submit (touch .up 300000),
        .submit (.clear .mouse), .take, .submit (touch .down 310000), .tick 700000, .take, .take,
        .submit .shutdown, .submit (touch .up 1000000), .take, .wake, .take,
        .submit (.clear .touchscreen), .take]
    (Listener.attentive.NeverFails ∧ ((start p .attentive).run moves).1.isOpen = false ∧
        ((start p .attentive).requests moves).length = 6 ∧
        decisionsOf ((start p .attentive).run moves).2 =
          [.longPress (.touch .down ⟨10, 10⟩ 0)]) ∧
      Serves p .attentive moves := by
  intro p touch moves
  have hears : Listener.attentive.NeverFails := fun _ => nofun
  refine ⟨⟨hears, ?_, ?_, ?_⟩, commands_served_once hears p moves⟩
  all_goals decide +kernel

end Worker

end TouchStream
