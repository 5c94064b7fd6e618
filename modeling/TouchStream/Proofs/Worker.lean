import TouchStream.Proofs.Pipeline.History
import TouchStream.Worker

/-!
# Schedules of a worker

A schedule of a worker makes requests of its pipeline: to feed what waits, and to move the clock
on whenever the worker wakes (`requests`). The samples are fed in the order in which they were
submitted, however long they wait (`run_owning`).

A waking moves the clock of the pipeline to that of the worker, whatever waits. So a timer can
fire before a sample that is no later than its deadline, if the sample is still in the queue or
comes at the very time of the waking. A schedule may let the worker wake as late as it likes.

* `schedule_direct_iff`: as long as this does not happen, a worker reports what comes of feeding
  the samples directly. Where it happens, timers and samples are in another order.
* `woken_worker_pressed_long`: it makes a long press of a tap.
-/

namespace TouchStream

/-! ## Listeners -/

theorem Listener.take_append (listener : Listener) {rs : List Report} (rs' : List Report)
    (h : (listener.take rs).2 = false) :
    listener.take (rs ++ rs') =
      ((listener.take rs).1 ++ (listener.take rs').1, (listener.take rs').2) := by
  induction rs with
  | nil => rfl
  | cons r rs ih =>
    cases r with
    | delivered e =>
      simp only [List.cons_append, take] at h ⊢
      rw [ih h]
    | decided d =>
      simp only [List.cons_append, take] at h ⊢
      cases hd : listener d with
      | failed =>
        rw [hd] at h
        cases h
      | heard =>
        rw [hd] at h
        simp only [ih h, List.cons_append]
      | ignored =>
        rw [hd] at h
        exact ih h

namespace Worker

open Pipeline (Request)

variable {w : Worker} {p : Pipeline} {m : Move} {ms : List Move} {waiting : List Sample}

/-! ## Samples that are submitted -/

/-- The sample that is submitted, if one is. -/
def Move.sample? : Move → Option Sample
  | .submit (.event (.pointer s)) => some s
  | _ => none

/-- Whether only samples of the time at hand are submitted. -/
def Move.isStamped (now : Micros) : Move → Bool
  | .submit (.event (.pointer s)) => s.time = now
  | .submit _ => false
  | _ => true

/-- Whether a schedule submits nothing but samples of the time that the clock shows. -/
def stamped (w : Worker) : List Move → Bool
  | [] => true
  | m :: ms => m.isStamped w.now && (w.move m).1.stamped ms

/-! ## What a schedule asks of the pipeline -/

/-- What a move asks of the pipeline, if anything. -/
def request? (w : Worker) : Move → Option Request
  | .take => w.queue.head?.map fun
    | .event e => .feed e
    | .clear source => .clear source
    | .shutdown => .destroy
  | .wake => (w.pipeline.bind Pipeline.nextDeadline).bind fun deadline =>
    if deadline.toNat ≤ w.clock then some (.advance (max w.now deadline)) else none
  | .submit _ => none
  | .tick _ => none

/-- What a schedule asks of the pipeline. -/
def requests (w : Worker) : List Move → List Request
  | [] => []
  | m :: ms => (w.request? m).toList ++ (w.move m).1.requests ms

/-- When the worker wakes in the usual schedule, the deadline has been reached, less than a
millisecond ago. -/
theorem wakeTime_bounds (d : Micros) : d.toNat ≤ wakeTime d ∧ wakeTime d < d.toNat + 1000 := by
  unfold wakeTime
  omega

theorem run_cons (w : Worker) (m : Move) (ms : List Move) :
    w.run (m :: ms) =
      (((w.move m).1.run ms).1, (w.move m).2 ++ ((w.move m).1.run ms).2) := rfl

/-! ## Clocks -/

theorem clock_after (w : Worker) (step : Pipeline × List Report) :
    (w.after step).1.clock = w.clock := by
  unfold after
  dsimp only
  split <;> rfl

theorem clock_move (w : Worker) (m : Move) : w.clock ≤ (w.move m).1.clock := by
  have hsame {w' : Worker} (h : w'.clock = w.clock) : w.clock ≤ w'.clock := Nat.le_of_eq h.symm
  cases m with
  | submit c =>
    simp only [move, submit]
    split <;> exact Nat.le_refl _
  | take =>
    simp only [move, take]
    split
    · exact hsame (clock_after _ _)
    · exact hsame (clock_after _ _)
    · exact hsame (clock_after w _)
    · exact Nat.le_refl _
  | wake =>
    simp only [move, wake]
    split
    · exact Nat.le_refl _
    · split
      · exact Nat.le_refl _
      · split
        · exact hsame (clock_after w _)
        · exact Nat.le_refl _
  | tick span => exact Nat.le_add_right _ _

theorem toNat_now (w : Worker) : w.now.toNat = min w.clock Micros.last.toNat := by
  rw [now, UInt64.toNat_ofNat_of_lt']
  exact Nat.lt_of_le_of_lt (Nat.min_le_right _ _) (by decide)

theorem now_move (w : Worker) (m : Move) : w.now ≤ (w.move m).1.now := by
  have h := w.clock_move m
  rw [UInt64.le_iff_toNat_le, toNat_now, toNat_now]
  omega

/-- The clock never goes back, and so the times of the samples do not. -/
theorem times_of_stamped (h : w.stamped ms = true) :
    (∀ s ∈ ms.filterMap Move.sample?, w.now ≤ s.time) ∧
      (ms.filterMap Move.sample?).Pairwise fun x y => x.time ≤ y.time := by
  induction ms generalizing w with
  | nil => exact ⟨by simp, .nil⟩
  | cons m ms ih =>
    obtain ⟨hm, hrest⟩ := Bool.and_eq_true_iff.mp h
    obtain ⟨hlater, hpairs⟩ := ih hrest
    have hnow : ∀ s ∈ ms.filterMap Move.sample?, w.now ≤ s.time :=
      fun s hs => UInt64.le_trans (w.now_move m) (hlater s hs)
    cases hs : m.sample? with
    | none =>
      rw [List.filterMap_cons_none hs]
      exact ⟨hnow, hpairs⟩
    | some s =>
      have htime : s.time = w.now := by
        unfold Move.sample? at hs
        split at hs
        · cases hs
          simpa [Move.isStamped] using hm
        · cases hs
      rw [List.filterMap_cons_some hs, ← htime]
      rw [← htime] at hnow
      exact ⟨List.forall_mem_cons.mpr ⟨UInt64.le_refl _, hnow⟩,
        List.pairwise_cons.mpr ⟨hnow, hpairs⟩⟩

/-! ## A worker that stays -/

theorem isOpen_of_move (h : (w.move m).1.isOpen = true) : w.isOpen = true := by
  cases hp : w.pipeline with
  | some p => simp [isOpen, hp]
  | none =>
    have hclosed : (w.move m).1.pipeline = none := by
      cases m with
      | submit c => simp [move, submit, isOpen, hp]
      | take => simp [move, take, hp]
      | wake => simp [move, wake, hp]
      | tick span => exact hp
    simp [isOpen, hclosed] at h

theorem isOpen_of_run (h : (w.run ms).1.isOpen = true) : w.isOpen = true := by
  induction ms generalizing w with
  | nil => exact h
  | cons m ms ih => exact isOpen_of_move (ih h)

/-- A worker that owns a pipeline, and the samples that wait. -/
def owning (p : Pipeline) (listener : Listener) (waiting : List Sample) (clock : Nat) : Worker :=
  ⟨some p, waiting.map fun s => .event (.pointer s), listener, clock⟩

/-- A worker that stays after a request has heard all that its pipeline reports. -/
theorem after_request (w : Worker) (p : Pipeline) (request : Request)
    (h : (w.after ((p.handle request).1, (p.handle request).2.2)).1.isOpen = true) :
    (w.after ((p.handle request).1, (p.handle request).2.2)).1 =
        { w with pipeline := some (p.run [request]).1 } ∧
      w.listener.take (p.run [request]).2.2 =
        ((w.after ((p.handle request).1, (p.handle request).2.2)).2, false) := by
  have hreports : (p.run [request]).2.2 = (p.handle request).2.2 := List.append_nil _
  rw [hreports]
  unfold after at h ⊢
  dsimp only at h ⊢
  cases hfailed : (w.listener.take (p.handle request).2.2).2 with
  | true =>
    rw [hfailed] at h
    cases h
  | false =>
    refine ⟨rfl, ?_⟩
    rw [← hfailed]

theorem wake_eq (hp : w.pipeline = some p) :
    (w.request? .wake = none ∧ w.wake = (w, [])) ∨
      ∃ now, w.request? .wake = some (.advance now) ∧ w.wake = w.after (p.advance now) := by
  simp only [request?, wake, hp, Option.bind_some]
  cases p.nextDeadline with
  | none => exact Or.inl ⟨rfl, rfl⟩
  | some d =>
    by_cases hdue : d.toNat ≤ w.clock
    · exact Or.inr ⟨max w.now d, by simp [hdue], by simp [hdue]⟩
    · exact Or.inl ⟨by simp [hdue], by simp [hdue]⟩

variable {listener : Listener} {clock : Nat}

/-- A move of a worker that stays makes at most one request, and takes at most one sample. -/
theorem move_owning (hm : m.isStamped (owning p listener waiting clock).now = true)
    (hopen : ((owning p listener waiting clock).move m).1.isOpen = true) :
    let requests := ((owning p listener waiting clock).request? m).toList
    ∃ left clock', ((owning p listener waiting clock).move m).1 =
        owning (p.run requests).1 listener left clock' ∧
      listener.take (p.run requests).2.2 =
        (((owning p listener waiting clock).move m).2, false) ∧
      waiting ++ m.sample?.toList = requests.filterMap Request.sample? ++ left ∧
      ∀ request ∈ requests, request.isTimed = true := by
  cases m with
  | submit c =>
    cases c with
    | event e =>
      cases e with
      | pointer s =>
        refine ⟨waiting ++ [s], clock, ?_, rfl, rfl, by simp [request?]⟩
        simp [owning, move, submit, isOpen, request?, Pipeline.run]
      | key k => cases hm
      | accessibility a => cases hm
    | clear source => cases hm
    | shutdown => cases hm
  | take =>
    cases waiting with
    | nil => exact ⟨[], clock, rfl, rfl, rfl, by simp [request?, owning]⟩
    | cons s waiting =>
      obtain ⟨hstate, htake⟩ :=
        after_request (owning p listener waiting clock) p (.feed (.pointer s)) hopen
      exact ⟨waiting, clock, hstate, htake, List.append_nil (s :: waiting),
        List.forall_mem_singleton.mpr rfl⟩
  | wake =>
    have hwake := wake_eq (w := owning p listener waiting clock) rfl
    dsimp only [move] at hopen ⊢
    rcases hwake with ⟨hrequest, hwake⟩ | ⟨now, hrequest, hwake⟩
    · rw [hrequest, hwake]
      exact ⟨waiting, clock, rfl, rfl, List.append_nil waiting, by simp⟩
    · rw [hwake] at hopen
      obtain ⟨hstate, htake⟩ :=
        after_request (owning p listener waiting clock) p (.advance now) hopen
      rw [hrequest, hwake]
      exact ⟨waiting, clock, hstate, htake, List.append_nil waiting,
        List.forall_mem_singleton.mpr rfl⟩
  | tick span =>
    refine ⟨waiting, clock + span, rfl, rfl, ?_, by simp [request?]⟩
    exact List.append_nil waiting

/-- The moves of a worker that stays are requests for its pipeline. The samples are fed in the
order in which they were submitted. -/
theorem run_owning (hstamped : (owning p listener waiting clock).stamped ms = true)
    (hopen : ((owning p listener waiting clock).run ms).1.isOpen = true) :
    let requests := (owning p listener waiting clock).requests ms
    ∃ left clock', ((owning p listener waiting clock).run ms).1 =
        owning (p.run requests).1 listener left clock' ∧
      listener.take (p.run requests).2.2 =
        (((owning p listener waiting clock).run ms).2, false) ∧
      waiting ++ ms.filterMap Move.sample? = requests.filterMap Request.sample? ++ left ∧
      ∀ request ∈ requests, request.isTimed = true := by
  induction ms generalizing p waiting clock with
  | nil => exact ⟨waiting, clock, rfl, rfl, List.append_nil waiting, by simp [requests]⟩
  | cons m ms ih =>
    obtain ⟨hm, hrest⟩ := Bool.and_eq_true_iff.mp hstamped
    obtain ⟨left, clock', hstate, htake, hsamples, htimed⟩ :=
      move_owning hm (isOpen_of_run hopen)
    have hrequests : (owning p listener waiting clock).requests (m :: ms) =
        ((owning p listener waiting clock).request? m).toList ++
          ((owning p listener waiting clock).move m).1.requests ms := rfl
    rw [run_cons] at hopen ⊢
    rw [hrequests]
    rw [hstate] at hrest hopen ⊢
    obtain ⟨left', clock'', hstate', htake', hsamples', htimed'⟩ := ih hrest hopen
    generalize ((owning p listener waiting clock).request? m).toList = first at *
    refine ⟨left', clock'', ?_, ?_, ?_, ?_⟩
    · rw [Pipeline.run_append]
      exact hstate'
    · rw [Pipeline.reports_append, listener.take_append _ (congrArg Prod.snd htake), htake, htake']
    · have hsplit : (m :: ms).filterMap Move.sample? =
          m.sample?.toList ++ ms.filterMap Move.sample? := by
        rw [List.filterMap_cons]
        cases m.sample? <;> rfl
      rw [List.filterMap_append, List.append_assoc, ← hsamples', ← List.append_assoc, ← hsamples,
        hsplit, List.append_assoc]
    · intro request hrequest
      exact (List.mem_append.mp hrequest).elim (htimed request) (htimed' request)

/-! ## Whole schedules -/

open Pipeline (direct InOrder)

/-- **A worker against direct feeding.** Let a schedule submit samples that are stamped with the
time of the worker, and let it leave no command and no timer behind. The history of the worker is
that of feeding the samples directly and firing what is left exactly when it is in order, which
is to say that no timer fires before a sample unless it is due before it. If it is in order, the
same is reported. It is in order if samples and wakings come in the order of time, where a waking
must come before the time of a sample that is handled after it. -/
theorem schedule_direct_iff {plan : Pipeline.Plan} (hbuild : plan.build = .ok p)
    (houtput : plan.output.IsUntimed) (listener : Listener) {moves : List Move}
    (hstamped : (start p listener).stamped moves = true) {w : Worker} {reports : List Report}
    (hrun : (start p listener).run moves = (w, reports)) (hopen : w.isOpen = true)
    (hqueue : w.queue = []) (htimers : w.pendingTimers = 0) :
    let samples := moves.filterMap Move.sample?
    let requests := (start p listener).requests moves
    (p.history requests = p.history (direct samples) ↔ InOrder (p.history requests)) ∧
      (InOrder (p.history requests) →
        reports = (listener.take (p.run (direct samples)).2.2).1) ∧
      (requests.Pairwise Request.mayPrecede → InOrder (p.history requests)) := by
  intro samples requests
  have hp : p.output.IsUntimed := by
    rw [Pipeline.output_of_build hbuild]
    exact houtput
  have hzero : p.clock = 0 := Pipeline.clock_of_build hbuild
  have hstart : owning p listener [] 0 = start p listener := rfl
  have hopened : ((owning p listener [] 0).run moves).1.isOpen = true := by
    rw [hstart, hrun]
    exact hopen
  have hserved := run_owning (hstart ▸ hstamped) hopened
  rw [hstart, hrun] at hserved
  obtain ⟨left, clock, hend, htake, hsamples, htimed⟩ := hserved
  obtain rfl : w = owning _ listener left clock := hend
  have hordered := (times_of_stamped hstamped).2
  -- nothing is left, neither of the samples nor of the timers
  obtain rfl : left = [] := List.map_eq_nil_iff.mp hqueue
  have hfed : ((start p listener).requests moves).filterMap Request.sample? = samples := by
    rw [List.append_nil] at hsamples
    exact hsamples.symm
  have hpending : (p.run ((start p listener).requests moves)).1.recognizer.timers.pending = [] :=
    List.eq_nil_of_length_eq_zero (Nat.eq_zero_of_add_eq_zero_right htimers)
  have hclock : ∀ s ∈ samples, p.clock ≤ s.time := fun s _ => hzero ▸ UInt64.zero_le
  have hiff := Pipeline.history_eq_direct_iff (Pipeline.onTime_of_build hbuild) hp htimed hpending
    hfed hordered hclock
  have hpairwise : requests.Pairwise Request.mayPrecede → InOrder (p.history requests) := by
    refine fun hpairs => Pipeline.inOrder_history (Pipeline.onTime_of_build hbuild) hp htimed
      hpairs fun request _ => ?_
    exact hzero ▸ UInt64.zero_le
  refine ⟨hiff, fun horder => ?_, hpairwise⟩
  have hsame := hiff.mpr horder
  have hdirect : (p.run ((start p listener).requests moves)).2.2 =
      (p.run (direct samples)).2.2 := by
    rw [Pipeline.reports_eq_play hp htimed, Pipeline.reports_eq_play hp
      (Pipeline.isTimed_direct samples), hsame]
  rw [← hdirect]
  exact (congrArg Prod.fst htake).symm

/-- A finger stays down for 400 ms. The worker wakes when the press is long enough, and handles
the up when it comes. -/
theorem schedule_direct_iff_long_press :
    let plan : Pipeline.Plan := { listener := some .attentive, output := [.sink] }
    let p : Pipeline := ⟨.new {} none, .new {} none, [.sink], 0, false⟩
    let touch (action : PointerAction) (time : Micros) : Move :=
      .submit (.event (.pointer (.touch action ⟨10, 10⟩ time)))
    let moves : List Move :=
      [touch .down 0, .take, .tick 300500, .wake, .tick 99500, touch .up 400000, .take]
    let ran := (start p .attentive).run moves
    let samples := moves.filterMap Move.sample?
    let requests := (start p .attentive).requests moves
    (plan.build = .ok p ∧ plan.output.IsUntimed ∧ (start p .attentive).stamped moves = true ∧
        ran.1.isOpen = true ∧ ran.1.queue = [] ∧ ran.1.pendingTimers = 0) ∧
      (requests.Pairwise Request.mayPrecede ∧
        decisionsOf ran.2 = [.longPress (.touch .down ⟨10, 10⟩ 0)]) ∧
      (p.history requests = p.history (direct samples) ↔ InOrder (p.history requests)) ∧
      (InOrder (p.history requests) →
        ran.2 = (Listener.attentive.take (p.run (direct samples)).2.2).1) ∧
      (requests.Pairwise Request.mayPrecede → InOrder (p.history requests)) := by
  intro plan p touch moves ran samples requests
  have hbuild : plan.build = .ok p := Pipeline.build_eq_built rfl Pipeline.check_default
  have houtput : plan.output.IsUntimed := by decide
  have hstamped : (start p .attentive).stamped moves = true := by decide +kernel
  have hopen : ran.1.isOpen = true := by decide +kernel
  have hqueue : ran.1.queue = [] := by decide +kernel
  have htimers : ran.1.pendingTimers = 0 := by decide +kernel
  have hpairs : requests.Pairwise Request.mayPrecede := by decide +kernel
  have hreports : decisionsOf ran.2 = [.longPress (.touch .down ⟨10, 10⟩ 0)] := by decide +kernel
  have hrun : (start p .attentive).run moves = (ran.1, ran.2) := (Prod.eta ran).symm
  clear_value ran p moves
  exact ⟨⟨hbuild, houtput, hstamped, hopen, hqueue, htimers⟩, ⟨hpairs, hreports⟩,
    schedule_direct_iff hbuild houtput .attentive hstamped hrun hopen hqueue htimers⟩

/-- A finger is lifted at the very time at which its press is long enough. The worker, which has
woken by then, reports a long press. Fed directly the two samples are a tap. -/
theorem woken_worker_pressed_long :
    let plan : Pipeline.Plan := { listener := some .attentive }
    let p : Pipeline := ⟨.new {} none, .new {} none, [], 0, false⟩
    let touch (action : PointerAction) (time : Micros) : Move :=
      .submit (.event (.pointer (.touch action ⟨10, 10⟩ time)))
    let moves : List Move :=
      [touch .down 0, .take, .tick 300000, .wake, touch .up 300000, .take]
    let ran := (start p .attentive).run moves
    (plan.build = .ok p ∧ (start p .attentive).stamped moves = true ∧
        ran.1.isOpen = true ∧ ran.1.queue = [] ∧ ran.1.pendingTimers = 0) ∧
      ran.2 = [.decided (.longPress (.touch .down ⟨10, 10⟩ 0))] ∧
      (p.run (direct (moves.filterMap Move.sample?))).2.2 = [.decided (.completed .tap)] := by
  intro plan p touch moves ran
  have hbuild : plan.build = .ok p := Pipeline.build_eq_built rfl Pipeline.check_default
  refine ⟨⟨hbuild, ?_, ?_, ?_, ?_⟩, ?_, ?_⟩
  all_goals decide +kernel

/-- A sample that waits is overtaken even long before the press is long enough. -/
example :
    let touch (action : PointerAction) (time : Micros) : Move :=
      .submit (.event (.pointer (.touch action ⟨10, 10⟩ time)))
    ((start ⟨.new {} none, .new {} none, [], 0, false⟩ .attentive).run
        [touch .down 0, .take, .tick 100000, touch .up 100000, .tick 200000, .wake, .take]).2 =
      [.decided (.longPress (.touch .down ⟨10, 10⟩ 0))] := by
  decide +kernel

end Worker

end TouchStream
