import TouchStream.Proofs.Pipeline.OtherInput
import TouchStream.Proofs.Worker.Commands

/-!
# A pipeline that is destroyed

To destroy a pipeline takes the timers of all its stages away. The pipeline can be used after
that, but not be destroyed once more: a touch that comes later arms its timers, and they stay
whatever is asked.

* `Chain.relay_still`: where no timer is pending, none is armed but by touch, and nothing comes
  out but the events that are delivered.
* `Pipeline.run_still`: the same for a run of a pipeline.
* `destroy_silences_iff`: when a pipeline that is told to give everything up does so.
-/

namespace TouchStream

/-! ## Stages without pending timers -/

/-- Whether a message is a touch sample. -/
def Message.isTouch : Message → Bool
  | .event e => e.isTouch
  | _ => false

namespace Recognizer

theorem size_clear_le (r : Recognizer) : r.clear.timers.size ≤ r.timers.size :=
  Nat.le_trans (Timers.size_disarm_le _ RecognizerTimer.singleTap)
    (Timers.size_disarm_le _ RecognizerTimer.longPress)

theorem size_destroy (r : Recognizer) : r.destroy.timers.size = 0 :=
  Nat.le_zero.mp (size_clear_le { r with timers := r.timers.disarmAll })

end Recognizer

variable {c : Chain} {m : Message}

/-- A stage without pending timers lets a message on or delivers an event. -/
theorem Stage.receive_still {stage : Stage} (h : stage.pendingTimers = 0)
    (hm : m.isTouch = false) :
    (stage.receive m).state.pendingTimers = 0 ∧
      ((stage.receive m).out = [.message m] ∨
        ∃ e, m = .event e ∧ (stage.receive m).out = [.report (.delivered e)]) := by
  cases m with
  | event e =>
    obtain ⟨hstate, hout⟩ := stage.receive_other hm
    rw [hstate]
    exact ⟨h, hout.imp_right fun hout => ⟨e, rfl, hout⟩⟩
  | time now =>
    cases stage with
    | recognizer r =>
      have hnone : r.timers.pending = [] := List.eq_nil_of_length_eq_zero h
      simp only [receive, Recognizer.receive, Recognizer.advance_of_no_timer hnone]
      exact ⟨h, Or.inl rfl⟩
    | passThrough => exact ⟨rfl, Or.inl rfl⟩
    | filter f => exact ⟨rfl, Or.inl rfl⟩
    | sink => exact ⟨rfl, Or.inl rfl⟩
  | clear source =>
    cases stage with
    | recognizer r =>
      refine ⟨?_, Or.inl rfl⟩
      show (if source = .touchscreen then r.clear else r).timers.size = 0
      split
      · exact Nat.le_zero.mp (Nat.le_trans r.size_clear_le (Nat.le_of_eq h))
      · exact h
    | passThrough => exact ⟨rfl, Or.inl rfl⟩
    | filter f => exact ⟨rfl, Or.inl rfl⟩
    | sink => exact ⟨rfl, Or.inl rfl⟩
  | destroy =>
    cases stage with
    | recognizer r => exact ⟨r.size_destroy, Or.inl rfl⟩
    | passThrough => exact ⟨rfl, Or.inl rfl⟩
    | filter f => exact ⟨rfl, Or.inl rfl⟩
    | sink => exact ⟨rfl, Or.inl rfl⟩

theorem Stage.receive_destroy (stage : Stage) :
    (stage.receive .destroy).state.pendingTimers = 0 ∧
      (stage.receive .destroy).out = [.message .destroy] := by
  cases stage with
  | recognizer r => exact ⟨r.size_destroy, rfl⟩
  | passThrough => exact ⟨rfl, rfl⟩
  | filter f => exact ⟨rfl, rfl⟩
  | sink => exact ⟨rfl, rfl⟩

/-! ## Chains without pending timers -/

namespace Chain

theorem pendingTimers_cons (stage : Stage) (c : Chain) :
    pendingTimers (stage :: c) = stage.pendingTimers + c.pendingTimers := rfl

/-- A chain without pending timers waits for nothing. -/
theorem nextDeadline_of_still (h : c.pendingTimers = 0) : c.nextDeadline = none := by
  cases hd : c.nextDeadline with
  | none => rfl
  | some d => exact absurd (pendingTimers_elapse_lt hd (UInt64.le_refl d)) (by omega)

/-- Whatever the stages had pending, nothing is after they are destroyed. -/
theorem pendingTimers_destroy (c : Chain) :
    pendingTimers (c.relay [.message .destroy]).1 = 0 := by
  induction c with
  | nil => rfl
  | cons stage rest ih =>
    obtain ⟨hstate, hout⟩ := stage.receive_destroy
    simp only [relay, TouchStream.relay, hout, List.append_nil, pendingTimers_cons, hstate, ih]

theorem relay_still (h : c.pendingTimers = 0) (hm : m.isTouch = false) :
    pendingTimers (c.relay [.message m]).1 = 0 ∧
      ∀ x ∈ (c.relay [.message m]).2, ∃ e, x = .delivered e ∧ m = .event e := by
  induction c with
  | nil => exact ⟨rfl, List.forall_mem_nil _⟩
  | cons stage rest ih =>
    obtain ⟨hstage, hrest⟩ := Nat.add_eq_zero_iff.mp h
    obtain ⟨hstate, hout⟩ := Stage.receive_still hstage hm
    simp only [relay, TouchStream.relay, List.append_nil, pendingTimers_cons, hstate, Nat.zero_add]
    rcases hout with hout | ⟨e, rfl, hout⟩
    · rw [hout]
      exact ih hrest
    · have hreport := relay_reports rest [.delivered e]
      rw [List.map_singleton] at hreport
      rw [hout, hreport]
      exact ⟨hrest, List.forall_mem_singleton.mpr ⟨e, rfl, rfl⟩⟩

theorem run_still (h : c.pendingTimers = 0) {ms : List Message}
    (hms : ∀ m ∈ ms, m.isTouch = false) :
    pendingTimers (c.run ms).1 = 0 ∧
      ∀ x ∈ (c.run ms).2, ∃ e, x = .delivered e ∧ .event e ∈ ms := by
  induction ms generalizing c with
  | nil => exact ⟨h, List.forall_mem_nil _⟩
  | cons m ms ih =>
    obtain ⟨hm, hms⟩ := List.forall_mem_cons.mp hms
    obtain ⟨hstate, hout⟩ := relay_still h hm
    rw [relay_message] at hstate hout
    obtain ⟨hlater, hmore⟩ := ih hstate hms
    rw [run_cons]
    refine ⟨hlater, fun x hx => ?_⟩
    rcases List.mem_append.mp hx with hx | hx
    · obtain ⟨e, rfl, rfl⟩ := hout x hx
      exact ⟨e, rfl, List.mem_cons_self⟩
    · obtain ⟨e, rfl, he⟩ := hmore x hx
      exact ⟨e, rfl, List.mem_cons_of_mem _ he⟩

end Chain

namespace Pipeline

variable {p : Pipeline} {request : Request}

/-! ## Pipelines without pending timers -/

/-- Whether a request feeds a touch sample. -/
def Request.isTouch : Request → Bool
  | .feed e => e.isTouch
  | _ => false

theorem pendingTimers_chain (p : Pipeline) : p.chain.pendingTimers = p.pendingTimers :=
  Nat.zero_add _

/-- The head is given no events but those that are fed. -/
theorem event_mem_messages {e : Event} (h : .event e ∈ p.messages request) :
    request = .feed e := by
  cases request with
  | feed e' =>
    cases e' with
    | pointer s =>
      rcases List.mem_append.mp h with h | h
      · obtain ⟨now, hnow⟩ := mem_wakings h
        cases hnow
      · cases List.mem_singleton.mp h
        rfl
    | key k =>
      cases List.mem_singleton.mp h
      rfl
    | accessibility a =>
      cases List.mem_singleton.mp h
      rfl
  | advance now => cases List.mem_singleton.mp h
  | flush =>
    obtain ⟨now, hnow⟩ := mem_flushTimes h
    cases hnow
  | clear source => cases List.mem_singleton.mp h
  | destroy =>
    simp only [messages] at h
    split at h
    · cases h
    · cases List.mem_singleton.mp h

theorem messages_still (h : request.isTouch = false) :
    ∀ m ∈ p.messages request, m.isTouch = false := by
  intro m hm
  cases m with
  | event e =>
    have hrequest := event_mem_messages hm
    subst hrequest
    exact h
  | time now => rfl
  | clear source => rfl
  | destroy => rfl

/-- Where no timer is pending, none is armed but by touch, and only events are delivered. -/
theorem handle_still (h : p.pendingTimers = 0) (hrequest : request.isTouch = false) :
    (p.handle request).1.pendingTimers = 0 ∧
      ∀ x ∈ (p.handle request).2.2, ∃ e, x = .delivered e ∧ request = .feed e := by
  have hrun := Chain.run_still ((pendingTimers_chain p).trans h)
    (messages_still (p := p) hrequest)
  rw [handle_eq_run] at hrun
  refine ⟨(pendingTimers_chain _).symm.trans hrun.1, fun x hx => ?_⟩
  obtain ⟨e, hdelivered, he⟩ := hrun.2 x hx
  exact ⟨e, hdelivered, event_mem_messages he⟩

theorem run_still (h : p.pendingTimers = 0) {requests : List Request}
    (hrequests : ∀ request ∈ requests, request.isTouch = false) :
    (p.run requests).1.pendingTimers = 0 ∧ decisionsOf (p.run requests).2.2 = [] := by
  induction requests generalizing p with
  | nil => exact ⟨h, rfl⟩
  | cons request requests ih =>
    obtain ⟨hfirst, hrest⟩ := List.forall_mem_cons.mp hrequests
    obtain ⟨hstate, hdelivered⟩ := handle_still h hfirst
    obtain ⟨hlater, hmore⟩ := ih hstate hrest
    refine ⟨hlater, ?_⟩
    show decisionsOf ((p.handle request).2.2 ++ ((p.handle request).1.run requests).2.2) = []
    have hnone : decisionsOf (p.handle request).2.2 = [] := by
      rw [decisionsOf, List.filterMap_eq_nil_iff]
      intro x hx
      obtain ⟨e, rfl, -⟩ := hdelivered x hx
      rfl
    rw [decisionsOf, List.filterMap_append, ← decisionsOf, hnone, List.nil_append, ← decisionsOf,
      hmore]

/-- The clock of such a pipeline moves in silence. -/
theorem silent_of_still (h : p.pendingTimers = 0) :
    p.nextDeadline = none ∧ (∀ now, (p.advance now).2 = []) ∧ p.flush.2 = [] := by
  refine ⟨Chain.nextDeadline_of_still (c := p.timed) h, fun now => ?_, ?_⟩
  · rw [List.eq_nil_iff_forall_not_mem]
    intro x hx
    obtain ⟨e, -, he⟩ := (@handle_still p (.advance now) h rfl).2 x hx
    cases he
  · rw [flush, h]
    rfl

/-! ## Destroying -/

theorem pendingTimers_destroy (h : p.destroyed = false) : p.destroy.1.pendingTimers = 0 := by
  have hrelay := Chain.pendingTimers_destroy p.chain
  rw [Chain.relay_message, chain_send, pendingTimers_chain] at hrelay
  rw [destroy, h]
  exact hrelay

theorem destroy_of_destroyed (h : p.destroyed = true) : p.destroy = (p, []) := by
  rw [destroy, h]
  rfl

theorem destroyed_flushRounds (n : Nat) (p : Pipeline) :
    (flushRounds n p).1.destroyed = p.destroyed := by
  induction n generalizing p with
  | zero => rfl
  | succ n ih =>
    unfold flushRounds
    split
    · rfl
    · exact ih _

/-- To be destroyed is the only request that a pipeline remembers for good. -/
theorem destroyed_handle (p : Pipeline) (request : Request) :
    (p.handle request).1.destroyed = (p.destroyed || decide (request = .destroy)) := by
  cases request with
  | feed e =>
    cases e with
    | pointer s =>
      have hcaught : (p.catchUp s.time).1.destroyed = p.destroyed := by
        rw [catchUp_eq_if]
        split <;> rfl
      exact hcaught.trans (Bool.or_false _).symm
    | key k => exact (Bool.or_false _).symm
    | accessibility a => exact (Bool.or_false _).symm
  | advance now => exact (Bool.or_false _).symm
  | flush => exact (destroyed_flushRounds _ p).trans (Bool.or_false _).symm
  | clear source => exact (Bool.or_false _).symm
  | destroy =>
    simp only [handle, destroy, decide_true, Bool.or_true]
    split
    · assumption
    · rfl

theorem destroyed_run (p : Pipeline) (requests : List Request) :
    (p.run requests).1.destroyed = true ↔ p.destroyed = true ∨ .destroy ∈ requests := by
  induction requests generalizing p with
  | nil => simp [run]
  | cons request requests ih =>
    show ((p.handle request).1.run requests).1.destroyed = true ↔ _
    rw [ih, destroyed_handle, Bool.or_eq_true, decide_eq_true_iff, List.mem_cons, or_assoc,
      @eq_comm _ request]

theorem destroyed_of_build {plan : Plan} (h : plan.build = .ok p) : p.destroyed = false := by
  rw [eq_built h]
  rfl

/-- **A pipeline gives everything up once.** Take any run of a pipeline that was built, and
destroy it then. No timer is pending after that if and only if it was not destroyed before, or
no timer was pending anyway; if it was destroyed before, nothing happens. And where no timer is
pending, nothing but touch makes any difference: whatever else is asked, no timer is pending
then, and neither the clock nor a flush brings any report. -/
theorem destroy_silences_iff {plan : Plan} (hbuild : plan.build = .ok p) (past : List Request) :
    let before := (p.run past).1
    let after := before.destroy.1
    (after.pendingTimers = 0 ↔ .destroy ∉ past ∨ before.pendingTimers = 0) ∧
      (.destroy ∈ past → before.destroy = (before, [])) ∧
      (after.pendingTimers = 0 → ∀ later : List Request,
        (∀ request ∈ later, request.isTouch = false) →
        let q := (after.run later).1
        q.pendingTimers = 0 ∧ decisionsOf (after.run later).2.2 = [] ∧ q.nextDeadline = none ∧
          (∀ now, (q.advance now).2 = []) ∧ q.flush.2 = []) := by
  intro before after
  have hbefore : before.destroyed = true ↔ .destroy ∈ past := by
    rw [destroyed_run, destroyed_of_build hbuild]
    simp
  refine ⟨?_, fun hmem => destroy_of_destroyed (hbefore.mpr hmem), fun hafter later hlater => ?_⟩
  · by_cases hmem : .destroy ∈ past
    · have hsame : after = before :=
        congrArg Prod.fst (destroy_of_destroyed (hbefore.mpr hmem))
      simp [hsame, hmem]
    · have hnew : before.destroyed = false := by
        rw [← Bool.not_eq_true, hbefore]
        exact hmem
      simp [after, pendingTimers_destroy hnew, hmem]
  · intro q
    obtain ⟨hstill, hnone⟩ := run_still hafter hlater
    exact ⟨hstill, hnone, silent_of_still hstill⟩

/-- A touch is destroyed while both of its timers are pending. A key comes later, and the mouse
moves on to a time at which they would have fired. -/
theorem destroy_silences_iff_touched :
    let output : Chain := [.recognizer (.new {} none), .sink]
    let plan : Plan := { listener := some .attentive, output := output }
    let p := plan.built
    let past : List Request := [.feed (.pointer (.touch .down .zero 0))]
    let mouse : Sample := { Sample.touch .move .zero 900000 with source := .mouse }
    let later : List Request := [.feed (.key ⟨24, .down, 5⟩), .feed (.pointer mouse), .flush]
    let after := (p.run past).1.destroy.1
    plan.build = .ok p ∧ (p.run past).1.pendingTimers = 4 ∧ after.pendingTimers = 0 ∧
      (after.run later).2.2 = [.delivered (.key ⟨24, .down, 5⟩), .delivered (.pointer mouse)] ∧
      (after.run later).1.pendingTimers = 0 ∧ (after.run later).1.flush.2 = [] := by
  intro output plan p past mouse later after
  have hbuild : plan.build = .ok p := build_eq_built rfl check_default
  obtain ⟨hiff, -, hsilent⟩ := destroy_silences_iff hbuild past
  have hstill : after.pendingTimers = 0 := hiff.mpr (Or.inl (by decide))
  obtain ⟨hlater, -, -, -, hflush⟩ := hsilent hstill later (by decide)
  exact ⟨hbuild, by decide +kernel, hstill, by decide +kernel, hlater, hflush⟩

/-- A touch on a pipeline that is destroyed is reported as held for long, though the pipeline is
destroyed once more meanwhile. -/
theorem destroyed_touch_pressed_long :
    let plan : Plan := { listener := some .attentive }
    let p := plan.built
    let down := Sample.touch .down ⟨10, 10⟩ 0
    let q := (p.run [.destroy, .feed (.pointer down)]).1.destroy.1
    plan.build = .ok p ∧ q.pendingTimers = 2 ∧ q.nextDeadline = some 300000 ∧
      (q.advance 1000000).2 = [.decided (.longPress down)] := by
  intro plan p down q
  exact ⟨build_eq_built rfl check_default, by decide +kernel, by decide +kernel, by decide +kernel⟩

end Pipeline

end TouchStream
