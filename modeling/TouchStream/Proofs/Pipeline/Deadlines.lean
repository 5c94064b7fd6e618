import TouchStream.Proofs.Pipeline.CatchUp
import TouchStream.Proofs.Recognizer.Expiry

/-!
# Deadlines of chains and pipelines

A chain waits for the earliest of all deadlines that its recognizers have pending. When its head
is told the time, every recognizer in it fires what is due, and the deadlines that are left lie
after that time. So a pipeline that is flushed moves its clock from deadline to deadline until
none is left, and the clock never falls behind a deadline that has fired.

* `Chain.nextDeadline_eq_min`: the deadline that a chain waits for.
* `Chain.Reached`: the states that a chain comes to, in which a kind of timer is pending at most
  once in a recognizer (`Chain.Reached.distinct`).
* `Flushes`: a flush as the loop that it is, which ends in one way (`flushes_iff`).
* `time_exact`: all of it, for every chain and every pipeline.
-/

namespace TouchStream

/-! ## The earliest deadline -/

theorem min_cons (d : Micros) (ds : List Micros) :
    (d :: ds).min? = earlierDeadline (some d) ds.min? := by
  rw [List.min?_cons]
  cases ds.min? <;> rfl

theorem earlierDeadline_assoc (a b c : Option Micros) :
    earlierDeadline (earlierDeadline a b) c = earlierDeadline a (earlierDeadline b c) := by
  cases a with
  | none => rfl
  | some x =>
    cases b with
    | none => rfl
    | some y =>
      cases c with
      | none => rfl
      | some z => exact congrArg some (Std.Associative.assoc x y z)

theorem min_append (ds es : List Micros) :
    (ds ++ es).min? = earlierDeadline ds.min? es.min? := by
  induction ds with
  | nil => rfl
  | cons d ds ih => rw [List.cons_append, min_cons, ih, min_cons, earlierDeadline_assoc]

theorem Timers.nextDeadline_eq_min {κ : Type} (q : Timers κ) :
    q.nextDeadline = (q.pending.map (·.deadline)).min? := by
  obtain ⟨pending, armed⟩ := q
  induction pending with
  | nil => rfl
  | cons t ts ih => rw [nextDeadline_cons, ih, List.map_cons, min_cons]

namespace Stage

/-- The deadlines that a stage has pending. -/
def deadlines : Stage → List Micros
  | recognizer r => r.timers.pending.map (·.deadline)
  | _ => []

theorem nextDeadline_eq_min (stage : Stage) : stage.nextDeadline = stage.deadlines.min? := by
  cases stage with
  | recognizer r => exact r.timers.nextDeadline_eq_min
  | passThrough => rfl
  | filter f => rfl
  | sink => rfl

theorem pendingTimers_eq_length (stage : Stage) :
    stage.pendingTimers = stage.deadlines.length := by
  cases stage with
  | recognizer r => exact (List.length_map _).symm
  | passThrough => rfl
  | filter f => rfl
  | sink => rfl

end Stage

namespace Chain

variable {c : Chain} {now : Micros}

/-- The deadlines that are pending in a chain. -/
def deadlines (c : Chain) : List Micros := c.flatMap Stage.deadlines

theorem nextDeadline_eq_min (c : Chain) : c.nextDeadline = c.deadlines.min? := by
  induction c with
  | nil => rfl
  | cons stage rest ih =>
    show earlierDeadline stage.nextDeadline (nextDeadline rest) = _
    rw [deadlines, List.flatMap_cons, min_append, stage.nextDeadline_eq_min, ih, deadlines]

theorem pendingTimers_eq_length (c : Chain) : c.pendingTimers = c.deadlines.length := by
  induction c with
  | nil => rfl
  | cons stage rest ih =>
    show stage.pendingTimers + pendingTimers rest = _
    rw [deadlines, List.flatMap_cons, List.length_append, stage.pendingTimers_eq_length, ih,
      deadlines]

theorem pendingTimers_of_nextDeadline (h : c.nextDeadline = none) : c.pendingTimers = 0 := by
  rw [nextDeadline_eq_min, List.min?_eq_none_iff] at h
  rw [pendingTimers_eq_length, h, List.length_nil]

/-- The head passes the time on, and every stage comes to it. -/
theorem send_time (c : Chain) (now : Micros) : (c.send (.time now)).1 = c.elapse now := by
  have hrelay := c.relay_time [] now
  rw [List.map_nil, List.nil_append, relay_message] at hrelay
  exact hrelay

theorem lt_of_nextDeadline_elapse {d : Micros} (h : nextDeadline (c.elapse now) = some d) :
    now < d := by
  obtain ⟨stage', hmem, hd⟩ := exists_mem_of_nextDeadline h
  obtain ⟨stage, -, rfl⟩ := List.mem_map.mp hmem
  cases stage with
  | recognizer r =>
    obtain ⟨t, ht, rfl⟩ := Timers.exists_mem_of_nextDeadline hd
    exact Timers.takeDue_eq_none_iff.mp (r.takeDue_advance now) t ht
  | passThrough => cases hd
  | filter f => cases hd
  | sink => cases hd

end Chain

/-! ## The states of a chain -/

namespace Recognizer

variable {r : Recognizer}

theorem distinct_new (settings : RecognizerSettings) (display : Option Display) :
    (new settings display).timers.Distinct := by
  intro t ht
  cases ht

theorem distinct_receive (h : r.timers.Distinct) (m : Message) :
    (r.receive m).state.timers.Distinct := by
  cases m with
  | event e =>
    cases e with
    | pointer s => exact (rearmed_pointer r s).distinct h
    | key k => exact h
    | accessibility a => exact h
  | time now => exact (rearmed_advance r now).1 h
  | clear source =>
    simp only [receive]
    split
    · exact (h.disarm .longPress).disarm .singleTap
    · exact h
  | destroy =>
    intro t ht
    cases ht

end Recognizer

namespace Stage

/-- A stage that has not been given anything yet. -/
inductive IsNew : Stage → Prop
  | passThrough : IsNew .passThrough
  | filter (settings : FilterSettings) (display : Option Display) :
      IsNew (.filter (.new settings display))
  | recognizer (settings : RecognizerSettings) (display : Option Display) :
      IsNew (.recognizer (.new settings display))
  | sink : IsNew .sink

/-- The pending timers of one kind are one timer. -/
def Distinct : Stage → Prop
  | .recognizer r => r.timers.Distinct
  | _ => True

variable {stage : Stage}

theorem IsNew.distinct (h : stage.IsNew) : stage.Distinct := by
  cases h with
  | recognizer settings display => exact Recognizer.distinct_new settings display
  | passThrough => trivial
  | filter settings display => trivial
  | sink => trivial

theorem Distinct.receive (h : stage.Distinct) (m : Message) :
    (stage.receive m).state.Distinct := by
  cases stage with
  | recognizer r => exact Recognizer.distinct_receive h m
  | passThrough => trivial
  | filter f => trivial
  | sink => trivial

theorem Distinct.relay (h : stage.Distinct) (xs : List Signal) :
    (TouchStream.relay Stage.receive stage xs).1.Distinct := by
  induction xs generalizing stage with
  | nil => exact h
  | cons x xs ih =>
    cases x with
    | message m => exact ih (h.receive m)
    | report r => exact ih h

end Stage

namespace Chain

variable {c : Chain}

theorem distinct_relay (h : ∀ stage ∈ c, stage.Distinct) (xs : List Signal) :
    ∀ stage ∈ (c.relay xs).1, stage.Distinct := by
  induction c generalizing xs with
  | nil => exact List.forall_mem_nil _
  | cons first rest ih =>
    obtain ⟨hfirst, hrest⟩ := List.forall_mem_cons.mp h
    exact List.forall_mem_cons.mpr ⟨hfirst.relay xs, ih hrest _⟩

/-- The states that a chain comes to: it is built of new stages, its head is given messages, and
the timer of a long press may be armed in its head from outside. -/
inductive Reached : Chain → Prop
  | new {c : Chain} (h : ∀ stage ∈ c, stage.IsNew) : Reached c
  | send {c : Chain} (h : Reached c) (m : Message) : Reached (c.send m).1
  | press {r : Recognizer} {rest : Chain} (h : Reached (.recognizer r :: rest)) (now : Micros) :
      Reached (.recognizer (r.awaitLongPress now) :: rest)

theorem Reached.distinct (h : c.Reached) : ∀ stage ∈ c, stage.Distinct := by
  induction h with
  | new h => exact fun stage hmem => (h stage hmem).distinct
  | @send c _ m ih =>
    have hrelay := distinct_relay ih [.message m]
    rw [relay_message] at hrelay
    exact hrelay
  | @press r rest _ now ih =>
    obtain ⟨hfirst, hrest⟩ := List.forall_mem_cons.mp ih
    exact List.forall_mem_cons.mpr ⟨Timers.Distinct.arm hfirst .longPress _, hrest⟩

end Chain

/-! ## What fires in a chain -/

/-- The timers that a stage fires when it is told the time. -/
def Stage.fired (now : Micros) : Stage → List (PendingTimer RecognizerTimer)
  | .recognizer r => r.fired now
  | _ => []

namespace Chain

/-- The timers that fire in a chain while its head is given messages. -/
def firedDuring (c : Chain) : List Message → List (PendingTimer RecognizerTimer)
  | [] => []
  | .time now :: ms => c.flatMap (Stage.fired now) ++ (c.send (.time now)).1.firedDuring ms
  | m :: ms => (c.send m).1.firedDuring ms

/-- What fires is due at a time that the head is told. -/
theorem due_of_firedDuring {c : Chain} {ms : List Message} {t : PendingTimer RecognizerTimer}
    (h : t ∈ c.firedDuring ms) : ∃ now, .time now ∈ ms ∧ t.deadline ≤ now := by
  induction ms generalizing c with
  | nil => cases h
  | cons m ms ih =>
    have hlater {c' : Chain} (h : t ∈ c'.firedDuring ms) :
        ∃ now, .time now ∈ m :: ms ∧ t.deadline ≤ now := by
      obtain ⟨now, hmem, hdue⟩ := ih h
      exact ⟨now, List.mem_cons_of_mem _ hmem, hdue⟩
    cases m with
    | event e => exact hlater h
    | clear source => exact hlater h
    | destroy => exact hlater h
    | time now =>
      rcases List.mem_append.mp h with h | h
      · obtain ⟨stage, -, hfired⟩ := List.mem_flatMap.mp h
        cases stage with
        | recognizer r => exact ⟨now, List.mem_cons_self, (Recognizer.mem_fired hfired).2⟩
        | passThrough => cases hfired
        | filter f => cases hfired
        | sink => cases hfired
      · exact hlater h

end Chain

namespace Pipeline

variable {p : Pipeline} {request : Request} {now : Micros} {out : Pipeline × List Report}

/-! ## Flushing -/

/-- A flush as a loop: the clock moves to the earliest deadline until there is none. -/
inductive Flushes : Pipeline → Pipeline × List Report → Prop
  | done {p : Pipeline} (h : p.nextDeadline = none) : Flushes p (p, [])
  | round {p : Pipeline} {d : Micros} {out : Pipeline × List Report} (h : p.nextDeadline = some d)
      (rest : Flushes (p.advance d).1 out) : Flushes p (out.1, (p.advance d).2 ++ out.2)

theorem flushes_flushRounds {n : Nat} (h : p.pendingTimers ≤ n) :
    Flushes p (flushRounds n p) := by
  induction n generalizing p with
  | zero =>
    apply Flushes.done
    cases hd : p.nextDeadline with
    | none => rfl
    | some d => exact absurd (pendingTimers_advance_lt hd) (by omega)
  | succ n ih =>
    unfold flushRounds
    cases hd : p.nextDeadline with
    | none => exact .done hd
    | some d =>
      have hfewer := pendingTimers_advance_lt hd
      exact .round hd (ih (by omega))

theorem Flushes.unique {out' : Pipeline × List Report} (h : Flushes p out)
    (h' : Flushes p out') : out' = out := by
  induction h generalizing out' with
  | done hnone =>
    cases h' with
    | done _ => rfl
    | round hsome _ => cases hnone.symm.trans hsome
  | round hsome _ ih =>
    cases h' with
    | done hnone => cases hsome.symm.trans hnone
    | round hsome' rest =>
      cases hsome.symm.trans hsome'
      rw [ih rest]

/-- The loop ends, and in one way. -/
theorem flushes_iff : Flushes p out ↔ out = p.flush := by
  have hflush : Flushes p p.flush := flushes_flushRounds (Nat.le_refl _)
  constructor
  · exact hflush.unique
  · rintro rfl
    exact hflush

theorem Flushes.nextDeadline_eq_none (h : Flushes p out) : out.1.nextDeadline = none := by
  induction h with
  | done hnone => exact hnone
  | round _ _ ih => exact ih

/-! ## The clock -/

theorem clock_catchUp_le (p : Pipeline) (time : Micros) : p.clock ≤ (p.catchUp time).1.clock := by
  rw [catchUp_eq_if]
  split
  · exact Micros.le_max_left _ _
  · exact UInt64.le_refl _

theorem clock_flushRounds_le (n : Nat) (p : Pipeline) : p.clock ≤ (flushRounds n p).1.clock := by
  induction n generalizing p with
  | zero => exact UInt64.le_refl _
  | succ n ih =>
    unfold flushRounds
    split
    · exact UInt64.le_refl _
    · rename_i d _
      have hfirst : p.clock ≤ (p.advance d).1.clock := Micros.le_max_left _ _
      exact UInt64.le_trans hfirst (ih _)

/-- The clock never goes back. -/
theorem clock_handle_le (p : Pipeline) (request : Request) :
    p.clock ≤ (p.handle request).1.clock := by
  cases request with
  | feed e =>
    cases e with
    | pointer s =>
      exact UInt64.le_trans (clock_catchUp_le p s.time) (Micros.le_max_left _ _)
    | key k => exact UInt64.le_refl _
    | accessibility a => exact UInt64.le_refl _
  | advance now => exact Micros.le_max_left _ _
  | flush => exact clock_flushRounds_le _ p
  | clear source => exact UInt64.le_refl _
  | destroy =>
    simp only [handle, destroy]
    split <;> exact UInt64.le_refl _

theorem le_clock_flushRounds {n : Nat} (h : .time now ∈ flushTimes n p) :
    now ≤ (flushRounds n p).1.clock := by
  induction n generalizing p with
  | zero => cases h
  | succ n ih =>
    unfold flushTimes at h
    unfold flushRounds
    cases hd : p.nextDeadline with
    | none =>
      rw [hd] at h
      cases h
    | some d =>
      rw [hd] at h
      rcases List.mem_cons.mp h with h | h
      · cases h
        exact clock_flushRounds_le n (p.advance d).1
      · exact ih h

/-- The clock has come to every time that the head is told. -/
theorem le_clock_handle (h : .time now ∈ p.messages request) :
    now ≤ (p.handle request).1.clock := by
  cases request with
  | feed e =>
    cases e with
    | pointer s =>
      rcases List.mem_append.mp h with h | h
      · simp only [wakings] at h
        split at h
        · rename_i hdue
          cases List.mem_singleton.mp h
          have hcaught : (p.catchUp s.time).1.clock = max p.clock (s.time - 1) := by
            rw [catchUp_eq_if, if_pos hdue]
            rfl
          show _ ≤ max (p.catchUp s.time).1.clock s.time
          rw [hcaught]
          exact Micros.le_max_left _ _
        · cases h
      · cases List.mem_singleton.mp h
    | key k => cases List.mem_singleton.mp h
    | accessibility a => cases List.mem_singleton.mp h
  | advance later =>
    cases List.mem_singleton.mp h
    exact UInt64.le_refl _
  | flush => exact le_clock_flushRounds h
  | clear source => cases List.mem_singleton.mp h
  | destroy =>
    simp only [messages] at h
    split at h
    · cases h
    · cases List.mem_singleton.mp h

end Pipeline

/-! ## Chains and pipelines -/

/-- **Time is kept exactly, and every firing ends.** In every state that a chain comes to, it
waits for the earliest deadline that is pending in it. When its head is told the time, each
recognizer comes to the end of its loop: what is due there fires once or is cancelled by what
fires, nothing is armed, and every deadline that is left lies after the time. A pipeline that is
flushed comes to an end with no timer pending. Whatever is asked of it, its clock does not go
back, and has come to every deadline that fires. -/
theorem time_exact :
    (∀ c : Chain, c.Reached → ∀ now,
      c.nextDeadline = c.deadlines.min? ∧
        (c.send (.time now)).1 = c.map (Stage.elapse now) ∧
        (∀ r, .recognizer r ∈ c →
          Stage.elapse now (.recognizer r) = .recognizer (r.advance now).1 ∧
            (∀ ts out, r.Drains now ts out ↔ ts = r.fired now ∧ out = r.advance now) ∧
            r.Spent now (r.fired now) (r.advance now).1) ∧
        ∀ d, (c.send (.time now)).1.nextDeadline = some d → now < d) ∧
      ∀ p : Pipeline, p.nextDeadline = p.chain.deadlines.min? ∧
        (∀ out, p.Flushes out ↔ out = p.flush) ∧
          p.flush.1.pendingTimers = 0 ∧ p.flush.1.nextDeadline = none ∧
          ∀ request, p.clock ≤ (p.handle request).1.clock ∧
            ∀ t ∈ p.chain.firedDuring (p.messages request),
              t.deadline ≤ (p.handle request).1.clock := by
  refine ⟨fun c hc now => ⟨c.nextDeadline_eq_min, c.send_time now, fun r hr => ?_, fun d hd => ?_⟩,
    fun p => ⟨p.chain.nextDeadline_eq_min, fun out => Pipeline.flushes_iff, ?_, ?_,
      fun request => ?_⟩⟩
  · have hone : r.timers.Distinct := hc.distinct _ hr
    exact ⟨rfl, fun ts out => Recognizer.drains_iff, (r.drains_advance now).spent hone⟩
  · rw [c.send_time now] at hd
    exact Chain.lt_of_nextDeadline_elapse hd
  · exact Chain.pendingTimers_of_nextDeadline (c := p.flush.1.timed)
      (Pipeline.flushes_iff.mpr rfl).nextDeadline_eq_none
  · exact (Pipeline.flushes_iff.mpr rfl).nextDeadline_eq_none
  · refine ⟨p.clock_handle_le request, fun t ht => ?_⟩
    obtain ⟨now, hnow, hdue⟩ := Chain.due_of_firedDuring ht
    exact UInt64.le_trans hdue (Pipeline.le_clock_handle hnow)

/-- Two recognizers wait with two timers each. At the time at which the timer of the tap is due
in both, the long press of the first one fires before it and cancels it. -/
theorem time_exact_long_press :
    let quick : Recognizer := .new { longPressTimeout := 200000 } none
    let c : Chain := [.filter (.new {} none), .recognizer quick, .recognizer (.new {} none)]
    let down := Sample.touch .down .zero 0
    let q := (c.send (.event (.pointer down))).1
    let r := (quick.pointer down).state
    let tap : PendingTimer RecognizerTimer := ⟨.singleTap, 300000, 0⟩
    let press : PendingTimer RecognizerTimer := ⟨.longPress, 200000, 1⟩
    (q.Reached ∧ .recognizer r ∈ q ∧ r.timers.pending = [tap, press] ∧
        q.deadlines = [300000, 200000, 300000, 300000]) ∧
      q.nextDeadline = q.deadlines.min? ∧ r.fired 300000 = [press] ∧
      r.Spent 300000 [press] (r.advance 300000).1 ∧ r.Cancels [press] tap ∧
      ∀ d, (q.send (.time 300000)).1.nextDeadline = some d → 300000 < d := by
  intro quick c down q r tap press
  have hnew : ∀ stage ∈ c, stage.IsNew := by
    simp only [c, List.forall_mem_cons]
    exact ⟨.filter _ _, .recognizer _ _, .recognizer _ _, List.forall_mem_nil _⟩
  have hreached : q.Reached := (Chain.Reached.new hnew).send _
  have hr : .recognizer r ∈ q := by decide +kernel
  have hpending : r.timers.pending = [tap, press] := by decide +kernel
  have hfired : r.fired 300000 = [press] := by decide +kernel
  obtain ⟨hmin, -, hloops, hlater⟩ := time_exact.1 q hreached 300000
  have hspent := (hloops r hr).2.2
  rw [hfired] at hspent
  have htap : tap ∈ r.timers.pending := by simp [hpending]
  have hcancelled : r.Cancels [press] tap := (hspent.cancelled tap htap (by decide)).mp (by decide)
  exact ⟨⟨hreached, hr, hpending, by decide +kernel⟩, hmin, hfired, hspent, hcancelled, hlater⟩

end TouchStream
