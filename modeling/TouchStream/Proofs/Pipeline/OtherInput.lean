import TouchStream.Proofs.Pipeline.CatchUp

/-!
# Other input has no say in what is made of touch

Keys, accessibility events and the samples of other devices pass the filter, the
recognizer and every other stage unchanged, and leave no trace in them
(`send_other`). A sample of another device does move the clock, so timers may fire
earlier than they would without it. But what has fired by then is a part of what the
next touch sample, or the flush at the end, would fire first (`decides_caughtUp`).

* `Pipeline.passages`: the events of a run, each with those that reach the stages
  behind the recognizer while it is fed.
* `other_input_unnoticed`: a run with other input and the run of its touch samples
  alone decide the same and hand on the same, and other input is handed on as it is.
-/

namespace TouchStream

namespace Event

/-- Whether an event is a sample of a touch screen. -/
def isTouch : Event → Bool
  | pointer s => s.source = .touchscreen
  | _ => false

/-- The time of an event that moves the clock. -/
def sampleTime? : Event → Option Micros
  | pointer s => some s.time
  | _ => none

end Event

variable {e : Event}

/-! ## Other input passes -/

theorem TouchFilter.receive_other (h : e.isTouch = false) (f : TouchFilter) :
    f.receive (.event e) = ⟨f, false, [.message (.event e)]⟩ := by
  cases e with
  | pointer s =>
    have hsource : s.source ≠ .touchscreen := by simpa [Event.isTouch] using h
    simp [receive, pointer, hsource, Signal.sample]
  | key k => rfl
  | accessibility a => rfl

theorem TouchFilter.passes_other (h : e.isTouch = false) (f : TouchFilter) :
    f.passes (.event e) = [.event e] := by
  cases e with
  | pointer s =>
    have hsource : s.source ≠ .touchscreen := by simpa [Event.isTouch] using h
    simp [passes, pointer, hsource]
  | key k => rfl
  | accessibility a => rfl

theorem Recognizer.receive_other (h : e.isTouch = false) (r : Recognizer) :
    r.receive (.event e) = ⟨r, false, [.message (.event e)]⟩ := by
  cases e with
  | pointer s =>
    have hsource : s.source ≠ .touchscreen := by simpa [Event.isTouch] using h
    simp [receive, pointer, hsource, Signal.sample]
  | key k => rfl
  | accessibility a => rfl

/-- A stage passes other input on or delivers it. -/
theorem Stage.receive_other (h : e.isTouch = false) (stage : Stage) :
    (stage.receive (.event e)).state = stage ∧
      ((stage.receive (.event e)).out = [.message (.event e)] ∨
        (stage.receive (.event e)).out = [.report (.delivered e)]) := by
  cases stage with
  | passThrough => exact ⟨rfl, Or.inl rfl⟩
  | filter f =>
    simp only [receive, f.receive_other h]
    exact ⟨trivial, Or.inl trivial⟩
  | recognizer r =>
    simp only [receive, r.receive_other h]
    exact ⟨trivial, Or.inl trivial⟩
  | sink => cases e <;> exact ⟨rfl, Or.inr rfl⟩

theorem Chain.relay_other (h : e.isTouch = false) (c : Chain) :
    (c.relay [.message (.event e)]).1 = c := by
  induction c with
  | nil => rfl
  | cons stage rest ih =>
    obtain ⟨hstate, hout⟩ := stage.receive_other h
    simp only [relay, TouchStream.relay, hstate, List.append_nil]
    rcases hout with hout | hout
    · rw [hout, ih]
    · rw [hout]
      exact congrArg (stage :: ·) (congrArg Prod.fst (relay_reports rest [.delivered e]))

namespace Pipeline

variable {p : Pipeline} {es : List Event} {now : Micros}

theorem send_other (h : e.isTouch = false) (p : Pipeline) : (p.send (.event e)).1 = p := by
  simp only [send, p.filter.receive_other h, relay, p.recognizer.receive_other h,
    List.append_nil, p.output.relay_other h]

theorem handsOn_other (h : e.isTouch = false) (f : TouchFilter) (r : Recognizer) :
    r.handsOn (f.passes (.event e)) = [.message (.event e)] := by
  rw [f.passes_other h, Recognizer.handsOn_cons, r.receive_other h]
  rfl

/-! ## Feeding events -/

/-- The events that are fed, each with the events that are handed to the stages behind the
recognizer while it is fed. -/
def passages (p : Pipeline) : List Event → List (Event × List Event)
  | [] => []
  | e :: es => (e, eventsIn (p.toOutput [.feed e])) :: (p.feed e).1.passages es

/-- Nothing else is handed on, and nothing in a flush. -/
theorem events_toOutput (p : Pipeline) (es : List Event) :
    eventsIn (p.toOutput (es.map .feed ++ [.flush])) = (p.passages es).flatMap (·.2) := by
  induction es generalizing p with
  | nil => exact events_flush p
  | cons e es ih =>
    rw [List.map_cons, List.cons_append, toOutput_cons, eventsIn_append, passages,
      List.flatMap_cons, ← ih]
    rfl

/-- A sample of another device does no more than move the clock. -/
theorem feed_other_pointer {s : Sample} (h : (Event.pointer s).isTouch = false) (p : Pipeline) :
    (p.feed (.pointer s)).1 = p.caughtUp s.time ∧
      p.decides [.feed (.pointer s)] = p.early s.time ∧
      eventsIn (p.toOutput [.feed (.pointer s)]) = [.pointer s] := by
  obtain ⟨hdecisions, hevents⟩ := handsOn_wakings p s.time
  refine ⟨?_, ?_, ?_⟩
  · rw [pointer_eq_send, send_other h]
  · rw [decides, toOutput_pointer, handsOn_other h, decisionsIn_append, hdecisions]
    exact List.append_nil _
  · rw [toOutput_pointer, handsOn_other h, eventsIn_append, hevents]
    rfl

/-- Keys and accessibility events change nothing at all. -/
theorem feed_untimed (h : e.sampleTime? = none) (p : Pipeline) :
    (p.feed e).1 = p ∧ p.decides [.feed e] = [] ∧ eventsIn (p.toOutput [.feed e]) = [e] := by
  cases e with
  | pointer s => cases h
  | key k => exact ⟨send_other rfl p, rfl, rfl⟩
  | accessibility a => exact ⟨send_other rfl p, rfl, rfl⟩

/-! ## Other input in between -/

/-- A pipeline that has caught up with a time earlier than all touch samples to come has
only decided earlier a part of what it would decide. -/
theorem decides_caughtUp (hclock : p.clock ≤ now) (htouch : ∀ e ∈ es, e.isTouch = true)
    (hlater : ∀ t ∈ es.filterMap Event.sampleTime?, now ≤ t) :
    p.decides (es.map .feed ++ [.flush]) =
        p.early now ++ (p.caughtUp now).decides (es.map .feed ++ [.flush]) ∧
      (p.caughtUp now).passages es = p.passages es := by
  cases es with
  | nil => exact ⟨decides_flush_caughtUp hclock, rfl⟩
  | cons e es =>
    have he := htouch e List.mem_cons_self
    cases e with
    | pointer s =>
      have hnow : now ≤ s.time := hlater s.time List.mem_cons_self
      obtain ⟨hsame, hearly⟩ := caughtUp_caughtUp hclock hnow
      have hfeed : ((p.caughtUp now).feed (.pointer s)).1 = (p.feed (.pointer s)).1 := by
        rw [pointer_eq_send, pointer_eq_send, hsame]
      have hdecides : p.decides [.feed (.pointer s)] =
          p.early now ++ (p.caughtUp now).decides [.feed (.pointer s)] := by
        rw [decides, decides, toOutput_pointer, toOutput_pointer, decisionsIn_append,
          decisionsIn_append, (handsOn_wakings _ _).1, (handsOn_wakings _ _).1, hsame,
          caughtUp_filter, hearly, List.append_assoc]
      constructor
      · rw [List.map_cons, List.cons_append, p.decides_feed, (p.caughtUp now).decides_feed,
          hdecides, hfeed, List.append_assoc]
      · rw [passages, passages, hfeed, toOutput_pointer, toOutput_pointer, eventsIn_append,
          eventsIn_append, (handsOn_wakings _ _).2, (handsOn_wakings _ _).2, hsame,
          caughtUp_filter]
    | key k => cases he
    | accessibility a => cases he

theorem other_input_of_sorted (es : List Event)
    (hclock : ∀ t ∈ es.filterMap Event.sampleTime?, p.clock ≤ t)
    (htimes : (es.filterMap Event.sampleTime?).Pairwise (· ≤ ·)) :
    p.decides (es.map .feed ++ [.flush]) =
        p.decides ((es.filter Event.isTouch).map .feed ++ [.flush]) ∧
      (p.passages es).filter (fun x => x.1.isTouch) = p.passages (es.filter Event.isTouch) ∧
      ∀ x ∈ p.passages es, x.1.isTouch = false → x.2 = [x.1] := by
  induction es generalizing p with
  | nil =>
    refine ⟨rfl, rfl, ?_⟩
    intro x hx
    cases hx
  | cons e es ih =>
    cases ht : e.sampleTime? with
    | none =>
      have he : e.isTouch = false := by
        cases e with
        | pointer s => cases ht
        | key k => rfl
        | accessibility a => rfl
      rw [List.filterMap_cons_none ht] at hclock htimes
      obtain ⟨hstate, hdecides, hevents⟩ := feed_untimed ht p
      obtain ⟨ih1, ih2, ih3⟩ := ih hclock htimes
      rw [List.filter_cons_of_neg (by simp [he]), List.map_cons, List.cons_append, decides_feed,
        hdecides, hstate, passages, hstate, hevents]
      refine ⟨ih1, ?_, List.forall_mem_cons.mpr ⟨fun _ => rfl, ih3⟩⟩
      rw [List.filter_cons_of_neg (by simp [he])]
      exact ih2
    | some t =>
      rw [List.filterMap_cons_some ht] at hclock htimes
      obtain ⟨hnow, hlater⟩ := List.forall_mem_cons.mp hclock
      obtain ⟨hnext, hrest⟩ := List.pairwise_cons.mp htimes
      cases e with
      | pointer s =>
        cases ht
        have hclock' := clock_pointer hnow
        obtain ⟨ih1, ih2, ih3⟩ := ih (p := (p.feed (.pointer s)).1) (hclock'.symm ▸ hnext) hrest
        cases he : (Event.pointer s).isTouch with
        | true =>
          rw [List.filter_cons_of_pos he, List.map_cons, List.map_cons, List.cons_append,
            List.cons_append, p.decides_feed (.pointer s) (es.map Request.feed ++ [Request.flush]),
            ih1, ← p.decides_feed, passages, passages]
          refine ⟨rfl, ?_, List.forall_mem_cons.mpr ⟨?_, ih3⟩⟩
          · rw [List.filter_cons_of_pos (by exact he), ih2]
          · intro hfalse
            rw [he] at hfalse
            cases hfalse
        | false =>
          obtain ⟨hstate, hdecides, hevents⟩ := feed_other_pointer he p
          rw [hstate] at ih1 ih2 ih3
          -- the touch samples to come find a pipeline that has caught up with the sample
          have htouches : ∀ e ∈ es.filter Event.isTouch, e.isTouch = true :=
            fun e he => (List.mem_filter.mp he).2
          obtain ⟨hsplit, hpassages⟩ := decides_caughtUp hnow htouches
            (fun t ht => hnext t (List.Sublist.filterMap _ List.filter_sublist |>.subset ht))
          rw [List.filter_cons_of_neg (by simp [he]), List.map_cons, List.cons_append,
            decides_feed, hdecides, hstate, passages, hstate, hevents, hsplit, ← hpassages]
          refine ⟨congrArg (p.early s.time ++ ·) ih1, ?_,
            List.forall_mem_cons.mpr ⟨fun _ => rfl, ih3⟩⟩
          rw [List.filter_cons_of_neg (by simp [he])]
          exact ih2
      | key k => cases ht
      | accessibility a => cases ht

/-- **Other input goes unnoticed.** Feed a pipeline that was just built any events whose
samples come in the order of time, and flush it. What is decided is what the touch samples
among them decide alone. Events are handed to the stages behind the recognizer only while
one is fed: while a touch sample is, the same ones as without the others, and while another
event is, that event and nothing else. With plain stages behind the recognizer these
decisions are what the run reports, and if there is a sink among them, these events are what
it delivers. -/
theorem other_input_unnoticed {plan : Plan} (hbuild : plan.build = .ok p) (es : List Event)
    (htimes : (es.filterMap Event.sampleTime?).Pairwise (· ≤ ·)) :
    p.decides (es.map .feed ++ [.flush]) =
        p.decides ((es.filter Event.isTouch).map .feed ++ [.flush]) ∧
      eventsIn (p.toOutput (es.map .feed ++ [.flush])) = (p.passages es).flatMap (·.2) ∧
      (p.passages es).filter (fun x => x.1.isTouch) = p.passages (es.filter Event.isTouch) ∧
      (∀ x ∈ p.passages es, x.1.isTouch = false → x.2 = [x.1]) ∧
      (plan.output.IsPlain →
        decisionsOf (p.run (es.map .feed ++ [.flush])).2.2 =
          decisionsOf (p.run ((es.filter Event.isTouch).map .feed ++ [.flush])).2.2) ∧
      (plan.output.IsPlain → .sink ∈ plan.output →
        deliveriesOf (p.run (es.map .feed ++ [.flush])).2.2 = (p.passages es).flatMap (·.2) ∧
          deliveriesOf (p.run ((es.filter Event.isTouch).map .feed ++ [.flush])).2.2 =
            ((p.passages es).filter fun x => x.1.isTouch).flatMap (·.2)) := by
  have hclock : ∀ t ∈ es.filterMap Event.sampleTime?, p.clock ≤ t := by
    intro t _
    rw [clock_of_build hbuild]
    exact UInt64.zero_le
  obtain ⟨hdecides, htouch, hother⟩ := other_input_of_sorted es hclock htimes
  refine ⟨hdecides, events_toOutput p es, htouch, hother, fun hplain => ?_, fun hplain hsink => ?_⟩
  · rw [← output_of_build hbuild] at hplain
    rw [decisionsOf_run hplain, decisionsOf_run hplain, hdecides]
  · rw [← output_of_build hbuild] at hplain hsink
    rw [deliveriesOf_run hplain hsink, deliveriesOf_run hplain hsink, events_toOutput,
      events_toOutput, htouch]
    exact ⟨rfl, rfl⟩

/-- Two touches under the click delay that are let on by their ups, so that the timer of
the first tap is overdue at once. A mouse makes it fire at the time of that very up, and a
joystick is delivered before the second touch, whose down is held back. -/
theorem other_input_unnoticed_overdue_tap :
    let config : Configuration := { filter := { clickDelay := .medium } }
    let plan : Plan := { config := config, listener := some .attentive, output := [.sink] }
    let p : Pipeline := ⟨.new config.filter none, .new {} none, [.sink], 0, false⟩
    let other (source : PointerSource) (time : Micros) : Event :=
      .pointer { Sample.touch .move .zero time with source }
    let touch (action : PointerAction) (time : Micros) : Event :=
      .pointer (.touch action .zero time)
    let es : List Event :=
      [touch .down 0, touch .up 700000, other .mouse 700000, .key ⟨24, .down, 5⟩,
        touch .down 900000, other .joystick 1100000, touch .up 1200000]
    (plan.build = .ok p ∧ (es.filterMap Event.sampleTime?).Pairwise (· ≤ ·) ∧
        plan.output.IsPlain ∧ .sink ∈ plan.output) ∧
      p.decides (es.map .feed ++ [.flush]) = [.completed .tap, .completed .tap] ∧
      p.decides (es.map .feed ++ [.flush]) =
        p.decides ((es.filter Event.isTouch).map .feed ++ [.flush]) ∧
      eventsIn (p.toOutput (es.map .feed ++ [.flush])) = (p.passages es).flatMap (·.2) ∧
      (p.passages es).filter (fun x => x.1.isTouch) = p.passages (es.filter Event.isTouch) ∧
      (∀ x ∈ p.passages es, x.1.isTouch = false → x.2 = [x.1]) ∧
      decisionsOf (p.run (es.map .feed ++ [.flush])).2.2 =
        decisionsOf (p.run ((es.filter Event.isTouch).map .feed ++ [.flush])).2.2 ∧
      deliveriesOf (p.run (es.map .feed ++ [.flush])).2.2 =
        [touch .down 0, touch .up 700000, other .mouse 700000, .key ⟨24, .down, 5⟩,
          other .joystick 1100000, touch .down 900000, touch .up 1200000] := by
  intro config plan p other touch es
  have hbuild : plan.build = .ok p := build_eq_built rfl check_default
  have htimes : (es.filterMap Event.sampleTime?).Pairwise (· ≤ ·) := by decide +kernel
  have hplain : plan.output.IsPlain := by decide
  have hsink : .sink ∈ plan.output := List.mem_singleton.mpr rfl
  obtain ⟨hdecides, hevents, htouch, hother, hreports, hdelivered⟩ :=
    other_input_unnoticed hbuild es htimes
  refine ⟨⟨hbuild, htimes, hplain, hsink⟩, by decide +kernel, hdecides, hevents, htouch, hother,
    hreports hplain, (hdelivered hplain hsink).1.trans ?_⟩
  decide +kernel

end Pipeline

end TouchStream
