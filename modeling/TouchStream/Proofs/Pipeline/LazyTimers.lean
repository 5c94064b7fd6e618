import TouchStream.Proofs.Pipeline.Run

/-!
# It makes no difference when timers are looked at

A pipeline fires the timers that are due before a sample when the sample comes. It may
also be told the time in between, as often as one likes, and then fires them earlier.
As long as no such call comes as late as the sample after it, nothing that can be seen
differs: `advance_advance` says that firing in two steps is firing at once, and the
sample brings the clock to the same time in either case (`advance_pointer`).

At the end, the pending timers can be flushed from deadline to deadline or by moving
the clock to the last time. Each round of the flush fires one timer at least, so the
rounds suffice (`flushRounds_eq`).

* `Announced`: the runs that feed given samples with such calls in between.
* `announced_eq_lazy`: they end in the same state, with the same answers and reports,
  as the run of the samples alone, and both ways to fire the rest report the same.
-/

namespace TouchStream.Pipeline

variable {p : Pipeline}

/-! ## Before a sample -/

/-- Moving the clock on before a sample that comes later fires a part of what the
sample would fire first. -/
theorem advance_pointer (h : p.output.IsPlain) {s : Sample} {now : Micros} (hnow : now < s.time)
    (hclock : p.clock < s.time) :
    p.pointer s =
      (((p.advance now).1.pointer s).1, ((p.advance now).1.pointer s).2.1,
        (p.advance now).2 ++ ((p.advance now).1.pointer s).2.2) := by
  have hlt : max p.clock now < s.time := Micros.max_lt hclock hnow
  have hle : max p.clock now ≤ s.time - 1 := (Micros.le_sub_one_iff hlt).mpr hlt
  have hadvance := advance_eq h now
  generalize max p.clock now = clock at *
  have hplain : (p.advance now).1.output.IsPlain := by
    rw [hadvance]
    exact h
  have hlater : (p.advance now).1.clock < s.time := by
    rw [hadvance]
    exact hlt
  rw [pointer_eq h hclock, pointer_eq hplain hlater, hadvance,
    p.recognizer.advance_advance hle]
  simp only [List.map_append, List.append_assoc]

/-- The requests feed the samples one after another and tell the time in between. A
time is told only before a sample that comes after it and after the clock. -/
inductive Announced : Pipeline → List Sample → List Request → Prop
  | nil (p : Pipeline) : Announced p [] []
  | feed {p : Pipeline} {s : Sample} {samples : List Sample} {requests : List Request} :
    Announced (p.pointer s).1 samples requests →
      Announced p (s :: samples) (.feed (.pointer s) :: requests)
  | advance {p : Pipeline} {s : Sample} {samples : List Sample} {requests : List Request}
    {now : Micros} : now < s.time → p.clock < s.time →
      Announced (p.advance now).1 (s :: samples) requests →
      Announced p (s :: samples) (.advance now :: requests)

theorem Announced.run_eq {samples : List Sample} {requests : List Request}
    (h : Announced p samples requests) (hplain : p.output.IsPlain) :
    p.run requests = p.run (samples.map fun s => .feed (.pointer s)) := by
  induction h with
  | nil p => rfl
  | @feed p s samples requests _ ih =>
    have hsame := handle_output hplain (.feed (.pointer s))
    have hrest : (p.feed (.pointer s)).1.run requests =
        (p.feed (.pointer s)).1.run (samples.map fun s => .feed (.pointer s)) :=
      ih (hsame ▸ hplain)
    rw [List.map_cons, run_feed, run_feed, hrest]
  | @advance p s samples requests now hnow hclock _ ih =>
    have hsame := handle_output hplain (.advance now)
    have hrest := ih (hsame ▸ hplain)
    -- the rest of the run starts with the same sample, which now fires what is left
    have hpointer : p.feed (.pointer s) =
        (((p.advance now).1.feed (.pointer s)).1, ((p.advance now).1.feed (.pointer s)).2.1,
          (p.advance now).2 ++ ((p.advance now).1.feed (.pointer s)).2.2) :=
      advance_pointer hplain hnow hclock
    rw [run_advance, hrest, List.map_cons, run_feed, run_feed, hpointer]
    simp only [List.append_assoc]

/-! ## At the end -/

/-- Moving the clock to the last time leaves no timer. -/
theorem nextDeadline_advance_last (r : Recognizer) :
    (r.advance .last).1.timers.nextDeadline = none := by
  cases hd : (r.advance .last).1.timers.nextDeadline with
  | none => rfl
  | some d =>
    obtain ⟨x, hx⟩ := Timers.exists_takeDue_of_nextDeadline hd (Micros.le_last d)
    rw [r.takeDue_advance] at hx
    cases hx

theorem flushRounds_eq (h : p.output.IsPlain) {n : Nat} (hn : p.recognizer.timers.size ≤ n) :
    (flushRounds n p).1.recognizer = (p.recognizer.advance .last).1 ∧
      (flushRounds n p).2 = (p.recognizer.advance .last).2.map .decided := by
  have hnone {r : Recognizer} (hr : r.timers.pending = []) : r.advance .last = (r, []) := by
    apply Recognizer.advance_of_none_due
    rw [Timers.takeDue_eq_none_iff, hr]
    simp
  induction n generalizing p with
  | zero =>
    rw [hnone (List.eq_nil_of_length_eq_zero (Nat.le_zero.mp hn))]
    exact ⟨rfl, rfl⟩
  | succ n ih =>
    unfold flushRounds
    rw [nextDeadline_eq h]
    cases hd : p.recognizer.timers.nextDeadline with
    | none =>
      rw [hnone (Timers.nextDeadline_eq_none_iff.mp hd)]
      exact ⟨rfl, rfl⟩
    | some d =>
      have hadvance := advance_eq h d
      obtain ⟨x, hx⟩ := Timers.exists_takeDue_of_nextDeadline hd (Micros.le_max_right p.clock d)
      have hsize := Recognizer.size_advance_lt hx
      generalize max p.clock d = clock at *
      have hplain : (p.advance d).1.output.IsPlain := by
        rw [hadvance]
        exact h
      have hfewer : (p.advance d).1.recognizer.timers.size ≤ n := by
        rw [hadvance]
        exact Nat.le_of_lt_succ (Nat.lt_of_lt_of_le hsize hn)
      obtain ⟨hstate, hreports⟩ := ih hplain hfewer
      rw [p.recognizer.advance_advance (Micros.le_last clock)]
      refine ⟨hstate.trans (by rw [hadvance]), ?_⟩
      show (p.advance d).2 ++ (flushRounds n (p.advance d).1).2 = _
      rw [hreports, hadvance, List.map_append]

/-- Firing every pending timer in turn leaves none, and reports what moving the clock
to the last time reports. -/
theorem flush_eq (h : p.output.IsPlain) :
    p.flush.1.nextDeadline = none ∧ p.flush.2 = (p.advance .last).2 := by
  have hsize := pendingTimers_eq h
  obtain ⟨hstate, hreports⟩ := flushRounds_eq h (Nat.le_of_eq hsize.symm)
  constructor
  · have hsame := flushRounds_output p.pendingTimers h
    show (flushRounds p.pendingTimers p).1.nextDeadline = none
    rw [nextDeadline_eq (hsame ▸ h), hstate, nextDeadline_advance_last]
  · rw [flush, hreports, advance_eq h, Micros.max_eq_right (Micros.le_last p.clock)]

/-! ## Built pipelines -/

/-- **Lazy and eager timers agree.** Take a pipeline that was built with plain stages
behind the recognizer, after any run. Times told between the samples of a run change
neither the answers to the samples nor what is reported nor the state after it, and
firing the pending timers one by one or all at once reports the same. -/
theorem announced_eq_lazy {plan : Plan} (hbuild : plan.build = .ok p) (hplain : plan.output.IsPlain)
    (past : List Request) :
    (∀ samples requests, Announced (p.run past).1 samples requests →
      (p.run past).1.run requests =
        (p.run past).1.run (samples.map fun s => .feed (.pointer s))) ∧
      (p.run past).1.flush.1.nextDeadline = none ∧
      (p.run past).1.flush.2 = ((p.run past).1.advance .last).2 := by
  have hp : p.output.IsPlain := by
    rw [output_of_build hbuild]
    exact hplain
  have hq : (p.run past).1.output.IsPlain := by
    rw [run_output hp]
    exact hp
  exact ⟨fun _ _ h => h.run_eq hq, flush_eq hq⟩

/-- A touch that was held back for 300 ms and let on by its up, so that its timer of a
tap is overdue already, and then another one. -/
theorem announced_eq_lazy_held_touch :
    let config : Configuration := { filter := { clickDelay := .medium } }
    let plan : Plan :=
      { config := config, listener := some .attentive, output := [.passThrough, .sink] }
    let p : Pipeline :=
      ⟨.new config.filter none, .new {} none, [.passThrough, .sink], 0, false⟩
    let feed (action : PointerAction) (time : Micros) : Request :=
      .feed (.pointer (.touch action .zero time))
    let q := (p.run [feed .down 0, feed .up 700000]).1
    (plan.build = .ok p ∧ plan.output.IsPlain ∧ q.clock = 700000 ∧ q.nextDeadline = some 300000) ∧
      q.run
          [.advance 600000, .advance 710000, feed .down 900000, .advance 910000,
            feed .up 1200000] =
        q.run [feed .down 900000, feed .up 1200000] ∧
      q.flush.1.nextDeadline = none ∧ q.flush.2 = (q.advance .last).2 := by
  have hbuild :
      ({ config := { filter := { clickDelay := .medium } }
         listener := some .attentive
         output := [.passThrough, .sink] } : Plan).build =
        .ok
          ⟨.new { clickDelay := .medium } none, .new {} none, [.passThrough, .sink], 0, false⟩ := by
    rfl
  obtain ⟨h, hflush⟩ := announced_eq_lazy hbuild (by decide)
    [.feed (.pointer (.touch .down .zero 0)), .feed (.pointer (.touch .up .zero 700000))]
  refine ⟨⟨hbuild, by decide, by decide +kernel, by decide +kernel⟩, h [_, _] _ ?_, hflush⟩
  refine .advance ?_ ?_ (.advance ?_ ?_ (.feed (.advance ?_ ?_ (.feed (.nil _)))))
  all_goals decide +kernel

end TouchStream.Pipeline
