import TouchStream.Proofs.Pipeline.Messages

/-!
# What fires before a sample

Before a pipeline handles a sample it fires what is due before the time of the sample
(`caughtUp`). Where the clock is behind that time, exactly the deadlines before it fire.
Where the clock has come to it already, a deadline that was missed makes those at the time
itself fire with it.

Catching up with an earlier time first makes no difference (`caughtUp_caughtUp`), be it
before the clock or at it, and so does catching up before a flush (`decides_flush`).

* `Pipeline.early`: what is decided by the firing.
* `Pipeline.toOutput_pointer`: what a sample hands to the stages behind the recognizer.
-/

namespace TouchStream.Pipeline

variable {p : Pipeline} {now later time clock : Micros}

/-! ## Moving the clock on -/

/-- The pipeline with everything fired that is due at a time, and the clock set. -/
def elapsed (p : Pipeline) (now clock : Micros) : Pipeline :=
  { p with
    clock, recognizer := (p.recognizer.advance now).1, output := Chain.elapse now p.output }

/-- The stages that may wait for a deadline. -/
def timed (p : Pipeline) : Chain := .recognizer p.recognizer :: p.output

theorem pendingTimers_eq_timed (p : Pipeline) : p.pendingTimers = p.timed.pendingTimers := rfl

theorem timed_elapsed (p : Pipeline) (now clock : Micros) :
    (p.elapsed now clock).timed = p.timed.elapse now := rfl

theorem advance_eq_elapsed (p : Pipeline) (now : Micros) :
    (p.advance now).1 = p.elapsed (max p.clock now) (max p.clock now) := by
  have hrelay := Chain.relay_time p.output
    ((p.recognizer.advance (max p.clock now)).2.map .decided) (max p.clock now)
  rw [List.map_map] at hrelay
  simp only [advance, send, TouchFilter.receive, relay, Recognizer.receive, List.append_nil]
  exact congrArg (fun output => { p with
    clock := max p.clock now
    recognizer := (p.recognizer.advance (max p.clock now)).1
    output }) hrelay

theorem elapsed_elapsed (h : now ≤ later) (p : Pipeline) (clock clock' : Micros) :
    (p.elapsed now clock).elapsed later clock' = p.elapsed later clock' := by
  have hrecognizer : ((p.recognizer.advance now).1.advance later).1 =
      (p.recognizer.advance later).1 := (congrArg Prod.fst (p.recognizer.advance_advance h)).symm
  have houtput := Chain.elapse_elapse h p.output
  simp only [elapsed, hrecognizer, houtput]

theorem not_due_recognizer (h : ¬ DueBefore p.nextDeadline time) :
    ¬ DueBefore p.recognizer.timers.nextDeadline time := fun hdue =>
  h (dueBefore_earlier.mpr (Or.inl hdue))

theorem elapsed_of_not_due (hnow : now < time) (h : ¬ DueBefore p.nextDeadline time)
    (clock : Micros) : p.elapsed now clock = { p with clock } := by
  have hrecognizer := Recognizer.advance_of_not_due hnow (not_due_recognizer h)
  have houtput : Chain.elapse now p.output = p.output := by
    apply Chain.elapse_of_not_due hnow
    exact fun hdue => h (dueBefore_earlier.mpr (Or.inr hdue))
  simp only [elapsed, hrecognizer, houtput]

theorem not_dueBefore_elapsed (h : ∀ d < time, d ≤ now) (p : Pipeline) (clock : Micros) :
    ¬ DueBefore (p.elapsed now clock).nextDeadline time :=
  Chain.not_dueBefore_elapse h p.timed

/-! ## Before a sample -/

/-- The pipeline when a sample at a time is about to be handled. -/
def caughtUp (p : Pipeline) (time : Micros) : Pipeline :=
  { (p.catchUp time).1 with clock := max (p.catchUp time).1.clock time }

/-- What is decided before a sample at a time is handled. -/
def early (p : Pipeline) (time : Micros) : List Decision :=
  if DueBefore p.nextDeadline time then (p.recognizer.advance (max p.clock (time - 1))).2 else []

theorem caughtUp_of_not_due (hclock : p.clock ≤ time) (h : ¬ DueBefore p.nextDeadline time) :
    p.caughtUp time = { p with clock := time } ∧ p.early time = [] := by
  rw [caughtUp, early, catchUp_eq_if, if_neg h, if_neg h, Micros.max_eq_right hclock]
  exact ⟨rfl, rfl⟩

/-- Where the clock is behind, whatever is due before the time fires and nothing else. -/
theorem caughtUp_of_lt (hclock : p.clock < time) :
    p.caughtUp time = p.elapsed (time - 1) time ∧
      p.early time = (p.recognizer.advance (time - 1)).2 := by
  have hle : p.clock ≤ time - 1 := (Micros.le_sub_one_iff hclock).mpr hclock
  have hlt : time - 1 < time := (Micros.le_sub_one_iff hclock).mp (UInt64.le_refl _)
  by_cases h : DueBefore p.nextDeadline time
  · rw [caughtUp, early, catchUp_eq_if, if_pos h, if_pos h, advance_eq_elapsed,
      Micros.max_eq_right hle]
    refine ⟨?_, rfl⟩
    show { p.elapsed (time - 1) (time - 1) with clock := max (time - 1) time } = _
    rw [Micros.max_eq_right (UInt64.le_of_lt hlt)]
    rfl
  · obtain ⟨hstate, hnone⟩ := caughtUp_of_not_due (UInt64.le_of_lt hclock) h
    rw [hstate, hnone, elapsed_of_not_due hlt h,
      Recognizer.advance_of_not_due hlt (not_due_recognizer h)]
    exact ⟨rfl, rfl⟩

/-- Where the clock has come to the time with a deadline missed, what is due at the time
fires as well. -/
theorem caughtUp_of_due (hclock : p.clock = time) (h : DueBefore p.nextDeadline time) :
    p.caughtUp time = p.elapsed time time ∧ p.early time = (p.recognizer.advance time).2 := by
  obtain ⟨d, hd, hlt⟩ := h
  have hmax : max p.clock (time - 1) = time := by
    rw [hclock]
    exact Micros.max_sub_one hlt
  have hdue : DueBefore p.nextDeadline time := ⟨d, hd, hlt⟩
  rw [caughtUp, early, catchUp_eq_if, if_pos hdue, if_pos hdue, advance_eq_elapsed, hmax]
  refine ⟨?_, rfl⟩
  show { p.elapsed time time with clock := max time time } = _
  rw [Micros.max_eq_right (UInt64.le_refl time)]
  rfl

theorem caughtUp_clock (hclock : p.clock ≤ time) : (p.caughtUp time).clock = time := by
  rcases UInt64.lt_or_eq_of_le hclock with hlt | heq
  · rw [(caughtUp_of_lt hlt).1]
    rfl
  · by_cases h : DueBefore p.nextDeadline time
    · rw [(caughtUp_of_due heq h).1]
      rfl
    · rw [(caughtUp_of_not_due hclock h).1]

theorem caughtUp_filter (p : Pipeline) (time : Micros) : (p.caughtUp time).filter = p.filter := by
  rw [caughtUp, catchUp_eq_if]
  split
  · rw [advance_eq_elapsed]
    rfl
  · rfl

theorem pointer_eq_send (p : Pipeline) (s : Sample) :
    (p.feed (.pointer s)).1 = ((p.caughtUp s.time).send (.event (.pointer s))).1 := rfl

theorem clock_pointer {s : Sample} (hclock : p.clock ≤ s.time) :
    (p.feed (.pointer s)).1.clock = s.time := by
  rw [pointer_eq_send, send]
  exact caughtUp_clock hclock

theorem not_dueBefore_caughtUp (hclock : p.clock ≤ time) :
    ¬ DueBefore (p.caughtUp time).nextDeadline time := by
  rcases UInt64.lt_or_eq_of_le hclock with hlt | heq
  · rw [(caughtUp_of_lt hlt).1]
    exact not_dueBefore_elapsed (fun d hd => (Micros.le_sub_one_iff hlt).mpr hd) p time
  · by_cases h : DueBefore p.nextDeadline time
    · rw [(caughtUp_of_due heq h).1]
      exact not_dueBefore_elapsed (fun d hd => UInt64.le_of_lt hd) p time
    · rw [(caughtUp_of_not_due hclock h).1]
      exact h

/-- It makes no difference to a sample whether the pipeline has caught up with an earlier
time. -/
theorem caughtUp_caughtUp (hclock : p.clock ≤ now) (hnow : now ≤ time) :
    (p.caughtUp now).caughtUp time = p.caughtUp time ∧
      p.early time = p.early now ++ (p.caughtUp now).early time := by
  have hq := caughtUp_clock hclock
  rcases UInt64.lt_or_eq_of_le hnow with hlater | heq
  · -- the sample comes after both, so exactly the deadlines before it fire
    have hle : now ≤ time - 1 := (Micros.le_sub_one_iff hlater).mpr hlater
    obtain ⟨hstate, hearly⟩ := caughtUp_of_lt (p := p) (UInt64.lt_of_le_of_lt hclock hlater)
    obtain ⟨hstate', hearly'⟩ := caughtUp_of_lt (p := p.caughtUp now) (hq.symm ▸ hlater)
    rw [hstate, hearly, hstate', hearly']
    rcases UInt64.lt_or_eq_of_le hclock with hlt | heq
    · obtain ⟨hfirst, hfirst'⟩ := caughtUp_of_lt hlt
      have hbefore : now - 1 ≤ time - 1 := UInt64.le_trans
        (UInt64.le_of_lt ((Micros.le_sub_one_iff hlt).mp (UInt64.le_refl _))) hle
      rw [hfirst, hfirst', elapsed_elapsed hbefore, p.recognizer.advance_advance hbefore]
      exact ⟨rfl, rfl⟩
    · by_cases h : DueBefore p.nextDeadline now
      · obtain ⟨hfirst, hfirst'⟩ := caughtUp_of_due heq h
        rw [hfirst, hfirst', elapsed_elapsed hle, p.recognizer.advance_advance hle]
        exact ⟨rfl, rfl⟩
      · obtain ⟨hfirst, hfirst'⟩ := caughtUp_of_not_due hclock h
        rw [hfirst, hfirst']
        exact ⟨rfl, rfl⟩
  · -- at the same time nothing is left that is due before it
    subst heq
    obtain ⟨hsame, hnone⟩ :=
      caughtUp_of_not_due (UInt64.le_of_eq hq) (not_dueBefore_caughtUp hclock)
    rw [hsame, hnone, List.append_nil]
    refine ⟨?_, rfl⟩
    show { p.caughtUp now with clock := now } = p.caughtUp now
    exact congrArg (fun clock => { p.caughtUp now with clock }) hq.symm

/-! ## What reaches the stages -/

theorem pass_times {ms : List Message} (h : ∀ m ∈ ms, ∃ now, m = .time now) (f : TouchFilter)
    (more : List Message) : f.pass (ms ++ more) = ((f.pass more).1, ms ++ (f.pass more).2) := by
  induction ms with
  | nil => rfl
  | cons m ms ih =>
    obtain ⟨⟨now, rfl⟩, hms⟩ := List.forall_mem_cons.mp h
    rw [List.cons_append, TouchFilter.pass_cons]
    show ((f.pass (ms ++ more)).1, _ ++ (f.pass (ms ++ more)).2) = _
    rw [ih hms]
    rfl

theorem mem_wakings {m : Message} (h : m ∈ p.wakings time) : ∃ now, m = .time now := by
  unfold wakings at h
  split at h
  · exact ⟨_, List.mem_singleton.mp h⟩
  · cases h

theorem mem_flushTimes {n : Nat} {m : Message} (h : m ∈ flushTimes n p) :
    ∃ now, m = .time now := by
  induction n generalizing p with
  | zero => cases h
  | succ n ih =>
    unfold flushTimes at h
    split at h
    · cases h
    · rcases List.mem_cons.mp h with rfl | h
      · exact ⟨_, rfl⟩
      · exact ih h

theorem toRecognizer_pointer (p : Pipeline) (s : Sample) :
    p.toRecognizer [.feed (.pointer s)] =
      p.wakings s.time ++ p.filter.passes (.event (.pointer s)) := by
  have htimes : ∀ m ∈ p.wakings s.time, ∃ now, m = .time now := fun m hm => mem_wakings hm
  have hpass := pass_times htimes p.filter [.event (.pointer s)]
  simp only [toRecognizer, messages, hpass, TouchFilter.pass, List.append_nil]

theorem after_wakings (p : Pipeline) (time : Micros) :
    p.recognizer.after (p.wakings time) = (p.caughtUp time).recognizer := by
  rw [wakings, caughtUp, catchUp_eq_if]
  split
  · rw [advance_eq_elapsed]
    rfl
  · rfl

theorem handsOn_time (r : Recognizer) (now : Micros) :
    decisionsIn (r.handsOn [.time now]) = (r.advance now).2 ∧
      eventsIn (r.handsOn [.time now]) = [] := by
  have hout : r.handsOn [.time now] =
      (r.advance now).2.map .decision ++ [.message (.time now)] := by
    rw [Recognizer.handsOn_cons, Recognizer.handsOn, List.append_nil]
    rfl
  rw [hout]
  constructor
  · rw [decisionsIn_map_append]
    exact List.append_nil _
  · rw [eventsIn, List.filterMap_append]
    simp [Signal.decision]

theorem eventsIn_times {ms : List Message} (h : ∀ m ∈ ms, ∃ now, m = .time now)
    (r : Recognizer) : eventsIn (r.handsOn ms) = [] := by
  induction ms generalizing r with
  | nil => rfl
  | cons m ms ih =>
    obtain ⟨⟨now, rfl⟩, hms⟩ := List.forall_mem_cons.mp h
    have hfirst := (handsOn_time r now).2
    rw [Recognizer.handsOn_cons, Recognizer.handsOn, List.append_nil] at hfirst
    rw [Recognizer.handsOn_cons, eventsIn_append, hfirst, ih hms]
    rfl

theorem handsOn_wakings (p : Pipeline) (time : Micros) :
    decisionsIn (p.recognizer.handsOn (p.wakings time)) = p.early time ∧
      eventsIn (p.recognizer.handsOn (p.wakings time)) = [] := by
  rw [wakings, early]
  split
  · exact handsOn_time _ _
  · exact ⟨rfl, rfl⟩

/-- A sample hands on what fires before it and what the recognizer makes of what the
filter lets on. -/
theorem toOutput_pointer (p : Pipeline) (s : Sample) :
    p.toOutput [.feed (.pointer s)] =
      p.recognizer.handsOn (p.wakings s.time) ++
        (p.caughtUp s.time).recognizer.handsOn (p.filter.passes (.event (.pointer s))) := by
  rw [toOutput, toRecognizer_pointer, Recognizer.handsOn_append, after_wakings]

/-! ## At the end -/

theorem pending_of_nextDeadline (h : p.nextDeadline = none) :
    p.recognizer.timers.pending = [] := by
  rw [← Timers.nextDeadline_eq_none_iff]
  cases ht : p.recognizer.timers.nextDeadline with
  | none => rfl
  | some d =>
    rw [nextDeadline, ht] at h
    cases ho : p.output.nextDeadline <;> rw [ho] at h <;> cases h

theorem pendingTimers_advance_lt {d : Micros} (hd : p.nextDeadline = some d) :
    (p.advance d).1.pendingTimers < p.pendingTimers := by
  rw [advance_eq_elapsed, pendingTimers_eq_timed, pendingTimers_eq_timed, timed_elapsed]
  exact Chain.pendingTimers_elapse_lt hd (Micros.le_max_right p.clock d)

theorem decisions_flushTimes {n : Nat} (hn : p.pendingTimers ≤ n) :
    decisionsIn (p.recognizer.handsOn (flushTimes n p)) = (p.recognizer.advance .last).2 := by
  have hnone (r : Recognizer) (hr : r.timers.pending = []) : r.advance .last = (r, []) := by
    apply Recognizer.advance_of_none_due
    rw [Timers.takeDue_eq_none_iff, hr]
    simp
  induction n generalizing p with
  | zero =>
    have hsize : p.recognizer.timers.size = 0 :=
      Nat.le_zero.mp (Nat.le_trans (Nat.le_add_right _ _) hn)
    rw [hnone _ (List.eq_nil_of_length_eq_zero hsize)]
    rfl
  | succ n ih =>
    unfold flushTimes
    cases hd : p.nextDeadline with
    | none =>
      rw [hnone _ (pending_of_nextDeadline hd)]
      rfl
    | some d =>
      have hfewer := Nat.le_of_lt_succ (Nat.lt_of_lt_of_le (pendingTimers_advance_lt hd) hn)
      have hstate : (p.advance d).1.recognizer = (p.recognizer.advance (max p.clock d)).1 := by
        rw [advance_eq_elapsed]
        rfl
      have hrest := ih hfewer
      rw [hstate] at hrest
      show decisionsIn (p.recognizer.handsOn
        ([.time (max p.clock d)] ++ flushTimes n (p.advance d).1)) = _
      rw [Recognizer.handsOn_append, decisionsIn_append, (handsOn_time _ _).1,
        p.recognizer.advance_advance (Micros.le_last (max p.clock d)), ← hrest]
      rfl

theorem pending_flushRounds {n : Nat} (hn : p.pendingTimers ≤ n) :
    (flushRounds n p).1.recognizer.timers.pending = [] := by
  induction n generalizing p with
  | zero =>
    exact List.eq_nil_of_length_eq_zero
      (Nat.le_zero.mp (Nat.le_trans (Nat.le_add_right _ _) hn))
  | succ n ih =>
    unfold flushRounds
    cases hd : p.nextDeadline with
    | none => exact pending_of_nextDeadline hd
    | some d => exact ih (Nat.le_of_lt_succ (Nat.lt_of_lt_of_le (pendingTimers_advance_lt hd) hn))

/-- A flush leaves no timer of the recognizer. -/
theorem pending_flush (p : Pipeline) : (p.handle .flush).1.recognizer.timers.pending = [] :=
  pending_flushRounds (Nat.le_refl _)

theorem toRecognizer_flush (p : Pipeline) :
    p.toRecognizer [.flush] = flushTimes p.pendingTimers p := by
  have htimes : ∀ m ∈ flushTimes p.pendingTimers p, ∃ now, m = .time now :=
    fun _ hm => mem_flushTimes hm
  have hpass := pass_times htimes p.filter []
  rw [List.append_nil] at hpass
  rw [toRecognizer_single, messages, hpass, TouchFilter.pass, List.append_nil]

/-- A flush decides what moving the clock to the last time decides. -/
theorem decides_flush (p : Pipeline) : p.decides [.flush] = (p.recognizer.advance .last).2 := by
  rw [decides, toOutput, toRecognizer_flush]
  exact decisions_flushTimes (Nat.le_refl _)

theorem events_flush (p : Pipeline) : eventsIn (p.toOutput [.flush]) = [] := by
  rw [toOutput, toRecognizer_flush]
  exact eventsIn_times (fun _ hm => mem_flushTimes hm) p.recognizer

/-- It makes no difference to a flush whether the pipeline has caught up with a time. -/
theorem decides_flush_caughtUp (hclock : p.clock ≤ time) :
    p.decides [.flush] = p.early time ++ (p.caughtUp time).decides [.flush] := by
  rw [decides_flush, decides_flush]
  rcases UInt64.lt_or_eq_of_le hclock with hlt | heq
  · obtain ⟨hstate, hearly⟩ := caughtUp_of_lt hlt
    rw [hstate, hearly, p.recognizer.advance_advance (Micros.le_last (time - 1))]
    rfl
  · by_cases h : DueBefore p.nextDeadline time
    · obtain ⟨hstate, hearly⟩ := caughtUp_of_due heq h
      rw [hstate, hearly, p.recognizer.advance_advance (Micros.le_last time)]
      rfl
    · obtain ⟨hstate, hearly⟩ := caughtUp_of_not_due hclock h
      rw [hstate, hearly]
      rfl

end TouchStream.Pipeline
