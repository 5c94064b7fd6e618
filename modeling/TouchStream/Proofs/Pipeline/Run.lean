import TouchStream.Pipeline
import TouchStream.Proofs.Chain
import TouchStream.Proofs.Recognizer.Run

/-!
# Runs of the pipeline

A run asks a pipeline for one thing after another: to take events, to move its clock
on, to flush, to clear, to destroy. What can be seen of it are the answers to the
events and the reports.

* `Pipeline.run`: a run, with its answers and reports.
* `Pipeline.advance_eq`, `Pipeline.pointer_eq`: with plain stages behind the
  recognizer, moving the clock on and feeding a sample come down to the recognizer's
  own `advance`, and to what is sent to the head.
* `Pipeline.run_output`: plain stages behind the recognizer stay what they are.
-/

namespace TouchStream.Pipeline

variable {p : Pipeline}

/-- The sample that a request feeds, if it feeds one. -/
def Request.sample? : Request → Option Sample
  | .feed (.pointer s) => some s
  | _ => none

/-- Does what is asked, one request after another. The answers are those to the
events. -/
def run (p : Pipeline) : List Request → Pipeline × List Bool × List Report
  | [] => (p, [], [])
  | request :: requests =>
    let (p, handled, reports) := p.handle request
    let (p, answers, more) := p.run requests
    let answer := match request with
      | .feed _ => [handled]
      | _ => []
    (p, answer ++ answers, reports ++ more)

theorem run_feed (p : Pipeline) (e : Event) (requests : List Request) :
    p.run (.feed e :: requests) =
      (((p.feed e).1.run requests).1, (p.feed e).2.1 :: ((p.feed e).1.run requests).2.1,
        (p.feed e).2.2 ++ ((p.feed e).1.run requests).2.2) := rfl

theorem run_advance (p : Pipeline) (now : Micros) (requests : List Request) :
    p.run (.advance now :: requests) =
      (((p.advance now).1.run requests).1, ((p.advance now).1.run requests).2.1,
        (p.advance now).2 ++ ((p.advance now).1.run requests).2.2) := rfl

/-! ## New pipelines -/

/-- The pipeline that is built from a plan, if one is. -/
def Plan.built (plan : Plan) : Pipeline where
  filter := .new plan.config.filter (plan.display.or plan.config.display)
  recognizer := .new plan.config.recognizer (plan.display.or plan.config.display)
  output := plan.output
  clock := 0
  destroyed := false

theorem eq_built {plan : Plan} (h : plan.build = .ok p) : p = plan.built := by
  unfold Plan.build at h
  split at h
  · cases h
  · cases h
  · cases h
    rfl

theorem output_of_build {plan : Plan} (h : plan.build = .ok p) : p.output = plan.output := by
  rw [eq_built h]
  rfl

theorem clock_of_build {plan : Plan} (h : plan.build = .ok p) : p.clock = 0 := by
  rw [eq_built h]
  rfl

theorem build_eq_built {plan : Plan} {l : Listener} (hlistener : plan.listener = some l)
    (hcheck : plan.config.recognizer.check = .ok ()) : plan.build = .ok plan.built := by
  rw [Plan.build, hlistener, hcheck]
  rfl

/-- The default limits pass their own check. -/
theorem check_default : ({} : RecognizerSettings).check = .ok () := by rfl

/-! ## Plain stages behind the recognizer -/

theorem nextDeadline_eq (h : p.output.IsPlain) :
    p.nextDeadline = p.recognizer.timers.nextDeadline := by
  rw [nextDeadline, h.untimed.nextDeadline_eq]
  cases p.recognizer.timers.nextDeadline <;> rfl

theorem pendingTimers_eq (h : p.output.IsPlain) : p.pendingTimers = p.recognizer.timers.size := by
  rw [pendingTimers, h.untimed.pendingTimers_eq, Nat.add_zero]

theorem send_output (h : p.output.IsPlain) (m : Message) : (p.send m).1.output = p.output :=
  h.relay_eq _

theorem advance_eq (h : p.output.IsPlain) (now : Micros) :
    p.advance now =
      ({ p with
          clock := max p.clock now
          recognizer := (p.recognizer.advance (max p.clock now)).1 },
        ((p.recognizer.advance (max p.clock now)).2).map .decided) := by
  generalize hclock : max p.clock now = clock
  have hreceive : TouchStream.relay Recognizer.receive p.recognizer [.message (.time clock)] =
      ((p.recognizer.advance clock).1,
        ((p.recognizer.advance clock).2.map Report.decided).map .report
          ++ [.message (.time clock)]) := by
    simp only [TouchStream.relay, Recognizer.receive, List.append_nil, List.map_map]
    rfl
  have hrelay : p.output.relay (((p.recognizer.advance clock).2.map Report.decided).map .report
      ++ [.message (.time clock)]) = (p.output, (p.recognizer.advance clock).2.map .decided) := by
    rw [Chain.relay_append, Chain.relay_reports]
    simp only [h.untimed.relay_time, List.append_nil]
  simp only [advance, send, TouchFilter.receive, hclock, hreceive, hrelay]

/-- Before a sample that comes after the clock, whatever is due before the sample
fires, be the clock moved on for it or not. -/
theorem catchUp_eq (h : p.output.IsPlain) {time : Micros} (hclock : p.clock < time) :
    ∃ clock < time, p.catchUp time =
      ({ p with clock, recognizer := (p.recognizer.advance (time - 1)).1 },
        ((p.recognizer.advance (time - 1)).2).map .decided) := by
  have hle : p.clock ≤ time - 1 := (Micros.le_sub_one_iff hclock).mpr hclock
  have hlt : time - 1 < time := (Micros.le_sub_one_iff hclock).mp (UInt64.le_refl _)
  have hnone (hlate : ¬ ∃ d, p.recognizer.timers.nextDeadline = some d ∧ d < time) :
      p.recognizer.advance (time - 1) = (p.recognizer, []) := by
    apply Recognizer.advance_of_none_due
    rw [Timers.takeDue_eq_none_iff]
    intro t hmem
    apply UInt64.not_le.mp
    intro hdue
    exact hlate (Timers.nextDeadline_lt_iff.mpr ⟨t, hmem, (Micros.le_sub_one_iff hclock).mp hdue⟩)
  unfold catchUp
  rw [nextDeadline_eq h]
  cases hd : p.recognizer.timers.nextDeadline with
  | none =>
    refine ⟨p.clock, hclock, ?_⟩
    rw [hnone (by simp [hd])]
    rfl
  | some d =>
    by_cases hdue : d < time
    · refine ⟨time - 1, hlt, ?_⟩
      simp only [hdue, if_true, advance_eq h, Micros.max_eq_right hle]
    · refine ⟨p.clock, hclock, ?_⟩
      rw [hnone (by simpa [hd] using hdue)]
      simp only [hdue, if_false]
      rfl

theorem pointer_eq (h : p.output.IsPlain) {s : Sample} (hclock : p.clock < s.time) :
    p.pointer s =
      let due := p.recognizer.advance (s.time - 1)
      let sent := { p with clock := s.time, recognizer := due.1 }.send (.event (.pointer s))
      (sent.1, sent.2.1, due.2.map .decided ++ sent.2.2) := by
  obtain ⟨clock, hlt, hcatch⟩ := catchUp_eq h hclock
  simp only [pointer, hcatch, Micros.max_eq_right (UInt64.le_of_lt hlt)]

theorem catchUp_output (h : p.output.IsPlain) (time : Micros) :
    (p.catchUp time).1.output = p.output := by
  unfold catchUp
  split
  · split
    · rw [advance_eq h]
    · rfl
  · rfl

theorem flushRounds_output (n : Nat) (h : p.output.IsPlain) :
    (flushRounds n p).1.output = p.output := by
  induction n generalizing p with
  | zero => rfl
  | succ n ih =>
    unfold flushRounds
    split
    · rfl
    · rename_i d hd
      have hsame : (p.advance d).1.output = p.output := by rw [advance_eq h]
      exact (ih (hsame ▸ h)).trans hsame

theorem handle_output (h : p.output.IsPlain) (request : Request) :
    (p.handle request).1.output = p.output := by
  cases request with
  | feed e =>
    cases e with
    | pointer s =>
      have hcaught := catchUp_output h s.time
      have hsent : ((p.pointer s).1).output = (p.catchUp s.time).1.output :=
        send_output (hcaught ▸ h) _
      exact hsent.trans hcaught
    | key k => exact send_output h _
    | accessibility a => exact send_output h _
  | advance now =>
    show (p.advance now).1.output = p.output
    rw [advance_eq h]
  | flush => exact flushRounds_output _ h
  | clear source => exact send_output h _
  | destroy =>
    simp only [handle, destroy]
    split
    · rfl
    · exact @send_output { p with destroyed := true } h .destroy

theorem run_output (h : p.output.IsPlain) (requests : List Request) :
    (p.run requests).1.output = p.output := by
  induction requests generalizing p with
  | nil => rfl
  | cons request requests ih =>
    have hsame := handle_output h request
    exact (ih (hsame ▸ h)).trans hsame

end TouchStream.Pipeline
