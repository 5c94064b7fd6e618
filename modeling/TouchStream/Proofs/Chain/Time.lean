import TouchStream.Proofs.Chain
import TouchStream.Proofs.Recognizer.Run

/-!
# Time passing through chains

A stage that is told the time fires what is due in it and passes the time on behind its
reports. So the time comes to every stage of a chain, and the chain after it is `elapse`
of the chain before, stage by stage.

* `DueBefore`: an earliest deadline that lies before a time. For a chain it says that one
  of the stages waits for such a deadline (`Chain.dueBefore_iff`).
* `Chain.relay_time`: the chain after a time.
* `Chain.elapse_elapse`, `Chain.elapse_of_not_due`, `Chain.not_dueBefore_elapse`: telling
  an earlier time first makes no difference, what is not due does not fire, and what was
  due is due no more.
* `Chain.pendingTimers_elapse_lt`: at a deadline one timer at least is gone.
-/

namespace TouchStream

/-! ## Deadlines before a time -/

/-- There is a deadline, and it lies before a time. -/
def DueBefore (deadline : Option Micros) (time : Micros) : Prop :=
  ∃ d, deadline = some d ∧ d < time

instance (deadline : Option Micros) (time : Micros) : Decidable (DueBefore deadline time) :=
  match deadline with
  | none => .isFalse (by rintro ⟨d, h, -⟩; cases h)
  | some d =>
    if h : d < time then .isTrue ⟨d, rfl, h⟩
    else .isFalse (by rintro ⟨e, he, hlt⟩; cases he; exact h hlt)

theorem dueBefore_earlier {a b : Option Micros} {time : Micros} :
    DueBefore (earlierDeadline a b) time ↔ DueBefore a time ∨ DueBefore b time := by
  cases a with
  | none => simp [earlierDeadline, DueBefore]
  | some d =>
    cases b with
    | none => simp [earlierDeadline, DueBefore]
    | some e =>
      simp only [earlierDeadline, DueBefore, Option.some.injEq, exists_eq_left']
      constructor
      · intro h
        rcases Std.min_eq_or (a := d) (b := e) with hmin | hmin
        · exact Or.inl (hmin ▸ h)
        · exact Or.inr (hmin ▸ h)
      · rintro (h | h)
        · exact UInt64.lt_of_le_of_lt Std.min_le_left h
        · exact UInt64.lt_of_le_of_lt Std.min_le_right h

theorem earlierDeadline_eq_some {a b : Option Micros} {d : Micros}
    (h : earlierDeadline a b = some d) : a = some d ∨ b = some d := by
  cases a with
  | none => exact Or.inr h
  | some x =>
    cases b with
    | none => exact Or.inl h
    | some y =>
      simp only [earlierDeadline, Option.some.injEq] at h
      rcases Std.min_eq_or (a := x) (b := y) with hmin | hmin
      · exact Or.inl (by rw [← h, hmin])
      · exact Or.inr (by rw [← h, hmin])

/-! ## Recognizers -/

namespace Recognizer

theorem advance_of_not_due {r : Recognizer} {now time : Micros} (hnow : now < time)
    (h : ¬ DueBefore r.timers.nextDeadline time) : r.advance now = (r, []) := by
  apply advance_of_none_due
  rw [Timers.takeDue_eq_none_iff]
  intro t hmem
  have hle : time ≤ t.deadline :=
    UInt64.not_lt.mp fun hlt => h (Timers.nextDeadline_lt_iff.mpr ⟨t, hmem, hlt⟩)
  exact UInt64.lt_of_lt_of_le hnow hle

theorem not_dueBefore_advance (r : Recognizer) {now time : Micros} (h : ∀ d < time, d ≤ now) :
    ¬ DueBefore (r.advance now).1.timers.nextDeadline time := by
  intro hdue
  obtain ⟨t, hmem, hlt⟩ := Timers.nextDeadline_lt_iff.mp hdue
  have hgt := Timers.takeDue_eq_none_iff.mp (r.takeDue_advance now) t hmem
  exact UInt64.not_lt.mpr (h t.deadline hlt) hgt

end Recognizer

/-! ## Stages -/

namespace Stage

/-- A stage after the clock has come to a time. -/
def elapse (now : Micros) (stage : Stage) : Stage := (stage.receive (.time now)).state

variable {stage : Stage} {now later time : Micros}

theorem out_time (stage : Stage) (now : Micros) :
    ∃ rs : List Report,
      (stage.receive (.time now)).out = rs.map .report ++ [.message (.time now)] := by
  cases stage with
  | recognizer r =>
    refine ⟨(r.advance now).2.map .decided, ?_⟩
    rw [List.map_map]
    rfl
  | passThrough => exact ⟨[], rfl⟩
  | filter f => exact ⟨[], rfl⟩
  | sink => exact ⟨[], rfl⟩

theorem elapse_elapse (h : now ≤ later) (stage : Stage) :
    (stage.elapse now).elapse later = stage.elapse later := by
  cases stage with
  | recognizer r => exact congrArg recognizer (congrArg Prod.fst (r.advance_advance h)).symm
  | passThrough => rfl
  | filter f => rfl
  | sink => rfl

theorem elapse_of_not_due (hnow : now < time) (h : ¬ DueBefore stage.nextDeadline time) :
    stage.elapse now = stage := by
  cases stage with
  | recognizer r => exact congrArg recognizer (congrArg Prod.fst (r.advance_of_not_due hnow h))
  | passThrough => rfl
  | filter f => rfl
  | sink => rfl

theorem not_dueBefore_elapse (h : ∀ d < time, d ≤ now) (stage : Stage) :
    ¬ DueBefore (stage.elapse now).nextDeadline time := by
  have hnone : ¬ DueBefore none time := by
    rintro ⟨d, hd, -⟩
    cases hd
  cases stage with
  | recognizer r => exact r.not_dueBefore_advance h
  | passThrough => exact hnone
  | filter f => exact hnone
  | sink => exact hnone

theorem pendingTimers_elapse_le (now : Micros) (stage : Stage) :
    (stage.elapse now).pendingTimers ≤ stage.pendingTimers := by
  cases stage with
  | recognizer r => exact r.size_advance_le now
  | passThrough => exact Nat.le_refl _
  | filter f => exact Nat.le_refl _
  | sink => exact Nat.le_refl _

theorem pendingTimers_elapse_lt {d : Micros} (h : stage.nextDeadline = some d) (hle : d ≤ now) :
    (stage.elapse now).pendingTimers < stage.pendingTimers := by
  cases stage with
  | recognizer r =>
    obtain ⟨x, hx⟩ := Timers.exists_takeDue_of_nextDeadline h hle
    exact Recognizer.size_advance_lt hx
  | passThrough => cases h
  | filter f => cases h
  | sink => cases h

end Stage

/-! ## Chains -/

namespace Chain

/-- A chain after the clock has come to a time. -/
def elapse (now : Micros) (c : Chain) : Chain := c.map (Stage.elapse now)

variable {c : Chain} {now later time : Micros}

theorem relay_time (c : Chain) (rs : List Report) (now : Micros) :
    (c.relay (rs.map .report ++ [.message (.time now)])).1 = c.elapse now := by
  induction c generalizing rs with
  | nil => rfl
  | cons stage rest ih =>
    obtain ⟨rs', hout⟩ := stage.out_time now
    have hstage : TouchStream.relay Stage.receive stage (rs.map .report ++ [.message (.time now)]) =
        (stage.elapse now, (rs ++ rs').map .report ++ [.message (.time now)]) := by
      rw [TouchStream.relay_append, TouchStream.relay_reports, List.map_append, List.append_assoc]
      simp only [TouchStream.relay, hout, List.append_nil]
      rfl
    simp only [relay, hstage, ih]
    rfl

theorem dueBefore_iff : DueBefore c.nextDeadline time ↔
    ∃ stage ∈ c, DueBefore stage.nextDeadline time := by
  induction c with
  | nil => simp [DueBefore, nextDeadline]
  | cons stage rest ih =>
    show DueBefore (earlierDeadline stage.nextDeadline (nextDeadline rest)) time ↔ _
    rw [dueBefore_earlier, ih]
    simp only [List.mem_cons, exists_eq_or_imp]

theorem elapse_elapse (h : now ≤ later) (c : Chain) :
    elapse later (elapse now c) = elapse later c := by
  rw [elapse, elapse, elapse, List.map_map]
  exact List.map_congr_left fun stage _ => stage.elapse_elapse h

theorem elapse_of_not_due (hnow : now < time) (h : ¬ DueBefore c.nextDeadline time) :
    elapse now c = c := by
  have hstages : ∀ stage ∈ c, stage.elapse now = stage := by
    intro stage hmem
    apply Stage.elapse_of_not_due hnow
    intro hdue
    exact h (dueBefore_iff.mpr ⟨stage, hmem, hdue⟩)
  exact (List.map_congr_left hstages).trans (List.map_id c)

theorem not_dueBefore_elapse (h : ∀ d < time, d ≤ now) (c : Chain) :
    ¬ DueBefore (nextDeadline (elapse now c)) time := by
  intro hdue
  obtain ⟨stage', hmem, hdue⟩ := dueBefore_iff.mp hdue
  obtain ⟨stage, -, rfl⟩ := List.mem_map.mp hmem
  exact stage.not_dueBefore_elapse h hdue

theorem exists_mem_of_nextDeadline {d : Micros} (h : c.nextDeadline = some d) :
    ∃ stage ∈ c, stage.nextDeadline = some d := by
  induction c with
  | nil => cases h
  | cons stage rest ih =>
    rcases earlierDeadline_eq_some h with hstage | hrest
    · exact ⟨stage, List.mem_cons_self, hstage⟩
    · obtain ⟨stage', hmem, hd⟩ := ih hrest
      exact ⟨stage', List.mem_cons_of_mem _ hmem, hd⟩

theorem pendingTimers_elapse_le (now : Micros) (c : Chain) :
    pendingTimers (elapse now c) ≤ c.pendingTimers := by
  induction c with
  | nil => exact Nat.le_refl _
  | cons stage rest ih =>
    show (stage.elapse now).pendingTimers + pendingTimers (elapse now rest) ≤
      stage.pendingTimers + pendingTimers rest
    exact Nat.add_le_add (stage.pendingTimers_elapse_le now) ih

/-- At the earliest deadline of a chain, the stage that waits for it fires a timer. -/
theorem pendingTimers_elapse_lt {d : Micros} (h : c.nextDeadline = some d) (hle : d ≤ now) :
    pendingTimers (elapse now c) < c.pendingTimers := by
  obtain ⟨stage, hmem, hd⟩ := exists_mem_of_nextDeadline h
  obtain ⟨before, after, rfl⟩ := List.append_of_mem hmem
  clear h hmem
  induction before with
  | nil =>
    show (stage.elapse now).pendingTimers + pendingTimers (elapse now after) <
      stage.pendingTimers + pendingTimers after
    exact Nat.add_lt_add_of_lt_of_le (Stage.pendingTimers_elapse_lt hd hle)
      (pendingTimers_elapse_le now after)
  | cons first before ih =>
    show (first.elapse now).pendingTimers + pendingTimers (elapse now (before ++ stage :: after)) <
      first.pendingTimers + pendingTimers (before ++ stage :: after)
    exact Nat.add_lt_add_of_le_of_lt (first.pendingTimers_elapse_le now) ih

end Chain

end TouchStream
