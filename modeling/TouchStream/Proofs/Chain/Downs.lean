import TouchStream.Proofs.Chain.Time
import TouchStream.Proofs.Recognizer.Timing
import TouchStream.Proofs.TouchFilter.Sample

/-!
# A down passing through chains

A stage that is given a down passes on that down or nothing, and a timer that it arms is
for the time of the down or later. So where no deadline lies before the down, none does
after it, whatever the stages are. Of moves and ups this is not true: a filter may release
a down that it held back for long.

* `Chain.not_dueBefore_send`: no deadline lies before a down that was just handled.
-/

namespace TouchStream

variable {s : Sample} {xs : List Signal} {time : Micros}

/-- The signals hold no message but one. -/
def Carries (m : Message) (xs : List Signal) : Prop := ∀ x, .message x ∈ xs → x = m

theorem Carries.append {m : Message} {ys : List Signal} (h : Carries m xs) (h' : Carries m ys) :
    Carries m (xs ++ ys) := by
  intro x hx
  rcases List.mem_append.mp hx with hx | hx
  · exact h x hx
  · exact h' x hx

theorem carries_reports (m : Message) (ds : List Decision) : Carries m (ds.map .decision) := by
  intro x hx
  obtain ⟨d, -, hd⟩ := List.mem_map.mp hx
  cases hd

theorem carries_single (m : Message) : Carries m [.message m] := by
  intro x hx
  cases List.mem_singleton.mp hx
  rfl

namespace Stage

variable {stage : Stage}

theorem carries_out (hdown : s.action = .down) (stage : Stage) :
    Carries (.event (.pointer s)) (stage.receive (.event (.pointer s))).out := by
  cases stage with
  | passThrough => exact carries_single _
  | filter f =>
    have hnot : f.releases s = false := by simp [TouchFilter.releases, hdown]
    show Carries _ ((f.pointer s).2.2.map Signal.sample)
    rcases (f.step_pointer s).out_of_not_releases hnot with hout | hout
    · rw [hout]
      intro x hx
      cases hx
    · rw [hout]
      exact carries_single _
  | recognizer r =>
    refine (carries_reports _ (r.pointer s).decisions).append ?_
    split
    · intro x hx
      cases hx
    · exact carries_single _
  | sink =>
    intro x hx
    cases List.mem_singleton.mp hx

theorem not_dueBefore_receive (h : ¬ DueBefore stage.nextDeadline s.time) :
    ¬ DueBefore (stage.receive (.event (.pointer s))).state.nextDeadline s.time := by
  cases stage with
  | recognizer r =>
    intro hdue
    obtain ⟨t, ht, hlt⟩ := Timers.nextDeadline_lt_iff.mp hdue
    rcases (r.rearmed_pointer s).mem_pending ht with hold | hlater
    · exact h (Timers.nextDeadline_lt_iff.mpr ⟨t, hold, hlt⟩)
    · exact UInt64.not_lt.mpr hlater hlt
  | passThrough => exact h
  | filter f => exact h
  | sink => exact h

theorem relay_down (hdown : s.action = .down)
    (hxs : Carries (.event (.pointer s)) xs) (h : ¬ DueBefore stage.nextDeadline s.time) :
    Carries (.event (.pointer s)) (TouchStream.relay Stage.receive stage xs).2 ∧
      ¬ DueBefore (TouchStream.relay Stage.receive stage xs).1.nextDeadline s.time := by
  induction xs generalizing stage with
  | nil => exact ⟨hxs, h⟩
  | cons x xs ih =>
    have hrest : Carries (.event (.pointer s)) xs := fun m hm => hxs m (List.mem_cons_of_mem _ hm)
    cases x with
    | message m =>
      obtain rfl := hxs m List.mem_cons_self
      obtain ⟨hcarries, hnone⟩ := ih hrest (not_dueBefore_receive h)
      exact ⟨(stage.carries_out hdown).append hcarries, hnone⟩
    | report r =>
      obtain ⟨hcarries, hnone⟩ := ih hrest h
      refine ⟨?_, hnone⟩
      intro m hm
      rcases List.mem_cons.mp hm with hm | hm
      · cases hm
      · exact hcarries m hm

end Stage

namespace Chain

variable {c : Chain}

theorem not_dueBefore_cons {stage : Stage} :
    ¬ DueBefore (nextDeadline (stage :: c)) time ↔
      ¬ DueBefore stage.nextDeadline time ∧ ¬ DueBefore c.nextDeadline time := by
  show ¬ DueBefore (earlierDeadline stage.nextDeadline c.nextDeadline) time ↔ _
  rw [dueBefore_earlier, not_or]

theorem not_dueBefore_relay (hdown : s.action = .down)
    (hxs : Carries (.event (.pointer s)) xs) (h : ¬ DueBefore c.nextDeadline s.time) :
    ¬ DueBefore (c.relay xs).1.nextDeadline s.time := by
  induction c generalizing xs with
  | nil => exact h
  | cons stage rest ih =>
    obtain ⟨hstage, hrest⟩ := not_dueBefore_cons.mp h
    obtain ⟨hcarries, hnone⟩ := Stage.relay_down hdown hxs hstage
    exact not_dueBefore_cons.mpr ⟨hnone, ih hcarries hrest⟩

/-- A down brings no deadline before its time. -/
theorem not_dueBefore_send (hdown : s.action = .down)
    (h : ¬ DueBefore c.nextDeadline s.time) :
    ¬ DueBefore (c.send (.event (.pointer s))).1.nextDeadline s.time := by
  cases c with
  | nil => exact h
  | cons stage rest =>
    obtain ⟨hstage, hrest⟩ := not_dueBefore_cons.mp h
    exact not_dueBefore_cons.mpr ⟨Stage.not_dueBefore_receive hstage,
      not_dueBefore_relay hdown (stage.carries_out hdown) hrest⟩

end Chain

end TouchStream
