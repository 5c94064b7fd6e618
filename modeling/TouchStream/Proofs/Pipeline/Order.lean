import TouchStream.Proofs.Pipeline.Begun
import TouchStream.Proofs.Recognizer.Timing

/-!
# Timers that are due before a sample

Before a pipeline hands a sample to its head, it fires what is due before that sample. So no
timer of the recognizer is overdue when the recognizer handles a sample, but for one case:
the up that releases the down held back. Both are handled in one go, and the timers that
the down arms are as old as the down (`bringsOverdue`).

Between two samples either no pending timer is overdue, or the last sample was such an up
and nothing but the timer of the first tap is pending (`OnTime`). So what fires before a
sample is due before it. At the time of the sample itself a timer fires early only if a
stage behind the recognizer makes the pipeline move its clock at that time.

* `OnTime.feed`, `onTime_run`: what each sample, and a run of samples, keeps.
* `sample_timer_order`: when a timer is overdue as a sample is handled, and when a timer
  that is due at its time has fired.
-/

namespace TouchStream

namespace Recognizer

variable {r : Recognizer} {time : Micros} {out : List Sample}

/-! ## Samples in one go -/

/-- The timers that fire on a message. -/
def fires (r : Recognizer) : Message → List (PendingTimer RecognizerTimer)
  | .time now => r.fired now
  | _ => []

/-- The timers that fire while messages are handled. -/
def firesDuring (r : Recognizer) : List Message → List (PendingTimer RecognizerTimer)
  | [] => []
  | m :: ms => r.fires m ++ (r.receive m).state.firesDuring ms

theorem firesDuring_append (r : Recognizer) (ms ms' : List Message) :
    r.firesDuring (ms ++ ms') = r.firesDuring ms ++ (r.after ms).firesDuring ms' := by
  induction ms generalizing r with
  | nil => rfl
  | cons m ms ih => rw [List.cons_append, firesDuring, ih, firesDuring, List.append_assoc]; rfl

theorem firesDuring_samples (r : Recognizer) (out : List Sample) :
    r.firesDuring (out.map fun x => .event (.pointer x)) = [] := by
  induction out generalizing r with
  | nil => rfl
  | cons x out ih => exact ih _

theorem distinct_samples (h : r.timers.Distinct) (out : List Sample) :
    (r.after (out.map fun x => .event (.pointer x))).timers.Distinct := by
  induction out generalizing r with
  | nil => exact h
  | cons x out ih => exact ih ((rearmed_pointer r x).distinct h)

/-- Where no timer is overdue at a time, none is after samples of that time. -/
theorem pending_samples (h : ∀ t ∈ r.timers.pending, time ≤ t.deadline)
    (hout : ∀ x ∈ out, x.time = time) :
    ∀ t ∈ (r.after (out.map fun x => .event (.pointer x))).timers.pending, time ≤ t.deadline := by
  induction out generalizing r with
  | nil => exact h
  | cons x out ih =>
    obtain ⟨hx, hrest⟩ := List.forall_mem_cons.mp hout
    refine ih (r := (r.pointer x).state) ?_ hrest
    intro t ht
    rcases (rearmed_pointer r x).mem_pending ht with hold | hle
    · exact h t hold
    · exact hx ▸ hle

end Recognizer

namespace Pipeline

variable {p : Pipeline} {s : Sample} {time : Micros}

/-! ## Between samples -/

/-- The clock is no earlier than the down that is held back, and where it has passed the
deadline of a timer, only the timer of the first tap is pending. -/
structure OnTime (p : Pipeline) : Prop where
  heldDown : p.filter.HeldDown
  heldTime : ∀ d, p.filter.held = some d → d.time ≤ p.clock
  distinct : p.recognizer.timers.Distinct
  pending : (∀ t ∈ p.recognizer.timers.pending, p.clock ≤ t.deadline) ∨
    ∀ t ∈ p.recognizer.timers.pending, t.kind = .singleTap

theorem recognizer_caughtUp (h : p.recognizer.timers.Distinct) (hclock : p.clock ≤ time) :
    (p.caughtUp time).recognizer.timers.Distinct ∧
      ∀ t ∈ (p.caughtUp time).recognizer.timers.pending, time ≤ t.deadline := by
  constructor
  · rw [← after_wakings, wakings]
    split
    · exact (Recognizer.rearmed_advance _ _).1 h
    · exact h
  · intro t ht
    rw [← UInt64.not_lt]
    intro hlt
    have hdue := Timers.nextDeadline_lt_iff.mpr ⟨t, ht, hlt⟩
    exact not_due_recognizer (not_dueBefore_caughtUp hclock) hdue

theorem stages_feed (p : Pipeline) (s : Sample) :
    (p.feed (.pointer s)).1.filter = (p.filter.pointer s).1 ∧
      (p.feed (.pointer s)).1.recognizer =
        (p.caughtUp s.time).recognizer.after
          ((p.filter.pointer s).2.2.map fun x => .event (.pointer x)) := by
  obtain ⟨hfilter, hrecognizer, -⟩ := handle_front p (.feed (.pointer s))
  have htimes : ∀ m ∈ p.wakings s.time, ∃ now, m = .time now := fun _ hm => mem_wakings hm
  constructor
  · refine Eq.trans hfilter ?_
    rw [messages, pass_times htimes]
    rfl
  · refine (recognizer_handle p (.feed (.pointer s))).trans ?_
    rw [toRecognizer_pointer, Recognizer.after_append, after_wakings]
    rfl

/-- What is released has the time of a move, or is the down that was held back with the up
that ends its touch. -/
theorem OnTime.samples_of_releases (h : p.OnTime) (hreleases : p.filter.releases s = true) :
    (s.action = .move ∧ ((p.filter.pointer s).2.2 = [s.withAction .down] ∨
        (p.filter.pointer s).2.2 = [s.withAction .down, s])) ∨
      s.action = .up ∧ s.source = .touchscreen ∧ s.pointerCount = 1 ∧
        ∃ d, p.filter.held = some d ∧ d.action = .down ∧ d.time ≤ p.clock ∧
          (p.filter.pointer s).2.2 = [d, s] := by
  rcases (p.filter.step_pointer s).out_of_releases hreleases with hmove | ⟨hup, d, hd, hout⟩
  · exact Or.inl hmove
  · obtain ⟨hsource, hone, -⟩ := Sample.isLone_iff.mp (TouchFilter.isLone_of_releases hreleases)
    exact Or.inr ⟨hup, hsource, hone, d, hd, (h.heldDown d hd).2.1, h.heldTime d hd, hout⟩

theorem OnTime.feed (h : p.OnTime) (hclock : p.clock ≤ s.time) :
    (p.feed (.pointer s)).1.OnTime := by
  obtain ⟨hfilter, hrecognizer⟩ := stages_feed p s
  obtain ⟨hdistinct, hpending⟩ := recognizer_caughtUp h.distinct hclock
  have hclock' := clock_pointer hclock
  refine ⟨heldDown_handle h.heldDown (.feed (.pointer s)), ?_, ?_, ?_⟩
  · intro d hd
    rw [hfilter] at hd
    rw [hclock']
    rcases (p.filter.step_pointer s).held hd with ⟨hold, -⟩ | ⟨rfl, -⟩
    · exact UInt64.le_trans (h.heldTime d hold) hclock
    · exact UInt64.le_refl _
  · rw [hrecognizer]
    exact Recognizer.distinct_samples hdistinct _
  · rw [hrecognizer, hclock']
    have hplain {out : List Sample} (hout : ∀ x ∈ out, x.time = s.time) :=
      Recognizer.pending_samples hpending hout
    cases hreleases : p.filter.releases s with
    | false =>
      rcases (p.filter.step_pointer s).out_of_not_releases hreleases with hout | hout
      · exact Or.inl (hplain (by simp [hout]))
      · exact Or.inl (hplain (by simp [hout]))
    | true =>
      rcases h.samples_of_releases hreleases with
        ⟨-, hout | hout⟩ | ⟨hup, hsource, hone, d, -, -, -, hout⟩
      · exact Or.inl (hplain (by simp [hout, Sample.withAction]))
      · exact Or.inl (hplain (by simp [hout, Sample.withAction]))
      · refine Or.inr ?_
        rw [hout]
        intro t ht
        have hp (r : Recognizer) : r.pointer s = r.up s := by
          rw [Recognizer.pointer_of_touchscreen hsource, hup]
        refine Recognizer.kind_of_mem_up (r := ((p.caughtUp s.time).recognizer.pointer d).state)
          hone ?_
        rw [← hp]
        exact ht

theorem onTime_run (h : p.OnTime) {samples : List Sample}
    (htimes : samples.Pairwise fun x y => x.time ≤ y.time)
    (hclock : ∀ x ∈ samples, p.clock ≤ x.time) (hnow : p.clock ≤ time)
    (hlast : ∀ x ∈ samples, x.time ≤ time) :
    (p.run (samples.map fun x => .feed (.pointer x))).1.OnTime ∧
      (p.run (samples.map fun x => .feed (.pointer x))).1.clock ≤ time := by
  induction samples generalizing p with
  | nil => exact ⟨h, hnow⟩
  | cons x samples ih =>
    obtain ⟨hnext, hrest⟩ := List.pairwise_cons.mp htimes
    obtain ⟨hx, -⟩ := List.forall_mem_cons.mp hclock
    obtain ⟨hxlast, hlater⟩ := List.forall_mem_cons.mp hlast
    have hclock' : (p.handle (.feed (.pointer x))).1.clock = x.time := clock_pointer hx
    exact ih (p := (p.handle (.feed (.pointer x))).1) (h.feed hx) hrest (hclock'.symm ▸ hnext)
      (hclock'.symm ▸ hxlast) hlater

theorem onTime_of_build {plan : Plan} (hbuild : plan.build = .ok p) : p.OnTime := by
  rw [eq_built hbuild]
  refine ⟨TouchFilter.heldDown_new _ _, ?_, ?_, ?_⟩
  · intro d hd
    cases hd
  · intro t ht
    cases ht
  · refine Or.inl fun t ht => ?_
    cases ht

/-! ## When a sample is handled -/

/-- An up releases a down whose timers are overdue by then. -/
def bringsOverdue (p : Pipeline) (s : Sample) : Prop :=
  p.filter.releases s = true ∧ s.action = .up ∧
    ∃ d, p.filter.held = some d ∧
      (p.caughtUp s.time).recognizer.accepts (.event (.pointer d)) = true ∧
      (d.time.later (p.caughtUp s.time).recognizer.settings.longPressTimeout < s.time ∨
        (p.caughtUp s.time).recognizer.isSecondTap d d.point = false ∧
          d.time.later (p.caughtUp s.time).recognizer.settings.doubleTapTimeout < s.time)

/-- What reaches the recognizer before a sample does are the times at which timers fire, and
samples. -/
theorem split_pointer {before after : List Message} {x : Sample}
    (h : p.toRecognizer [.feed (.pointer s)] = before ++ .event (.pointer x) :: after) :
    ∃ out more, before = p.wakings s.time ++ out.map (fun x => .event (.pointer x)) ∧
      (p.filter.pointer s).2.2 = out ++ x :: more := by
  rw [toRecognizer_pointer, TouchFilter.passes] at h
  rcases List.append_eq_append_iff.mp h with ⟨ms, rfl, hrest⟩ | ⟨ms, hwakings, hrest⟩
  · obtain ⟨out, rest, hout, rfl, hmore⟩ := List.map_eq_append_iff.mp hrest
    obtain ⟨y, more, rfl, hy, -⟩ := List.map_eq_cons_iff.mp hmore
    cases hy
    exact ⟨out, more, rfl, hout⟩
  · cases ms with
    | nil =>
      rw [List.nil_append] at hrest
      obtain ⟨y, more, hout, hy, -⟩ := List.map_eq_cons_iff.mp hrest.symm
      cases hy
      exact ⟨[], more, by rw [hwakings, List.append_nil]; simp, hout⟩
    | cons m ms =>
      obtain ⟨rfl, -⟩ := List.cons.inj hrest
      have hmem : .event (.pointer x) ∈ p.wakings s.time := by simp [hwakings]
      obtain ⟨now, hnow⟩ := mem_wakings hmem
      cases hnow

/-- Handled after the down that it releases, an up finds the timers that the down armed. -/
theorem OnTime.overdue_up_iff (h : p.OnTime) (hclock : p.clock ≤ s.time)
    (hreleases : p.filter.releases s = true) (hup : s.action = .up) {d : Sample}
    (hheld : p.filter.held = some d) :
    (∃ t ∈ ((p.caughtUp s.time).recognizer.pointer d).state.timers.pending, t.deadline < s.time) ↔
      p.bringsOverdue s := by
  obtain ⟨-, hpending⟩ := recognizer_caughtUp h.distinct hclock
  obtain ⟨hlone, hdown, -⟩ := h.heldDown d hheld
  have hsingle := Sample.isSingle_of_isLone hlone
  unfold bringsOverdue
  generalize (p.caughtUp s.time).recognizer = r at hpending
  cases haccepts : r.accepts (.event (.pointer d)) with
  | true =>
    rw [Recognizer.overdue_down_iff haccepts hsingle.position_eq hpending]
    constructor
    · intro hoverdue
      exact ⟨hreleases, hup, d, hheld, haccepts, hoverdue⟩
    · rintro ⟨-, -, d', hheld', -, hoverdue⟩
      obtain rfl : d = d' := Option.some.inj (hheld.symm.trans hheld')
      exact hoverdue
  | false =>
    have hp : r.pointer d = r.down d := by
      rw [Recognizer.pointer_of_touchscreen hsingle.source, hdown]
    constructor
    · rintro ⟨t, ht, hlt⟩
      rw [hp] at ht
      rcases (Recognizer.down_of_not_accepts hsingle.source hdown haccepts).2 with hd | hd
      · rw [hd] at ht
        exact absurd hlt (UInt64.not_lt.mpr (hpending t ht))
      · rw [hd, (Recognizer.idle_clear r).timers] at ht
        cases ht
    · rintro ⟨-, -, d', hheld', haccepts', -⟩
      obtain rfl : d = d' := Option.some.inj (hheld.symm.trans hheld')
      rw [haccepts] at haccepts'
      cases haccepts'

/-- Samples of one time find nothing overdue in a recognizer that waits for no earlier one. -/
theorem not_overdue_of_times {r : Recognizer}
    (hpending : ∀ t ∈ r.timers.pending, s.time ≤ t.deadline) {out more : List Sample} {x : Sample}
    (htimes : ∀ y ∈ out ++ x :: more, y.time = s.time) :
    ¬ ∃ t ∈ (r.after (out.map fun x => .event (.pointer x))).timers.pending,
      t.deadline < x.time := by
  have hx : x.time = s.time := htimes x (by simp)
  have hbefore : ∀ y ∈ out, y.time = s.time := fun y hy => htimes y (List.mem_append_left _ hy)
  rintro ⟨t, ht, hlt⟩
  exact absurd (hx ▸ hlt) (UInt64.not_lt.mpr (Recognizer.pending_samples hpending hbefore t ht))

theorem OnTime.overdue_iff (h : p.OnTime) (hclock : p.clock ≤ s.time) {out more : List Sample}
    {x : Sample} (hout : (p.filter.pointer s).2.2 = out ++ x :: more) :
    (∃ t ∈ ((p.caughtUp s.time).recognizer.after
        (out.map fun x => .event (.pointer x))).timers.pending, t.deadline < x.time) ↔
      x = s ∧ p.bringsOverdue s := by
  obtain ⟨-, hpending⟩ := recognizer_caughtUp h.distinct hclock
  have hplain (hnot : ¬ p.bringsOverdue s)
      (htimes : ∀ y ∈ (p.filter.pointer s).2.2, y.time = s.time) :
      (∃ t ∈ ((p.caughtUp s.time).recognizer.after
          (out.map fun x => .event (.pointer x))).timers.pending, t.deadline < x.time) ↔
        x = s ∧ p.bringsOverdue s :=
    iff_of_false (not_overdue_of_times hpending (hout ▸ htimes)) fun hboth => hnot hboth.2
  cases hreleases : p.filter.releases s with
  | false =>
    have hnot : ¬ p.bringsOverdue s := by
      intro hbrings
      rw [hbrings.1] at hreleases
      cases hreleases
    rcases (p.filter.step_pointer s).out_of_not_releases hreleases with h0 | h1
    · exact hplain hnot (by simp [h0])
    · exact hplain hnot (by simp [h1])
  | true =>
    rcases h.samples_of_releases hreleases with
      ⟨hmove, hmoves⟩ | ⟨hup, -, -, d, hheld, hdown, hearlier, hboth⟩
    · have hnot : ¬ p.bringsOverdue s := by
        rintro ⟨-, hup, -⟩
        rw [hmove] at hup
        cases hup
      rcases hmoves with h1 | h2
      · exact hplain hnot (by simp [h1, Sample.withAction])
      · exact hplain hnot (by simp [h2, Sample.withAction])
    · rw [hboth] at hout
      rcases List.cons_eq_append_iff.mp hout with ⟨rfl, hfirst⟩ | ⟨rest, rfl, hrest⟩
      · obtain ⟨rfl, -⟩ := List.cons.inj hfirst
        have hle : x.time ≤ s.time := UInt64.le_trans hearlier hclock
        constructor
        · rintro ⟨t, ht, hlt⟩
          exact absurd (UInt64.lt_of_lt_of_le hlt hle) (UInt64.not_lt.mpr (hpending t ht))
        · rintro ⟨rfl, -⟩
          rw [hup] at hdown
          cases hdown
      · rcases List.cons_eq_append_iff.mp hrest with ⟨rfl, hsecond⟩ | ⟨rest', rfl, hnil⟩
        · obtain ⟨rfl, -⟩ := List.cons.inj hsecond
          have hup' := h.overdue_up_iff hclock hreleases hup hheld
          exact ⟨fun hoverdue => ⟨rfl, hup'.mp hoverdue⟩, fun hboth => hup'.mpr hboth.2⟩
        · cases rest' <;> cases hnil

/-! ## What has fired -/

/-- At the time of a sample a timer fires before it only if the clock has come to that time
and something behind the recognizer is overdue. -/
theorem OnTime.fires_at_iff (h : p.OnTime) (hclock : p.clock ≤ time) :
    (∃ t ∈ p.recognizer.firesDuring (p.wakings time), t.deadline = time) ↔
      p.clock = time ∧ DueBefore p.output.nextDeadline time ∧
        ∃ t ∈ p.recognizer.timers.pending, t.deadline = time := by
  have hfires : ∀ now, p.recognizer.firesDuring [.time now] = p.recognizer.fired now :=
    fun now => List.append_nil _
  constructor
  · rintro ⟨t, ht, hat⟩
    unfold wakings at ht
    split at ht
    · rename_i hdue
      rw [hfires] at ht
      obtain ⟨hmem, hle⟩ := Recognizer.mem_fired ht
      rw [hat] at hle
      have hcome : p.clock = time := by
        refine (UInt64.lt_or_eq_of_le hclock).resolve_left fun hlt => ?_
        have hbefore : time - 1 < time := (Micros.le_sub_one_iff hlt).mp (UInt64.le_refl _)
        exact absurd (Micros.max_lt hlt hbefore) (UInt64.not_lt.mpr hle)
      refine ⟨hcome, ?_, t, hmem, hat⟩
      -- were a timer of the recognizer overdue, it would be the only one
      refine (dueBefore_earlier.mp hdue).resolve_left fun hown => ?_
      obtain ⟨t', hmem', hlt'⟩ := Timers.nextDeadline_lt_iff.mp hown
      rcases h.pending with hnone | hsingle
      · exact absurd (hcome ▸ hlt') (UInt64.not_lt.mpr (hnone t' hmem'))
      · have hsame := h.distinct t hmem t' hmem' ((hsingle t hmem).trans (hsingle t' hmem').symm)
        rw [← hsame, hat] at hlt'
        exact UInt64.lt_irrefl _ hlt'
    · cases ht
  · rintro ⟨hcome, hdue, t, hmem, hat⟩
    have hnow : max p.clock (time - 1) = time := by
      obtain ⟨d, -, hlt⟩ := hdue
      rw [hcome]
      exact Micros.max_sub_one hlt
    obtain ⟨t', ht'⟩ := Recognizer.exists_mem_fired hmem (UInt64.le_of_eq hat)
    obtain ⟨hmem', hle'⟩ := Recognizer.mem_fired ht'
    refine ⟨t', ?_, ?_⟩
    · have hwaking : DueBefore p.nextDeadline time := dueBefore_earlier.mpr (Or.inr hdue)
      rw [wakings, if_pos hwaking, hnow, hfires]
      exact ht'
    · rcases h.pending with hnone | hsingle
      · exact UInt64.le_antisymm hle' (hcome ▸ hnone t' hmem')
      · have hsame := h.distinct t' hmem' t hmem ((hsingle t' hmem').trans (hsingle t hmem).symm)
        rw [hsame]
        exact hat

/-- **The order of samples and timers.** Feed a pipeline that was just built samples in the
order of time. Whenever the recognizer handles a sample while the last one is fed, a timer
is pending that was due before it exactly when that sample is an up that brings overdue timers
with it. A timer that is due at the time of the sample fed has fired exactly when the clock has
come to that time before and a stage behind the recognizer was overdue, as no stage without
timers ever is. -/
theorem sample_timer_order {plan : Plan} (hbuild : plan.build = .ok p) (samples : List Sample)
    (s : Sample) (htimes : (samples ++ [s]).Pairwise fun x y => x.time ≤ y.time) {q : Pipeline}
    (hq : (p.run (samples.map fun x => .feed (.pointer x))).1 = q) {before after : List Message}
    {x : Sample}
    (hsplit : q.toRecognizer [.feed (.pointer s)] = before ++ .event (.pointer x) :: after) :
    ((∃ t ∈ (q.recognizer.after before).timers.pending, t.deadline < x.time) ↔
        x = s ∧ q.bringsOverdue s) ∧
      ((∃ t ∈ q.recognizer.firesDuring before, t.deadline = s.time) ↔
        q.clock = s.time ∧ DueBefore q.output.nextDeadline s.time ∧
          ∃ t ∈ q.recognizer.timers.pending, t.deadline = s.time) := by
  subst hq
  obtain ⟨hpast, -, hlast⟩ := List.pairwise_append.mp htimes
  have hzero : p.clock = 0 := clock_of_build hbuild
  obtain ⟨hontime, hclock⟩ := onTime_run (onTime_of_build hbuild) hpast
    (fun x _ => hzero ▸ UInt64.zero_le) (hzero ▸ UInt64.zero_le)
    (fun x hx => hlast x hx s (List.mem_singleton.mpr rfl))
  obtain ⟨out, more, rfl, hout⟩ := split_pointer hsplit
  rw [Recognizer.after_append, after_wakings, Recognizer.firesDuring_append,
    Recognizer.firesDuring_samples, List.append_nil]
  exact ⟨hontime.overdue_iff hclock hout, hontime.fires_at_iff hclock⟩

/-- A cancel comes at the very time at which a touch was let on by its up. The timer of the
first tap has been overdue since, and fires before it. -/
theorem sample_timer_order_overdue_tap :
    let config : Configuration := { filter := { clickDelay := .medium } }
    let plan : Plan := { config := config, listener := some .attentive, output := [.sink] }
    let p : Pipeline := ⟨.new config.filter none, .new {} none, [.sink], 0, false⟩
    let samples : List Sample := [.touch .down .zero 0, .touch .up .zero 700000]
    let s : Sample := .touch .cancel .zero 700000
    let q := (p.run (samples.map fun x => .feed (.pointer x))).1
    let before : List Message := [.time 700000]
    (plan.build = .ok p ∧ ((samples ++ [s]).Pairwise fun x y => x.time ≤ y.time) ∧
        q.recognizer.timers.nextDeadline = some 300000 ∧
        q.toRecognizer [.feed (.pointer s)] = before ++ .event (.pointer s) :: []) ∧
      ((∃ t ∈ (q.recognizer.after before).timers.pending, t.deadline < s.time) ↔
          s = s ∧ q.bringsOverdue s) ∧
        ((∃ t ∈ q.recognizer.firesDuring before, t.deadline = s.time) ↔
          q.clock = s.time ∧ DueBefore q.output.nextDeadline s.time ∧
            ∃ t ∈ q.recognizer.timers.pending, t.deadline = s.time) := by
  intro config plan p samples s q before
  have hbuild : plan.build = .ok p := build_eq_built rfl check_default
  have htimes : (samples ++ [s]).Pairwise fun x y => x.time ≤ y.time := by decide +kernel
  have hdue : q.recognizer.timers.nextDeadline = some 300000 := by decide +kernel
  have hsplit : q.toRecognizer [.feed (.pointer s)] = before ++ .event (.pointer s) :: [] := by
    decide +kernel
  have hq : (p.run (samples.map fun x => .feed (.pointer x))).1 = q := rfl
  clear_value q
  exact ⟨⟨hbuild, htimes, hdue, hsplit⟩, sample_timer_order hbuild samples s htimes hq hsplit⟩

/-- A finger stays down for 700 ms and does not move. Its down is held back until the up, which
is handled while the timer of the long press is overdue, so that a tap is reported. -/
theorem held_press_tapped :
    let config : Configuration := { filter := { clickDelay := .medium } }
    let plan : Plan := { config := config, listener := some .attentive }
    let p : Pipeline := ⟨.new config.filter none, .new {} none, [], 0, false⟩
    let down : Sample := .touch .down ⟨10, 10⟩ 0
    let up : Sample := .touch .up ⟨10, 10⟩ 700000
    let q := (p.run [.feed (.pointer down)]).1
    plan.build = .ok p ∧
      q.toRecognizer [.feed (.pointer up)] = [.event (.pointer down)] ++ [.event (.pointer up)] ∧
      (∃ t ∈ (q.recognizer.after [.event (.pointer down)]).timers.pending,
        t.kind = .longPress ∧ t.deadline < up.time) ∧
      (q.run [.feed (.pointer up), .flush]).2.2 = [.decided (.completed .tap)] := by
  intro config plan p down up q
  have hbuild : plan.build = .ok p := build_eq_built rfl check_default
  have hpending : (q.recognizer.after [.event (.pointer down)]).timers.pending =
      [⟨.singleTap, 300000, 0⟩, ⟨.longPress, 300000, 1⟩] := by
    decide +kernel
  refine ⟨hbuild, by decide +kernel, ⟨⟨.longPress, 300000, 1⟩, ?_, rfl, by decide⟩,
    by decide +kernel⟩
  rw [hpending]
  exact List.mem_cons_of_mem _ List.mem_cons_self

end Pipeline

end TouchStream
