import Mathlib.Data.List.Chain
import TouchStream.Proofs.Chain.Downs
import TouchStream.Proofs.Pipeline.Begun
import TouchStream.Proofs.Pipeline.History
import TouchStream.Proofs.Recognizer.Phases

/-!
# Touches that do not move

Where the filter lets everything on, what a pipeline makes of touches without moves hangs
on three times alone: how long a finger is down, how soon the next one follows, and which
timer fires before which sample. A tap can be reported by its timer before the next sample,
by the next down, or by the flush at the end, and is reported by just one of them.

The pipeline goes from one phase to the next. It rests with nothing left to report or with
a tap that waits for a second one (`Rests`), and in between it holds a finger (`Holds`).

* `feed_down`, `feed_up`: one sample in each phase, with what fires before it.
* `still_touches_reported`: touches of which no two make a double tap are reported one by
  one.
* `tap_pair_reported`: two taps that are near enough in time and place are a double tap
  just when the wait for the second one is not over before its down.
-/

namespace TouchStream

/-- A touch of a single finger that does not move. -/
structure StillTouch extends Touch where
  unmoved : moves = []
  timely : down.time ≤ up.time

namespace StillTouch

/-- The touch of the only finger on a touch screen, at a point from one time to another. -/
def touch (point : Point) (first last : Micros) (h : first ≤ last) : StillTouch where
  down := .touch .down point first
  moves := []
  up := .touch .up point last
  down_single := Sample.isSingle_touch _ _ _
  moves_single := List.forall_mem_nil _
  up_single := Sample.isSingle_touch _ _ _
  unmoved := rfl
  timely := h

/-- Whether the finger is held for long. -/
def isPressed (t : StillTouch) (s : RecognizerSettings) : Bool :=
  t.down.time.later s.longPressTimeout < t.up.time

/-- What a touch of its own is reported as. -/
def reading (t : StillTouch) (s : RecognizerSettings) : Decision :=
  if t.isPressed s then .longPress t.down else .completed .tap

/-- When the wait for a second tap is over. It begins at the down, and where it is over before
the up it begins again there. -/
def waitEnd (t : StillTouch) (s : RecognizerSettings) : Micros :=
  if t.up.time ≤ t.down.time.later s.doubleTapTimeout then t.down.time.later s.doubleTapTimeout
  else t.up.time.later s.doubleTapTimeout

/-- Whether a touch follows another one within the limits of a double tap, and at the same
place. -/
def pairsWith (t t' : StillTouch) (s : RecognizerSettings) (limits : Thresholds) : Bool :=
  let gap := t'.down.time.since t.up.time
  s.minDoubleTapInterval ≤ gap && gap ≤ s.doubleTapTimeout
    && t.down.point.distanceSquared t'.down.point < limits.tapSlopSquared

theorem samples_eq (t : StillTouch) : t.samples = [t.down, t.up] := by
  rw [Touch.samples, t.unmoved]
  rfl

theorem isFingerUp_up (t : StillTouch) : t.up.isFingerUp = true := by
  have h := t.up_single
  simp [Sample.isFingerUp, h.source, h.action, h.pointerCount_eq]

end StillTouch

namespace Recognizer

variable {r : Recognizer} {t t' : StillTouch} {deadline : Micros}

theorem accepts_down (hr : r.Consistent) (hreading : r.recognizing = false) (t : StillTouch) :
    r.accepts (.event (.pointer t.down)) = true := by
  have h := t.down_single
  have hawaiting : r.awaitingSecondUp = false := by
    cases ha : r.awaitingSecondUp with
    | false => rfl
    | true => exact absurd ((hr.awaiting ha).1.symm.trans hreading) (by simp)
  exact accepts_pointer_iff.mpr ⟨h.source, h.action, by simp [hawaiting],
    Nat.le_of_eq h.pointerCount_eq, _, h.position_eq⟩

theorem Awaits.isSecondTap_eq (h : r.Awaits t.down t.up deadline) (t' : StillTouch) :
    r.isSecondTap t'.down t'.down.point = t.pairsWith t' r.settings r.thresholds := by
  simp [isSecondTap, h.lastDown, h.lastUp, h.firstTap, t.down_single.position_eq,
    StillTouch.pairsWith]

end Recognizer

namespace Pipeline

variable {p : Pipeline} {s d : Sample} {t t' : StillTouch} {last : Option StillTouch}
  {deadline time : Micros} {settings : RecognizerSettings} {limits : Thresholds}

/-! ## Samples that the filter lets on -/

/-- The filter lets everything on, and the recognizer goes by given limits. -/
structure Unfiltered (p : Pipeline) (settings : RecognizerSettings) (limits : Thresholds) :
    Prop where
  policy : p.filter.policy = .none
  settings : p.recognizer.settings = settings
  thresholds : p.recognizer.thresholds = limits

namespace Unfiltered

theorem handle (h : p.Unfiltered settings limits) (request : Request) :
    (p.handle request).1.Unfiltered settings limits := by
  have hkept := Recognizer.settings_after p.recognizer (p.toRecognizer [request])
  rw [← recognizer_handle] at hkept
  have hpolicy : (p.handle request).1.filter.policy = p.filter.policy :=
    filter_handle_keeps (P := fun f => f.policy = p.filter.policy)
      (fun m _ f hf => (f.preferences_receive m).1.trans hf) rfl
  exact ⟨hpolicy.trans h.policy, hkept.1.trans h.settings, hkept.2.trans h.thresholds⟩

theorem feed (h : p.Unfiltered settings limits) (e : Event) :
    (p.feed e).1.Unfiltered settings limits := h.handle (.feed e)

theorem run (h : p.Unfiltered settings limits) (requests : List Request) :
    (p.run requests).1.Unfiltered settings limits := by
  induction requests generalizing p with
  | nil => exact h
  | cons request requests ih => exact ih (h.handle request)

end Unfiltered

/-- The thresholds that a recognizer has in a pipeline that is built from a plan. -/
def Plan.thresholds (plan : Plan) : Thresholds :=
  .ofDisplay (plan.display.or plan.config.display) plan.config.recognizer.tapSlop
    plan.config.recognizer.routeStep

theorem unfiltered_of_build {plan : Plan} (hbuild : plan.build = .ok p)
    (hpolicy : FilterPolicy.ofSettings plan.config.filter = .none) :
    p.Unfiltered plan.config.recognizer plan.thresholds := by
  rw [eq_built hbuild]
  exact ⟨hpolicy, rfl, rfl⟩

theorem pointer_unfiltered {f : TouchFilter} (h : f.policy = .none) (s : Sample) :
    (f.pointer s).2.2 = [s] := by
  unfold TouchFilter.pointer
  split
  · rfl
  · split
    · rfl
    · rw [if_pos (Or.inl h)]

/-- A sample that the filter lets on comes to the recognizer after what fires before it. -/
theorem Unfiltered.feed_eq (h : p.Unfiltered settings limits) (s : Sample) :
    (p.feed (.pointer s)).1.recognizer = ((p.caughtUp s.time).recognizer.pointer s).state ∧
      p.decides [.feed (.pointer s)] =
        p.early s.time ++ ((p.caughtUp s.time).recognizer.pointer s).decisions := by
  have hout := pointer_unfiltered h.policy s
  constructor
  · rw [(stages_feed p s).2, hout]
    rfl
  · have hpasses : p.filter.passes (.event (.pointer s)) = [.event (.pointer s)] := by
      rw [TouchFilter.passes, hout]
      rfl
    rw [decides, toOutput_pointer, decisionsIn_append, (handsOn_wakings p s.time).1, hpasses,
      Recognizer.handsOn_cons, Recognizer.handsOn, List.append_nil]
    exact congrArg _ (Recognizer.decides_pointer _ s)

theorem nextDeadline_eq_chain (p : Pipeline) : p.nextDeadline = p.chain.nextDeadline := by
  show earlierDeadline _ _ = earlierDeadline none (earlierDeadline _ _)
  rfl

/-- Right after a down no deadline lies before it, in no stage. -/
theorem not_dueBefore_feed (hdown : s.action = .down) (hclock : p.clock ≤ s.time) :
    ¬ DueBefore (p.feed (.pointer s)).1.nextDeadline s.time := by
  have hbefore := not_dueBefore_caughtUp hclock
  rw [nextDeadline_eq_chain] at hbefore
  have hafter := Chain.not_dueBefore_send hdown hbefore
  rw [chain_send] at hafter
  rw [pointer_eq_send, nextDeadline_eq_chain]
  exact hafter

/-! ## Phases -/

/-- The pipeline rests. Nothing is left to report, or the tap of the last touch, which waits
for a second one. -/
def Rests (p : Pipeline) (settings : RecognizerSettings) : Option StillTouch → Prop
  | none => p.recognizer.Settled
  | some t => p.recognizer.Awaits t.down t.up (t.waitEnd settings)

/-- What is left to report where a pipeline rests. -/
def owed : Option StillTouch → List Decision
  | none => []
  | some _ => [.completed .tap]

/-- The pipeline has just handled the down of a finger, of a second tap or of one of its own. -/
structure Holds (p : Pipeline) (d : Sample) (second : Bool) : Prop where
  clock : p.clock = d.time
  held : p.recognizer.Held d
  awaiting : p.recognizer.awaitingSecondUp = second
  secondTap : p.recognizer.secondTapBegun = second
  waits : p.recognizer.timers.isPending .singleTap = !second
  onTime : ¬ DueBefore p.nextDeadline d.time

/-! ## What fires before a sample -/

theorem caughtUp_of_settled (h : p.recognizer.Settled) (hclock : p.clock ≤ time) :
    (p.caughtUp time).recognizer.Settled ∧ p.early time = [] := by
  rcases UInt64.lt_or_eq_of_le hclock with hlt | heq
  · obtain ⟨hstate, hearly⟩ := caughtUp_of_lt hlt
    rw [hstate, hearly]
    exact h.advance (time - 1)
  · by_cases hdue : DueBefore p.nextDeadline time
    · obtain ⟨hstate, hearly⟩ := caughtUp_of_due heq hdue
      rw [hstate, hearly]
      exact h.advance time
    · obtain ⟨hstate, hearly⟩ := caughtUp_of_not_due hclock hdue
      rw [hstate, hearly]
      exact ⟨h, rfl⟩

/-- Whether the wait for a second tap is over when a sample comes. At the time of its end it is
only where the clock is there already and a stage behind the recognizer has missed a
deadline. -/
def IsOver (p : Pipeline) (deadline time : Micros) : Prop :=
  deadline < time ∨ deadline = time ∧ p.clock = time ∧ DueBefore p.output.nextDeadline time

instance (p : Pipeline) (deadline time : Micros) : Decidable (p.IsOver deadline time) :=
  inferInstanceAs (Decidable (_ ∨ _))

theorem caughtUp_of_awaits {u : Sample} (h : p.recognizer.Awaits d u deadline)
    (hclock : p.clock ≤ time) :
    (p.IsOver deadline time ∧ (p.caughtUp time).recognizer.Settled ∧
        p.early time = [.completed .tap]) ∨
      (¬ p.IsOver deadline time ∧ (p.caughtUp time).recognizer = p.recognizer ∧
        p.early time = []) := by
  have hnone : ¬ deadline < time → ¬ DueBefore p.recognizer.timers.nextDeadline time := by
    intro hlate hdue
    obtain ⟨t, ht, hlt⟩ := Timers.nextDeadline_lt_iff.mp hdue
    rw [h.deadline t ht] at hlt
    exact hlate hlt
  rcases UInt64.lt_or_eq_of_le hclock with hlt | heq
  · have hne : p.clock ≠ time := UInt64.ne_of_lt hlt
    obtain ⟨hstate, hearly⟩ := caughtUp_of_lt hlt
    rw [hstate, hearly]
    rcases h.advance (time - 1) with ⟨hdue, hsettled, htap⟩ | ⟨hlater, hsame⟩
    · exact Or.inl ⟨Or.inl ((Micros.le_sub_one_iff hlt).mp hdue), hsettled, htap⟩
    · refine Or.inr ⟨?_, congrArg Prod.fst hsame, congrArg Prod.snd hsame⟩
      rintro (hover | ⟨-, hclock, -⟩)
      · exact UInt64.not_lt.mpr ((Micros.le_sub_one_iff hlt).mpr hover) hlater
      · exact hne hclock
  · by_cases hdue : DueBefore p.nextDeadline time
    · obtain ⟨hstate, hearly⟩ := caughtUp_of_due heq hdue
      rw [hstate, hearly]
      rcases h.advance time with ⟨hle, hsettled, htap⟩ | ⟨hlater, hsame⟩
      · refine Or.inl ⟨?_, hsettled, htap⟩
        by_cases hlt : deadline < time
        · exact Or.inl hlt
        · have houtput := (dueBefore_earlier.mp hdue).resolve_left (hnone hlt)
          exact Or.inr ⟨UInt64.le_antisymm hle (UInt64.not_lt.mp hlt), heq, houtput⟩
      · refine Or.inr ⟨?_, congrArg Prod.fst hsame, congrArg Prod.snd hsame⟩
        rintro (hover | ⟨hover, -, -⟩)
        · exact UInt64.lt_asymm hover hlater
        · exact UInt64.ne_of_lt hlater hover.symm
    · obtain ⟨hstate, hearly⟩ := caughtUp_of_not_due hclock hdue
      rw [hstate, hearly]
      refine Or.inr ⟨?_, rfl, rfl⟩
      rintro (hover | ⟨-, -, houtput⟩)
      · obtain ⟨t, ht, -⟩ := Timers.isPending_iff.mp h.timed.1
        have hlt : t.deadline < time := by rw [h.deadline t ht]; exact hover
        exact hdue (dueBefore_earlier.mpr (Or.inl (Timers.nextDeadline_lt_iff.mpr ⟨t, ht, hlt⟩)))
      · exact hdue (dueBefore_earlier.mpr (Or.inr houtput))

/-- Before the sample after a down exactly the deadlines before that sample fire, since the
clock stands at the down and nothing is due before it. -/
theorem Holds.caughtUp {second : Bool} (h : p.Holds d second) (hle : d.time ≤ time) :
    (d.time.later p.recognizer.settings.longPressTimeout < time ∧
        (p.caughtUp time).recognizer.Pressed ∧ p.early time = [.longPress d]) ∨
      (time ≤ d.time.later p.recognizer.settings.longPressTimeout ∧
        (p.caughtUp time).recognizer.Held d ∧ p.early time = [] ∧
        (p.caughtUp time).recognizer =
          { p.recognizer with timers := (p.caughtUp time).recognizer.timers } ∧
        (second = false → (p.caughtUp time).recognizer.timers.isPending .singleTap =
          decide (time ≤ d.time.later p.recognizer.settings.doubleTapTimeout))) := by
  rcases UInt64.lt_or_eq_of_le hle with hlt | rfl
  · obtain ⟨hstate, hearly⟩ := caughtUp_of_lt (p := p) (h.clock.symm ▸ hlt)
    rw [hstate, hearly]
    rcases h.held.advance (time - 1) with
      ⟨hdue, hpressed, hds⟩ | ⟨hlater, hheld, hds, hsame, hsingle⟩
    · exact Or.inl ⟨(Micros.le_sub_one_iff hlt).mp hdue, hpressed, hds⟩
    · have hlate (deadline : Micros) : time - 1 < deadline ↔ time ≤ deadline := by
        rw [← UInt64.not_le, Micros.le_sub_one_iff hlt, UInt64.not_lt]
      refine Or.inr ⟨(hlate _).mp hlater, hheld, hds, hsame, ?_⟩
      intro hsecond
      have hwaits := h.waits
      rw [hsecond] at hwaits
      rw [Bool.eq_iff_iff, decide_eq_true_iff, ← hlate]
      exact hsingle hwaits
  · obtain ⟨hstate, hearly⟩ := caughtUp_of_not_due (p := p) (UInt64.le_of_eq h.clock) h.onTime
    rw [hstate, hearly]
    refine Or.inr ⟨Micros.le_later _ _, h.held, rfl, rfl, ?_⟩
    intro hsecond
    have hwaits := h.waits
    rw [hsecond] at hwaits
    rw [decide_eq_true (Micros.le_later _ _)]
    exact hwaits

/-! ## Downs -/

/-- A down finds no interaction that is read, and so it is taken. -/
theorem feed_down (hp : p.Unfiltered settings limits) (hclock : p.clock ≤ t.down.time)
    (hr : (p.caughtUp t.down.time).recognizer.Consistent)
    (hreading : (p.caughtUp t.down.time).recognizer.recognizing = false) :
    (p.feed (.pointer t.down)).1.Holds t.down
      ((p.caughtUp t.down.time).recognizer.isSecondTap t.down t.down.point) := by
  obtain ⟨hstate, -⟩ := hp.feed_eq t.down
  have haccepts := Recognizer.accepts_down hr hreading t
  have hposition := t.down_single.position_eq
  obtain ⟨hheld, hawaiting, hwaits⟩ := Recognizer.held_of_accepts hr haccepts hposition
  have hfirst : (p.caughtUp t.down.time).recognizer.secondTapBegun = false := by
    cases hs : (p.caughtUp t.down.time).recognizer.secondTapBegun with
    | false => rfl
    | true => exact absurd ((hr.second hs).symm.trans hreading) (by simp)
  have hsecond := (Recognizer.secondTapBegun_of_accepts haccepts).2
  rw [hfirst, Bool.false_or, Recognizer.beginsSecondTap_of_accepts haccepts hposition] at hsecond
  exact
    { clock := clock_pointer hclock
      held := hstate ▸ hheld
      awaiting := hstate ▸ hawaiting
      secondTap := hstate ▸ hsecond
      waits := hstate ▸ hwaits
      onTime := not_dueBefore_feed t.down_single.action hclock }

/-- Where no interaction is read, nothing but a first tap can be left. -/
theorem feed_down_of_settled (hp : p.Unfiltered settings limits) (hclock : p.clock ≤ t.down.time)
    (h : (p.caughtUp t.down.time).recognizer.Settled) :
    (p.feed (.pointer t.down)).1.Holds t.down false ∧
      p.decides [.feed (.pointer t.down)] = p.early t.down.time := by
  have haccepts := Recognizer.accepts_down h.consistent h.recognizing t
  obtain ⟨hsecond, hnothing⟩ := h.down haccepts t.down_single.position_eq
  have hholds := feed_down hp hclock h.consistent h.recognizing
  rw [hsecond] at hholds
  refine ⟨hholds, ?_⟩
  rw [(hp.feed_eq t.down).2, hnothing, List.append_nil]

/-- A down that makes no double tap with the touch before it begins a touch of its own. What
was left is reported by then, before the down or by it. -/
theorem feed_down_of_rests (hp : p.Unfiltered settings limits) (hclock : p.clock ≤ t.down.time)
    (h : p.Rests settings last)
    (hapart : ∀ t' ∈ last, t'.pairsWith t settings limits = false) :
    (p.feed (.pointer t.down)).1.Holds t.down false ∧
      p.decides [.feed (.pointer t.down)] = owed last := by
  cases last with
  | none =>
    obtain ⟨hsettled, hnothing⟩ := caughtUp_of_settled h hclock
    have hdown := feed_down_of_settled hp hclock hsettled
    rw [hnothing] at hdown
    exact hdown
  | some t' =>
    rcases caughtUp_of_awaits h hclock with ⟨-, hsettled, htap⟩ | ⟨-, hsame, hnothing⟩
    · have hdown := feed_down_of_settled hp hclock hsettled
      rw [htap] at hdown
      exact hdown
    · have hawaits : p.recognizer.Awaits t'.down t'.up _ := h
      have hapart := hapart t' rfl
      rw [← hp.settings, ← hp.thresholds, ← hawaits.isSecondTap_eq] at hapart
      rw [← hsame] at hawaits hapart
      have haccepts := Recognizer.accepts_down hawaits.consistent hawaits.recognizing t
      have hholds := feed_down hp hclock hawaits.consistent hawaits.recognizing
      rw [hapart] at hholds
      refine ⟨hholds, ?_⟩
      rw [(hp.feed_eq t.down).2, hnothing,
        hawaits.down haccepts t.down_single.position_eq hapart]
      rfl

/-! ## Ups -/

/-- A finger that lifts was held for long, or has tapped. -/
theorem feed_up (hp : p.Unfiltered settings limits) (h : p.Holds t.down false) :
    (p.feed (.pointer t.up)).1.Rests settings (if t.isPressed settings then none else some t) ∧
      p.decides [.feed (.pointer t.up)] =
        if t.isPressed settings then [.longPress t.down] else [] := by
  obtain ⟨hstate, hdecides⟩ := hp.feed_eq t.up
  have hcaught := h.caughtUp t.timely
  rw [hp.settings] at hcaught
  rcases hcaught with ⟨hlong, hpressed, hds⟩ | ⟨hshort, hheld, hds, hsame, hsingle⟩
  · have hlong : t.isPressed settings = true := decide_eq_true hlong
    obtain ⟨hsettled, hnothing⟩ := hpressed.up t.isFingerUp_up
    rw [hlong, hdecides, hds, hnothing]
    refine ⟨?_, rfl⟩
    show (p.feed (.pointer t.up)).1.recognizer.Settled
    rw [hstate]
    exact hsettled
  · have hshort : t.isPressed settings = false := decide_eq_false (UInt64.not_lt.mpr hshort)
    have hawaiting : (p.caughtUp t.up.time).recognizer.awaitingSecondUp = false := by
      rw [hsame]
      exact h.awaiting
    have hsecond : (p.caughtUp t.up.time).recognizer.secondTapBegun = false := by
      rw [hsame]
      exact h.secondTap
    have hkept : (p.caughtUp t.up.time).recognizer.settings = settings := by
      rw [hsame]
      exact hp.settings
    obtain ⟨hnothing, -, hawaits⟩ := hheld.up hawaiting t.isFingerUp_up
    have hawaits := hawaits hsecond
    rw [hsingle rfl, hkept] at hawaits
    simp only [decide_eq_true_iff] at hawaits
    rw [hshort, hdecides, hds, hnothing]
    refine ⟨?_, rfl⟩
    show (p.feed (.pointer t.up)).1.recognizer.Awaits t.down t.up (t.waitEnd settings)
    rw [hstate]
    exact hawaits

/-- A finger that lifts in time from a second tap has double tapped. -/
theorem feed_secondUp (hp : p.Unfiltered settings limits) (h : p.Holds t.down true)
    (hshort : t.isPressed settings = false) :
    (p.feed (.pointer t.up)).1.Rests settings none ∧
      p.decides [.feed (.pointer t.up)] = [.doubleTap t.up] := by
  obtain ⟨hstate, hdecides⟩ := hp.feed_eq t.up
  have hcaught := h.caughtUp t.timely
  rw [hp.settings] at hcaught
  rcases hcaught with ⟨hlong, -, -⟩ | ⟨-, hheld, hds, hsame, -⟩
  · exact absurd hlong (of_decide_eq_false hshort)
  · have hawaiting : (p.caughtUp t.up.time).recognizer.awaitingSecondUp = true := by
      rw [hsame]
      exact h.awaiting
    obtain ⟨hsettled, hdouble⟩ := hheld.secondUp hawaiting t.isFingerUp_up
    rw [hdecides, hds, hdouble]
    refine ⟨?_, rfl⟩
    show (p.feed (.pointer t.up)).1.recognizer.Settled
    rw [hstate]
    exact hsettled

theorem decides_flush_of_rests (h : p.Rests settings last) : p.decides [.flush] = owed last := by
  rw [decides_flush]
  cases last with
  | none => exact (Recognizer.Settled.advance h .last).2
  | some t =>
    rcases Recognizer.Awaits.advance h .last with ⟨-, -, htap⟩ | ⟨hlater, -⟩
    · exact htap
    · exact absurd (Micros.le_last _) (UInt64.not_le.mpr hlater)

/-! ## Touches one by one -/

theorem decides_direct_cons (p : Pipeline) (s : Sample) (samples : List Sample) :
    p.decides (direct (s :: samples)) =
      p.decides [.feed (.pointer s)] ++ (p.feed (.pointer s)).1.decides (direct samples) :=
  p.decides_feed (.pointer s) (direct samples)

theorem decides_touch (p : Pipeline) (t : StillTouch) (samples : List Sample) :
    p.decides (direct (t.samples ++ samples)) =
      p.decides [.feed (.pointer t.down)] ++
        ((p.feed (.pointer t.down)).1.decides [.feed (.pointer t.up)] ++
          ((p.feed (.pointer t.down)).1.feed (.pointer t.up)).1.decides (direct samples)) := by
  rw [t.samples_eq, List.cons_append, List.singleton_append, decides_direct_cons,
    decides_direct_cons]

/-- Whether a touch comes no earlier than the end of another one, and makes no double tap with
it where that one was not held for long. -/
def Apart (s : RecognizerSettings) (limits : Thresholds) (t t' : StillTouch) : Prop :=
  t.up.time ≤ t'.down.time ∧ (t.isPressed s = false → t.pairsWith t' s limits = false)

instance (s : RecognizerSettings) (limits : Thresholds) (t t' : StillTouch) :
    Decidable (Apart s limits t t') := inferInstanceAs (Decidable (_ ∧ _))

/-- The touches to come are reported one by one after what is left of the last touch. -/
theorem decides_of_rests (hp : p.Unfiltered settings limits) (h : p.Rests settings last)
    (ts : List StillTouch) (hclock : ∀ t ∈ ts.head?, p.clock ≤ t.down.time)
    (hlast : ∀ t' ∈ last, ∀ t ∈ ts.head?, t'.pairsWith t settings limits = false)
    (hts : ts.IsChain (Apart settings limits)) :
    p.decides (direct (ts.flatMap (·.samples))) = owed last ++ ts.map (·.reading settings) := by
  induction ts generalizing p last with
  | nil =>
    rw [List.map_nil, List.append_nil]
    exact decides_flush_of_rests h
  | cons t ts ih =>
    obtain ⟨hnext, hrest⟩ := List.isChain_cons.mp hts
    obtain ⟨hholds, hdown⟩ := feed_down_of_rests hp (hclock t rfl) h
      fun t' ht' => hlast t' ht' t rfl
    have hp' := hp.feed (.pointer t.down)
    obtain ⟨hrests, hup⟩ := feed_up hp' hholds
    have hlater : ((p.feed (.pointer t.down)).1.feed (.pointer t.up)).1.clock = t.up.time :=
      clock_pointer (hholds.clock ▸ t.timely)
    have hreports := ih (hp'.feed (.pointer t.up)) hrests
      (fun t' ht' => hlater ▸ (hnext t' ht').1) ?_ hrest
    · rw [List.flatMap_cons, decides_touch, hdown, hup, hreports, List.map_cons,
        StillTouch.reading]
      cases t.isPressed settings <;> rfl
    · intro t' ht'
      cases hpressed : t.isPressed settings with
      | true =>
        rw [hpressed] at ht'
        cases ht'
      | false =>
        rw [hpressed] at ht'
        cases ht'
        exact fun t' ht' => (hnext t' ht').2 hpressed

/-- **Touches of their own are reported one by one.** Feed a pipeline that was just built
without any preference for the filter the touches of a finger that does not move, however
long each is, and flush it. If no two that follow one another make a double tap, one report
comes of each, in their order: the long press of one that was held for longer than the
timeout, and a tap of any other. With plain stages behind the recognizer the run reports
just that. -/
theorem still_touches_reported {plan : Plan} (hbuild : plan.build = .ok p)
    (hpolicy : FilterPolicy.ofSettings plan.config.filter = .none) (ts : List StillTouch)
    (hts : ts.IsChain (Apart plan.config.recognizer plan.thresholds)) :
    p.decides (direct (ts.flatMap (·.samples))) =
        ts.map (·.reading plan.config.recognizer) ∧
      (plan.output.IsPlain →
        decisionsOf (p.run (direct (ts.flatMap (·.samples)))).2.2 =
          ts.map (·.reading plan.config.recognizer)) := by
  have hrests : p.Rests plan.config.recognizer none := by
    rw [eq_built hbuild]
    exact (Recognizer.idle_new _ _).settled
  have hdecides : p.decides (direct (ts.flatMap (·.samples))) =
      ts.map (·.reading plan.config.recognizer) := by
    refine decides_of_rests (unfiltered_of_build hbuild hpolicy) hrests ts ?_ ?_ hts
    · intro t _
      rw [clock_of_build hbuild]
      exact UInt64.zero_le
    · intro t ht
      cases ht
  refine ⟨hdecides, fun hplain => ?_⟩
  rw [← output_of_build hbuild] at hplain
  rw [decisionsOf_run hplain, hdecides]

/-- Three touches of which the first lasts just as long as the timeout of a long press, the
second one lasts longer, and the third one follows it at once. -/
theorem still_touches_reported_held :
    let plan : Plan := { listener := some .attentive, output := [.sink] }
    let ts : List StillTouch :=
      [.touch .zero 0 300000 (by decide), .touch .zero 700000 1100000 (by decide),
        .touch .zero 1200000 1250000 (by decide)]
    (plan.build = .ok plan.built ∧ FilterPolicy.ofSettings plan.config.filter = .none ∧
        ts.IsChain (Apart plan.config.recognizer plan.thresholds) ∧ plan.output.IsPlain) ∧
      ts.map (·.reading plan.config.recognizer) =
        [.completed .tap, .longPress (.touch .down .zero 700000), .completed .tap] ∧
      plan.built.decides (direct (ts.flatMap (·.samples))) =
        ts.map (·.reading plan.config.recognizer) ∧
      decisionsOf (plan.built.run (direct (ts.flatMap (·.samples)))).2.2 =
        ts.map (·.reading plan.config.recognizer) := by
  intro plan ts
  have hbuild : plan.build = .ok plan.built := build_eq_built rfl check_default
  have hts : ts.IsChain (Apart plan.config.recognizer plan.thresholds) := by decide +kernel
  have hplain : plan.output.IsPlain := by decide
  obtain ⟨hdecides, hreports⟩ := still_touches_reported hbuild rfl ts hts
  exact ⟨⟨hbuild, rfl, hts, hplain⟩, by decide +kernel, hdecides, hreports hplain⟩

/-! ## Two taps -/

/-- The second of two taps that are near enough begins a double tap, or the wait for it is
over. -/
theorem feed_second_down (hp : p.Unfiltered settings limits) (hclock : p.clock ≤ t'.down.time)
    (h : p.Rests settings (some t)) (hpair : t.pairsWith t' settings limits = true) :
    (p.IsOver (t.waitEnd settings) t'.down.time ∧
        (p.feed (.pointer t'.down)).1.Holds t'.down false ∧
        p.decides [.feed (.pointer t'.down)] = [.completed .tap]) ∨
      (¬ p.IsOver (t.waitEnd settings) t'.down.time ∧
        (p.feed (.pointer t'.down)).1.Holds t'.down true ∧
        p.decides [.feed (.pointer t'.down)] = []) := by
  rcases caughtUp_of_awaits h hclock with ⟨hover, hsettled, htap⟩ | ⟨hwaits, hsame, hnothing⟩
  · have hdown := feed_down_of_settled hp hclock hsettled
    rw [htap] at hdown
    exact Or.inl ⟨hover, hdown⟩
  · have hawaits : p.recognizer.Awaits t.down t.up (t.waitEnd settings) := h
    rw [← hp.settings, ← hp.thresholds, ← hawaits.isSecondTap_eq] at hpair
    rw [← hsame] at hawaits hpair
    have haccepts := Recognizer.accepts_down hawaits.consistent hawaits.recognizing t'
    have hholds := feed_down hp hclock hawaits.consistent hawaits.recognizing
    rw [hpair] at hholds
    refine Or.inr ⟨hwaits, hholds, ?_⟩
    rw [(hp.feed_eq t'.down).2, hnothing,
      Recognizer.decisions_of_accepts haccepts t'.down_single.position_eq, hpair]
    rfl

/-- **Two taps make a double tap while the first one waits.** Take a pipeline without any
preference for the filter after any run, in which no interaction is read and no timer is
pending, and feed it two touches of a finger that does not move, neither of which is held for
longer than the timeout. If they are near enough in time and place for a double tap, one is
reported, with the second up, unless the wait of the first tap is over before the second
down. Then two taps are reported. The wait begins at the first down, so it can be over before
the second down although that one follows the first up within the limits. With plain stages
behind the recognizer the run reports just that. -/
theorem tap_pair_reported {plan : Plan} (hbuild : plan.build = .ok p)
    (hpolicy : FilterPolicy.ofSettings plan.config.filter = .none) (past : List Request)
    (hreading : (p.run past).1.recognizer.recognizing = false)
    (htimers : (p.run past).1.nextDeadline = none)
    (hclock : (p.run past).1.clock ≤ t.down.time) (hnext : t.up.time ≤ t'.down.time)
    (hshort : t.isPressed plan.config.recognizer = false)
    (hshort' : t'.isPressed plan.config.recognizer = false)
    (hpair : t.pairsWith t' plan.config.recognizer plan.thresholds = true) :
    let tapped := (((p.run past).1.feed (.pointer t.down)).1.feed (.pointer t.up)).1
    let reading : List Decision :=
      if tapped.IsOver (t.waitEnd plan.config.recognizer) t'.down.time then
        [.completed .tap, .completed .tap]
      else [.doubleTap t'.up]
    (p.run past).1.decides (direct (t.samples ++ t'.samples)) = reading ∧
      (plan.output.IsPlain →
        decisionsOf ((p.run past).1.run (direct (t.samples ++ t'.samples))).2.2 = reading) := by
  intro tapped reading
  have hp := (unfiltered_of_build hbuild hpolicy).run past
  have hidle := (stages_run hbuild past).2.1.idle hreading (pending_of_nextDeadline htimers)
  have hrests : (p.run past).1.Rests plan.config.recognizer none := hidle.settled
  -- the first touch reports nothing and waits
  obtain ⟨hholds, hdown⟩ := feed_down_of_rests hp hclock hrests fun t' ht' => by cases ht'
  have hp' := hp.feed (.pointer t.down)
  obtain ⟨hwaiting, hup⟩ := feed_up hp' hholds
  rw [hshort] at hwaiting hup
  have htapped : tapped.Unfiltered plan.config.recognizer plan.thresholds :=
    hp'.feed (.pointer t.up)
  have hlater : tapped.clock = t.up.time := clock_pointer (hholds.clock ▸ t.timely)
  have hsplit : (p.run past).1.decides (direct (t.samples ++ t'.samples)) =
      owed none ++ ([] ++ (tapped.decides [.feed (.pointer t'.down)] ++
        ((tapped.feed (.pointer t'.down)).1.decides [.feed (.pointer t'.up)] ++
          ((tapped.feed (.pointer t'.down)).1.feed (.pointer t'.up)).1.decides [.flush]))) := by
    have hsecond := decides_touch tapped t' []
    rw [List.append_nil] at hsecond
    rw [decides_touch, hdown, hup]
    exact congrArg _ (congrArg _ hsecond)
  have hp'' := htapped.feed (.pointer t'.down)
  have hdecides : (p.run past).1.decides (direct (t.samples ++ t'.samples)) = reading := by
    rcases feed_second_down htapped (hlater ▸ hnext) hwaiting hpair with
      ⟨hover, hholds', hdown'⟩ | ⟨hwaits, hholds', hdown'⟩
    · obtain ⟨hrests', hup'⟩ := feed_up hp'' hholds'
      rw [hshort'] at hrests' hup'
      have htaps : reading = [.completed .tap, .completed .tap] := if_pos hover
      rw [htaps, hsplit, hdown', hup', decides_flush_of_rests hrests']
      rfl
    · obtain ⟨hrests', hup'⟩ := feed_secondUp hp'' hholds' hshort'
      have htap : reading = [.doubleTap t'.up] := if_neg hwaits
      rw [htap, hsplit, hdown', hup', decides_flush_of_rests hrests']
      rfl
  refine ⟨hdecides, fun hplain => ?_⟩
  rw [← output_of_build hbuild] at hplain
  rw [decisionsOf_run_after hplain, hdecides]

/-- A second down that comes just when the wait ends, in a pipeline that has reported a tap
before. -/
theorem tap_pair_reported_at_end :
    let plan : Plan := { listener := some .attentive, output := [.sink] }
    let past := direct (StillTouch.touch .zero 0 50000 (by decide)).samples
    let t := StillTouch.touch .zero 1000000 1050000 (by decide)
    let t' := StillTouch.touch .zero 1300000 1350000 (by decide)
    let p := (plan.built.run past).1
    (plan.build = .ok plan.built ∧ FilterPolicy.ofSettings plan.config.filter = .none ∧
        p.recognizer.recognizing = false ∧ p.nextDeadline = none ∧ p.clock ≤ t.down.time ∧
        t.up.time ≤ t'.down.time ∧ t.isPressed plan.config.recognizer = false ∧
        t'.isPressed plan.config.recognizer = false ∧
        t.pairsWith t' plan.config.recognizer plan.thresholds = true ∧ plan.output.IsPlain) ∧
      t.waitEnd plan.config.recognizer = t'.down.time ∧
      p.decides (direct (t.samples ++ t'.samples)) = [.doubleTap t'.up] ∧
      decisionsOf ((plan.built.run past).1.run (direct (t.samples ++ t'.samples))).2.2 =
        [.doubleTap t'.up] := by
  intro plan past t t' p
  have hbuild : plan.build = .ok plan.built := build_eq_built rfl check_default
  have hreading : p.recognizer.recognizing = false := by decide +kernel
  have htimers : p.nextDeadline = none := by decide +kernel
  have hpair : t.pairsWith t' plan.config.recognizer plan.thresholds = true := by decide +kernel
  have hplain : plan.output.IsPlain := by decide
  obtain ⟨hdecides, hreports⟩ := tap_pair_reported hbuild rfl past hreading htimers (t := t)
    (by decide +kernel) (by decide) (by decide +kernel) (by decide +kernel) hpair
  refine ⟨⟨hbuild, rfl, hreading, htimers, by decide +kernel, by decide, by decide +kernel,
    by decide +kernel, hpair, hplain⟩, by decide +kernel, hdecides.trans ?_,
    (hreports hplain).trans ?_⟩
  all_goals decide +kernel

/-- A second down 250 ms after the first up, but 350 ms after the first down: the wait is over,
and two taps are reported. -/
theorem tap_pair_reported_apart :
    let plan : Plan := { listener := some .attentive, output := [.sink] }
    let t := StillTouch.touch .zero 0 100000 (by decide)
    let t' := StillTouch.touch .zero 350000 400000 (by decide)
    (plan.build = .ok plan.built ∧ FilterPolicy.ofSettings plan.config.filter = .none ∧
        plan.built.recognizer.recognizing = false ∧ plan.built.nextDeadline = none ∧
        plan.built.clock ≤ t.down.time ∧ t.up.time ≤ t'.down.time ∧
        t.isPressed plan.config.recognizer = false ∧
        t'.isPressed plan.config.recognizer = false ∧
        t.pairsWith t' plan.config.recognizer plan.thresholds = true) ∧
      plan.built.decides (direct (t.samples ++ t'.samples)) ≠ [.doubleTap t'.up] ∧
      plan.built.decides (direct (t.samples ++ t'.samples)) =
        [.completed .tap, .completed .tap] ∧
      decisionsOf (plan.built.run (direct (t.samples ++ t'.samples))).2.2 =
        [.completed .tap, .completed .tap] := by
  intro plan t t'
  have hbuild : plan.build = .ok plan.built := build_eq_built rfl check_default
  exact ⟨⟨hbuild, by decide +kernel⟩, by decide +kernel⟩

end Pipeline

end TouchStream
