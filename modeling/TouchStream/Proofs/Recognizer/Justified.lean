import TouchStream.Proofs.Recognizer.FirstTap

/-!
# What the reports of taps go back to

A tap, a double tap and a long press are reported long after the samples that they are
reported for, by flags and timers that outlive an interaction. Each report goes back to
samples of the run all the same, in every state that a run leads to.

* `of_stationary`: the state in which a tap, a double tap or a long press is reported, and
  the message on which it is.
* `TapJustified`, `DoubleTapJustified`, `LongPressJustified`: what the run was before.
* `tap_reports_justified`: so it is for every report of every run.
-/

namespace TouchStream.Recognizer

variable {r : Recognizer} {d u : Sample} {m : Message} {past before : List Message}
  {position : Point} {now : Micros}

/-! ## The state in which is reported -/

/-- The finger has lifted from a first tap, which was not reported. -/
structure Waits (r : Recognizer) : Prop where
  fingerDown : r.fingerDown = false
  remembers : r.Remembers

/-- Where a first tap waits no interaction is read. -/
theorem Waits.recognizing (h : r.Waits) (hr : r.Consistent) : r.recognizing = false := by
  cases hrecognizing : r.recognizing with
  | false => rfl
  | true => exact absurd (hr.fingerDown hrecognizing) (by simp [h.fingerDown])

theorem classifies_of_isStationary {e : Decision} (h : e.isStationary = true) :
    e.classifies = true := by
  cases e with
  | completed g => rfl
  | doubleTap u => rfl
  | longPress d => rfl
  | started => cases h
  | cancelled s => cases h

theorem not_classifies_giveUp (r : Recognizer) (s : Sample) :
    ∀ e ∈ (r.giveUp s).2, e.classifies = false := by
  rcases giveUp_eq r s with ⟨he, -⟩ | ⟨he, -⟩ <;> rw [he] <;> simp [Decision.classifies]

theorem not_classifies_giveUpDoubleTap (r : Recognizer) (s : Sample) (offset : Float32) :
    ∀ e ∈ (r.giveUpDoubleTap s offset).2, e.classifies = false := by
  rcases giveUpDoubleTap_eq r s offset with ⟨he, -⟩ | ⟨-, he⟩ <;> rw [he]
  · simp
  · exact not_classifies_giveUp _ s

theorem not_classifies_move (r : Recognizer) (s : Sample) :
    ∀ e ∈ (r.move s).decisions, e.classifies = false := by
  rcases move_eq r s with ⟨he, -⟩ |
    ⟨position, given, -, -, hgiven, ⟨-, he⟩ | ⟨-, he⟩ | he | ⟨-, he⟩⟩
  · rw [he]
    simp
  all_goals
    have hg : ∀ e ∈ given.2, e.classifies = false :=
      hgiven ▸ not_classifies_giveUpDoubleTap r s _
    rw [he]
  · exact hg
  · exact List.forall_mem_append.mpr ⟨hg, by simp [Decision.classifies]⟩
  · exact List.forall_mem_append.mpr ⟨hg, not_classifies_giveUp _ s⟩
  · exact hg

/-- The up of a single finger that ends a second tap is the only one that is reported as what
a finger does that stays where it is. -/
theorem up_reports (r : Recognizer) (s : Sample) {e : Decision} (he : e ∈ (r.up s).decisions)
    (hstationary : e.isStationary = true) :
    e = .doubleTap s ∧ s.pointerCount = 1 ∧ r.awaitingSecondUp = true ∧ r.heldLong = false := by
  rcases up_eq r s with ⟨-, heq⟩ | ⟨hone, ⟨-, heq⟩ | ⟨-, ⟨-, -, heq⟩ | ⟨ha, hl, heq⟩ |
    ⟨-, -, heq⟩ | ⟨-, -, heq⟩⟩⟩ <;> rw [heq] at he
  · cases he
  · cases he
  · cases he
  · rcases completeDouble_eq r.clear s with ⟨hc, -⟩ | ⟨hc, -⟩ <;> rw [hc] at he
    · cases he
    · exact ⟨List.mem_singleton.mp he, hone, ha, hl⟩
  · dsimp only at he
    unfold swipeUp at he
    split at he
    · rename_i g hg
      rcases complete_eq r g with ⟨hc, -⟩ | ⟨hc, -⟩ <;> rw [hc] at he
      · cases he
      · -- no route is read as a tap
        obtain rfl := List.mem_singleton.mp he
        simp [Decision.isStationary, Accounts.recognize_ne_tap hg] at hstationary
    · have hclassifies := classifies_of_isStationary hstationary
      rw [not_classifies_giveUp r s e he] at hclassifies
      cases hclassifies
  · cases he

/-- What is reported as time goes by: a tap that waits, or the long press of the last down
when its timer is due. -/
theorem advance_reports (r : Recognizer) (now : Micros) :
    ∀ e ∈ (r.advance now).2, (e = .completed .tap ∧ r.Waits) ∨
      ∃ d t, e = .longPress d ∧ r.lastDown = some d ∧ t ∈ r.timers.pending ∧
        t.kind = .longPress ∧ t.deadline ≤ now := by
  have hkeeps := @advance_keeps_of_due
    (fun q ds => (q.lastDown = r.lastDown ∧ (∀ t ∈ q.timers.pending, t ∈ r.timers.pending) ∧
        (q.Waits → r.Waits)) ∧
      ∀ e ∈ ds, (e = .completed .tap ∧ r.Waits) ∨
        ∃ d t, e = .longPress d ∧ r.lastDown = some d ∧ t ∈ r.timers.pending ∧
          t.kind = .longPress ∧ t.deadline ≤ now) now ?_ r [] ⟨⟨rfl, fun _ => id, id⟩, by simp⟩
  · exact hkeeps.2
  · rintro q ds t ht hdue ⟨⟨hlast, hold, hwaits⟩, hds⟩
    have hlast' := ((Kept.expire q t.kind).lastDown).trans hlast
    have hold' : ∀ t' ∈ (q.expire t.kind).1.timers.pending, t' ∈ r.timers.pending := fun t' ht' =>
      hold t' (((rearmed_expire q t.kind).mem_pending ht').resolve_right id)
    rw [List.forall_mem_append]
    rcases expire_eq q t.kind with he | ⟨-, hfinger, hfirst, hclassified, he⟩ | ⟨hk, -, -, -, he⟩
    · refine ⟨⟨hlast', hold', fun h => ?_⟩, hds, by simp [he]⟩
      rw [he] at h
      exact hwaits ⟨h.fingerDown, h.remembers.firstTap, h.remembers.classified⟩
    · refine ⟨⟨hlast', hold', fun h => ?_⟩, hds, fun e hmem => ?_⟩
      · rw [he] at h
        cases h.remembers.firstTap
      · rw [he] at hmem
        exact Or.inl ⟨List.mem_singleton.mp hmem, hwaits ⟨hfinger, hfirst, hclassified⟩⟩
    · refine ⟨⟨hlast', hold', fun h => ?_⟩, hds, fun e hmem => ?_⟩
      · rw [he] at h
        cases h.remembers.classified
      · rw [he] at hmem
        obtain ⟨d, hd, rfl⟩ := Option.map_eq_some_iff.mp (Option.mem_toList.mp hmem)
        exact Or.inr ⟨d, t, rfl, hlast.symm.trans hd, hold t ht, hk, hdue⟩

/-- An accepted down reports at most a tap that waits. -/
theorem down_reports (hm : r.accepts m = true) {e : Decision} (he : e ∈ r.decides m) :
    e = .completed .tap ∧ r.Waits := by
  obtain ⟨d, rfl⟩ := exists_pointer_of_accepts hm
  obtain ⟨position, hposition, -⟩ := pointer_of_accepts hm
  rw [decides_pointer, decisions_of_accepts hm hposition] at he
  split at he
  · cases he
  · rw [beginTap_decisions] at he
    split at he
    · rename_i hwaits
      simp only [Bool.and_eq_true, Bool.not_eq_true'] at hwaits
      obtain ⟨⟨⟨-, hfirst⟩, hfinger⟩, hclassified⟩ := hwaits
      exact ⟨List.mem_singleton.mp he, hfinger, hfirst, hclassified⟩
    · cases he

/-- **The state in which a finger that stays where it is is reported**, and on which message. -/
theorem of_stationary {e : Decision} (he : e ∈ r.decides m)
    (hstationary : e.isStationary = true) :
    (e = .completed .tap ∧ r.Waits) ∨
      (∃ u, e = .doubleTap u ∧ m = .event (.pointer u) ∧ u.isFingerUp = true ∧
        r.awaitingSecondUp = true ∧ r.heldLong = false) ∨
      (∃ d now t, e = .longPress d ∧ m = .time now ∧ r.lastDown = some d ∧
        t ∈ r.timers.pending ∧ t.kind = .longPress ∧ t.deadline ≤ now) := by
  cases hm : r.accepts m with
  | true => exact Or.inl (down_reports hm he)
  | false =>
    have hclassifies := classifies_of_isStationary hstationary
    have hnot (hfalse : e.classifies = false) : False := by
      rw [hfalse] at hclassifies
      cases hclassifies
    revert he
    refine receive_cases (P := fun _ ds => e ∈ ds → _) hm (fun he => ?_) (fun he => ?_)
      (fun s _ he => (hnot (not_classifies_move r s e he)).elim) ?up
      (fun s _ he => (hnot (not_classifies_giveUp r.clear s e he)).elim) ?time (fun _ he => ?_)
    case up =>
      rintro s ⟨hs, hsource, haction⟩ he
      obtain ⟨rfl, hone, hawaiting, hheld⟩ := up_reports r s he hstationary
      exact Or.inr (Or.inl ⟨s, rfl, hs, by simp [Sample.isFingerUp, hsource, haction, hone],
        hawaiting, hheld⟩)
    case time =>
      intro now htime he
      rcases advance_reports r now e he with htap | ⟨d, t, rfl, hd, ht, hk, hdue⟩
      · exact Or.inl htap
      · exact Or.inr (Or.inr ⟨d, now, t, rfl, htime, hd, ht, hk, hdue⟩)
    all_goals cases he

/-! ## What reports go back to -/

/-- The down `d` after a run is the second of a double tap: it comes after the up of a tap,
since which nothing was decided, with a gap within the limits, and within the slop of the
last accepted down before it. -/
structure FollowsTap (r : Recognizer) (before : List Message) (d : Sample) (position : Point) :
    Prop where
  tapped : ∃ run u between, before = run ++ between ∧ r.EndsTap run u ∧
    (r.after run).isQuiet between = true ∧
    r.settings.minDoubleTapInterval ≤ d.time.since u.time ∧
    d.time.since u.time ≤ r.settings.doubleTapTimeout
  near : ∃ earlier e since first, r.LastDown before earlier e since ∧ e.position = some first ∧
    first.distanceSquared position < r.thresholds.tapSlopSquared

/-- The tap that is reported after a run: the up of a tap is the last thing that counts. No
down was accepted since, and nothing was decided. -/
def TapJustified (r : Recognizer) (past : List Message) : Prop :=
  ∃ run u later, past = run ++ later ∧ r.EndsTap run u ∧ (r.after run).interactions later = ([], [])

/-- The double tap that is reported after a run: the last accepted down is the second of a
double tap, its interaction is read, nothing was decided in it, and no move led too far. -/
def DoubleTapJustified (r : Recognizer) (past : List Message) : Prop :=
  ∃ before d since position, r.LastDown past before d since ∧ d.position = some position ∧
    r.FollowsTap before d position ∧
    (r.after (before ++ [.event (.pointer d)])).reads since = true ∧
    ((r.after (before ++ [.event (.pointer d)])).interactions since).1 = [] ∧
    ∀ m ∈ since, m.strays r.settings.touchSlop position = false ∧
      m.strays r.thresholds.swipeStart position = false

/-- The long press of `d` that is reported after a run, when the clock comes to `now`: `d` is
the last accepted down, it is long past, its interaction is read, nothing interrupted it, and
no move led too far. -/
def LongPressJustified (r : Recognizer) (past : List Message) (d : Sample) (now : Micros) : Prop :=
  d.time.later r.settings.longPressTimeout ≤ now ∧
    ∃ before since position, r.LastDown past before d since ∧ d.position = some position ∧
      (r.after (before ++ [.event (.pointer d)])).reads since = true ∧
      ∀ m ∈ since, m.interrupts = false ∧ m.strays r.thresholds.swipeStart position = false

theorem Unused.tapJustified (hr : r.Unused) (h : (r.after past).Waits) : r.TapJustified past := by
  obtain ⟨run, u, later, hpast, hends, -, hquiet, hover⟩ := hr.exists_endsTap h.remembers
  have hrecognizing := h.recognizing (hr.consistent.after past)
  exact ⟨run, u, later, hpast, hends, Prod.ext (interactions_of_isQuiet hquiet)
    (hover hrecognizing)⟩

/-- A down that is taken for a second tap is one. -/
theorem Unused.followsTap (hr : r.Unused)
    (hm : (r.after before).accepts (.event (.pointer d)) = true)
    (hposition : d.position = some position)
    (hsecond : (r.after before).isSecondTap d position = true) :
    r.FollowsTap before d position := by
  obtain ⟨hsettings, hthresholds⟩ := settings_after r before
  have hremembers : (r.after before).Remembers := by
    have hp : (((r.after before).pointer d).state).Remembers := by
      obtain ⟨position', hposition', hp⟩ := pointer_of_accepts hm
      obtain rfl : position = position' := Option.some.inj (hposition.symm.trans hposition')
      rw [hp, if_pos hsecond]
      refine ⟨?_, rfl⟩
      show (r.after before).firstTapDone = true
      unfold isSecondTap at hsecond
      split at hsecond
      · simp only [Bool.and_eq_true] at hsecond
        exact hsecond.1.1.1
      · cases hsecond
    exact (Recalls.accept (hr.consistent.after before) hm hp).remembers
  obtain ⟨run, u, between, hbefore, hends, hlastUp, hquiet, -⟩ := hr.exists_endsTap hremembers
  unfold isSecondTap at hsecond
  rw [hlastUp, hsettings, hthresholds] at hsecond
  cases hlastDown : (r.after before).lastDown with
  | none =>
    rw [hlastDown] at hsecond
    cases hsecond
  | some e =>
    rw [hlastDown] at hsecond
    obtain ⟨earlier, since, hlast⟩ := exists_lastDown hr.lastDown hlastDown
    simp only [Bool.and_eq_true, decide_eq_true_eq] at hsecond
    obtain ⟨⟨⟨-, hlong⟩, hshort⟩, hnear⟩ := hsecond
    refine ⟨⟨run, u, between, hbefore, hends, hquiet, hlong, hshort⟩, ?_⟩
    split at hnear
    · rename_i first hfirst
      exact ⟨earlier, e, since, first, hlast, hfirst, by simpa using hnear⟩
    · cases hnear

theorem Unused.doubleTapJustified (hr : r.Unused)
    (hawaiting : (r.after past).awaitingSecondUp = true)
    (hheld : (r.after past).heldLong = false) : r.DoubleTapJustified past := by
  have hsteady := (hr.consistent.after past).steady hawaiting hheld
  obtain ⟨before, d, since, hlast, -, hreads, hrested⟩ := hr.exists_rested hsteady
  obtain ⟨position, hposition, -⟩ := pointer_of_accepts hlast.accepted
  obtain ⟨hbegun, hmoves⟩ := hrested.awaiting hawaiting
  have hsilent := hrested.silent (hawaiting.trans hbegun.symm)
  obtain ⟨hsettings, hthresholds⟩ := settings_after r (before ++ [.event (.pointer d)])
  have hundisturbed := hrested.undisturbed
  have hanchor := anchor_of_accepts hlast.accepted hposition
  have hheld := held_of_accepts (hr.consistent.after before) hlast.accepted hposition
  rw [hthresholds, after_concat, hanchor] at hundisturbed
  rw [hsettings, after_concat, hanchor] at hmoves
  rw [after_concat] at hbegun
  exact ⟨before, d, since, position, hlast, hposition,
    hr.followsTap hlast.accepted hposition (hheld.2.1.symm.trans hbegun), hreads, hsilent,
    fun m hm => ⟨hmoves m hm, (hundisturbed m hm).2⟩⟩

theorem Unused.longPressJustified (hr : r.Unused) (hd : (r.after past).lastDown = some d)
    {t : PendingTimer RecognizerTimer} (ht : t ∈ (r.after past).timers.pending)
    (hk : t.kind = .longPress) (hdue : t.deadline ≤ now) : r.LongPressJustified past d now := by
  have hsteady : (r.after past).Steady := by
    obtain ⟨hrecognizing, hswiping, hclassified⟩ :=
      (hr.consistent.after past).longPress (Timers.isPending_iff.mpr ⟨t, ht, hk⟩)
    refine ⟨hrecognizing, hswiping, ?_⟩
    cases hl : (r.after past).heldLong with
    | false => rfl
    | true => exact absurd (hr.reported.after past hl) (by simp [hclassified])
  obtain ⟨before, d', since, hlast, hd', hreads, hrested⟩ := hr.exists_rested hsteady
  obtain rfl : d = d' := Option.some.inj (hd.symm.trans hd')
  obtain ⟨position, hposition, -⟩ := pointer_of_accepts hlast.accepted
  obtain ⟨hsettings, hthresholds⟩ := settings_after r (before ++ [.event (.pointer d)])
  have hheld := (held_of_accepts (hr.consistent.after before) hlast.accepted hposition).1
  have hundisturbed := hrested.undisturbed
  rw [hthresholds, after_concat, anchor_of_accepts hlast.accepted hposition] at hundisturbed
  rw [after_concat] at hsettings
  have hpending := hrested.timers t ht
  rw [after_concat] at hpending
  -- the timer is the one that the down has armed
  have hdeadline := hheld.deadline_longPress hpending hk
  refine ⟨?_, before, since, position, hlast, hposition, hreads, hundisturbed⟩
  rw [← hsettings]
  exact hdeadline ▸ hdue

/-- **Every report of a tap, a double tap or a long press is justified.** Take any run of a
new recognizer and the next message. A tap is reported on it only for the last interaction,
whose down began a tap of its own, whose up was that of a single finger, and for which
nothing was reported before. A double tap is reported only on the up of a single finger,
whose down was the second of a double tap, and since which nothing was reported and no move
led too far. A long press is reported only on a reading of the clock, at its deadline or
later, for the last down, and only where nothing has ended the touch or led it too far since
then. -/
theorem tap_reports_justified (settings : RecognizerSettings) (display : Option Display)
    (past : List Message) (m : Message) :
    (.completed .tap ∈ ((new settings display).after past).decides m →
        (new settings display).TapJustified past) ∧
      (∀ u, .doubleTap u ∈ ((new settings display).after past).decides m →
        m = .event (.pointer u) ∧ u.isFingerUp = true ∧
          (new settings display).DoubleTapJustified past) ∧
      (∀ d, .longPress d ∈ ((new settings display).after past).decides m →
        ∃ now, m = .time now ∧ (new settings display).LongPressJustified past d now) := by
  have hr := unused_new settings display
  refine ⟨fun hmem => ?_, fun u hmem => ?_, fun d hmem => ?_⟩
  · rcases of_stationary hmem rfl with ⟨-, hwaits⟩ | ⟨_, he, -⟩ | ⟨_, _, _, he, -⟩
    · exact hr.tapJustified hwaits
    · cases he
    · cases he
  · rcases of_stationary hmem rfl with
      ⟨he, -⟩ | ⟨u', he, hm, hu, hawaiting, hheld⟩ | ⟨_, _, _, he, -⟩
    · cases he
    · obtain rfl : u = u' := Decision.doubleTap.inj he
      exact ⟨hm, hu, hr.doubleTapJustified hawaiting hheld⟩
    · cases he
  · rcases of_stationary hmem rfl with
      ⟨he, -⟩ | ⟨_, he, -⟩ | ⟨d', now, t, he, hm, hd, ht, hk, hdue⟩
    · cases he
    · cases he
    · obtain rfl : d = d' := Decision.longPress.inj he
      exact ⟨now, hm, hr.longPressJustified hd ht hk hdue⟩

/-- A tap that is reported when its wait is over, the double tap of two touches, and a long
press that is reported at its deadline. -/
theorem tap_reports_justified_each :
    let touch (action : PointerAction) (time : Micros) : Sample := .touch action ⟨0, 0⟩ time
    let first : List Message :=
      [.event (.pointer (touch .down 0)), .event (.pointer (touch .up 50000))]
    let second : List Message := first ++ [.event (.pointer (touch .down 200000))]
    let r := new {} none
    r.TapJustified first ∧ r.DoubleTapJustified second ∧
      r.LongPressJustified [.event (.pointer (touch .down 0))] (touch .down 0) 300000 := by
  intro touch first second r
  have htap := (tap_reports_justified {} none first (.time 300000)).1 (by decide +kernel)
  have hdouble := (tap_reports_justified {} none second
    (.event (.pointer (touch .up 250000)))).2.1 (touch .up 250000) (by decide +kernel)
  obtain ⟨now, hnow, hlong⟩ := (tap_reports_justified {} none [.event (.pointer (touch .down 0))]
    (.time 300000)).2.2 (touch .down 0) (by decide +kernel)
  obtain rfl : 300000 = now := Message.time.inj hnow
  exact ⟨htap, hdouble.2.2, hlong⟩

end TouchStream.Recognizer
