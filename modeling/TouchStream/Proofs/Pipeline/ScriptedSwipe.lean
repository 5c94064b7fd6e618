import TouchStream.Proofs.Pipeline.StillTouches
import TouchStream.Proofs.Recognizer.Swipe
import TouchStream.Proofs.ScriptedPath

/-!
# Scripted swipes

A finger that follows a scripted path of long strides swipes from its first move on, and what is
reported is read off the route that was recorded. The second position of the path is missing
there, for a swipe starts without the position that it starts with. Where that position lies on
the way nothing changes, but a turn there is lost.

* `decides_swipe`: a swipe that has started, up to the flush.
* `scripted_swipe_reported`: a scripted path is reported as its recorded route.
-/

namespace TouchStream

/-! ## The samples of a path -/

namespace ScriptedPath

variable {path : ScriptedPath} {steps k : Nat}

theorem movesFrom_cons (path : ScriptedPath) (steps k : Nat) (q : Point) (qs : List Point) :
    path.movesFrom steps k (q :: qs) =
      .touch .move q (path.moveTime steps k) :: path.movesFrom steps (k + 1) qs := by
  simp only [movesFrom, List.mapIdx_cons, Nat.zero_add, Nat.add_right_comm _ 1 k, Nat.add_assoc]

theorem points_movesFrom (path : ScriptedPath) (steps k : Nat) (qs : List Point) :
    (path.movesFrom steps k qs).map Sample.point = qs := by
  induction qs generalizing k with
  | nil => rfl
  | cons q qs ih =>
    rw [movesFrom_cons, List.map_cons, ih]
    rfl

theorem isSingle_of_mem_movesFrom {m : Sample} {qs : List Point}
    (h : m ∈ path.movesFrom steps k qs) : m.IsSingle .move := by
  obtain ⟨i, hi, rfl⟩ := List.mem_mapIdx.mp h
  exact Sample.isSingle_touch _ _ _

end ScriptedPath

namespace Pipeline

variable {p : Pipeline} {settings : RecognizerSettings} {limits : Thresholds} {u : Sample}
  {route : List Point} {last anchor : Point} {time : Micros}

/-! ## A swipe -/

/-- Where the recognizer has no timer, nothing of it fires before a sample. -/
theorem caughtUp_of_no_timer (h : p.recognizer.timers.pending = []) (time : Micros) :
    (p.caughtUp time).recognizer = p.recognizer ∧ p.early time = [] := by
  rw [caughtUp, early, catchUp_eq_if]
  split
  · rw [advance_eq_elapsed, Recognizer.advance_of_no_timer h]
    refine ⟨?_, rfl⟩
    show (p.recognizer.advance _).1 = p.recognizer
    rw [Recognizer.advance_of_no_timer h]
  · exact ⟨rfl, rfl⟩

theorem feed_of_no_timer (hp : p.Unfiltered settings limits)
    (h : p.recognizer.timers.pending = []) (s : Sample) :
    (p.feed (.pointer s)).1.recognizer = (p.recognizer.pointer s).state ∧
      p.decides [.feed (.pointer s)] = (p.recognizer.pointer s).decisions := by
  obtain ⟨hsame, hnothing⟩ := caughtUp_of_no_timer h s.time
  have hfeed := hp.feed_eq s
  rw [hsame, hnothing] at hfeed
  exact hfeed

/-- A swipe that goes on in strides decides nothing until it is read at its up. -/
theorem decides_swipe (hp : p.Unfiltered settings limits)
    (h : p.recognizer.Swipes route last anchor) (ms : List Sample)
    (hms : ∀ m ∈ ms, m.IsSingle .move) (hu : u.IsSingle .up)
    (hstrides : (anchor :: ms.map Sample.point).IsChain limits.IsStride) :
    p.decides (direct (ms ++ [u])) =
      [Route.reading (route ++ limits.sampled last (ms.map Sample.point ++ [u.point])) u] := by
  induction ms generalizing p route last anchor with
  | nil =>
    obtain ⟨hstate, hdecides⟩ := feed_of_no_timer hp h.timers u
    obtain ⟨htimers, hread⟩ := h.up hu
    have hflush : (p.feed (.pointer u)).1.decides (direct []) = [] := by
      rw [direct, List.map_nil, List.nil_append, decides_flush, hstate,
        Recognizer.advance_of_no_timer htimers]
    rw [List.nil_append, decides_direct_cons, hdecides, hread, hflush, hp.thresholds]
    rfl
  | cons m ms ih =>
    obtain ⟨hm, hms⟩ := List.forall_mem_cons.mp hms
    obtain ⟨hstride, hrest⟩ := List.isChain_cons_cons.mp hstrides
    obtain ⟨hstate, hdecides⟩ := feed_of_no_timer hp h.timers m
    have hfar : p.recognizer.thresholds.swipeStart < anchor.distance m.point := by
      rw [hp.thresholds]
      exact hstride.1
    obtain ⟨hmove, route', last', hswipes, hroute⟩ := h.move hm hfar
    rw [hp.thresholds] at hroute
    rw [← hstate] at hswipes
    have hlater := ih (hp.feed (.pointer m)) hswipes hms hrest
    rw [List.cons_append, decides_direct_cons, hdecides, hmove, hlater, hroute]
    rfl

/-! ## A path -/

/-- A down of a single finger is that of a touch that does not move. -/
theorem exists_stillTouch {d : Sample} (hd : d.IsSingle .down) : ∃ t : StillTouch, t.down = d :=
  ⟨{ down := d
     moves := []
     up := d.withAction .up
     down_single := hd
     moves_single := List.forall_mem_nil _
     up_single := ⟨hd.source, rfl, hd.alone⟩
     unmoved := rfl
     timely := UInt64.le_refl _ }, rfl⟩

/-- After a down and a first move that is a stride and comes before the long press, the swipe
has started, and its route holds only the first position. -/
theorem feed_first_stride (hp : p.Unfiltered settings limits) (hr : p.recognizer.Settled)
    {d m : Sample} (hd : d.IsSingle .down) (hclock : p.clock ≤ d.time) (hm : m.IsSingle .move)
    (hlater : d.time ≤ m.time) (hsoon : m.time ≤ d.time.later settings.longPressTimeout)
    (hstride : limits.IsStride d.point m.point) :
    p.decides [.feed (.pointer d)] = [] ∧
      (p.feed (.pointer d)).1.decides [.feed (.pointer m)] = [.started] ∧
      ((p.feed (.pointer d)).1.feed (.pointer m)).1.recognizer.Swipes [d.point] d.point
        m.point := by
  -- what a down begins does not depend on what comes after it
  obtain ⟨t, rfl⟩ := exists_stillTouch hd
  obtain ⟨hcaught, hearly⟩ := caughtUp_of_settled hr hclock
  obtain ⟨hholds, hdown⟩ := feed_down_of_settled hp hclock hcaught
  have hrooted : (p.feed (.pointer t.down)).1.recognizer.Rooted t.down.point := by
    rw [(hp.feed_eq t.down).1]
    exact Recognizer.rooted_of_accepts
      (Recognizer.accepts_down hcaught.consistent hcaught.recognizing t) hd.position_eq
  refine ⟨hdown.trans hearly, ?_⟩
  have hp' := hp.feed (.pointer t.down)
  have hwaiting := hholds.caughtUp hlater
  rw [hp'.settings] at hwaiting
  rcases hwaiting with ⟨hover, -, -⟩ | ⟨-, -, hnothing, hsame, -⟩
  · exact absurd hsoon (UInt64.not_le.mpr hover)
  · obtain ⟨hstate, hdecides⟩ := hp'.feed_eq m
    have hstill : ((p.feed (.pointer t.down)).1.caughtUp m.time).recognizer.Rooted
        t.down.point := by
      rw [hsame]
      exact { hrooted with }
    have hawaiting : ((p.feed (.pointer t.down)).1.caughtUp m.time).recognizer.awaitingSecondUp =
        false := by
      rw [hsame]
      exact hholds.awaiting
    have hlimits : ((p.feed (.pointer t.down)).1.caughtUp m.time).recognizer.thresholds =
        limits := by
      rw [hsame]
      exact hp'.thresholds
    obtain ⟨hswipes, hstarted⟩ := hstill.start hawaiting hm (by rw [hlimits]; exact hstride.1)
    rw [hdecides, hnothing, hstarted, hstate]
    exact ⟨rfl, hswipes⟩

/-- A path of strides is a swipe along the positions that the route takes in after the first. -/
theorem decides_path (hp : p.Unfiltered settings limits) (hr : p.recognizer.Settled)
    {path : ScriptedPath} (hclock : p.clock ≤ path.start) {first second : Point}
    {rest : List Point} (hpositions : path.positions = first :: second :: rest)
    (hstrides : (first :: second :: rest).IsChain limits.IsStride)
    (hsoon : path.moveTime (rest.length + 1) 1 ≤ path.start.later settings.longPressTimeout) :
    p.decides (direct path.samples) =
      [.started, Route.reading (first :: limits.sampled first (rest ++ [rest.getLastD second]))
        (.touch .up (rest.getLastD second) path.endTime)] := by
  obtain ⟨hstride, hrest⟩ := List.isChain_cons_cons.mp hstrides
  obtain ⟨hdown, hstarted, hswipes⟩ := feed_first_stride (d := .touch .down first path.start)
    (m := .touch .move second (path.moveTime (rest.length + 1) 1)) hp hr
    (Sample.isSingle_touch _ _ _) hclock (Sample.isSingle_touch _ _ _) (Micros.le_later _ _) hsoon
    hstride
  have hpoints := path.points_movesFrom (rest.length + 1) 2 rest
  have hswipe := decides_swipe ((hp.feed _).feed _) hswipes
    (path.movesFrom (rest.length + 1) 2 rest)
    (u := .touch .up (rest.getLastD second) path.endTime)
    (fun _ hx => ScriptedPath.isSingle_of_mem_movesFrom hx) (Sample.isSingle_touch _ _ _)
    (by rw [hpoints]; exact hrest)
  rw [hpoints] at hswipe
  rw [path.samples_eq hpositions, List.length_cons, path.movesFrom_cons, List.getLastD_cons,
    List.cons_append, decides_direct_cons, decides_direct_cons, hdown, hstarted, hswipe]
  rfl

/-- **A scripted swipe is read off its path without the second position.** Feed a pipeline that
was just built without any preference for the filter the samples of a path of at least two
positions, each a stride from the one before, of which the first move comes no later than the
long press, and flush it. It reports that a swipe started, and then how the recorded route is
read: the gesture of it, or that it was given up. That route is the first position, and of those
from the third on each that lies a step away from the last one recorded. So what is reported is
the reading of the path itself exactly when both have the same reading. Two positions are
recorded as they are, and where the third is a step away from the first, the second position is
all that is missing. With plain stages behind the recognizer the run reports just that. -/
theorem scripted_swipe_reported {plan : Plan} (hbuild : plan.build = .ok p)
    (hpolicy : FilterPolicy.ofSettings plan.config.filter = .none) {path : ScriptedPath}
    {first second : Point} {rest : List Point}
    (hpositions : path.positions = first :: second :: rest)
    (hstrides : path.positions.IsChain plan.thresholds.IsStride)
    (hsoon : path.moveTime (rest.length + 1) 1 ≤
      path.start.later plan.config.recognizer.longPressTimeout) :
    let up := Sample.touch .up (rest.getLastD second) path.endTime
    let recorded := first :: plan.thresholds.sampled first (rest ++ [rest.getLastD second])
    p.decides (direct path.samples) = [.started, Route.reading recorded up] ∧
      (p.decides (direct path.samples) = [.started, Route.reading path.positions up] ↔
        Route.recognize recorded = Route.recognize path.positions) ∧
      (rest = [] → recorded = path.positions) ∧
      (∀ third more, rest = third :: more →
        first.isStepAway third plan.thresholds.stepX plan.thresholds.stepY = true →
        recorded = first :: rest) ∧
      (plan.output.IsPlain →
        decisionsOf (p.run (direct path.samples)).2.2 =
          [.started, Route.reading recorded up]) := by
  intro up recorded
  have hp := unfiltered_of_build hbuild hpolicy
  have hsettled : p.recognizer.Settled := by
    rw [eq_built hbuild]
    exact (Recognizer.idle_new _ _).settled
  have hclock : p.clock ≤ path.start := by
    rw [clock_of_build hbuild]
    exact UInt64.zero_le
  obtain ⟨hstepX, hstepY⟩ : 1 ≤ plan.thresholds.stepX ∧ 1 ≤ plan.thresholds.stepY :=
    Thresholds.one_le_step _ _ _
  rw [hpositions] at hstrides ⊢
  obtain ⟨hstride, hrest⟩ := List.isChain_cons_cons.mp hstrides
  have hdecides : p.decides (direct path.samples) = [.started, Route.reading recorded up] :=
    decides_path hp hsettled hclock hpositions hstrides hsoon
  refine ⟨hdecides, ?_, ?_, ?_, ?_⟩
  · rw [hdecides, List.cons.injEq, List.cons.injEq]
    simp only [true_and, and_true]
    exact Route.reading_eq_iff
  · rintro rfl
    show first :: plan.thresholds.sampled first [second] = [first, second]
    rw [Thresholds.sampled_cons_of_step hstride.2]
    rfl
  · rintro third more rfl hstep
    show first :: plan.thresholds.sampled first (third :: (more ++ [_])) = first :: third :: more
    rw [Thresholds.sampled_cons_of_step hstep, List.getLastD_cons,
      Thresholds.sampled_of_isChain hstepX hstepY (List.isChain_cons_cons.mp hrest).2]
  · intro hplain
    rw [← output_of_build hbuild] at hplain
    rw [decisionsOf_run hplain, hdecides]

/-- A finger that moves to the right in three strides: the first of the two positions on the way
is not recorded, and the path is reported as it is read. -/
theorem scripted_swipe_reported_right :
    let plan : Plan := { listener := some .attentive, output := [.sink] }
    let path : ScriptedPath := ⟨[⟨0, 0⟩, ⟨100, 0⟩, ⟨200, 10⟩, ⟨300, 10⟩], 300000, 0⟩
    (plan.build = .ok plan.built ∧ FilterPolicy.ofSettings plan.config.filter = .none ∧
        path.positions.IsChain plan.thresholds.IsStride ∧
        path.moveTime 3 1 ≤ path.start.later plan.config.recognizer.longPressTimeout ∧
        plan.output.IsPlain) ∧
      Route.recognize path.positions = some (.swipe .right) ∧
      plan.built.decides (direct path.samples) = [.started, .completed (.swipe .right)] ∧
      decisionsOf (plan.built.run (direct path.samples)).2.2 =
        [.started, .completed (.swipe .right)] := by
  intro plan path
  have hbuild : plan.build = .ok plan.built := build_eq_built rfl check_default
  have hstrides : path.positions.IsChain plan.thresholds.IsStride := by decide +kernel
  have hsoon : path.moveTime 3 1 ≤ path.start.later plan.config.recognizer.longPressTimeout := by
    decide +kernel
  have hpositions : path.positions = ⟨0, 0⟩ :: ⟨100, 0⟩ :: [⟨200, 10⟩, ⟨300, 10⟩] := rfl
  have hplain : plan.output.IsPlain := by decide
  obtain ⟨hdecides, -, -, -, hreports⟩ :=
    scripted_swipe_reported hbuild rfl hpositions hstrides hsoon
  refine ⟨⟨hbuild, rfl, hstrides, hsoon, hplain⟩, by decide +kernel, hdecides.trans ?_,
    (hreports hplain).trans ?_⟩
  all_goals decide +kernel

/-- A finger that moves to the right and then back and down: the turn is not recorded, and a
swipe down is reported for a path that is read as one to the right and then down. -/
theorem scripted_turn_lost :
    let plan : Plan := { listener := some .attentive, output := [.sink] }
    let path : ScriptedPath := ⟨[⟨0, 0⟩, ⟨100, 0⟩, ⟨50, 100⟩], 200000, 0⟩
    (plan.build = .ok plan.built ∧ FilterPolicy.ofSettings plan.config.filter = .none ∧
        path.positions.IsChain plan.thresholds.IsStride ∧
        path.moveTime 2 1 < path.start.later plan.config.recognizer.longPressTimeout) ∧
      Route.recognize path.positions = some (.turnedSwipe .right .down) ∧
      plan.built.decides (direct path.samples) ≠
        [.started, .completed (.turnedSwipe .right .down)] ∧
      plan.built.decides (direct path.samples) = [.started, .completed (.swipe .down)] ∧
      decisionsOf (plan.built.run (direct path.samples)).2.2 =
        [.started, .completed (.swipe .down)] := by
  intro plan path
  have hbuild : plan.build = .ok plan.built := build_eq_built rfl check_default
  exact ⟨⟨hbuild, by decide +kernel⟩, by decide +kernel⟩

end Pipeline

end TouchStream
