import TouchStream.Proofs.Recognizer.Phases
import TouchStream.Proofs.Recognizer.Traced
import TouchStream.Proofs.TouchFilter.Touch

/-!
# The route of a swipe

A finger that came down and has not moved is rooted (`Rooted`). Its first move far from there
starts a swipe, and that move adds nothing to the route. From then on the anchor follows the
finger, no timer is pending, and each position that lies a step away from the last point of the
route is added to it (`Swipes`), up to the one where the finger lifts.

* `Thresholds.sampled`: which positions a route takes in.
* `Rooted.start`, `Swipes.move`, `Swipes.up`: a far move in each phase, and the up.
* `Point.not_isStepAway_self`: no position lies a step away from itself.
-/

namespace TouchStream

/-! ## Positions that stay -/

namespace Single

open Float.Model (UnpackedFloat Format)

theorem unpacked_sub_self (u : UnpackedFloat) :
    UnpackedFloat.sub Format.binary32 u u = .notANumber ∨
      UnpackedFloat.sub Format.binary32 u u = .zero .positive := by
  cases u with
  | notANumber => exact Or.inl rfl
  | infinity s => cases s <;> exact Or.inl rfl
  | zero s => cases s <;> exact Or.inr rfl
  | finite s m e hm =>
    refine Or.inr ?_
    show UnpackedFloat.normalize Format.binary32
      (s.apply (UnpackedFloat.decreaseExponent m e (min e e)).1 -
        s.apply (UnpackedFloat.decreaseExponent m e (min e e)).1) (min e e) .positive = _
    rw [Int.sub_self]
    rfl

/-- The difference of a value and itself is zero, or no number. -/
theorem unpack_abs_sub_self (x : Float32) :
    (x - x).abs.toModel.unpack = .notANumber ∨ (x - x).abs.toModel.unpack = .zero .positive := by
  have hmodel : (x - x).abs.toModel.unpack = (Float32.Model.pack
      (UnpackedFloat.sub Format.binary32 x.toModel.unpack x.toModel.unpack)).abs.unpack := rfl
  rcases unpacked_sub_self x.toModel.unpack with h | h
  · rw [hmodel, h]
    exact Or.inl rfl
  · rw [hmodel, h]
    exact Or.inr rfl

theorem not_le_abs_sub_self {step : Float32} (h : 1 ≤ step) (x : Float32) :
    ¬ step ≤ (x - x).abs := by
  have hone : UnpackedFloat.le (.finite .positive (2 ^ 23) (-23) (by decide))
    step.toModel.unpack = true := of_decide_eq_true h
  intro hle
  have hself : step.toModel.unpack.le (x - x).abs.toModel.unpack = true := of_decide_eq_true hle
  generalize step.toModel.unpack = u at hone hself
  rcases unpack_abs_sub_self x with hx | hx
  · rw [hx] at hself
    cases u with
    | notANumber => cases hself
    | infinity s => cases s <;> cases hself
    | zero s => cases hself
    | finite s => cases s <;> cases hself
  · -- what is at least one is no number, zero or negative
    rw [hx] at hself
    cases u with
    | notANumber => cases hone
    | infinity s =>
      cases s
      · cases hone
      · cases hself
    | zero s => cases hone
    | finite s =>
      cases s
      · cases hone
      · cases hself

end Single

theorem Point.not_isStepAway_self (a : Point) {stepX stepY : Float32} (hx : 1 ≤ stepX)
    (hy : 1 ≤ stepY) : a.isStepAway a stepX stepY = false := by
  rw [isStepAway, decide_eq_false (Single.not_le_abs_sub_self hx a.x),
    decide_eq_false (Single.not_le_abs_sub_self hy a.y)]
  rfl

/-! ## What a route takes in -/

/-- What a route of which the finger lifts is reported as. -/
def Route.reading (route : List Point) (up : Sample) : Decision :=
  match recognize route with
  | some g => .completed g
  | none => .cancelled up

theorem Route.reading_eq_iff {route route' : List Point} {up : Sample} :
    reading route up = reading route' up ↔ recognize route = recognize route' := by
  unfold reading
  cases recognize route <;> cases recognize route' <;> simp

namespace Thresholds

/-- Whether a finger swipes on from one position to another: they are further apart than the
threshold, and a step. -/
def IsStride (limits : Thresholds) (a b : Point) : Prop :=
  limits.swipeStart < a.distance b ∧ a.isStepAway b limits.stepX limits.stepY = true

instance (limits : Thresholds) (a b : Point) : Decidable (limits.IsStride a b) :=
  inferInstanceAs (Decidable (_ ∧ _))

/-- The positions that a route takes in after its last point: each that lies a step away from
the one taken in before it. -/
def sampled (limits : Thresholds) (last : Point) : List Point → List Point
  | [] => []
  | q :: qs =>
    if last.isStepAway q limits.stepX limits.stepY then q :: limits.sampled q qs
    else limits.sampled last qs

variable {limits : Thresholds} {a b : Point} {qs : List Point}

theorem sampled_cons_of_step (h : a.isStepAway b limits.stepX limits.stepY = true)
    (qs : List Point) : limits.sampled a (b :: qs) = b :: limits.sampled b qs := if_pos h

theorem sampled_cons_of_near (h : a.isStepAway b limits.stepX limits.stepY = false)
    (qs : List Point) : limits.sampled a (b :: qs) = limits.sampled a qs :=
  if_neg (by simp [h])

/-- All of a polyline of long strides is taken in, and its end just once. -/
theorem sampled_of_isChain (hx : 1 ≤ limits.stepX) (hy : 1 ≤ limits.stepY)
    (h : (a :: qs).IsChain limits.IsStride) :
    limits.sampled a (qs ++ [qs.getLastD a]) = qs := by
  induction qs generalizing a with
  | nil => exact sampled_cons_of_near (a.not_isStepAway_self hx hy) []
  | cons q qs ih =>
    obtain ⟨hstride, hrest⟩ := List.isChain_cons_cons.mp h
    rw [List.getLastD_cons, List.cons_append, sampled_cons_of_step hstride.2, ih hrest]

end Thresholds

namespace Recognizer

variable {r : Recognizer} {a last anchor : Point} {route : List Point} {d m u : Sample}

/-! ## Before the swipe -/

/-- The finger stands where it came down. -/
structure Rooted (r : Recognizer) (a : Point) : Prop where
  recognizing : r.recognizing = true
  swiping : r.swiping = false
  classified : r.classified = false
  cancelled : r.cancelled = false
  route : r.route = [a]
  anchor : r.anchor = a
  lastPoint : r.lastPoint = a

theorem rooted_of_accepts (h : r.accepts (.event (.pointer d)) = true)
    (hposition : d.position = some a) : (r.pointer d).state.Rooted a := by
  obtain ⟨position, hposition', hp⟩ := pointer_of_accepts h
  obtain rfl : a = position := Option.some.inj (hposition.symm.trans hposition')
  rw [hp]
  split <;> exact ⟨rfl, rfl, rfl, rfl, rfl, rfl, rfl⟩

/-! ## The swipe -/

/-- The finger swipes along a route with a last point, and is at the anchor. -/
structure Swipes (r : Recognizer) (route : List Point) (last anchor : Point) : Prop where
  recognizing : r.recognizing = true
  swiping : r.swiping = true
  awaiting : r.awaitingSecondUp = false
  classified : r.classified = false
  cancelled : r.cancelled = false
  route : r.route = route
  lastPoint : r.lastPoint = last
  anchor : r.anchor = anchor
  timers : r.timers.pending = []

theorem pending_moveAnchor (r : Recognizer) (position : Point) (now : Micros) :
    (r.moveAnchor position now).timers.pending = [] := by
  simp only [moveAnchor, disarm, Timers.disarm, List.filter_filter]
  apply List.filter_eq_nil_iff.mpr
  intro t _
  cases t.kind <;> decide

/-- A swipe starts without the position that it starts with. -/
theorem Rooted.start (h : r.Rooted a) (hawaiting : r.awaitingSecondUp = false)
    (hm : m.IsSingle .move) (hfar : r.thresholds.swipeStart < a.distance m.point) :
    (r.pointer m).state.Swipes [a] a m.point ∧ (r.pointer m).decisions = [.started] := by
  have hmove : r.pointer m =
      ⟨{ r.moveAnchor m.point m.time with swiping := true }, [.started], true⟩ := by
    rw [pointer_of_touchscreen hm.source, hm.action]
    simp [move, giveUpDoubleTap, moveAnchor, disarm, hawaiting, h.recognizing, hm.position_eq,
      h.anchor, hfar, h.swiping]
  rw [hmove]
  exact ⟨⟨h.recognizing, rfl, rfl, h.classified, h.cancelled, h.route, h.lastPoint, rfl,
    pending_moveAnchor r m.point m.time⟩, rfl⟩

namespace Swipes

theorem isNewPoint_eq (h : r.Swipes route last anchor) (position : Point) :
    r.isNewPoint position = last.isStepAway position r.thresholds.stepX r.thresholds.stepY := by
  rw [isNewPoint, h.lastPoint]

theorem pointer_move (h : r.Swipes route last anchor) (hm : m.IsSingle .move)
    (hfar : r.thresholds.swipeStart < anchor.distance m.point) :
    r.pointer m = ⟨(r.moveAnchor m.point m.time).extendRoute m.point, [], true⟩ := by
  rw [pointer_of_touchscreen hm.source, hm.action]
  simp [Recognizer.move, giveUpDoubleTap, moveAnchor, disarm, h.awaiting, h.recognizing,
    hm.position_eq, h.anchor, hfar, h.swiping]

/-- A far move takes the anchor along, and what the route takes in from there on is what it
would have taken in with that move. -/
theorem move (h : r.Swipes route last anchor) (hm : m.IsSingle .move)
    (hfar : r.thresholds.swipeStart < anchor.distance m.point) :
    (r.pointer m).decisions = [] ∧ ∃ route' last', (r.pointer m).state.Swipes route' last' m.point ∧
      ∀ qs, route' ++ r.thresholds.sampled last' qs =
        route ++ r.thresholds.sampled last (m.point :: qs) := by
  have hnew : (r.moveAnchor m.point m.time).isNewPoint m.point =
      last.isStepAway m.point r.thresholds.stepX r.thresholds.stepY := h.isNewPoint_eq m.point
  have htimers := pending_moveAnchor r m.point m.time
  rw [h.pointer_move hm hfar, extendRoute, hnew]
  refine ⟨rfl, ?_⟩
  cases hstep : last.isStepAway m.point r.thresholds.stepX r.thresholds.stepY with
  | true =>
    refine ⟨route ++ [m.point], m.point, ⟨h.recognizing, h.swiping, rfl, h.classified, h.cancelled,
      ?_, rfl, rfl, htimers⟩, ?_⟩
    · show r.route ++ [m.point] = route ++ [m.point]
      rw [h.route]
    · intro qs
      rw [Thresholds.sampled_cons_of_step hstep, List.append_assoc, List.singleton_append]
  | false =>
    refine ⟨route, last, ⟨h.recognizing, h.swiping, rfl, h.classified, h.cancelled, h.route,
      h.lastPoint, rfl, htimers⟩, ?_⟩
    intro qs
    rw [Thresholds.sampled_cons_of_near hstep]

/-- The up closes the route, which is read, and no timer is left. -/
theorem up (h : r.Swipes route last anchor) (hu : u.IsSingle .up) :
    (r.pointer u).state.timers.pending = [] ∧
      (r.pointer u).decisions =
        [Route.reading (route ++ r.thresholds.sampled last [u.point]) u] := by
  have hclosed : r.closeRoute u = route ++ r.thresholds.sampled last [u.point] := by
    rw [closeRoute, hu.position_eq]
    dsimp only
    rw [h.isNewPoint_eq, h.route]
    simp only [Thresholds.sampled]
    split <;> simp
  have hup : r.pointer u = ⟨(r.swipeUp u).1.clear, (r.swipeUp u).2, true⟩ := by
    rw [pointer_of_touchscreen hu.source, hu.action]
    simp [Recognizer.up, hu.pointerCount_eq, h.recognizing, h.awaiting, h.swiping]
  rw [hup]
  refine ⟨pending_disarm_both _, ?_⟩
  simp only [swipeUp, hclosed, Route.reading]
  cases Route.recognize (route ++ r.thresholds.sampled last [u.point]) with
  | some g => simp [complete, h.classified]
  | none => simp [giveUp, h.classified, h.cancelled]

end Swipes

end Recognizer

end TouchStream
