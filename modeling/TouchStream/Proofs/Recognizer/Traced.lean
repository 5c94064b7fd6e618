import Mathlib.Data.List.Chain
import TouchStream.Proofs.Recognizer.Consistent

/-!
# The route and the flags

Within an interaction the recognizer keeps the route of the finger: it starts where the
last down was, ends at the last point, and each of its points lies a step away from the
one before (`Traced`). A step is never less than a pixel, whatever the metrics of the
display are: what is no number counts as one pixel (`Thresholds.one_le_step`). The route
of an up is closed and read in the same go, so it is never seen.

* `Trace.receive`: no message of a run breaks the trace.
* `flags_and_route_coherent`: together with `Consistent`, all that the fields of the
  recognizer say about one another in every state of a run.
-/

namespace TouchStream

/-! ## The length of a step -/

theorem Single.le_of_lt {x y : Float32} (h : x < y) : x ≤ y := by
  have hlt : x.toModel.unpack.lt y.toModel.unpack = true := of_decide_eq_true h
  apply decide_eq_true
  show x.toModel.unpack.le y.toModel.unpack = true
  unfold Float.Model.UnpackedFloat.lt at hlt
  unfold Float.Model.UnpackedFloat.le
  cases hc : x.toModel.unpack.compare y.toModel.unpack with
  | none =>
    rw [hc] at hlt
    cases hlt
  | some o =>
    rw [hc] at hlt
    obtain rfl : o = .lt := by simpa using hlt
    rfl

theorem Single.one_le_atLeast (x : Float32) : 1 ≤ atLeast 1 x := by
  unfold atLeast
  split
  · exact le_of_lt ‹_›
  · decide +kernel

theorem Thresholds.one_le_step (display : Option Display) (tapSlop routeStep : Float32) :
    1 ≤ (ofDisplay display tapSlop routeStep).stepX ∧
      1 ≤ (ofDisplay display tapSlop routeStep).stepY := by
  have hone : (1 : Float32) ≤ 1 := by decide +kernel
  cases display with
  | none => exact ⟨hone, hone⟩
  | some d => exact ⟨Single.one_le_atLeast _, Single.one_le_atLeast _⟩

namespace Recognizer

variable {r : Recognizer} {s : Sample}

/-! ## Traces -/

/-- The route leads from the last down to the last point, in steps. -/
structure Traced (r : Recognizer) : Prop where
  starts : ∃ down position, r.lastDown = some down ∧ down.position = some position ∧
    r.route.head? = some position
  ends : r.route.getLast? = some r.lastPoint
  steps : r.route.IsChain fun a b =>
    a.isStepAway b r.thresholds.stepX r.thresholds.stepY = true

/-- An interaction that is read has a trace. -/
def Trace (r : Recognizer) : Prop := r.recognizing = true → r.Traced

theorem Trace.of_not_recognizing (h : r.recognizing = false) : r.Trace := by
  intro hr
  rw [h] at hr
  cases hr

theorem Idle.trace (h : r.Idle) : r.Trace := .of_not_recognizing h.recognizing

theorem traced_beginInteraction {position : Point} (h : s.position = some position) :
    (r.beginInteraction s position).Traced where
  starts := ⟨s, position, rfl, h, rfl⟩
  ends := rfl
  steps := List.isChain_singleton position

theorem Traced.extendRoute (h : r.Traced) (position : Point) :
    (r.extendRoute position).Traced := by
  unfold Recognizer.extendRoute
  split
  · rename_i hnew
    refine ⟨?_, List.getLast?_concat, ?_⟩
    · obtain ⟨down, first, hdown, hfirst, hhead⟩ := h.starts
      refine ⟨down, first, hdown, hfirst, ?_⟩
      rw [List.head?_append, hhead]
      rfl
    · refine List.isChain_append.mpr ⟨h.steps, List.isChain_singleton position, ?_⟩
      intro p hp q hq
      obtain rfl : r.lastPoint = p := Option.some.inj (h.ends.symm.trans hp)
      obtain rfl : position = q := Option.some.inj hq
      exact hnew
  · exact h

theorem Traced.giveUp (h : r.Traced) (s : Sample) : (r.giveUp s).1.Traced := by
  rcases giveUp_eq r s with ⟨he, -⟩ | ⟨he, -⟩
  · rw [he]
    exact h
  · rw [he]
    exact { h with }

theorem Traced.giveUpDoubleTap (h : r.Traced) (s : Sample) (offset : Float32) :
    (r.giveUpDoubleTap s offset).1.Traced := by
  rcases giveUpDoubleTap_eq r s offset with ⟨he, -⟩ | ⟨-, he⟩ <;> rw [he]
  · exact h
  · exact Traced.giveUp (r := { r with awaitingSecondUp := false, firstTapDone := false })
      { h with } s

/-! ## Samples -/

theorem trace_of_accepts {m : Message} (h : r.accepts m = true) : (r.receive m).state.Trace := by
  obtain ⟨s, rfl⟩ := exists_pointer_of_accepts h
  obtain ⟨position, hposition, hp⟩ := pointer_of_accepts h
  intro _
  simp only [receive, hp]
  split <;> exact traced_beginInteraction hposition

theorem Trace.move (h : r.Trace) (s : Sample) : (r.move s).state.Trace := by
  rcases move_eq r s with ⟨he, -⟩ |
    ⟨position, given, -, hr, hgiven, ⟨-, he⟩ | ⟨-, he⟩ | he | ⟨-, he⟩⟩
  · rw [he]
    exact h
  all_goals
    have hg : given.1.Traced := hgiven ▸ (h hr).giveUpDoubleTap s _
    have hmoved : (given.1.moveAnchor position s.time).Traced := { hg with }
    rw [he]
  · exact fun _ => hmoved.extendRoute position
  · exact fun _ => { hmoved with }
  · exact (idle_abandon _).trace
  · exact fun _ => hg.extendRoute position

theorem recognizing_tapUp (r : Recognizer) (s : Sample) : (r.tapUp s).recognizing = false := by
  unfold tapUp
  rfl

theorem Trace.up (h : r.Trace) (s : Sample) : (r.up s).state.Trace := by
  rcases up_eq r s with ⟨-, he⟩ | ⟨-, ⟨hr, he⟩ | ⟨-, ⟨-, -, he⟩ | ⟨-, -, he⟩ | ⟨-, -, he⟩ |
    ⟨-, -, he⟩⟩⟩ <;> rw [he]
  · exact h
  · exact of_not_recognizing hr
  · exact (idle_clear r).trace
  · exact ((idle_clear r).completeDouble s).trace
  · exact (idle_clear _).trace
  · exact of_not_recognizing (recognizing_tapUp r s)

/-! ## Expiry and runs -/

theorem Trace.expire (h : r.Trace) (t : RecognizerTimer) : (r.expire t).1.Trace := by
  rcases expire_eq r t with he | ⟨-, -, -, -, he⟩ | ⟨-, -, -, -, he⟩ <;> rw [he]
  · exact fun hr => { h hr with }
  · exact (idle_clear _).trace
  · exact fun hr => { h hr with }

theorem Trace.receive (h : r.Trace) (m : Message) : (r.receive m).state.Trace := by
  cases hm : r.accepts m with
  | true => exact trace_of_accepts hm
  | false =>
    exact receive_cases (P := fun q _ => q.Trace) hm h (idle_clear r).trace (fun s _ => h.move s)
      (fun s _ => h.up s) (fun s _ => ((idle_clear r).giveUp s).trace)
      (fun now _ => advance_keeps (P := fun q _ => q.Trace) (fun _ _ t _ h => h.expire t) [] h)
      (fun _ => (idle_destroy r).trace)

theorem Trace.after (h : r.Trace) (ms : List Message) : (r.after ms).Trace := by
  induction ms generalizing r with
  | nil => exact h
  | cons m ms ih => exact ih (h.receive m)

/-- **What the fields of a recognizer say about one another.** In every state that a run of
a new recognizer reaches, an interaction is read exactly while the route has a point. It
is then that the finger is down and a swipe, a second up or a long press can be waited
for, and the route leads from the last down to the last point, in steps of a pixel at
least. Outside an interaction a first tap is remembered only while its timer is pending. -/
theorem flags_and_route_coherent (settings : RecognizerSettings) (display : Option Display)
    (ms : List Message) :
    let r := (new settings display).after ms
    (r.recognizing = true ↔ r.route ≠ []) ∧
      (r.recognizing = true →
        r.fingerDown = true ∧ r.tapBegun = true ∧ r.lastDown.isSome = true) ∧
      (r.swiping = true → r.recognizing = true) ∧
      (r.awaitingSecondUp = true → r.recognizing = true ∧ r.swiping = false) ∧
      (r.timers.isPending .longPress = true →
        r.recognizing = true ∧ r.swiping = false ∧ r.classified = false) ∧
      (r.firstTapDone = true → r.recognizing = false →
        r.timers.isPending .singleTap = true ∧ r.fingerDown = false ∧ r.classified = false) ∧
      (r.recognizing = true →
        (∃ down position, r.lastDown = some down ∧ down.position = some position ∧
          r.route.head? = some position) ∧
        r.route.getLast? = some r.lastPoint ∧
        r.route.IsChain fun a b =>
          a.isStepAway b r.thresholds.stepX r.thresholds.stepY = true) ∧
      1 ≤ r.thresholds.stepX ∧ 1 ≤ r.thresholds.stepY := by
  intro r
  have hflags : r.Consistent := (consistent_new settings display).after ms
  have htrace : r.Trace := (idle_new settings display).trace.after ms
  have hthresholds : r.thresholds = (new settings display).thresholds :=
    (settings_after (new settings display) ms).2
  refine ⟨hflags.route_iff, ?_, hflags.swiping, hflags.awaiting, hflags.longPress, ?_, ?_, ?_⟩
  · intro hr
    exact ⟨hflags.fingerDown hr, hflags.tapBegun hr, hflags.lastDown hr⟩
  · intro hfirst hr
    exact hflags.firstTap_timed hr hfirst
  · intro hr
    exact ⟨(htrace hr).starts, (htrace hr).ends, (htrace hr).steps⟩
  · rw [hthresholds]
    exact Thresholds.one_le_step display settings.tapSlop settings.routeStep

end Recognizer

end TouchStream
