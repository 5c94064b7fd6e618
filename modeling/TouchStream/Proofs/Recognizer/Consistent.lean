import TouchStream.Proofs.Recognizer.Run

/-!
# The flags of the recognizer

The recognizer keeps its state in flags that every operation sets and resets on its
own. `Consistent` says how they hang together in every state that a run reaches. Two
of its clauses are not read off the code: outside an interaction a first tap is
remembered only while its timer runs, and within an interaction only while a second up
is awaited. They hold only jointly with the others, since the up of a tap arms the
timer of the first tap just when the interaction was not classified, and within an
interaction only a long press classifies without an end.

`Idle` is the state without an interaction and without a timer. Everything that ends
an interaction but the up of a tap leads there, and an idle recognizer is consistent
whatever its other fields hold.

* `Consistent.receive`, `Consistent.after`: no message and no run breaks consistency.
* `Consistent.idle`: without an interaction and without a timer a consistent
  recognizer is idle.
-/

namespace TouchStream.Recognizer

variable {r : Recognizer} {s : Sample}

/-- The flags agree with one another and with the pending timers. -/
structure Consistent (r : Recognizer) : Prop where
  route_iff : r.recognizing = true ↔ r.route ≠ []
  fingerDown : r.recognizing = true → r.fingerDown = true
  tapBegun : r.recognizing = true → r.tapBegun = true
  lastDown : r.recognizing = true → r.lastDown.isSome = true
  swiping : r.swiping = true → r.recognizing = true
  second : r.secondTapBegun = true → r.recognizing = true
  awaiting : r.awaitingSecondUp = true → r.recognizing = true ∧ r.swiping = false
  /-- Within an interaction only a long press classifies and goes on. -/
  heldLong : r.recognizing = true → r.classified = true → r.heldLong = true
  firstTap_awaits : r.recognizing = true → r.firstTapDone = true → r.awaitingSecondUp = true
  firstTap_timed : r.recognizing = false → r.firstTapDone = true →
    r.timers.isPending .singleTap = true ∧ r.fingerDown = false ∧ r.classified = false
  longPress : r.timers.isPending .longPress = true →
    r.recognizing = true ∧ r.swiping = false ∧ r.classified = false

/-- There is no interaction and no timer. -/
structure Idle (r : Recognizer) : Prop where
  recognizing : r.recognizing = false
  swiping : r.swiping = false
  second : r.secondTapBegun = false
  awaiting : r.awaitingSecondUp = false
  firstTap : r.firstTapDone = false
  route : r.route = []
  timers : r.timers.pending = []

/-! ## Idle recognizers -/

/-- Outside an interaction there is little to agree on. -/
theorem consistent_of_not_recognizing (hr : r.recognizing = false) (hroute : r.route = [])
    (hswiping : r.swiping = false) (hsecond : r.secondTapBegun = false)
    (hawaiting : r.awaitingSecondUp = false) (hlong : r.timers.isPending .longPress = false)
    (hfirst : r.firstTapDone = true →
      r.timers.isPending .singleTap = true ∧ r.fingerDown = false ∧ r.classified = false) :
    r.Consistent where
  route_iff := by simp [hr, hroute]
  fingerDown h := by simp [hr] at h
  tapBegun h := by simp [hr] at h
  lastDown h := by simp [hr] at h
  swiping h := by simp [hswiping] at h
  second h := by simp [hsecond] at h
  awaiting h := by simp [hawaiting] at h
  heldLong h := by simp [hr] at h
  firstTap_awaits h := by simp [hr] at h
  firstTap_timed _ h := hfirst h
  longPress h := by simp [hlong] at h

theorem Idle.consistent (h : r.Idle) : r.Consistent :=
  consistent_of_not_recognizing h.recognizing h.route h.swiping h.second h.awaiting
    (Timers.isPending_eq_false_of_nil h.timers _) (fun hf => by simp [h.firstTap] at hf)

theorem Consistent.idle (h : r.Consistent) (hr : r.recognizing = false)
    (ht : r.timers.pending = []) : r.Idle where
  recognizing := hr
  swiping := by
    cases hs : r.swiping with
    | false => rfl
    | true => exact absurd (h.swiping hs) (by simp [hr])
  second := by
    cases hs : r.secondTapBegun with
    | false => rfl
    | true => exact absurd (h.second hs) (by simp [hr])
  awaiting := by
    cases ha : r.awaitingSecondUp with
    | false => rfl
    | true => exact absurd (h.awaiting ha).1 (by simp [hr])
  firstTap := by
    cases hf : r.firstTapDone with
    | false => rfl
    | true =>
      have hpending := (h.firstTap_timed hr hf).1
      rw [Timers.isPending_eq_false_of_nil ht] at hpending
      cases hpending
  route := by
    cases hroute : r.route with
    | nil => rfl
    | cons p ps => exact absurd (h.route_iff.mpr (by simp [hroute])) (by simp [hr])
  timers := ht

theorem idle_new (settings : RecognizerSettings) (display : Option Display) :
    (new settings display).Idle := ⟨rfl, rfl, rfl, rfl, rfl, rfl, rfl⟩

/-- Every timer is of one of the two kinds. -/
theorem pending_disarm_both (q : Timers RecognizerTimer) :
    ((q.disarm .longPress).disarm .singleTap).pending = [] := by
  simp only [Timers.disarm, List.filter_filter]
  apply List.filter_eq_nil_iff.mpr
  intro t _
  cases t.kind <;> decide

theorem idle_clear (r : Recognizer) : r.clear.Idle :=
  ⟨rfl, rfl, rfl, rfl, rfl, rfl, pending_disarm_both _⟩

theorem idle_abandon (r : Recognizer) : r.abandon.Idle :=
  ⟨rfl, rfl, rfl, rfl, rfl, rfl, pending_disarm_both _⟩

theorem idle_destroy (r : Recognizer) : r.destroy.Idle :=
  ⟨rfl, rfl, rfl, rfl, rfl, rfl, rfl⟩

theorem Idle.giveUp (h : r.Idle) (s : Sample) : (r.giveUp s).1.Idle := by
  rcases giveUp_eq r s with ⟨he, -⟩ | ⟨he, -⟩
  · rw [he]
    exact h
  · rw [he]
    exact { h with }

theorem Idle.completeDouble (h : r.Idle) (s : Sample) : (r.completeDouble s).1.Idle := by
  rcases completeDouble_eq r s with ⟨he, -⟩ | ⟨he, -⟩
  · rw [he]
    exact h
  · rw [he]
    exact { h with }

/-! ## Downs -/

/-- An accepted down makes the flags agree from any state that remembers a first tap
only for a second one. -/
theorem consistent_beginInteraction (h : r.firstTapDone = true → r.awaitingSecondUp = true)
    (position : Point) : (r.beginInteraction s position).Consistent where
  route_iff := by simp [beginInteraction]
  fingerDown _ := rfl
  tapBegun _ := rfl
  lastDown _ := rfl
  swiping hs := by simp [beginInteraction] at hs
  second _ := rfl
  awaiting _ := ⟨rfl, rfl⟩
  heldLong _ hc := by simp [beginInteraction] at hc
  firstTap_awaits _ hf := h hf
  firstTap_timed hr := by simp [beginInteraction] at hr
  longPress _ := ⟨rfl, rfl, rfl⟩

theorem Consistent.down (h : r.Consistent) (s : Sample) : (r.down s).state.Consistent := by
  unfold Recognizer.down
  split
  · exact h
  · split
    · exact (idle_clear r).consistent
    · split
      · exact h
      · dsimp only
        split
        · exact consistent_beginInteraction (fun _ => rfl) _
        · refine consistent_beginInteraction ?_ _
          intro hf
          simp [beginTap, awaitSecondTap] at hf

/-! ## Moves -/

theorem Consistent.giveUp (h : r.Consistent) (s : Sample) : (r.giveUp s).1.Consistent := by
  rcases giveUp_eq r s with ⟨he, -⟩ | ⟨he, -⟩
  · rw [he]
    exact h
  · rw [he]
    exact { h with }

/-- Within an interaction the first tap may be forgotten, and with it the second up. -/
theorem Consistent.forgetFirstTap (h : r.Consistent) :
    ({ r with awaitingSecondUp := false, firstTapDone := false } : Recognizer).Consistent :=
  { h with
    awaiting := by simp
    firstTap_awaits := by simp
    firstTap_timed := by simp }

theorem Consistent.giveUpDoubleTap (h : r.Consistent) (s : Sample) (offset : Float32) :
    (r.giveUpDoubleTap s offset).1.Consistent := by
  rcases giveUpDoubleTap_eq r s offset with ⟨he, -⟩ | ⟨-, he⟩ <;> rw [he]
  · exact h
  · exact h.forgetFirstTap.giveUp s

theorem Consistent.disarm (h : r.Consistent) {t : RecognizerTimer}
    (ht : t = .singleTap → r.recognizing = false → r.firstTapDone = false) :
    (r.disarm t).Consistent :=
  { h with
    firstTap_timed := by
      intro hr hf
      have hold := h.firstTap_timed hr hf
      cases t with
      | singleTap => exact absurd ((ht rfl hr).symm.trans hf) (by simp)
      | longPress => exact ⟨by simpa [Recognizer.disarm] using hold.1, hold.2⟩
    longPress := by
      intro hp
      apply h.longPress
      simp only [Recognizer.disarm, Timers.isPending_disarm, Bool.and_eq_true] at hp
      exact hp.2 }

theorem Consistent.moveAnchor (h : r.Consistent) (position : Point) (now : Micros) :
    (r.moveAnchor position now).Consistent := by
  have hforget := h.forgetFirstTap
  have hsingle := hforget.disarm (t := .singleTap) (fun _ _ => rfl)
  have hdisarmed := hsingle.disarm (t := .longPress) (by simp)
  exact { hdisarmed with }

theorem Consistent.extendRoute (h : r.Consistent) (hr : r.recognizing = true) (position : Point) :
    (r.extendRoute position).Consistent := by
  unfold Recognizer.extendRoute
  split
  · exact { h with route_iff := by simp [hr] }
  · exact h

theorem Consistent.startSwipe (h : r.Consistent) (hr : r.recognizing = true)
    (position : Point) (now : Micros) :
    ({ r.moveAnchor position now with swiping := true } : Recognizer).Consistent :=
  { h.moveAnchor position now with
    swiping := fun _ => hr
    awaiting := by simp [Recognizer.moveAnchor]
    longPress := by simp [Recognizer.moveAnchor, Recognizer.disarm] }

theorem recognizing_giveUp (r : Recognizer) (s : Sample) :
    (r.giveUp s).1.recognizing = r.recognizing := by
  rcases giveUp_eq r s with ⟨he, -⟩ | ⟨he, -⟩ <;> rw [he]

theorem recognizing_giveUpDoubleTap (r : Recognizer) (s : Sample) (offset : Float32) :
    (r.giveUpDoubleTap s offset).1.recognizing = r.recognizing := by
  rcases giveUpDoubleTap_eq r s offset with ⟨he, -⟩ | ⟨-, he⟩ <;> rw [he]
  exact recognizing_giveUp _ s

theorem Consistent.move (h : r.Consistent) (s : Sample) : (r.move s).state.Consistent := by
  rcases move_eq r s with ⟨he, -⟩ |
    ⟨position, given, -, hr, hgiven, ⟨-, he⟩ | ⟨-, he⟩ | he | ⟨-, he⟩⟩
  · rw [he]
    exact h
  all_goals
    have hg : given.1.Consistent := hgiven ▸ h.giveUpDoubleTap s _
    have hgr : given.1.recognizing = true := by
      rw [hgiven, recognizing_giveUpDoubleTap, hr]
    rw [he]
  · exact (hg.moveAnchor position s.time).extendRoute hgr position
  · exact hg.startSwipe hgr position s.time
  · exact (idle_abandon _).consistent
  · exact hg.extendRoute hgr position

/-! ## Ups and cancels -/

/-- A first tap is remembered within an interaction only while a second up is awaited. -/
theorem Consistent.not_firstTap (h : r.Consistent) (hr : r.recognizing = true)
    (ha : r.awaitingSecondUp = false) : r.firstTapDone = false := by
  cases hf : r.firstTapDone with
  | false => rfl
  | true => exact absurd (h.firstTap_awaits hr hf) (by simp [ha])

/-- The up of a tap arms the timer of the first tap unless it runs already, since only
a finger held for long is classified by then. -/
theorem Consistent.tapUp (h : r.Consistent) (hr : r.recognizing = true)
    (hs : r.swiping = false) (ha : r.awaitingSecondUp = false) (s : Sample) :
    (r.tapUp s).Consistent := by
  have hf := h.not_firstTap hr ha
  have hc : r.heldLong = false → r.classified = false := by
    intro hl
    cases hc : r.classified with
    | false => rfl
    | true => exact absurd (h.heldLong hr hc) (by simp [hl])
  unfold Recognizer.tapUp
  dsimp only
  split
  · refine consistent_of_not_recognizing rfl rfl hs rfl ha (by simp [Recognizer.disarm]) ?_
    intro hf'
    simp [Recognizer.disarm, hf] at hf'
  · rename_i hl
    have hc := hc (by simpa using hl)
    split
    · split
      · refine consistent_of_not_recognizing rfl rfl hs rfl ha (by simp [Recognizer.disarm]) ?_
        intro _
        exact ⟨by simp [Recognizer.disarm, awaitSecondTap], rfl, hc⟩
      · rename_i hnot
        have hpending : r.timers.isPending .singleTap = true := by simpa [hc] using hnot
        refine consistent_of_not_recognizing rfl rfl hs rfl ha (by simp [Recognizer.disarm]) ?_
        intro _
        exact ⟨by simp [Recognizer.disarm, hpending], rfl, hc⟩
    · refine consistent_of_not_recognizing rfl rfl hs rfl ha (by simp [Recognizer.disarm]) ?_
      intro hf'
      simp [Recognizer.disarm, hf] at hf'

theorem Consistent.up (h : r.Consistent) (s : Sample) : (r.up s).state.Consistent := by
  rcases up_eq r s with ⟨-, he⟩ | ⟨-, ⟨hr, he⟩ | ⟨hr, ⟨-, -, he⟩ | ⟨-, -, he⟩ | ⟨-, -, he⟩ |
    ⟨ha, hs, he⟩⟩⟩ <;> rw [he]
  · exact h
  · exact
      { h.disarm (by simp) (t := .longPress) with
        fingerDown := by simp [Recognizer.disarm, hr]
        firstTap_timed := by
          intro _ hf
          obtain ⟨hp, -, hc⟩ := h.firstTap_timed hr hf
          exact ⟨by simpa [Recognizer.disarm] using hp, rfl, hc⟩ }
  · exact (idle_clear r).consistent
  · exact ((idle_clear r).completeDouble s).consistent
  · exact (idle_clear _).consistent
  · exact h.tapUp hr hs ha s

theorem consistent_cancel (r : Recognizer) (s : Sample) : (r.cancel s).state.Consistent :=
  ((idle_clear r).giveUp s).consistent

theorem Consistent.pointer (h : r.Consistent) (s : Sample) : (r.pointer s).state.Consistent := by
  unfold Recognizer.pointer
  split
  · exact h
  · cases s.action with
    | down => exact h.down s
    | move => exact h.move s
    | up => exact h.up s
    | cancel => exact consistent_cancel r s

/-! ## Expiry -/

/-- A timer that expires is pending before, and the flags tell that what it waits for
is the case: the timer of the first tap leaves nothing of that tap behind, and a long
press falls into an interaction. -/
theorem Consistent.expire (h : r.Consistent) {t : RecognizerTimer}
    (ht : r.timers.isPending t = true) : (r.expire t).1.Consistent := by
  rcases expire_eq r t with he | ⟨-, -, -, -, he⟩ | ⟨rfl, -, -, -, he⟩ <;> rw [he]
  · apply h.disarm
    rintro rfl hr
    cases hf : r.firstTapDone with
    | false => rfl
    | true =>
      -- a first tap that is remembered is reported
      obtain ⟨-, hfinger, hc⟩ := h.firstTap_timed hr hf
      have htap : (r.expire .singleTap).2 = [.completed .tap] := by
        simp [Recognizer.expire, fire, Recognizer.disarm, complete, hfinger, hf, hc]
      rw [he] at htap
      cases htap
  · exact (idle_clear _).consistent
  · have hr := (h.longPress ht).1
    exact
      { h.disarm (by simp) (t := .longPress) with
        heldLong := fun _ _ => rfl
        firstTap_timed := by simp [Recognizer.disarm, hr]
        longPress := by simp [Recognizer.disarm] }

theorem Consistent.advance (h : r.Consistent) (now : Micros) : (r.advance now).1.Consistent :=
  advance_keeps (P := fun r _ => r.Consistent) (fun _ _ _ ht h => h.expire ht) [] h

/-! ## Runs -/

theorem Consistent.receive (h : r.Consistent) (m : Message) : (r.receive m).state.Consistent := by
  cases m with
  | event e =>
    cases e with
    | pointer s => exact h.pointer s
    | key k => exact h
    | accessibility a => exact h
  | time now => exact h.advance now
  | clear source =>
    simp only [Recognizer.receive]
    split
    · exact (idle_clear r).consistent
    · exact h
  | destroy => exact (idle_destroy r).consistent

theorem Consistent.after (h : r.Consistent) (ms : List Message) : (r.after ms).Consistent := by
  induction ms generalizing r with
  | nil => exact h
  | cons m ms ih => exact ih (h.receive m)

theorem consistent_new (settings : RecognizerSettings) (display : Option Display) :
    (new settings display).Consistent :=
  (idle_new settings display).consistent

end TouchStream.Recognizer
