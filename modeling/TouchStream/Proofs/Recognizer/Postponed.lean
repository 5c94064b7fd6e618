import TouchStream.Proofs.Postponed
import TouchStream.Proofs.Recognizer.Consistent

/-!
# The recognizer, some time later

A recognizer that is given the same messages `c` later decides the same, `c` later. It keeps
four kinds of times: the deadlines of its timers, the last down, the last up, and the time
at which the finger was at the anchor. The last of these is zero at first and means nothing
outside an interaction, so it is `c` later only while one is read.

* `Postponed.pointer`, `Postponed.advance`: samples and expiries.
* `Postponed.receive`: every message.
-/

namespace TouchStream.Recognizer

variable {c room : Nat} {r r' q q' : Recognizer} {s s' : Sample} {now now' : Micros}

/-- The longest span after which a recognizer sets a deadline. -/
def longestSpan (r : Recognizer) : Nat :=
  max r.settings.doubleTapTimeout.toNat r.settings.longPressTimeout.toNat

/-- The recognizers differ in nothing but times, and those of the second are `c` later. -/
inductive Postponed (c room : Nat) (r : Recognizer) : Recognizer → Prop
  | intro {timers : Timers RecognizerTimer} {anchorTime : Micros} {lastDown lastUp : Option Sample}
    (hspan : r.longestSpan ≤ room)
    (htimers : r.timers.Postponed c timers)
    (hanchor : r.recognizing = true → r.anchorTime.Postponed c room anchorTime)
    (hdown : Option.Rel (Sample.Postponed c room) r.lastDown lastDown)
    (hup : Option.Rel (Sample.Postponed c room) r.lastUp lastUp) :
    Postponed c room r { r with timers, anchorTime, lastDown, lastUp }

/-- The same decisions, `c` later. -/
structure StepPostponed (c room : Nat) (x x' : Recognizer × List Decision) : Prop where
  state : Postponed c room x.1 x'.1
  decisions : List.Forall₂ (Decision.Postponed c room) x.2 x'.2

/-- The same outcome, `c` later. -/
structure Outcome.Postponed (c room : Nat) (o o' : Outcome) : Prop where
  state : Recognizer.Postponed c room o.state o'.state
  decisions : List.Forall₂ (Decision.Postponed c room) o.decisions o'.decisions
  consumed_eq : o'.consumed = o.consumed

namespace Postponed

/-! ## Timers -/

theorem disarm (h : Postponed c room r r') (t : RecognizerTimer) :
    Postponed c room (r.disarm t) (r'.disarm t) := by
  obtain ⟨hspan, htimers, hanchor, hdown, hup⟩ := h
  exact ⟨hspan, htimers.disarm t, hanchor, hdown, hup⟩

theorem awaitLongPress (h : Postponed c room r r') (hnow : now.Postponed c room now') :
    Postponed c room (r.awaitLongPress now) (r'.awaitLongPress now') := by
  obtain ⟨hspan, htimers, hanchor, hdown, hup⟩ := h
  have hdeadline := hnow.later (Nat.le_trans (Nat.le_max_right _ _) hspan)
  exact ⟨hspan, htimers.arm _ hdeadline, hanchor, hdown, hup⟩

theorem awaitSecondTap (h : Postponed c room r r') (hnow : now.Postponed c room now') :
    Postponed c room (r.awaitSecondTap now) (r'.awaitSecondTap now') := by
  obtain ⟨hspan, htimers, hanchor, hdown, hup⟩ := h
  have hdeadline := hnow.later (Nat.le_trans (Nat.le_max_left _ _) hspan)
  exact ⟨hspan, htimers.arm _ hdeadline, hanchor, hdown, hup⟩

theorem isPending_eq (h : Postponed c room r r') (t : RecognizerTimer) :
    r'.timers.isPending t = r.timers.isPending t := by
  obtain ⟨-, htimers, -⟩ := h
  exact htimers.isPending_eq t

/-! ## Reports -/

/-- What is reported is the same where they agree on whether to report. -/
theorem report (h : Postponed c room r r') (hq : Postponed c room q q') {b b' : Bool}
    (hb : b' = b) {d d' : Decision} (hd : d.Postponed c room d') :
    StepPostponed c room (if b then (r, []) else (q, [d]))
      (if b' then (r', []) else (q', [d'])) := by
  subst hb
  cases b' with
  | true => exact ⟨h, .nil⟩
  | false => exact ⟨hq, .cons hd .nil⟩

theorem classify (h : Postponed c room r r') :
    Postponed c room { r with classified := true } { r' with classified := true } ∧
      r'.classified = r.classified := by
  obtain ⟨hspan, htimers, hanchor, hdown, hup⟩ := h
  exact ⟨⟨hspan, htimers, hanchor, hdown, hup⟩, rfl⟩

theorem giveUp (h : Postponed c room r r') (hs : s.Postponed c room s') :
    StepPostponed c room (r.giveUp s) (r'.giveUp s') := by
  have hcancelled : Postponed c room { r with cancelled := true } { r' with cancelled := true } ∧
      (r'.cancelled || r'.classified) = (r.cancelled || r.classified) := by
    obtain ⟨hspan, htimers, hanchor, hdown, hup⟩ := h
    exact ⟨⟨hspan, htimers, hanchor, hdown, hup⟩, rfl⟩
  exact h.report hcancelled.1 hcancelled.2 (.cancelled hs)

theorem complete (h : Postponed c room r r') (g : Gesture) :
    StepPostponed c room (r.complete g) (r'.complete g) :=
  h.report h.classify.1 h.classify.2 (.completed g)

theorem completeDouble (h : Postponed c room r r') (hs : s.Postponed c room s') :
    StepPostponed c room (r.completeDouble s) (r'.completeDouble s') :=
  h.report h.classify.1 h.classify.2 (.doubleTap hs)

/-! ## Resetting -/

theorem resetTaps (h : Postponed c room r r') : Postponed c room r.resetTaps r'.resetTaps := by
  obtain ⟨hspan, htimers, hanchor, hdown, hup⟩ := h
  exact ⟨hspan, (htimers.disarm _).disarm _, hanchor, hdown, hup⟩

theorem clear (h : Postponed c room r r') : Postponed c room r.clear r'.clear := by
  obtain ⟨hspan, htimers, -, hdown, hup⟩ := h
  exact ⟨hspan, (htimers.disarm _).disarm _, (fun hr => by cases hr), hdown, hup⟩

theorem abandon (h : Postponed c room r r') : Postponed c room r.abandon r'.abandon := by
  obtain ⟨hspan, htimers, -, hdown, hup⟩ := h
  exact ⟨hspan, (htimers.disarm _).disarm _, (fun hr => by cases hr), hdown, hup⟩

theorem destroy (h : Postponed c room r r') : Postponed c room r.destroy r'.destroy := by
  obtain ⟨hspan, htimers, -, -, -⟩ := h
  exact ⟨hspan, (htimers.disarmAll.disarm _).disarm _, (fun hr => by cases hr), .none, .none⟩

/-! ## Downs -/

theorem isSecondTap_eq (h : Postponed c room r r') (hs : s.Postponed c room s') (position : Point) :
    r'.isSecondTap s' position = r.isSecondTap s position := by
  obtain ⟨-, -, -, hdown, hup⟩ := h
  unfold isSecondTap
  revert hdown hup
  generalize r.lastDown = down, r.lastUp = up
  intro hdown hup
  cases hdown with
  | none => rfl
  | some hdown =>
    cases hup with
    | none => rfl
    | some hup =>
      obtain ⟨t, -, rfl⟩ := hdown
      dsimp only
      rw [hup.time.since_eq hs.time]
      rfl

theorem beginSecondTap (h : Postponed c room r r') :
    Postponed c room r.beginSecondTap r'.beginSecondTap := by
  obtain ⟨hspan, htimers, hanchor, hdown, hup⟩ := h
  exact ⟨hspan, htimers.disarm _, hanchor, hdown, hup⟩

theorem forgetFirstTap (h : Postponed c room r r') :
    Postponed c room { r with awaitingSecondUp := false, firstTapDone := false }
      { r' with awaitingSecondUp := false, firstTapDone := false } := by
  obtain ⟨hspan, htimers, hanchor, hdown, hup⟩ := h
  exact ⟨hspan, htimers, hanchor, hdown, hup⟩

theorem beginTap (h : Postponed c room r r') (hnow : now.Postponed c room now') :
    StepPostponed c room (r.beginTap now) (r'.beginTap now') := by
  have hpending := h.isPending_eq .singleTap
  have hfields : r'.firstTapDone = r.firstTapDone ∧ r'.fingerDown = r.fingerDown := by
    obtain ⟨-, -, -, -, -⟩ := h
    exact ⟨rfl, rfl⟩
  simp only [Recognizer.beginTap, hpending, hfields.1, hfields.2]
  split
  · have hc := h.complete .tap
    exact ⟨hc.state.forgetFirstTap.awaitSecondTap hnow, hc.decisions⟩
  · exact ⟨h.forgetFirstTap.awaitSecondTap hnow, .nil⟩

theorem beginInteraction (h : Postponed c room r r') (hs : s.Postponed c room s')
    (position : Point) :
    Postponed c room (r.beginInteraction s position) (r'.beginInteraction s' position) := by
  have harmed := h.awaitLongPress hs.time
  unfold Recognizer.beginInteraction
  generalize r.awaitLongPress s.time = q, r'.awaitLongPress s'.time = q' at harmed
  obtain ⟨hspan, htimers, -, -, hup⟩ := harmed
  exact ⟨hspan, htimers, fun _ => hs.time, .some hs, hup⟩

theorem down (h : Postponed c room r r') (hs : s.Postponed c room s') :
    Outcome.Postponed c room (r.down s) (r'.down s') := by
  have hheld : (r'.awaitingSecondUp && r'.heldLong) = (r.awaitingSecondUp && r.heldLong) := by
    obtain ⟨-, -, -, -, -⟩ := h
    rfl
  have hplace : s'.pointerCount = s.pointerCount ∧ s'.position = s.position := by
    obtain ⟨t, -, rfl⟩ := hs
    exact ⟨rfl, rfl⟩
  simp only [Recognizer.down, hheld, hplace.1, hplace.2]
  split
  · exact ⟨h, .nil, rfl⟩
  · split
    · exact ⟨h.clear, .nil, rfl⟩
    · split
      · exact ⟨h, .nil, rfl⟩
      · rename_i position hposition
        rw [h.isSecondTap_eq hs]
        split
        · exact ⟨h.beginSecondTap.beginInteraction hs position, .nil, rfl⟩
        · have hb := h.beginTap hs.time
          exact ⟨hb.state.beginInteraction hs position, hb.decisions, rfl⟩

/-! ## Moves -/

theorem giveUpDoubleTap (h : Postponed c room r r') (hs : s.Postponed c room s')
    (offset : Float32) :
    StepPostponed c room (r.giveUpDoubleTap s offset) (r'.giveUpDoubleTap s' offset) := by
  have hcond : (r'.awaitingSecondUp && r'.settings.touchSlop < offset) =
      (r.awaitingSecondUp && r.settings.touchSlop < offset) := by
    obtain ⟨-, -, -, -, -⟩ := h
    rfl
  simp only [Recognizer.giveUpDoubleTap, hcond]
  split
  · exact h.forgetFirstTap.giveUp hs
  · exact ⟨h, .nil⟩

theorem moveAnchor (h : Postponed c room r r') (position : Point)
    (hnow : now.Postponed c room now') :
    Postponed c room (r.moveAnchor position now) (r'.moveAnchor position now') := by
  obtain ⟨hspan, htimers, -, hdown, hup⟩ := h
  exact ⟨hspan, (htimers.disarm _).disarm _, fun _ => hnow, hdown, hup⟩

theorem isOverdue_eq (h : Postponed c room r r') (hr : r.recognizing = true)
    (hnow : now.Postponed c room now') : r'.isOverdue now' = r.isOverdue now := by
  obtain ⟨-, -, hanchor, -, -⟩ := h
  simp only [isOverdue, (hanchor hr).since_eq hnow]

theorem startSwipe (h : Postponed c room r r') :
    Postponed c room { r with swiping := true } { r' with swiping := true } := by
  obtain ⟨hspan, htimers, hanchor, hdown, hup⟩ := h
  exact ⟨hspan, htimers, hanchor, hdown, hup⟩

theorem extendRoute (h : Postponed c room r r') (position : Point) :
    Postponed c room (r.extendRoute position) (r'.extendRoute position) := by
  have hnew : r'.isNewPoint position = r.isNewPoint position ∧ r'.route = r.route := by
    obtain ⟨-, -, -, -, -⟩ := h
    exact ⟨rfl, rfl⟩
  simp only [Recognizer.extendRoute, hnew]
  split
  · obtain ⟨hspan, htimers, hanchor, hdown, hup⟩ := h
    exact ⟨hspan, htimers, hanchor, hdown, hup⟩
  · exact h

theorem move (h : Postponed c room r r') (hs : s.Postponed c room s') :
    Outcome.Postponed c room (r.move s) (r'.move s') := by
  have hheld : (r'.awaitingSecondUp && r'.heldLong) = (r.awaitingSecondUp && r.heldLong) ∧
      r'.recognizing = r.recognizing ∧ r'.anchor = r.anchor := by
    obtain ⟨-, -, -, -, -⟩ := h
    exact ⟨rfl, rfl, rfl⟩
  have hplace : s'.position = s.position := by
    obtain ⟨t, -, rfl⟩ := hs
    rfl
  simp only [Recognizer.move, hheld.1, hheld.2.1, hheld.2.2, hplace]
  split
  · exact ⟨h, .nil, rfl⟩
  · split
    · exact ⟨h, .nil, rfl⟩
    · rename_i hr
      split
      · exact ⟨h, .nil, rfl⟩
      · rename_i position hposition
        have hgr : (r.giveUpDoubleTap s (r.anchor.distance position)).1.recognizing = true := by
          rw [recognizing_giveUpDoubleTap]
          simpa using hr
        obtain ⟨hg, hgiven⟩ := h.giveUpDoubleTap hs (r.anchor.distance position)
        generalize r.giveUpDoubleTap s (r.anchor.distance position) = given at hg hgiven hgr
        generalize r'.giveUpDoubleTap s' (r.anchor.distance position) = given' at hg hgiven
        have hsame : given'.1.thresholds = given.1.thresholds ∧
            given'.1.swiping = given.1.swiping ∧
            given'.1.firstTapDone = given.1.firstTapDone := by
          obtain ⟨state, ds⟩ := given
          obtain ⟨state', ds'⟩ := given'
          obtain ⟨-, -, -, -, -⟩ := hg
          exact ⟨rfl, rfl, rfl⟩
        obtain ⟨hthresholds, hswiping, hfirst⟩ := hsame
        have hanchored : (given'.1.moveAnchor position s'.time).swiping =
            (given.1.moveAnchor position s.time).swiping := hswiping
        simp only [hthresholds, hfirst, hg.isOverdue_eq hgr hs.time, hanchored]
        split
        · have hmoved := hg.moveAnchor position hs.time
          split
          · exact ⟨hmoved.extendRoute position, hgiven, rfl⟩
          · exact ⟨hmoved.startSwipe, List.rel_append hgiven (.cons .started .nil), rfl⟩
        · split
          · have hgu := hg.giveUp hs
            exact ⟨hgu.state.abandon, List.rel_append hgiven hgu.decisions, rfl⟩
          · exact ⟨hg.extendRoute position, hgiven, hswiping⟩

/-! ## Ups and cancels -/

theorem tapUp (h : Postponed c room r r') (hs : s.Postponed c room s') :
    Postponed c room (r.tapUp s) (r'.tapUp s') := by
  have hpending := h.isPending_eq .singleTap
  obtain ⟨hspan, htimers, -, hdown, -⟩ := h
  have hdeadline := hs.time.later (Nat.le_trans (Nat.le_max_left _ _) hspan)
  have hended {q q' : Timers RecognizerTimer} (hq : q.Postponed c q') :=
    hq.disarm RecognizerTimer.longPress
  simp only [Recognizer.tapUp, hpending]
  split
  · exact ⟨hspan, hended (htimers.disarm _), (fun hr => by cases hr), hdown, .some hs⟩
  · split
    · split
      · exact ⟨hspan, hended (htimers.arm _ hdeadline), (fun hr => by cases hr), hdown, .some hs⟩
      · exact ⟨hspan, hended htimers, (fun hr => by cases hr), hdown, .some hs⟩
    · exact ⟨hspan, hended htimers, (fun hr => by cases hr), hdown, .some hs⟩

theorem swipeUp (h : Postponed c room r r') (hs : s.Postponed c room s') :
    StepPostponed c room (r.swipeUp s) (r'.swipeUp s') := by
  have hroute : r'.closeRoute s' = r.closeRoute s := by
    obtain ⟨-, -, -, -, -⟩ := h
    obtain ⟨t, -, rfl⟩ := hs
    rfl
  simp only [Recognizer.swipeUp, hroute]
  split
  · exact h.complete _
  · exact h.giveUp hs

theorem up (h : Postponed c room r r') (hs : s.Postponed c room s') :
    Outcome.Postponed c room (r.up s) (r'.up s') := by
  have hsame : r'.recognizing = r.recognizing ∧ r'.awaitingSecondUp = r.awaitingSecondUp ∧
      r'.heldLong = r.heldLong ∧ r'.swiping = r.swiping := by
    obtain ⟨-, -, -, -, -⟩ := h
    exact ⟨rfl, rfl, rfl, rfl⟩
  obtain ⟨hrecognizing, hawaiting, hheld, hswiping⟩ := hsame
  have hcount : s'.pointerCount = s.pointerCount := by
    obtain ⟨t, -, rfl⟩ := hs
    rfl
  simp only [Recognizer.up, hrecognizing, hawaiting, hheld, hswiping, hcount]
  split
  · exact ⟨h, .nil, rfl⟩
  · split
    · obtain ⟨hspan, htimers, hanchor, hdown, hup⟩ := h
      exact ⟨⟨hspan, htimers.disarm _, hanchor, hdown, hup⟩, .nil, rfl⟩
    · split
      · split
        · exact ⟨h.clear, .nil, rfl⟩
        · have hd := h.clear.completeDouble hs
          exact ⟨hd.state, hd.decisions, rfl⟩
      · split
        · have hswipe := h.swipeUp hs
          exact ⟨hswipe.state.clear, hswipe.decisions, rfl⟩
        · exact ⟨h.tapUp hs, .nil, rfl⟩

theorem cancel (h : Postponed c room r r') (hs : s.Postponed c room s') :
    Outcome.Postponed c room (r.cancel s) (r'.cancel s') :=
  ⟨(h.clear.giveUp hs).state, (h.clear.giveUp hs).decisions, rfl⟩

theorem pointer (h : Postponed c room r r') (hs : s.Postponed c room s') :
    Outcome.Postponed c room (r.pointer s) (r'.pointer s') := by
  have hkind : s'.source = s.source ∧ s'.action = s.action := by
    obtain ⟨t, -, rfl⟩ := hs
    exact ⟨rfl, rfl⟩
  simp only [Recognizer.pointer, hkind.1, hkind.2]
  split
  · exact ⟨h, .nil, rfl⟩
  · cases s.action with
    | down => exact h.down hs
    | move => exact h.move hs
    | up => exact h.up hs
    | cancel => exact h.cancel hs

/-! ## Expiry -/

theorem fire (h : Postponed c room r r') (t : RecognizerTimer) :
    StepPostponed c room (r.fire t) (r'.fire t) := by
  have hsame : r'.fingerDown = r.fingerDown ∧ r'.firstTapDone = r.firstTapDone ∧
      r'.classified = r.classified ∧ r'.swiping = r.swiping := by
    obtain ⟨-, -, -, -, -⟩ := h
    exact ⟨rfl, rfl, rfl, rfl⟩
  obtain ⟨hfinger, hfirst, hclassified, hswiping⟩ := hsame
  cases t with
  | singleTap =>
    simp only [Recognizer.fire, hfinger, hfirst, hclassified]
    split
    · have hc := h.complete .tap
      exact ⟨hc.state.clear, hc.decisions⟩
    · exact ⟨h, .nil⟩
  | longPress =>
    simp only [Recognizer.fire, hfinger, hswiping, hclassified]
    split
    · obtain ⟨hspan, htimers, hanchor, hdown, hup⟩ := h
      refine ⟨⟨hspan, htimers.disarm _, hanchor, hdown, hup⟩, ?_⟩
      revert hdown
      generalize r.lastDown = a
      intro hdown
      cases hdown with
      | none => exact .nil
      | some hdown => exact .cons (.longPress hdown) .nil
    · exact ⟨h, .nil⟩

theorem expire (h : Postponed c room r r') (t : RecognizerTimer) :
    StepPostponed c room (r.expire t) (r'.expire t) :=
  (h.disarm t).fire t

theorem fireDue (h : Postponed c room r r') (hnow : now.Postponed c 0 now') (n : Nat) :
    StepPostponed c room (fireDue now n r) (fireDue now' n r') := by
  induction n generalizing r r' with
  | zero => exact ⟨h, .nil⟩
  | succ n ih =>
    have htake : Option.Rel
        (fun x x' => PendingTimer.Postponed c x.1 x'.1 ∧ Timers.Postponed c x.2 x'.2)
        (r.timers.takeDue now) (r'.timers.takeDue now') := by
      obtain ⟨-, htimers, -⟩ := h
      exact htimers.takeDue hnow
    rw [fireDue_succ, fireDue_succ]
    revert htake
    generalize r.timers.takeDue now = a, r'.timers.takeDue now' = a'
    intro htake
    cases htake with
    | none => exact ⟨h, .nil⟩
    | @some x x' hx =>
      obtain ⟨t, q⟩ := x
      obtain ⟨t', q'⟩ := x'
      have hkind : t'.kind = t.kind := hx.1.kind_eq
      have hexpired := h.expire t.kind
      have hrest := ih hexpired.state
      dsimp only
      rw [hkind]
      exact ⟨hrest.state, List.rel_append hexpired.decisions hrest.decisions⟩

theorem advance (h : Postponed c room r r') (hnow : now.Postponed c 0 now') :
    StepPostponed c room (r.advance now) (r'.advance now') := by
  have hsize : r'.timers.size = r.timers.size := by
    obtain ⟨-, htimers, -⟩ := h
    exact htimers.size_eq
  rw [Recognizer.advance, Recognizer.advance, hsize]
  exact h.fireDue hnow _

/-! ## Messages -/

theorem receive (h : Postponed c room r r') {m m' : Message} (hm : m.Postponed c room m') :
    Reply.Postponed c room (Postponed c room) (r.receive m) (r'.receive m') := by
  cases hm with
  | event he =>
    cases he with
    | pointer hs =>
      obtain ⟨hstate, hdecisions, hconsumed⟩ := h.pointer hs
      refine ⟨hstate, hconsumed, List.rel_append (decisions_postponed hdecisions) ?_⟩
      rw [hconsumed]
      split
      · exact .nil
      · exact .cons (.message (.event (.pointer hs))) .nil
    | key hk => exact ⟨h, rfl, .cons (.message (.event (.key hk))) .nil⟩
    | accessibility ha => exact ⟨h, rfl, .cons (.message (.event (.accessibility ha))) .nil⟩
  | time hnow =>
    obtain ⟨hstate, hdecisions⟩ := h.advance hnow
    exact ⟨hstate, rfl,
      List.rel_append (decisions_postponed hdecisions) (.cons (.message (.time hnow)) .nil)⟩
  | clear source =>
    refine ⟨?_, rfl, .cons (.message (.clear source)) .nil⟩
    simp only [Recognizer.receive]
    split
    · exact h.clear
    · exact h
  | destroy => exact ⟨h.destroy, rfl, .cons (.message .destroy) .nil⟩

end Postponed

end TouchStream.Recognizer
