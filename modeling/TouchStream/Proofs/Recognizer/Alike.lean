import TouchStream.Proofs.Recognizer.Run

/-!
# Recognizers that behave alike

Two recognizers are alike when they differ in nothing but the number of timers that
were armed before and, as long as no first tap is remembered, in the last up. Neither
can be told from outside: timers only compare their orders with one another, and the
last up is looked at only for the second tap after a first one, whose own up has by
then replaced it.

* `Timers.shift`: a queue in which more timers were armed before. All operations
  commute with it.
* `Alike.receive`: alike recognizers answer a message in the same way and stay alike.
* `Alike.observe_eq`: nothing that can be observed in any run tells them apart.
-/

namespace TouchStream

/-! ## Queues with another count of armed timers -/

namespace PendingTimer

variable {κ : Type}

/-- The timer as it would be with `k` more timers armed before it. -/
def shift (k : Nat) (t : PendingTimer κ) : PendingTimer κ := { t with order := t.order + k }

@[simp] theorem before_shift (k : Nat) (s t : PendingTimer κ) :
    (s.shift k).before (t.shift k) = s.before t := by
  have h : decide (s.order + k < t.order + k) = decide (s.order < t.order) :=
    decide_eq_decide.mpr Nat.add_lt_add_iff_right
  show (decide (s.deadline < t.deadline) ||
    (s.deadline == t.deadline && decide (s.order + k < t.order + k))) = s.before t
  rw [h]
  rfl

theorem first?_map_shift (k : Nat) (ts : List (PendingTimer κ)) :
    first? (ts.map (shift k)) = (first? ts).map (shift k) := by
  induction ts with
  | nil => rfl
  | cons t ts ih =>
    simp only [List.map_cons, first?, ih]
    cases first? ts with
    | none => rfl
    | some s =>
      simp only [Option.map_some, before_shift]
      split <;> rfl

end PendingTimer

namespace Timers

variable {κ : Type}

/-- The queue as it would be with `k` more timers armed before. -/
def shift (k : Nat) (q : Timers κ) : Timers κ :=
  ⟨q.pending.map (PendingTimer.shift k), q.armed + k⟩

theorem size_shift (k : Nat) (q : Timers κ) : (q.shift k).size = q.size := List.length_map _

theorem nextDeadline_shift (k : Nat) (q : Timers κ) :
    (q.shift k).nextDeadline = q.nextDeadline := by
  simp only [nextDeadline, shift, List.foldr_map]
  rfl

variable [DecidableEq κ]

theorem isPending_shift (k : Nat) (q : Timers κ) (a : κ) :
    (q.shift k).isPending a = q.isPending a := by
  simp only [isPending, shift, List.any_map]
  rfl

theorem disarm_shift (k : Nat) (q : Timers κ) (a : κ) :
    (q.shift k).disarm a = (q.disarm a).shift k := by
  simp only [disarm, shift, List.filter_map]
  rfl

theorem arm_shift (k : Nat) (q : Timers κ) (a : κ) (d : Micros) :
    (q.shift k).arm a d = (q.arm a d).shift k := by
  have h := congrArg pending (disarm_shift k q a)
  simp only [arm, h]
  simp [shift, PendingTimer.shift, Nat.add_right_comm]

theorem takeDue_shift (k : Nat) (q : Timers κ) (now : Micros) :
    (q.shift k).takeDue now = (q.takeDue now).map fun x => (x.1.shift k, x.2.shift k) := by
  have h : (q.shift k).firstDue now = (q.firstDue now).map (PendingTimer.shift k) := by
    simp only [firstDue, shift, List.filter_map, ← PendingTimer.first?_map_shift]
    rfl
  simp only [takeDue, h, Option.map_map]
  congr 1
  funext t
  exact Prod.ext rfl (disarm_shift k q t.kind)

end Timers

namespace Recognizer

/-- The recognizer with `k` more timers armed before, and another last up. -/
def rebase (k : Nat) (up : Option Sample) (r : Recognizer) : Recognizer :=
  { r with timers := r.timers.shift k, lastUp := up }

/-- The recognizers differ in the count of timers armed before, and in the last up
only while it is not needed. -/
def Alike (r r' : Recognizer) : Prop :=
  ∃ k up, r' = r.rebase k up ∧ (r.firstTapDone = true → up = r.lastUp)

/-- The same is decided on a sample, and the states after it are alike. -/
structure Outcome.Alike (o o' : Outcome) : Prop where
  state : o.state.Alike o'.state
  decisions : o'.decisions = o.decisions
  consumed : o'.consumed = o.consumed

namespace Alike

variable {r r' : Recognizer}

theorem isPending_eq (h : Alike r r') (t : RecognizerTimer) :
    r'.timers.isPending t = r.timers.isPending t := by
  obtain ⟨k, up, rfl, -⟩ := h
  exact Timers.isPending_shift k r.timers t

theorem nextDeadline_eq (h : Alike r r') : r'.timers.nextDeadline = r.timers.nextDeadline := by
  obtain ⟨k, up, rfl, -⟩ := h
  exact Timers.nextDeadline_shift k r.timers

theorem disarm (h : Alike r r') (t : RecognizerTimer) : Alike (r.disarm t) (r'.disarm t) := by
  obtain ⟨k, up, rfl, hup⟩ := h
  refine ⟨k, up, ?_, hup⟩
  simp only [Recognizer.disarm, rebase, Timers.disarm_shift]

theorem awaitLongPress (h : Alike r r') (now : Micros) :
    Alike (r.awaitLongPress now) (r'.awaitLongPress now) := by
  obtain ⟨k, up, rfl, hup⟩ := h
  refine ⟨k, up, ?_, hup⟩
  simp only [Recognizer.awaitLongPress, rebase, Timers.arm_shift]

theorem awaitSecondTap (h : Alike r r') (now : Micros) :
    Alike (r.awaitSecondTap now) (r'.awaitSecondTap now) := by
  obtain ⟨k, up, rfl, hup⟩ := h
  refine ⟨k, up, ?_, hup⟩
  simp only [Recognizer.awaitSecondTap, rebase, Timers.arm_shift]

/-! ## Reports -/

/-- Alike recognizers report the same where they agree on whether to report. -/
theorem report {q q' : Recognizer} {c c' : Bool} (h : Alike r r') (hq : Alike q q')
    (hc : c' = c) (ds : List Decision) :
    Alike (if c then (r, []) else (q, ds)).1 (if c' then (r', []) else (q', ds)).1 ∧
      (if c' then (r', []) else (q', ds)).2 = (if c then (r, []) else (q, ds)).2 := by
  subst hc
  cases c' with
  | true => exact ⟨h, rfl⟩
  | false => exact ⟨hq, rfl⟩

theorem classify (h : Alike r r') :
    Alike { r with classified := true } { r' with classified := true } ∧
      r'.classified = r.classified := by
  obtain ⟨k, up, rfl, hup⟩ := h
  exact ⟨⟨k, up, rfl, hup⟩, rfl⟩

theorem giveUp (h : Alike r r') (s : Sample) :
    Alike (r.giveUp s).1 (r'.giveUp s).1 ∧ (r'.giveUp s).2 = (r.giveUp s).2 := by
  have hcancelled : Alike { r with cancelled := true } { r' with cancelled := true } ∧
      (r'.cancelled || r'.classified) = (r.cancelled || r.classified) := by
    obtain ⟨k, up, rfl, hup⟩ := h
    exact ⟨⟨k, up, rfl, hup⟩, rfl⟩
  exact h.report hcancelled.1 hcancelled.2 [.cancelled s]

theorem complete (h : Alike r r') (g : Gesture) :
    Alike (r.complete g).1 (r'.complete g).1 ∧ (r'.complete g).2 = (r.complete g).2 :=
  h.report h.classify.1 h.classify.2 [.completed g]

theorem completeDouble (h : Alike r r') (s : Sample) :
    Alike (r.completeDouble s).1 (r'.completeDouble s).1 ∧
      (r'.completeDouble s).2 = (r.completeDouble s).2 :=
  h.report h.classify.1 h.classify.2 [.doubleTap s]

/-! ## Resetting -/

theorem resetTaps (h : Alike r r') : Alike r.resetTaps r'.resetTaps := by
  obtain ⟨k, up, he, hup⟩ := (h.disarm .longPress).disarm .singleTap
  refine ⟨k, up, ?_, hup⟩
  rw [Recognizer.resetTaps, he]
  rfl

theorem clear (h : Alike r r') : Alike r.clear r'.clear := by
  obtain ⟨k, up, he, -⟩ := h.resetTaps
  refine ⟨k, up, ?_, by simp [Recognizer.clear]⟩
  rw [Recognizer.clear, he]
  rfl

theorem abandon (h : Alike r r') : Alike r.abandon r'.abandon := by
  obtain ⟨k, up, he, -⟩ := h.resetTaps
  refine ⟨k, up, ?_, by simp [Recognizer.abandon]⟩
  rw [Recognizer.abandon, he]
  rfl

theorem destroy (h : Alike r r') : Alike r.destroy r'.destroy := by
  obtain ⟨k, up, rfl, -⟩ := h
  exact ⟨k, none, rfl, fun _ => rfl⟩

/-! ## Downs -/

/-- Where a first tap is remembered the last up is the same, and where none is there
is no second tap. -/
theorem isSecondTap_eq (h : Alike r r') (s : Sample) (position : Point) :
    r'.isSecondTap s position = r.isSecondTap s position := by
  obtain ⟨k, up, rfl, hup⟩ := h
  cases hf : r.firstTapDone with
  | true =>
    rw [hup hf]
    rfl
  | false =>
    simp only [Recognizer.isSecondTap, rebase, hf, Bool.false_and]
    cases r.lastDown <;> cases up <;> cases r.lastUp <;> rfl

theorem beginSecondTap (h : Alike r r') : Alike r.beginSecondTap r'.beginSecondTap := by
  obtain ⟨k, up, he, hup⟩ := h.disarm .singleTap
  refine ⟨k, up, ?_, hup⟩
  rw [Recognizer.beginSecondTap, he]
  rfl

/-- A down that is no second tap forgets the first one. -/
theorem forgetFirstTap (h : Alike r r') :
    Alike { r with awaitingSecondUp := false, firstTapDone := false }
      { r' with awaitingSecondUp := false, firstTapDone := false } := by
  obtain ⟨k, up, rfl, -⟩ := h
  exact ⟨k, up, rfl, by simp⟩

theorem beginTap (h : Alike r r') (now : Micros) :
    Alike (r.beginTap now).1 (r'.beginTap now).1 ∧ (r'.beginTap now).2 = (r.beginTap now).2 := by
  have hpending := h.isPending_eq .singleTap
  have hfields : r'.firstTapDone = r.firstTapDone ∧ r'.fingerDown = r.fingerDown := by
    obtain ⟨k, up, rfl, -⟩ := h
    exact ⟨rfl, rfl⟩
  simp only [Recognizer.beginTap, hpending, hfields.1, hfields.2]
  split
  · have hc := h.complete .tap
    exact ⟨hc.1.forgetFirstTap.awaitSecondTap now, hc.2⟩
  · exact ⟨h.forgetFirstTap.awaitSecondTap now, rfl⟩

theorem beginInteraction (h : Alike r r') (s : Sample) (position : Point) :
    Alike (r.beginInteraction s position) (r'.beginInteraction s position) := by
  obtain ⟨k, up, he, hup⟩ := h.awaitLongPress s.time
  refine ⟨k, up, ?_, hup⟩
  rw [Recognizer.beginInteraction, he]
  rfl

theorem down (h : Alike r r') (s : Sample) : Outcome.Alike (r.down s) (r'.down s) := by
  have hheld : (r'.awaitingSecondUp && r'.heldLong) = (r.awaitingSecondUp && r.heldLong) := by
    obtain ⟨k, up, rfl, -⟩ := h
    rfl
  simp only [Recognizer.down, hheld]
  split
  · exact ⟨h, rfl, rfl⟩
  · split
    · exact ⟨h.clear, rfl, rfl⟩
    · split
      · exact ⟨h, rfl, rfl⟩
      · rename_i position hposition
        rw [h.isSecondTap_eq]
        split
        · exact ⟨h.beginSecondTap.beginInteraction s position, rfl, rfl⟩
        · have hb := h.beginTap s.time
          exact ⟨hb.1.beginInteraction s position, hb.2, rfl⟩

/-! ## Moves -/

theorem giveUpDoubleTap (h : Alike r r') (s : Sample) (offset : Float32) :
    Alike (r.giveUpDoubleTap s offset).1 (r'.giveUpDoubleTap s offset).1 ∧
      (r'.giveUpDoubleTap s offset).2 = (r.giveUpDoubleTap s offset).2 := by
  have hcond : (r'.awaitingSecondUp && r'.settings.touchSlop < offset) =
      (r.awaitingSecondUp && r.settings.touchSlop < offset) := by
    obtain ⟨k, up, rfl, -⟩ := h
    rfl
  simp only [Recognizer.giveUpDoubleTap, hcond]
  split
  · exact h.forgetFirstTap.giveUp s
  · exact ⟨h, rfl⟩

theorem moveAnchor (h : Alike r r') (position : Point) (now : Micros) :
    Alike (r.moveAnchor position now) (r'.moveAnchor position now) := by
  obtain ⟨k, up, he, -⟩ := (h.disarm .singleTap).disarm .longPress
  refine ⟨k, up, ?_, by simp [Recognizer.moveAnchor]⟩
  rw [Recognizer.moveAnchor, he]
  rfl

theorem startSwipe (h : Alike r r') :
    Alike { r with swiping := true } { r' with swiping := true } := by
  obtain ⟨k, up, rfl, hup⟩ := h
  exact ⟨k, up, rfl, hup⟩

theorem extendRoute (h : Alike r r') (position : Point) :
    Alike (r.extendRoute position) (r'.extendRoute position) := by
  obtain ⟨k, up, rfl, hup⟩ := h
  have hnew : (r.rebase k up).isNewPoint position = r.isNewPoint position := rfl
  simp only [Recognizer.extendRoute, hnew]
  split
  · exact ⟨k, up, rfl, hup⟩
  · exact ⟨k, up, rfl, hup⟩

theorem move (h : Alike r r') (s : Sample) : Outcome.Alike (r.move s) (r'.move s) := by
  have hheld : (r'.awaitingSecondUp && r'.heldLong) = (r.awaitingSecondUp && r.heldLong) ∧
      r'.recognizing = r.recognizing ∧ r'.anchor = r.anchor := by
    obtain ⟨k, up, rfl, -⟩ := h
    exact ⟨rfl, rfl, rfl⟩
  simp only [Recognizer.move, hheld.1, hheld.2.1, hheld.2.2]
  split
  · exact ⟨h, rfl, rfl⟩
  · split
    · exact ⟨h, rfl, rfl⟩
    · split
      · exact ⟨h, rfl, rfl⟩
      · rename_i position hposition
        obtain ⟨hg, hgiven⟩ := h.giveUpDoubleTap s (r.anchor.distance position)
        generalize r.giveUpDoubleTap s (r.anchor.distance position) = given at hg hgiven
        generalize r'.giveUpDoubleTap s (r.anchor.distance position) = given' at hg hgiven
        have hsame : given'.1.thresholds = given.1.thresholds ∧
            given'.1.swiping = given.1.swiping ∧ given'.1.firstTapDone = given.1.firstTapDone ∧
            given'.1.isOverdue s.time = given.1.isOverdue s.time := by
          obtain ⟨k, up, he, -⟩ := hg
          rw [he]
          exact ⟨rfl, rfl, rfl, rfl⟩
        obtain ⟨hthresholds, hswiping, hfirst, hoverdue⟩ := hsame
        have hanchored : (given'.1.moveAnchor position s.time).swiping =
            (given.1.moveAnchor position s.time).swiping := hswiping
        simp only [hthresholds, hfirst, hoverdue, hanchored, hgiven]
        split
        · split
          · exact ⟨(hg.moveAnchor position s.time).extendRoute position, rfl, rfl⟩
          · exact ⟨(hg.moveAnchor position s.time).startSwipe, rfl, rfl⟩
        · split
          · have hgu := hg.giveUp s
            exact ⟨hgu.1.abandon, by simp only [hgu.2], rfl⟩
          · exact ⟨hg.extendRoute position, rfl, hswiping⟩

/-! ## Ups and cancels -/

/-- The up of a tap replaces the last up, whatever it was. -/
theorem tapUp (h : Alike r r') (s : Sample) : Alike (r.tapUp s) (r'.tapUp s) := by
  obtain ⟨k, up, rfl, -⟩ := h
  have hheld : (r.rebase k up).heldLong = r.heldLong := rfl
  have hfirst : (!(r.rebase k up).secondTapBegun && (r.rebase k up).tapBegun) =
      (!r.secondTapBegun && r.tapBegun) := rfl
  have hpending : (!(r.rebase k up).timers.isPending .singleTap && !(r.rebase k up).classified) =
      (!r.timers.isPending .singleTap && !r.classified) := by
    rw [rebase, Timers.isPending_shift]
  refine ⟨k, some s, ?_, fun _ => by unfold Recognizer.tapUp; rfl⟩
  simp only [Recognizer.tapUp, hheld, hfirst, hpending]
  split
  · simp only [Recognizer.disarm, rebase, Timers.disarm_shift]
  · split
    · split
      · simp only [Recognizer.disarm, Recognizer.awaitSecondTap, rebase, Timers.arm_shift,
          Timers.disarm_shift]
      · simp only [Recognizer.disarm, rebase, Timers.disarm_shift]
    · simp only [Recognizer.disarm, rebase, Timers.disarm_shift]

theorem swipeUp (h : Alike r r') (s : Sample) :
    Alike (r.swipeUp s).1 (r'.swipeUp s).1 ∧ (r'.swipeUp s).2 = (r.swipeUp s).2 := by
  have hroute : r'.closeRoute s = r.closeRoute s := by
    obtain ⟨k, up, rfl, -⟩ := h
    rfl
  simp only [Recognizer.swipeUp, hroute]
  split
  · exact h.complete _
  · exact h.giveUp s

theorem up (h : Alike r r') (s : Sample) : Outcome.Alike (r.up s) (r'.up s) := by
  have hsame : r'.recognizing = r.recognizing ∧ r'.awaitingSecondUp = r.awaitingSecondUp ∧
      r'.heldLong = r.heldLong ∧ r'.swiping = r.swiping := by
    obtain ⟨k, up, rfl, -⟩ := h
    exact ⟨rfl, rfl, rfl, rfl⟩
  obtain ⟨hrecognizing, hawaiting, hheld, hswiping⟩ := hsame
  simp only [Recognizer.up, hrecognizing, hawaiting, hheld, hswiping]
  split
  · exact ⟨h, rfl, rfl⟩
  · split
    · obtain ⟨k, up, he, hup⟩ := h.disarm .longPress
      refine ⟨⟨k, up, ?_, hup⟩, rfl, rfl⟩
      rw [he]
      rfl
    · split
      · split
        · exact ⟨h.clear, rfl, rfl⟩
        · have hd := h.clear.completeDouble s
          exact ⟨hd.1, hd.2, rfl⟩
      · split
        · have hs := h.swipeUp s
          exact ⟨hs.1.clear, hs.2, rfl⟩
        · exact ⟨h.tapUp s, rfl, rfl⟩

theorem cancel (h : Alike r r') (s : Sample) : Outcome.Alike (r.cancel s) (r'.cancel s) :=
  ⟨(h.clear.giveUp s).1, (h.clear.giveUp s).2, rfl⟩

theorem pointer (h : Alike r r') (s : Sample) : Outcome.Alike (r.pointer s) (r'.pointer s) := by
  simp only [Recognizer.pointer]
  split
  · exact ⟨h, rfl, rfl⟩
  · cases s.action with
    | down => exact h.down s
    | move => exact h.move s
    | up => exact h.up s
    | cancel => exact h.cancel s

/-! ## Expiry -/

theorem fire (h : Alike r r') (t : RecognizerTimer) :
    Alike (r.fire t).1 (r'.fire t).1 ∧ (r'.fire t).2 = (r.fire t).2 := by
  have hsame : r'.fingerDown = r.fingerDown ∧ r'.firstTapDone = r.firstTapDone ∧
      r'.classified = r.classified ∧ r'.swiping = r.swiping ∧ r'.lastDown = r.lastDown := by
    obtain ⟨k, up, rfl, -⟩ := h
    exact ⟨rfl, rfl, rfl, rfl, rfl⟩
  obtain ⟨hfinger, hfirst, hclassified, hswiping, hdown⟩ := hsame
  cases t with
  | singleTap =>
    simp only [Recognizer.fire, hfinger, hfirst, hclassified]
    split
    · have hc := h.complete .tap
      exact ⟨hc.1.clear, hc.2⟩
    · exact ⟨h, rfl⟩
  | longPress =>
    simp only [Recognizer.fire, hfinger, hswiping, hclassified, hdown]
    split
    · obtain ⟨k, up, he, hup⟩ := h.disarm .singleTap
      refine ⟨⟨k, up, ?_, hup⟩, rfl⟩
      rw [he]
      rfl
    · exact ⟨h, rfl⟩

theorem expire (h : Alike r r') (t : RecognizerTimer) :
    Alike (r.expire t).1 (r'.expire t).1 ∧ (r'.expire t).2 = (r.expire t).2 :=
  (h.disarm t).fire t

theorem fireDue (h : Alike r r') (now : Micros) (n : Nat) :
    Alike (fireDue now n r).1 (fireDue now n r').1 ∧
      (fireDue now n r').2 = (fireDue now n r).2 := by
  induction n generalizing r r' with
  | zero => exact ⟨h, rfl⟩
  | succ n ih =>
    have htake : r'.timers.takeDue now =
        (r.timers.takeDue now).map fun x => (x.1.shift (r'.timers.armed - r.timers.armed),
          x.2.shift (r'.timers.armed - r.timers.armed)) := by
      obtain ⟨k, up, rfl, -⟩ := h
      have hk : (r.rebase k up).timers.armed - r.timers.armed = k := Nat.add_sub_cancel_left _ _
      rw [hk]
      exact Timers.takeDue_shift k r.timers now
    rw [fireDue_succ, fireDue_succ, htake]
    cases r.timers.takeDue now with
    | none => exact ⟨h, rfl⟩
    | some x =>
      obtain ⟨t, q⟩ := x
      obtain ⟨hexpired, hdecided⟩ := h.expire t.kind
      obtain ⟨hrest, hmore⟩ := ih hexpired
      refine ⟨hrest, ?_⟩
      show (r'.expire t.kind).2 ++ (Recognizer.fireDue now n (r'.expire t.kind).1).2 =
        (r.expire t.kind).2 ++ (Recognizer.fireDue now n (r.expire t.kind).1).2
      rw [hdecided, hmore]

theorem advance (h : Alike r r') (now : Micros) :
    Alike (r.advance now).1 (r'.advance now).1 ∧ (r'.advance now).2 = (r.advance now).2 := by
  have hsize : r'.timers.size = r.timers.size := by
    obtain ⟨k, up, rfl, -⟩ := h
    exact Timers.size_shift k r.timers
  rw [Recognizer.advance, Recognizer.advance, hsize]
  exact h.fireDue now _

/-! ## Messages -/

theorem receive (h : Alike r r') (m : Message) :
    Alike (r.receive m).state (r'.receive m).state ∧
      (r'.receive m).handled = (r.receive m).handled ∧ (r'.receive m).out = (r.receive m).out := by
  cases m with
  | event e =>
    cases e with
    | pointer s =>
      obtain ⟨hstate, hdecisions, hconsumed⟩ := h.pointer s
      exact ⟨hstate, hconsumed, by simp only [Recognizer.receive, hdecisions, hconsumed]⟩
    | key k => exact ⟨h, rfl, rfl⟩
    | accessibility a => exact ⟨h, rfl, rfl⟩
  | time now =>
    obtain ⟨hstate, hdecisions⟩ := h.advance now
    exact ⟨hstate, rfl, by simp only [Recognizer.receive, hdecisions]⟩
  | clear source =>
    refine ⟨?_, rfl, rfl⟩
    simp only [Recognizer.receive]
    split
    · exact h.clear
    · exact h
  | destroy => exact ⟨h.destroy, rfl, rfl⟩

end Alike

/-! ## Observations -/

/-- What can be seen of a recognizer when it is given a message: whether it took
charge of it, what it passed on and reported, and when its next timer is due. -/
structure Observation where
  handled : Bool
  out : List Signal
  nextDeadline : Option Micros

/-- What can be seen in a run. -/
def observe (r : Recognizer) : List Message → List Observation
  | [] => []
  | m :: ms =>
    let reply := r.receive m
    ⟨reply.handled, reply.out, reply.state.timers.nextDeadline⟩ :: reply.state.observe ms

theorem Alike.observe_eq {r r' : Recognizer} (h : Alike r r') (ms : List Message) :
    r'.observe ms = r.observe ms := by
  induction ms generalizing r r' with
  | nil => rfl
  | cons m ms ih =>
    obtain ⟨hstate, hhandled, hout⟩ := h.receive m
    simp only [observe, hhandled, hout, hstate.nextDeadline_eq, ih hstate]

end Recognizer

end TouchStream
