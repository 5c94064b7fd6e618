import TouchStream.Proofs.Recognizer.Steady

/-!
# First taps

A tap ends with the up of a single finger, whose down began a tap of its own and in whose
interaction nothing was decided (`EndsTap`). The recognizer remembers it as what may be the
first of two, until it is reported, a second tap is completed or something else happens. So
where a first tap is remembered the run comes apart at its up, and nothing was decided since.

* `LastDown`: a run comes apart at the last down that it accepted.
* `Unused.exists_rested`: a finger that rests has rested since that down.
* `Recalls.receive`: what a message was after which a first tap is remembered.
* `Unused.exists_endsTap`: the up of the first tap that is remembered.
-/

namespace TouchStream.Recognizer

variable {r : Recognizer} {s d u : Sample} {m : Message} {past before since ms : List Message}
  {position : Point} {now : Micros}

/-! ## Parts of a run -/

/-- Whether nothing is decided in a run. -/
def isQuiet (r : Recognizer) : List Message → Bool
  | [] => true
  | m :: ms => (r.decides m).isEmpty && (r.receive m).state.isQuiet ms

/-- The last down that a run accepted, with what came before it and since. -/
structure LastDown (r : Recognizer) (past before : List Message) (d : Sample)
    (since : List Message) : Prop where
  split : past = before ++ .event (.pointer d) :: since
  accepted : (r.after before).accepts (.event (.pointer d)) = true
  last : ((r.after (before ++ [.event (.pointer d)])).interactions since).2 = []

/-- A run whose last message is the up of a tap: its last accepted down began a tap of its
own, the interaction was read until the up of a single finger came, and nothing was decided
in it. -/
def EndsTap (r : Recognizer) (run : List Message) (u : Sample) : Prop :=
  ∃ past before d during, run = past ++ [.event (.pointer u)] ∧ r.LastDown past before d during ∧
    (r.after before).beginsSecondTap (.event (.pointer d)) = false ∧
    (r.after (before ++ [.event (.pointer d)])).reads during = true ∧ u.isFingerUp = true ∧
    ((r.after (before ++ [.event (.pointer d)])).interactions
      (during ++ [.event (.pointer u)])).1 = []

theorem after_concat (r : Recognizer) (ms : List Message) (m : Message) :
    r.after (ms ++ [m]) = ((r.after ms).receive m).state := by
  rw [after_append]
  rfl

theorem isQuiet_concat (r : Recognizer) (ms : List Message) (m : Message) :
    r.isQuiet (ms ++ [m]) = (r.isQuiet ms && ((r.after ms).decides m).isEmpty) := by
  induction ms generalizing r with
  | nil => simp [isQuiet]
  | cons a ms ih =>
    show ((r.decides a).isEmpty && (r.receive a).state.isQuiet (ms ++ [m])) = _
    rw [ih, ← Bool.and_assoc]
    rfl

theorem interactions_of_isQuiet (h : r.isQuiet ms = true) : (r.interactions ms).1 = [] := by
  induction ms generalizing r with
  | nil => rfl
  | cons m ms ih =>
    rw [isQuiet, Bool.and_eq_true, List.isEmpty_iff] at h
    simp only [interactions]
    split
    · exact h.1
    · rw [h.1]
      exact ih h.2

/-- An interaction that is read in the end was read all along. -/
theorem reads_of_recognizing (hms : (r.interactions ms).2 = [])
    (h : (r.after ms).recognizing = true) : r.reads ms = true := by
  induction ms generalizing r with
  | nil => exact h
  | cons m ms ih =>
    obtain ⟨hm, hrest⟩ := interactions_cons_eq_nil.mp hms
    have hlater := ih hrest h
    have hnext : (r.receive m).state.recognizing = true := by
      cases ms with
      | nil => exact hlater
      | cons a ms => exact (Bool.and_eq_true_iff.mp hlater).1
    have hr : r.recognizing = true := by
      cases hr : r.recognizing with
      | true => rfl
      | false => exact absurd hnext (by simp [not_recognizing_receive hr hm])
    rw [reads, hr, hlater]
    rfl

/-- Where there is a last down the run comes apart at it. -/
theorem exists_lastDown (hnone : r.lastDown = none) (h : (r.after past).lastDown = some d) :
    ∃ before since, r.LastDown past before d since := by
  induction past using List.reverseRecOn with
  | nil =>
    rw [after_nil, hnone] at h
    cases h
  | append_singleton past m ih =>
    rw [after_concat] at h
    cases hm : (r.after past).accepts m with
    | true =>
      obtain ⟨s, rfl⟩ := exists_pointer_of_accepts hm
      obtain rfl : s = d := Option.some.inj ((lastDown_of_accepts hm).symm.trans h)
      exact ⟨past, [], rfl, hm, rfl⟩
    | false =>
      have hd : m ≠ .destroy := by
        rintro rfl
        cases h
      rw [(Kept.receive hm hd).lastDown] at h
      obtain ⟨before, since, hsplit, haccepted, hlast⟩ := ih h
      refine ⟨before, since ++ [m], ?_, haccepted, ?_⟩
      · rw [hsplit]
        simp
      · rw [hsplit, List.append_cons, after_append] at hm
        exact interactions_append_eq_nil.mpr
          ⟨hlast, interactions_cons_eq_nil.mpr ⟨hm, rfl⟩⟩

theorem LastDown.after_eq (h : r.LastDown past before d since) :
    r.after past = (r.after (before ++ [.event (.pointer d)])).after since := by
  rw [h.split, List.append_cons, after_append]

/-! ## Fingers that rest in the end -/

/-- Nothing was given to the recognizer yet. -/
structure Unused (r : Recognizer) : Prop where
  consistent : r.Consistent
  reported : r.HeldReported
  lastDown : r.lastDown = none
  firstTap : r.firstTapDone = false

theorem unused_new (settings : RecognizerSettings) (display : Option Display) :
    (new settings display).Unused :=
  ⟨consistent_new settings display, .of_not_held rfl, rfl, rfl⟩

/-- A finger that rests has rested since the last accepted down. -/
theorem Unused.exists_rested (hr : r.Unused) (h : (r.after past).Steady) :
    ∃ before d since, r.LastDown past before d since ∧ (r.after past).lastDown = some d ∧
      (r.after (before ++ [.event (.pointer d)])).reads since = true ∧
      Rested (r.after (before ++ [.event (.pointer d)])) since (r.after past)
        ((r.after (before ++ [.event (.pointer d)])).interactions since).1 := by
  have hconsistent := hr.consistent.after past
  obtain ⟨d, hd⟩ := Option.isSome_iff_exists.mp (hconsistent.lastDown h.recognizing)
  obtain ⟨before, since, hlast⟩ := exists_lastDown hr.lastDown hd
  refine ⟨before, d, since, hlast, hd, ?_⟩
  rw [hlast.after_eq] at h ⊢
  exact ⟨reads_of_recognizing hlast.last h.recognizing, Rested.interactions hlast.last h⟩

theorem anchor_of_accepts (h : r.accepts (.event (.pointer d)) = true)
    (hposition : d.position = some position) :
    (r.receive (.event (.pointer d))).state.anchor = position := by
  obtain ⟨position', hposition', hp⟩ := pointer_of_accepts h
  obtain rfl : position = position' := Option.some.inj (hposition.symm.trans hposition')
  simp only [receive, hp]
  split <;> rfl

/-- A resting finger that is neither the second of a double tap nor was it given up as one
ends a tap when it lifts. -/
theorem Unused.endsTap (hr : r.Unused) (h : (r.after past).Steady)
    (hawaiting : (r.after past).awaitingSecondUp = false)
    (hsecond : (r.after past).secondTapBegun = false) (hu : u.isFingerUp = true)
    (hnothing : (r.after past).decides (.event (.pointer u)) = []) :
    r.EndsTap (past ++ [.event (.pointer u)]) u := by
  obtain ⟨before, d, during, hlast, -, hreads, hrested⟩ := hr.exists_rested h
  obtain ⟨position, hposition, -⟩ := pointer_of_accepts hlast.accepted
  have hflag := hrested.second
  rw [hsecond, after_concat, (secondTapBegun_of_accepts hlast.accepted).2] at hflag
  have hown := (Bool.or_eq_false_iff.mp hflag.symm).2
  refine ⟨past, before, d, during, rfl, hlast, hown, hreads, hu, ?_⟩
  have hbegun := (held_of_accepts (hr.consistent.after before) hlast.accepted hposition).2.1
  rw [← beginsSecondTap_of_accepts hlast.accepted hposition, hown] at hbegun
  have hsame : (r.after past).awaitingSecondUp =
      (r.after (before ++ [.event (.pointer d)])).awaitingSecondUp := by
    rw [hawaiting, after_concat]
    exact hbegun.symm
  rw [interactions_append hlast.last, hrested.silent hsame, ← hlast.after_eq, interactions,
    not_accepts_of_isFingerUp hu, hnothing]
  rfl

/-! ## First taps that are remembered -/

/-- A first tap is remembered, and the interaction is not classified. -/
structure Remembers (r : Recognizer) : Prop where
  firstTap : r.firstTapDone = true
  classified : r.classified = false

theorem Idle.not_remembers (h : r.Idle) : ¬ r.Remembers := by
  intro hr
  have hfirst := hr.firstTap
  rw [h.firstTap] at hfirst
  cases hfirst

/-- From one state to the next a first tap stayed remembered. -/
structure Recalls (r q : Recognizer) (ds : List Decision) : Prop where
  remembers : r.Remembers
  lastUp : q.lastUp = r.lastUp
  ended : q.recognizing = false → r.recognizing = false
  silent : ds = []

namespace Recalls

theorem refl (h : r.Remembers) : Recalls r r [] := ⟨h, rfl, id, rfl⟩

theorem expire {t : RecognizerTimer} (h : (r.expire t).1.Remembers) :
    r.Remembers ∧ r.expire t = (r.disarm t, []) := by
  rcases expire_eq r t with he | ⟨-, -, -, -, he⟩ | ⟨-, -, -, -, he⟩
  · rw [he] at h
    exact ⟨⟨h.firstTap, h.classified⟩, he⟩
  · rw [he] at h
    cases h.firstTap
  · rw [he] at h
    cases h.classified

theorem advance (h : (r.advance now).1.Remembers) :
    Recalls r (r.advance now).1 (r.advance now).2 := by
  obtain ⟨hr, hsame⟩ := advance_eq_of_silent (P := Remembers) (fun _ _ => expire) h
  rw [hsame]
  exact ⟨hr, rfl, id, rfl⟩

/-- A double tap that is given up forgets the first tap. -/
theorem giveUpDoubleTap {offset : Float32} (h : (r.giveUpDoubleTap s offset).1.Remembers) :
    r.Remembers ∧ r.giveUpDoubleTap s offset = (r, []) := by
  rcases giveUpDoubleTap_eq r s offset with ⟨he, -⟩ | ⟨-, he⟩
  · rw [he] at h
    exact ⟨h, he⟩
  · rw [he] at h
    have hfirst := h.firstTap
    rcases giveUp_eq { r with awaitingSecondUp := false, firstTapDone := false } s with
      ⟨hg, -⟩ | ⟨hg, -⟩ <;> rw [hg] at hfirst <;> cases hfirst

theorem extendRoute (h : (r.extendRoute position).Remembers) :
    Recalls r (r.extendRoute position) [] := by
  unfold Recognizer.extendRoute at h ⊢
  split at h
  · rename_i hnew
    rw [if_pos hnew]
    exact ⟨⟨h.firstTap, h.classified⟩, rfl, id, rfl⟩
  · rename_i hnear
    rw [if_neg hnear]
    exact refl h

theorem move (h : (r.move s).state.Remembers) :
    Recalls r (r.move s).state (r.move s).decisions := by
  rcases move_eq r s with ⟨he, -⟩ | ⟨position, _, -, -, rfl, ⟨-, he⟩ | ⟨-, he⟩ | he | ⟨-, he⟩⟩ <;>
    rw [he] at h ⊢
  · exact refl h
  · cases (extendRoute h).remembers.firstTap
  · cases h.firstTap
  · cases h.firstTap
  · have hextended := extendRoute h
    obtain ⟨-, hgiven⟩ := giveUpDoubleTap hextended.remembers
    rw [hgiven] at hextended ⊢
    exact hextended

/-- An accepted down that remembers the first tap is a second tap, and the finger that it
finds down, if there is one, was not held for long. -/
theorem accept (hr : r.Consistent) (hm : r.accepts (.event (.pointer d)) = true)
    (h : (r.pointer d).state.Remembers) :
    Recalls r (r.pointer d).state (r.pointer d).decisions := by
  obtain ⟨position, hposition, hp⟩ := pointer_of_accepts hm
  rw [hp] at h ⊢
  cases hsecond : r.isSecondTap d position with
  | false =>
    rw [hsecond] at h
    cases h.firstTap
  | true =>
    rw [hsecond] at h
    have hfirst : r.firstTapDone = true := h.firstTap
    refine ⟨⟨hfirst, ?_⟩, rfl, fun hover => ?_, rfl⟩
    · cases hrecognizing : r.recognizing with
      | false => exact (hr.firstTap_timed hrecognizing hfirst).2.2
      | true =>
        have hawaiting := hr.firstTap_awaits hrecognizing hfirst
        have hheld := (accepts_pointer_iff.mp hm).2.2.1
        rw [hawaiting, Bool.true_and] at hheld
        cases hc : r.classified with
        | false => rfl
        | true => exact absurd (hr.heldLong hrecognizing hc) (by simp [hheld])
    · cases hover

/-- Only a touch that was not held for long and is no second tap becomes a first tap. -/
theorem tapUp (hnone : r.firstTapDone = false) (h : (r.tapUp s).Remembers) :
    r.heldLong = false ∧ r.secondTapBegun = false := by
  have hfirst := h.firstTap
  cases hl : r.heldLong with
  | true =>
    simp only [Recognizer.tapUp, hl, if_true, disarm, hnone] at hfirst
    cases hfirst
  | false =>
    cases hsecond : r.secondTapBegun with
    | false => exact ⟨rfl, rfl⟩
    | true =>
      simp only [Recognizer.tapUp, hl, hsecond, disarm, hnone, Bool.false_eq_true, if_false,
        Bool.not_true, Bool.false_and] at hfirst

/-- The up of a single finger may be that of the first tap itself. -/
theorem up (hr : r.Consistent) (h : (r.up s).state.Remembers) :
    Recalls r (r.up s).state (r.up s).decisions ∨
      s.pointerCount = 1 ∧ r.Steady ∧ r.awaitingSecondUp = false ∧ r.secondTapBegun = false ∧
        (r.up s).state.lastUp = some s ∧ (r.up s).decisions = [] := by
  rcases up_eq r s with ⟨-, he⟩ | ⟨hone, ⟨-, he⟩ | ⟨hrecognizing, ⟨-, -, he⟩ | ⟨-, -, he⟩ |
    ⟨-, -, he⟩ | ⟨ha, hs, he⟩⟩⟩ <;> rw [he] at h ⊢
  · exact Or.inl (refl h)
  · exact Or.inl ⟨⟨h.firstTap, h.classified⟩, rfl, id, rfl⟩
  · cases h.firstTap
  · exact absurd h ((idle_clear r).completeDouble s).not_remembers
  · cases h.firstTap
  · obtain ⟨hl, hsecond⟩ := tapUp (hr.not_firstTap hrecognizing ha) h
    exact Or.inr ⟨hone, ⟨hrecognizing, hs, hl⟩, ha, hsecond, rfl, rfl⟩

/-- Where a first tap is remembered after a message it was so before, or the message was the
up of that tap. -/
theorem receive (hr : r.Consistent) (h : (r.receive m).state.Remembers) :
    Recalls r (r.receive m).state (r.decides m) ∨
      ∃ u, m = .event (.pointer u) ∧ u.isFingerUp = true ∧ r.Steady ∧
        r.awaitingSecondUp = false ∧ r.secondTapBegun = false ∧
        (r.receive m).state.lastUp = some u ∧ r.decides m = [] := by
  cases hm : r.accepts m with
  | true =>
    obtain ⟨d, rfl⟩ := exists_pointer_of_accepts hm
    rw [decides_pointer]
    exact Or.inl (accept hr hm h)
  | false =>
    revert h
    refine receive_cases (P := fun q ds => q.Remembers → Recalls r q ds ∨
        ∃ u, m = .event (.pointer u) ∧ u.isFingerUp = true ∧ r.Steady ∧
          r.awaitingSecondUp = false ∧ r.secondTapBegun = false ∧ q.lastUp = some u ∧ ds = [])
      hm (fun h => Or.inl (refl h)) (fun h => absurd h (idle_clear r).not_remembers)
      (fun s _ h => Or.inl (move h)) ?up
      (fun s _ h => absurd h (idle_cancel r s).1.not_remembers)
      (fun now _ h => Or.inl (advance h)) (fun _ h => absurd h (idle_destroy r).not_remembers)
    case up =>
      rintro s ⟨hs, hsource, haction⟩ h
      rcases up hr h with hrecalls | ⟨hone, hup⟩
      · exact Or.inl hrecalls
      · exact Or.inr ⟨s, hs, by simp [Sample.isFingerUp, hsource, haction, hone], hup⟩

end Recalls

/-- The first tap that is remembered: the run comes apart at its up, nothing was decided
since, and outside an interaction no down was accepted since. -/
theorem Unused.exists_endsTap (hr : r.Unused) (h : (r.after past).Remembers) :
    ∃ run u later, past = run ++ later ∧ r.EndsTap run u ∧ (r.after past).lastUp = some u ∧
      (r.after run).isQuiet later = true ∧
      ((r.after past).recognizing = false → ((r.after run).interactions later).2 = []) := by
  induction past using List.reverseRecOn with
  | nil =>
    have hfirst := h.firstTap
    rw [after_nil, hr.firstTap] at hfirst
    cases hfirst
  | append_singleton past m ih =>
    rw [after_concat] at h ⊢
    rcases Recalls.receive (hr.consistent.after past) h with
      hrecalls | ⟨u, rfl, hu, hsteady, hawaiting, hsecond, hlast, hnothing⟩
    · obtain ⟨run, u, later, rfl, hends, hlast, hquiet, hover⟩ := ih hrecalls.remembers
      refine ⟨run, u, later ++ [m], by rw [List.append_assoc], hends, hrecalls.lastUp.trans hlast,
        ?_, fun hnot => ?_⟩
      · have hsilent := hrecalls.silent
        rw [after_append] at hsilent
        rw [isQuiet_concat, hquiet, hsilent]
        rfl
      · -- an accepted down would be read
        have hm : (r.after (run ++ later)).accepts m = false := by
          cases hm : (r.after (run ++ later)).accepts m with
          | false => rfl
          | true => exact absurd (secondTapBegun_of_accepts hm).1 (by simp [hnot])
        rw [after_append] at hm
        exact interactions_append_eq_nil.mpr
          ⟨hover (hrecalls.ended hnot), interactions_cons_eq_nil.mpr ⟨hm, rfl⟩⟩
    · exact ⟨past ++ [.event (.pointer u)], u, [], by simp,
        hr.endsTap hsteady hawaiting hsecond hu hnothing, hlast, rfl, fun _ => rfl⟩

end TouchStream.Recognizer
