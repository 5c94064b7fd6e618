import TouchStream.Proofs.Recognizer.Alike
import TouchStream.Proofs.Recognizer.Interactions

/-!
# Interactions do not influence later ones

Many fields outlive an interaction: the anchor, the last points and samples, the count
of armed timers, and the flags of what was reported. Once no interaction is read and
no timer runs, none of them has a say. Up to the next accepted down an idle recognizer
stays idle and decides nothing, except that a cancel of the touch screen is reported
if neither a gesture nor a cancellation was reported before (`Idle.interactions`). The
down then sets every field anew but the count of armed timers and the last up, so that
from there on the recognizer is alike a new one (`Idle.alike_of_accepts`).

* `isolated`: the two halves, for every idle state that a run reaches.
-/

namespace TouchStream.Recognizer

variable {r : Recognizer} {s : Sample} {m : Message}

/-- Whether a cancellation would not be reported any more. -/
def isSilenced (r : Recognizer) : Bool := r.cancelled || r.classified

/-- Before its first accepted down a run decides nothing, or nothing but the report of
one cancel. -/
def SilentUntilDown (r : Recognizer) (ms : List Message) : Prop :=
  (r.interactions ms).1 = [] ∨
    ∃ before s later, ms = before ++ .event (.pointer s) :: later ∧
      (r.interactions before).2 = [] ∧ s.source = .touchscreen ∧ s.action = .cancel ∧
      (r.after before).decides (.event (.pointer s)) = [.cancelled s] ∧
      (r.interactions ms).1 = [.cancelled s]

/-! ## Idle recognizers stay idle -/

theorem Idle.move_eq (h : r.Idle) (s : Sample) : r.move s = ⟨r, [], false⟩ := by
  simp [Recognizer.move, h.awaiting, h.recognizing]

theorem Idle.up (h : r.Idle) (s : Sample) :
    (r.up s).state.Idle ∧ (r.up s).decisions = [] ∧ (r.up s).state.isSilenced = r.isSilenced := by
  rcases up_eq r s with ⟨-, he⟩ | ⟨-, ⟨-, he⟩ | ⟨hr, -⟩⟩
  · rw [he]
    exact ⟨h, rfl, rfl⟩
  · rw [he]
    refine ⟨{ h with timers := ?_ }, rfl, rfl⟩
    simp [disarm, Timers.disarm, h.timers]
  · rw [h.recognizing] at hr
    cases hr

theorem idle_cancel (r : Recognizer) (s : Sample) :
    (r.cancel s).state.Idle ∧
      ((r.cancel s).decisions = [] ∧ r.isSilenced = true ∨
        (r.cancel s).decisions = [.cancelled s] ∧ r.isSilenced = false) ∧
      (r.cancel s).state.isSilenced = true := by
  unfold Recognizer.cancel
  rcases giveUp_eq r.clear s with ⟨he, hs⟩ | ⟨he, hc, hd⟩
  · rw [he]
    exact ⟨idle_clear r, Or.inl ⟨rfl, hs⟩, hs⟩
  · rw [he]
    refine ⟨{ idle_clear r with }, Or.inr ⟨rfl, ?_⟩, rfl⟩
    show (r.clear.cancelled || r.clear.classified) = false
    rw [hc, hd]
    rfl

theorem Idle.advance_eq (h : r.Idle) (now : Micros) : r.advance now = (r, []) := by
  apply advance_of_none_due
  rw [Timers.takeDue_eq_none_iff, h.timers]
  simp

/-- A message that begins no interaction leaves an idle recognizer idle, and only a
cancel can be reported, after which the recognizer is silent. -/
theorem Idle.receive (h : r.Idle) (hm : r.accepts m = false) :
    (r.receive m).state.Idle ∧
      (r.decides m = [] ∧ (r.isSilenced = true → (r.receive m).state.isSilenced = true) ∨
        ∃ s, m = .event (.pointer s) ∧ s.source = .touchscreen ∧ s.action = .cancel ∧
          r.decides m = [.cancelled s] ∧ r.isSilenced = false ∧
          (r.receive m).state.isSilenced = true) := by
  refine receive_cases
    (P := fun q ds => q.Idle ∧
      (ds = [] ∧ (r.isSilenced = true → q.isSilenced = true) ∨
        ∃ s, m = .event (.pointer s) ∧ s.source = .touchscreen ∧ s.action = .cancel ∧
          ds = [.cancelled s] ∧ r.isSilenced = false ∧ q.isSilenced = true)) hm
    ⟨h, Or.inl ⟨rfl, id⟩⟩ ⟨idle_clear r, Or.inl ⟨rfl, id⟩⟩ ?move ?up ?cancel ?time
    (fun _ => ⟨idle_destroy r, Or.inl ⟨rfl, id⟩⟩)
  case move =>
    intro s _
    rw [h.move_eq]
    exact ⟨h, Or.inl ⟨rfl, id⟩⟩
  case up =>
    intro s _
    obtain ⟨hidle, hnothing, hsilenced⟩ := h.up s
    exact ⟨hidle, Or.inl ⟨hnothing, fun hs => hsilenced.trans hs⟩⟩
  case cancel =>
    rintro s ⟨hs, hsource, haction⟩
    obtain ⟨hidle, ⟨hnothing, -⟩ | ⟨hgiven, hbefore⟩, hafter⟩ := idle_cancel r s
    · exact ⟨hidle, Or.inl ⟨hnothing, fun _ => hafter⟩⟩
    · exact ⟨hidle, Or.inr ⟨s, hs, hsource, haction, hgiven, hbefore, hafter⟩⟩
  case time =>
    intro now _
    rw [h.advance_eq]
    exact ⟨h, Or.inl ⟨rfl, id⟩⟩

/-! ## The next down -/

/-- No first tap is remembered and no timer runs, so that a down is no second tap and
reports no first one. -/
theorem Idle.pointer_of_accepts (h : r.Idle) (hm : r.accepts (.event (.pointer s)) = true) :
    ∃ position, s.position = some position ∧ r.pointer s =
      ⟨({ r with awaitingSecondUp := false, firstTapDone := false }.awaitSecondTap
        s.time).beginInteraction s position, [], false⟩ := by
  obtain ⟨position, hposition, hp⟩ := Recognizer.pointer_of_accepts hm
  have hsecond : r.isSecondTap s position = false := by
    unfold isSecondTap
    split
    · simp [h.firstTap]
    · rfl
  have htap : r.beginTap s.time =
      ({ r with awaitingSecondUp := false, firstTapDone := false }.awaitSecondTap s.time, []) := by
    simp [beginTap, h.firstTap]
  refine ⟨position, hposition, ?_⟩
  rw [hp, hsecond, htap]
  rfl

/-- A down in an idle recognizer is accepted by what it is alone. -/
theorem Idle.accepts_eq {q : Recognizer} (hq : q.Idle) (h : r.Idle) (m : Message) :
    q.accepts m = r.accepts m := by
  unfold accepts
  split
  · simp [hq.awaiting, h.awaiting]
  · rfl

/-- An accepted down makes idle recognizers with the same settings alike, whatever
came before. -/
theorem Idle.alike_of_accepts {q : Recognizer} (hq : q.Idle) (h : r.Idle)
    (hsettings : r.settings = q.settings) (hthresholds : r.thresholds = q.thresholds)
    (harmed : q.timers.armed ≤ r.timers.armed)
    (hm : r.accepts (.event (.pointer s)) = true) :
    Outcome.Alike (q.pointer s) (r.pointer s) := by
  obtain ⟨position, hposition, hr⟩ := h.pointer_of_accepts hm
  obtain ⟨position', hposition', hq'⟩ :=
    hq.pointer_of_accepts ((hq.accepts_eq h _).trans hm)
  obtain rfl : position = position' := Option.some.inj (hposition.symm.trans hposition')
  have htimers : r.timers = q.timers.shift (r.timers.armed - q.timers.armed) := by
    have hpending := h.timers
    have hpending' := hq.timers
    generalize r.timers = timers at *
    generalize q.timers = timers' at *
    obtain ⟨pending, armed⟩ := timers
    obtain ⟨pending', armed'⟩ := timers'
    subst hpending hpending'
    show (⟨[], armed⟩ : Timers RecognizerTimer) = ⟨[], armed' + (armed - armed')⟩
    rw [Nat.add_sub_cancel' harmed]
  rw [hr, hq']
  refine ⟨⟨r.timers.armed - q.timers.armed, r.lastUp, ?_, ?_⟩, rfl, rfl⟩
  · simp only [beginInteraction, awaitLongPress, awaitSecondTap, rebase, ← Timers.arm_shift,
      ← htimers, hsettings, hthresholds, h.second, hq.second]
  · intro hf
    cases hf

/-! ## Runs -/

theorem Idle.observe_eq {q : Recognizer} (hq : q.Idle) (h : r.Idle)
    (hsettings : r.settings = q.settings) (hthresholds : r.thresholds = q.thresholds)
    (harmed : q.timers.armed ≤ r.timers.armed) (hm : r.accepts m = true) (later : List Message) :
    r.observe (m :: later) = q.observe (m :: later) := by
  obtain ⟨s, rfl⟩ := exists_pointer_of_accepts hm
  obtain ⟨hstate, hdecisions, hconsumed⟩ := hq.alike_of_accepts h hsettings hthresholds harmed hm
  simp only [observe, Recognizer.receive, hdecisions, hconsumed, hstate.nextDeadline_eq,
    hstate.observe_eq later]

theorem Idle.after (h : r.Idle) {ms : List Message} (hms : (r.interactions ms).2 = []) :
    (r.after ms).Idle := by
  induction ms generalizing r with
  | nil => exact h
  | cons m ms ih =>
    simp only [Recognizer.interactions] at hms
    split at hms
    · cases hms
    · rename_i hm
      exact ih (h.receive (by simpa using hm)).1 hms

/-- A cancel that is reported silences the recognizer until the next accepted down. -/
theorem Idle.interactions (h : r.Idle) (ms : List Message) :
    (r.isSilenced = true → (r.interactions ms).1 = []) ∧ r.SilentUntilDown ms := by
  induction ms generalizing r with
  | nil => exact ⟨fun _ => rfl, Or.inl rfl⟩
  | cons m ms ih =>
    cases hm : r.accepts m with
    | true =>
      have hdecides : r.decides m = [] := by
        obtain ⟨s, rfl⟩ := exists_pointer_of_accepts hm
        obtain ⟨position, -, hp⟩ := h.pointer_of_accepts hm
        rw [decides_pointer, hp]
      have hfirst : (r.interactions (m :: ms)).1 = [] := by
        simp [Recognizer.interactions, hm, hdecides]
      exact ⟨fun _ => hfirst, Or.inl hfirst⟩
    | false =>
      have hfirst : (r.interactions (m :: ms)).1 =
          r.decides m ++ ((r.receive m).state.interactions ms).1 := by
        simp [Recognizer.interactions, hm]
      have hlater : (r.interactions (m :: ms)).2 = ((r.receive m).state.interactions ms).2 := by
        simp [Recognizer.interactions, hm]
      obtain ⟨hidle, ⟨hnothing, hkept⟩ | ⟨s, rfl, hsource, haction, hgiven, hbefore, hafter⟩⟩ :=
        h.receive hm
      · obtain ⟨hsilenced, hsilent⟩ := ih hidle
        rw [hnothing, List.nil_append] at hfirst
        refine ⟨fun hs => hfirst.trans (hsilenced (hkept hs)), ?_⟩
        rcases hsilent with hnone | ⟨before, s, later, rfl, hnone, hcancel⟩
        · exact Or.inl (hfirst.trans hnone)
        · refine Or.inr ⟨m :: before, s, later, rfl, ?_, hcancel.1, hcancel.2.1, hcancel.2.2.1, ?_⟩
          · simpa [Recognizer.interactions, hm] using hnone
          · exact hfirst.trans hcancel.2.2.2
      -- the cancel that is reported is the one, since the rest of the run is silent
      · obtain ⟨hsilenced, -⟩ := ih hidle
        rw [hsilenced hafter, List.append_nil, hgiven] at hfirst
        refine ⟨fun hs => absurd (hs.symm.trans hbefore) (by simp), Or.inr ?_⟩
        exact ⟨[], s, ms, rfl, rfl, hsource, haction, hgiven, hfirst⟩

/-- **Interactions are isolated.** Take any state that a run of a new recognizer
reaches, in which no interaction is read and no timer is pending. Up to the next
accepted down no message makes it decide anything but one cancellation, on a cancel.
From that down on it cannot be told from a new recognizer with the same settings. -/
theorem isolated (settings : RecognizerSettings) (display : Option Display) (past : List Message)
    (hrecognizing : ((new settings display).after past).recognizing = false)
    (htimers : ((new settings display).after past).timers.isEmpty = true) :
    (∀ ms, ((new settings display).after past).SilentUntilDown ms) ∧
      ∀ before m later,
        (((new settings display).after past).interactions before).2 = [] →
        (((new settings display).after past).after before).accepts m = true →
        (((new settings display).after past).after before).observe (m :: later) =
          (new settings display).observe (m :: later) := by
  have hidle : ((new settings display).after past).Idle :=
    ((consistent_new settings display).after past).idle hrecognizing
      (List.isEmpty_iff.mp htimers)
  refine ⟨fun ms => (hidle.interactions ms).2, ?_⟩
  intro before m later hbefore hm
  obtain ⟨hsettings, hthresholds⟩ := settings_after (new settings display) (past ++ before)
  rw [after_append] at hsettings hthresholds
  exact (idle_new settings display).observe_eq (hidle.after hbefore) hsettings hthresholds
    (Nat.zero_le _) hm later

/-- After a tap, and a touch that was cleared, a cancel is still reported, and after
it the next touch is read as by a new recognizer. -/
theorem isolated_after_tap_and_clear :
    let touch (action : PointerAction) (time : Micros) : Message :=
      .event (.pointer (Sample.touch action .zero time))
    let r := (new {} none).after
      [touch .down 0, touch .up 50000, .time 1000000, touch .down 2000000, .clear .touchscreen]
    (r.recognizing = false ∧ r.timers.isEmpty = true ∧ r.timers.armed = 4 ∧
        r.decides (touch .cancel 2100000) = [.cancelled (Sample.touch .cancel .zero 2100000)]) ∧
      r.SilentUntilDown [touch .cancel 2100000, touch .cancel 2200000, touch .down 3000000] ∧
      (r.after [touch .cancel 2100000]).observe
          [touch .down 3000000, touch .up 3050000, .time 4000000] =
        (new {} none).observe [touch .down 3000000, touch .up 3050000, .time 4000000] := by
  have h := isolated {} none
    [.event (.pointer (.touch .down .zero 0)), .event (.pointer (.touch .up .zero 50000)),
      .time 1000000, .event (.pointer (.touch .down .zero 2000000)), .clear .touchscreen]
    (by decide +kernel) (by decide +kernel)
  refine ⟨by decide +kernel, h.1 _, h.2 _ _ _ ?_ ?_⟩
  · decide +kernel
  · decide +kernel

end TouchStream.Recognizer
