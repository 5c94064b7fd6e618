import TouchStream.Proofs.Recognizer.SecondTap
import TouchStream.Proofs.Recognizer.Timing

/-!
# The phases of a touch that does not move

While a finger rests on the screen it is held (`Held`), and from some deadline on it was
pressed for long (`Pressed`). When it lifts, what may be the first tap of two waits for the
second one until a deadline (`Awaits`), or there is nothing left to report (`Settled`). A
down of a single finger leads from any state into the first phase (`held_of_accepts`), and
in every phase it is known what the next up, the next down and the firing of due timers
decide.

The wait for a second tap begins at the down. Only where the finger stays down for longer
than the wait it begins again at the up (`Held.up`).

* `Held.advance`, `Awaits.advance`: the one deadline of a phase that matters.
* `tap_reported_iff`: a touch is reported as a tap, unless a second tap was begun before it
  and an interaction has been read ever since.
-/

namespace TouchStream

/-- Whether a sample is the up of a single finger on a touch screen. -/
def Sample.isFingerUp (s : Sample) : Bool :=
  s.source = .touchscreen && s.action = .up && s.pointerCount = 1

/-- How long a timer of the recognizer waits. -/
def RecognizerSettings.wait (s : RecognizerSettings) : RecognizerTimer → Micros
  | .longPress => s.longPressTimeout
  | .singleTap => s.doubleTapTimeout

namespace Recognizer

variable {r : Recognizer} {s d u : Sample} {now deadline : Micros} {ms : List Message}

theorem pointer_of_isFingerUp (hu : u.isFingerUp = true) : r.pointer u = r.up u := by
  simp only [Sample.isFingerUp, Bool.and_eq_true, decide_eq_true_iff] at hu
  rw [pointer_of_touchscreen hu.1.1, hu.1.2]

theorem pointerCount_of_isFingerUp (hu : u.isFingerUp = true) : u.pointerCount = 1 := by
  simp only [Sample.isFingerUp, Bool.and_eq_true, decide_eq_true_iff] at hu
  exact hu.2

theorem not_accepts_of_isFingerUp (hu : u.isFingerUp = true) :
    r.accepts (.event (.pointer u)) = false := by
  simp only [Sample.isFingerUp, Bool.and_eq_true, decide_eq_true_iff] at hu
  simp [accepts, hu.1.2]

/-! ## Nothing left to report -/

/-- No interaction is read, and no first tap is remembered. -/
structure Settled (r : Recognizer) : Prop where
  consistent : r.Consistent
  recognizing : r.recognizing = false
  firstTap : r.firstTapDone = false

theorem Idle.settled (h : r.Idle) : r.Settled := ⟨h.consistent, h.recognizing, h.firstTap⟩

namespace Settled

/-- A timer that is still pending is that of a first tap that is not remembered. -/
theorem expire (h : r.Settled) {t : RecognizerTimer} (ht : r.timers.isPending t = true) :
    (r.expire t).1.Settled ∧ (r.expire t).2 = [] := by
  have hconsistent := h.consistent.expire ht
  cases t with
  | longPress =>
    have hrecognizing := (h.consistent.longPress ht).1
    rw [h.recognizing] at hrecognizing
    cases hrecognizing
  | singleTap =>
    have hfire : r.expire .singleTap = (r.disarm .singleTap, []) := by
      simp [Recognizer.expire, fire, disarm, h.firstTap]
    rw [hfire] at hconsistent ⊢
    exact ⟨⟨hconsistent, h.recognizing, h.firstTap⟩, rfl⟩

theorem advance (h : r.Settled) (now : Micros) :
    (r.advance now).1.Settled ∧ (r.advance now).2 = [] := by
  refine advance_keeps (P := fun q ds => q.Settled ∧ ds = []) ?_ [] ⟨h, rfl⟩
  rintro q ds t ht ⟨hq, rfl⟩
  exact hq.expire ht

theorem interactions (h : r.Settled) (hms : ∀ m ∈ ms, ∃ now, m = .time now) :
    (r.interactions ms).1 = [] := by
  induction ms generalizing r with
  | nil => rfl
  | cons m ms ih =>
    obtain ⟨⟨now, rfl⟩, hrest⟩ := List.forall_mem_cons.mp hms
    obtain ⟨hnext, hnothing⟩ := h.advance now
    show r.decides (.time now) ++ ((r.advance now).1.interactions ms).1 = []
    rw [decides_time, hnothing, ih hnext hrest]
    rfl

end Settled

/-! ## The finger is down -/

/-- The finger is down since a sample, has not moved far and was not held for long. -/
structure Held (r : Recognizer) (d : Sample) : Prop where
  consistent : r.Consistent
  heldLong : r.heldLong = false
  lastDown : r.lastDown = some d
  longPress : r.timers.isPending .longPress = true
  deadline : ∀ t ∈ r.timers.pending, t.deadline = d.time.later (r.settings.wait t.kind)

/-- The finger was held for long, and this was reported. -/
structure Pressed (r : Recognizer) : Prop where
  consistent : r.Consistent
  recognizing : r.recognizing = true
  swiping : r.swiping = false
  heldLong : r.heldLong = true
  timers : r.timers.pending = []

theorem beginTap_decisions (r : Recognizer) (now : Micros) :
    (r.beginTap now).2 =
      if r.timers.isPending .singleTap && r.firstTapDone && !r.fingerDown && !r.classified then
        [.completed .tap]
      else [] := by
  unfold beginTap
  cases r.timers.isPending .singleTap && r.firstTapDone && !r.fingerDown with
  | false => rfl
  | true =>
    rcases complete_eq r .tap with ⟨he, hc⟩ | ⟨he, hc⟩ <;> simp [he, hc]

theorem decisions_of_accepts {position : Point} (h : r.accepts (.event (.pointer d)) = true)
    (hposition : d.position = some position) :
    (r.pointer d).decisions = if r.isSecondTap d position then [] else (r.beginTap d.time).2 := by
  obtain ⟨position', hposition', hp⟩ := pointer_of_accepts h
  obtain rfl : position = position' := Option.some.inj (hposition.symm.trans hposition')
  rw [hp]
  split <;> rfl

/-- What an accepted down begins, whatever came before it. -/
theorem held_of_accepts {position : Point} (hr : r.Consistent)
    (h : r.accepts (.event (.pointer d)) = true) (hposition : d.position = some position) :
    (r.pointer d).state.Held d ∧
      (r.pointer d).state.awaitingSecondUp = r.isSecondTap d position ∧
      (r.pointer d).state.timers.isPending .singleTap = !r.isSecondTap d position := by
  have htimers := timers_of_accepts h hposition
  have hsettings := (settings_receive r (.event (.pointer d))).1
  have hflags : (r.pointer d).state.heldLong = false ∧
      (r.pointer d).state.awaitingSecondUp = r.isSecondTap d position := by
    obtain ⟨position', hposition', hp⟩ := pointer_of_accepts h
    obtain rfl : position = position' := Option.some.inj (hposition.symm.trans hposition')
    rw [hp]
    cases r.isSecondTap d position <;> exact ⟨rfl, rfl⟩
  -- a timer of the long press, if one was pending, is armed anew
  have hdeadline : ∀ t ∈ (r.pointer d).state.timers.pending,
      t.deadline = d.time.later ((r.pointer d).state.settings.wait t.kind) := by
    intro t ht
    have hsame : (r.pointer d).state.settings = r.settings := hsettings
    rw [hsame]
    rw [htimers] at ht
    rcases Timers.mem_pending_arm.mp ht with ⟨ht, hne⟩ | rfl
    · split at ht
      · have hsingle := (Timers.mem_pending_disarm.mp ht).2
        cases hk : t.kind with
        | longPress => exact absurd hk hne
        | singleTap => exact absurd hk hsingle
      · rcases Timers.mem_pending_arm.mp ht with ⟨-, hsingle⟩ | rfl
        · cases hk : t.kind with
          | longPress => exact absurd hk hne
          | singleTap => exact absurd hk hsingle
        · rfl
    · rfl
  refine ⟨⟨hr.pointer d, hflags.1, lastDown_of_accepts h, ?_, hdeadline⟩, hflags.2, ?_⟩
  · rw [htimers]
    simp
  · rw [htimers]
    cases r.isSecondTap d position <;> simp

namespace Held

theorem fingerDown (h : r.Held d) : r.fingerDown = true :=
  h.consistent.fingerDown (h.consistent.longPress h.longPress).1

theorem deadline_singleTap (h : r.Held d) {t : PendingTimer RecognizerTimer}
    (ht : t ∈ r.timers.pending) (hk : t.kind = .singleTap) :
    t.deadline = d.time.later r.settings.doubleTapTimeout := by
  rw [h.deadline t ht, hk]
  rfl

theorem deadline_longPress (h : r.Held d) {t : PendingTimer RecognizerTimer}
    (ht : t ∈ r.timers.pending) (hk : t.kind = .longPress) :
    t.deadline = d.time.later r.settings.longPressTimeout := by
  rw [h.deadline t ht, hk]
  rfl

/-- The timer of the first tap finds the finger down. -/
theorem expire_singleTap (h : r.Held d) :
    r.expire .singleTap = (r.disarm .singleTap, []) ∧ (r.disarm .singleTap).Held d := by
  have hrecognizing := (h.consistent.longPress h.longPress).1
  have hdisarmed : (r.disarm .singleTap).Consistent := by
    apply h.consistent.disarm
    intro _ hr
    rw [hrecognizing] at hr
    cases hr
  constructor
  · simp [Recognizer.expire, fire, disarm, h.fingerDown]
  · refine ⟨hdisarmed, h.heldLong, h.lastDown, ?_, ?_⟩
    · simp [disarm, h.longPress]
    · intro t ht
      exact h.deadline t (Timers.mem_pending_disarm.mp ht).1

theorem expire_longPress (h : r.Held d) :
    (r.expire .longPress).1.Pressed ∧ (r.expire .longPress).2 = [.longPress d] := by
  obtain ⟨hrecognizing, hswiping, hclassified⟩ := h.consistent.longPress h.longPress
  have hconsistent := h.consistent.expire h.longPress
  have hfire : r.expire .longPress =
      ({ (r.disarm .longPress).disarm .singleTap with heldLong := true, classified := true },
        [.longPress d]) := by
    simp [Recognizer.expire, fire, disarm, h.fingerDown, hswiping, hclassified, h.lastDown]
  rw [hfire] at hconsistent ⊢
  exact ⟨⟨hconsistent, hrecognizing, hswiping, rfl, pending_disarm_both r.timers⟩, rfl⟩

end Held

theorem Pressed.advance_eq (h : r.Pressed) (now : Micros) : r.advance now = (r, []) :=
  advance_of_no_timer h.timers now

/-- What is due while the finger rests: from its deadline on the long press is reported, and
before it nothing but the timers of the recognizer changes. -/
theorem Held.advance (h : r.Held d) (now : Micros) :
    (d.time.later r.settings.longPressTimeout ≤ now ∧ (r.advance now).1.Pressed ∧
        (r.advance now).2 = [.longPress d]) ∨
      (now < d.time.later r.settings.longPressTimeout ∧ (r.advance now).1.Held d ∧
        (r.advance now).2 = [] ∧
        (r.advance now).1 = { r with timers := (r.advance now).1.timers } ∧
        (r.timers.isPending .singleTap = true →
          ((r.advance now).1.timers.isPending .singleTap = true ↔
            now < d.time.later r.settings.doubleTapTimeout))) := by
  have hkeeps := @advance_keeps_of_due
    (fun q ds =>
      (d.time.later r.settings.longPressTimeout ≤ now ∧ q.Pressed ∧ ds = [.longPress d]) ∨
      (q.Held d ∧ ds = [] ∧ q = { r with timers := q.timers } ∧
        (r.timers.isPending .singleTap = true → q.timers.isPending .singleTap = true ∨
          d.time.later r.settings.doubleTapTimeout ≤ now))) now ?_ r []
    (Or.inr ⟨h, rfl, rfl, Or.inl⟩)
  · rcases hkeeps with ⟨hdue, hpressed, hds⟩ | ⟨hheld, hds, hsame, hsingle⟩
    · exact Or.inl ⟨hdue, hpressed, hds⟩
    · have hsettings : (r.advance now).1.settings = r.settings := by rw [hsame]
      have hnone := Timers.takeDue_eq_none_iff.mp (r.takeDue_advance now)
      obtain ⟨t, ht, hk⟩ := Timers.isPending_iff.mp hheld.longPress
      have hlater := hnone t ht
      rw [hheld.deadline_longPress ht hk, hsettings] at hlater
      refine Or.inr ⟨hlater, hheld, hds, hsame, ?_⟩
      intro hpending
      constructor
      · intro hstill
        obtain ⟨t, ht, hk⟩ := Timers.isPending_iff.mp hstill
        have hlater := hnone t ht
        rw [hheld.deadline_singleTap ht hk, hsettings] at hlater
        exact hlater
      · intro hlt
        exact (hsingle hpending).resolve_right (UInt64.not_le.mpr hlt)
  · rintro q ds t ht hdue (⟨hle, hpressed, rfl⟩ | ⟨hheld, rfl, hsame, hsingle⟩)
    · rw [hpressed.timers] at ht
      cases ht
    · have hsettings : q.settings = r.settings := by rw [hsame]
      cases hk : t.kind with
      | longPress =>
        rw [hheld.deadline_longPress ht hk, hsettings] at hdue
        exact Or.inl ⟨hdue, hheld.expire_longPress⟩
      | singleTap =>
        rw [hheld.deadline_singleTap ht hk, hsettings] at hdue
        obtain ⟨hfire, hdisarmed⟩ := hheld.expire_singleTap
        rw [hfire]
        exact Or.inr ⟨hdisarmed, rfl, by rw [hsame]; rfl, fun _ => Or.inr hdue⟩

/-! ## The finger has lifted -/

/-- What may be the first tap of two waits for the second one. -/
structure Awaits (r : Recognizer) (d u : Sample) (deadline : Micros) : Prop where
  consistent : r.Consistent
  recognizing : r.recognizing = false
  firstTap : r.firstTapDone = true
  lastDown : r.lastDown = some d
  lastUp : r.lastUp = some u
  deadline : ∀ t ∈ r.timers.pending, t.deadline = deadline

namespace Awaits

/-- The timer waits for the second tap, and nothing was reported yet. -/
theorem timed (h : r.Awaits d u deadline) :
    r.timers.isPending .singleTap = true ∧ r.fingerDown = false ∧ r.classified = false :=
  h.consistent.firstTap_timed h.recognizing h.firstTap

theorem expire (h : r.Awaits d u deadline) {t : RecognizerTimer}
    (ht : r.timers.isPending t = true) :
    (r.expire t).1.Settled ∧ (r.expire t).2 = [.completed .tap] := by
  cases t with
  | longPress =>
    have hrecognizing := (h.consistent.longPress ht).1
    rw [h.recognizing] at hrecognizing
    cases hrecognizing
  | singleTap =>
    obtain ⟨-, hfinger, hclassified⟩ := h.timed
    simp only [Recognizer.expire, fire, disarm, hfinger, h.firstTap, hclassified, Bool.not_false,
      Bool.and_self, if_true]
    refine ⟨(idle_clear _).settled, ?_⟩
    simp [complete]

/-- From the deadline on the tap is reported, and before it nothing happens. -/
theorem advance (h : r.Awaits d u deadline) (now : Micros) :
    (deadline ≤ now ∧ (r.advance now).1.Settled ∧ (r.advance now).2 = [.completed .tap]) ∨
      (now < deadline ∧ r.advance now = (r, [])) := by
  obtain ⟨t, ht, -⟩ := Timers.isPending_iff.mp h.timed.1
  by_cases hdue : deadline ≤ now
  · obtain ⟨e, he, hle⟩ := Timers.nextDeadline_le_of_mem ht
    rw [h.deadline t ht] at hle
    obtain ⟨⟨t', q⟩, htake⟩ :=
      Timers.exists_takeDue_of_nextDeadline he (UInt64.le_trans hle hdue)
    have hpending := Timers.isPending_of_mem (Timers.takeDue_eq_some htake).1
    obtain ⟨hsettled, htap⟩ := h.expire hpending
    obtain ⟨hlast, hnothing⟩ := hsettled.advance now
    rw [advance_of_due htake, htap, hnothing]
    exact Or.inl ⟨hdue, hlast, rfl⟩
  · have hlt := UInt64.not_le.mp hdue
    refine Or.inr ⟨hlt, ?_⟩
    apply advance_of_none_due
    rw [Timers.takeDue_eq_none_iff]
    intro t ht
    rw [h.deadline t ht]
    exact hlt

/-- Where every timer has fired in the end, the tap was reported once. -/
theorem interactions (h : r.Awaits d u deadline) (hms : ∀ m ∈ ms, ∃ now, m = .time now)
    (hend : (r.after ms).timers.pending = []) : (r.interactions ms).1 = [.completed .tap] := by
  induction ms generalizing r with
  | nil =>
    have hpending := h.timed.1
    have hnone : r.timers.isPending .singleTap = false := Timers.isPending_eq_false_of_nil hend _
    rw [hnone] at hpending
    cases hpending
  | cons m ms ih =>
    obtain ⟨⟨now, rfl⟩, hrest⟩ := List.forall_mem_cons.mp hms
    show r.decides (.time now) ++ ((r.advance now).1.interactions ms).1 = [.completed .tap]
    rw [decides_time]
    rcases h.advance now with ⟨-, hsettled, htap⟩ | ⟨-, hsame⟩
    · rw [htap, hsettled.interactions hrest]
      rfl
    · rw [hsame]
      have hstate : (r.receive (.time now)).state = r := congrArg Prod.fst hsame
      rw [after_cons, hstate] at hend
      exact ih h hrest hend

end Awaits

/-! ## The up -/

theorem pointer_of_resting (hr : r.recognizing = true) (hs : r.swiping = false)
    (ha : r.awaitingSecondUp = false) (hu : u.isFingerUp = true) :
    r.pointer u = ⟨r.tapUp u, [], false⟩ := by
  rw [pointer_of_isFingerUp hu, Recognizer.up, if_neg (by simp [pointerCount_of_isFingerUp hu]),
    if_neg (by simp [hr]), if_neg (by simp [ha]), if_neg (by simp [hs])]

theorem Pressed.up (h : r.Pressed) (hu : u.isFingerUp = true) :
    (r.pointer u).state.Settled ∧ (r.pointer u).decisions = [] := by
  cases ha : r.awaitingSecondUp with
  | true =>
    have hp : r.pointer u = ⟨r.clear, [], false⟩ := by
      rw [pointer_of_isFingerUp hu, Recognizer.up,
        if_neg (by simp [pointerCount_of_isFingerUp hu]), if_neg (by simp [h.recognizing]),
        if_pos ha, if_pos h.heldLong]
    rw [hp]
    exact ⟨(idle_clear r).settled, rfl⟩
  | false =>
    have hf := h.consistent.not_firstTap h.recognizing ha
    have hconsistent := h.consistent.tapUp h.recognizing h.swiping ha u
    rw [pointer_of_resting h.recognizing h.swiping ha hu]
    refine ⟨⟨hconsistent, rfl, ?_⟩, rfl⟩
    simp only [tapUp, h.heldLong, if_true]
    exact hf

/-- A resting finger that lifts has tapped, and the wait for a second tap goes on. Where the
timer has fired the wait begins anew. Only where the flag of a second tap stands nothing is
left to report. -/
theorem Held.up (h : r.Held d) (ha : r.awaitingSecondUp = false) (hu : u.isFingerUp = true) :
    (r.pointer u).decisions = [] ∧
      (r.secondTapBegun = true → (r.pointer u).state.Settled) ∧
      (r.secondTapBegun = false → (r.pointer u).state.Awaits d u
        (if r.timers.isPending .singleTap then d.time.later r.settings.doubleTapTimeout
          else u.time.later r.settings.doubleTapTimeout)) := by
  obtain ⟨hr, hs, hc⟩ := h.consistent.longPress h.longPress
  have hf := h.consistent.not_firstTap hr ha
  have hconsistent := h.consistent.tapUp hr hs ha u
  rw [pointer_of_resting hr hs ha hu]
  refine ⟨rfl, fun hsecond => ⟨hconsistent, rfl, ?_⟩, fun hsecond => ?_⟩
  · simp only [tapUp, h.heldLong, hsecond, Bool.false_eq_true, if_false, Bool.not_true,
      Bool.false_and]
    exact hf
  · have htap : r.tapUp u =
        { (if r.timers.isPending .singleTap then r else r.awaitSecondTap u.time).disarm .longPress
            with
          fingerDown := false, firstTapDone := true, lastUp := some u, secondTapBegun := false
          recognizing := false, route := [] } := by
      have hfirst : (!r.secondTapBegun && r.tapBegun) = true := by
        simp [hsecond, h.consistent.tapBegun hr]
      unfold tapUp
      dsimp only
      rw [if_neg (by simp [h.heldLong]), if_pos hfirst]
      cases hpending : r.timers.isPending .singleTap with
      | true => rfl
      | false =>
        rw [if_pos (by simp [hc])]
        rfl
    rw [htap] at hconsistent ⊢
    refine ⟨hconsistent, rfl, rfl, ?_, rfl, ?_⟩
    · cases r.timers.isPending .singleTap <;> exact h.lastDown
    · intro t ht
      have hk := kind_of_mem_disarm ht
      have hmem := (Timers.mem_pending_disarm.mp ht).1
      cases hpending : r.timers.isPending .singleTap with
      | true =>
        rw [hpending, if_pos rfl] at hmem
        exact h.deadline_singleTap hmem hk
      | false =>
        rw [hpending, if_neg Bool.false_ne_true] at hmem
        rcases Timers.mem_pending_arm.mp hmem with ⟨-, hne⟩ | rfl
        · exact absurd hk hne
        · rfl

/-- A resting finger that lifts from a second tap has double tapped. -/
theorem Held.secondUp (h : r.Held d) (ha : r.awaitingSecondUp = true)
    (hu : u.isFingerUp = true) :
    (r.pointer u).state.Settled ∧ (r.pointer u).decisions = [.doubleTap u] := by
  obtain ⟨hr, -, hc⟩ := h.consistent.longPress h.longPress
  have hp : r.pointer u = ⟨(r.clear.completeDouble u).1, (r.clear.completeDouble u).2, true⟩ := by
    rw [pointer_of_isFingerUp hu, Recognizer.up,
      if_neg (by simp [pointerCount_of_isFingerUp hu]), if_neg (by simp [hr]), if_pos ha,
      if_neg (by simp [h.heldLong])]
  rw [hp]
  refine ⟨((idle_clear r).completeDouble u).settled, ?_⟩
  have hclear : r.clear.classified = false := hc
  simp [completeDouble, hclear]

/-! ## The next down -/

/-- A down that begins a tap of its own reports the first tap that waited. -/
theorem Awaits.down {position : Point} (h : r.Awaits d u deadline)
    (hs : r.accepts (.event (.pointer s)) = true) (hposition : s.position = some position)
    (hsecond : r.isSecondTap s position = false) :
    (r.pointer s).decisions = [.completed .tap] := by
  obtain ⟨hpending, hfinger, hclassified⟩ := h.timed
  rw [decisions_of_accepts hs hposition, hsecond, if_neg Bool.false_ne_true, beginTap_decisions]
  simp [hpending, hfinger, hclassified, h.firstTap]

/-- Where no first tap is remembered a down begins a tap of its own and reports nothing. -/
theorem Settled.down {position : Point} (h : r.Settled)
    (hs : r.accepts (.event (.pointer s)) = true) (hposition : s.position = some position) :
    r.isSecondTap s position = false ∧ (r.pointer s).decisions = [] := by
  have hsecond : r.isSecondTap s position = false := by
    unfold isSecondTap
    split
    · simp [h.firstTap]
    · rfl
  rw [decisions_of_accepts hs hposition, hsecond, if_neg Bool.false_ne_true, beginTap_decisions]
  simp [h.firstTap]

/-! ## Single touches -/

/-- **A tap is lost only after a second tap without its up.** Take any run of a new recognizer
and after it a down that begins a tap of its own, the up of a single finger, and times at
which in the end every timer has fired. From that up on one tap is reported and nothing else,
except where a second tap was begun in the run and an interaction has been read ever since:
there nothing is reported. -/
theorem tap_reported_iff (settings : RecognizerSettings) (display : Option Display)
    (past : List Message) {later : List Message}
    (hd : ((new settings display).after past).accepts (.event (.pointer d)) = true)
    (hown : ((new settings display).after past).beginsSecondTap (.event (.pointer d)) = false)
    (hu : u.isFingerUp = true) (hlater : ∀ m ∈ later, ∃ now, m = .time now)
    (hend : ((((new settings display).after past).receive (.event (.pointer d))).state.after
      (.event (.pointer u) :: later)).timers.pending = []) :
    let reported := ((((new settings display).after past).receive
      (.event (.pointer d))).state.interactions (.event (.pointer u) :: later)).1
    (reported = [.completed .tap] ↔ ¬ (new settings display).LeavesSecondTap past) ∧
      (reported = [] ↔ (new settings display).LeavesSecondTap past) := by
  intro reported
  have hnew := consistent_new settings display
  have hr := hnew.after past
  have hflag := secondTapBegun_after_iff hnew rfl past
  obtain ⟨position, hposition, -⟩ := pointer_of_accepts hd
  rw [beginsSecondTap_of_accepts hd hposition] at hown
  obtain ⟨hheld, hawaiting, -⟩ := held_of_accepts hr hd hposition
  rw [hown] at hawaiting
  obtain ⟨hnothing, hsettled, hawaits⟩ := hheld.up hawaiting hu
  -- the down has left the flag of an earlier second tap as it was
  have hkept := (secondTapBegun_of_accepts hd).2
  rw [beginsSecondTap_of_accepts hd hposition, hown, Bool.or_false] at hkept
  have hreported : reported = ((((new settings display).after past).pointer d).state.pointer
      u).decisions ++ (((((new settings display).after past).pointer d).state.pointer
      u).state.interactions later).1 := by
    show (interactions _ _).1 = _
    simp only [interactions, not_accepts_of_isFingerUp hu, Bool.false_eq_true, if_false,
      decides_pointer]
    rfl
  rw [hnothing, List.nil_append] at hreported
  cases hsecond : ((new settings display).after past).secondTapBegun with
  | true =>
    have hopen := hflag.mp hsecond
    have hsilent := (hsettled (hkept.trans hsecond)).interactions hlater
    rw [hreported, hsilent]
    simp [hopen]
  | false =>
    have hclosed : ¬ (new settings display).LeavesSecondTap past := by
      rw [← hflag, hsecond]
      exact Bool.false_ne_true
    have htap := (hawaits (hkept.trans hsecond)).interactions hlater hend
    rw [hreported, htap]
    simp [hclosed]

/-- A touch in the midst of another one, whose up is missing, that is no second tap. -/
theorem tap_reported_iff_up_missing :
    let touch (action : PointerAction) (x : Float32) (time : Micros) : Sample :=
      .touch action ⟨x, 0⟩ time
    let past : List Message := [.event (.pointer (touch .down 0 0))]
    let r := (new {} none).after past
    (r.recognizing = true ∧ r.accepts (.event (.pointer (touch .down 500 250000))) = true ∧
        r.beginsSecondTap (.event (.pointer (touch .down 500 250000))) = false) ∧
      ((r.receive (.event (.pointer (touch .down 500 250000)))).state.interactions
        [.event (.pointer (touch .up 500 300000)), .time 2000000]).1 = [.completed .tap] ∧
      ¬ (new {} none).LeavesSecondTap past := by
  intro touch past r
  have hd : r.accepts (.event (.pointer (touch .down 500 250000))) = true := by decide +kernel
  have hown : r.beginsSecondTap (.event (.pointer (touch .down 500 250000))) = false := by
    decide +kernel
  have htap : ((r.receive (.event (.pointer (touch .down 500 250000)))).state.interactions
      [.event (.pointer (touch .up 500 300000)), .time 2000000]).1 = [.completed .tap] := by
    decide +kernel
  have hlater : ∀ m ∈ ([.time 2000000] : List Message), ∃ now, m = .time now :=
    fun m hm => ⟨2000000, List.mem_singleton.mp hm⟩
  have hu : (touch .up 500 300000).isFingerUp = true := by decide +kernel
  have hiff := (tap_reported_iff {} none past hd hown hu hlater (by decide +kernel)).1
  exact ⟨⟨by decide +kernel, hd, hown⟩, htap, hiff.mp htap⟩

/-- A touch far from a second tap whose up is missing: its down is accepted and begins a tap
of its own, its up comes at the same place and before it was held for long, every timer fires,
and nothing is reported. -/
theorem tap_lost_after_second_tap :
    let touch (action : PointerAction) (x : Float32) (time : Micros) : Sample :=
      .touch action ⟨x, x⟩ time
    let r := (new {} none).after
      [.event (.pointer (touch .down 10 0)), .event (.pointer (touch .up 10 50000)),
        .event (.pointer (touch .down 10 200000))]
    let d := touch .down 500 250000
    let u := touch .up 500 300000
    let later : List Message := [.event (.pointer u), .time 2000000]
    (r.accepts (.event (.pointer d)) = true ∧ r.beginsSecondTap (.event (.pointer d)) = false ∧
        d.time ≤ u.time ∧ u.time ≤ d.time.later ({} : RecognizerSettings).longPressTimeout ∧
        ((r.receive (.event (.pointer d))).state.after later).timers.pending = []) ∧
      ((r.receive (.event (.pointer d))).state.interactions later).1 ≠ [.completed .tap] ∧
      ((r.receive (.event (.pointer d))).state.interactions later).1 = [] := by
  decide +kernel

end Recognizer

end TouchStream
