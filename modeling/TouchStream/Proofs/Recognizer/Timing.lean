import TouchStream.Proofs.Recognizer.Consistent

/-!
# The timers of the recognizer

A sample disarms timers and arms others for times from its own on, so a timer that is
pending after a sample was pending before it or is not overdue at the time of that sample
(`rearmed_pointer`). It may well be overdue at a later time, and two timers can be: those
that an accepted down arms (`overdue_down_iff`). The up of a single finger leaves the timer
of the long press disarmed (`longPress_up`).

* `Timers.Rearmed`: disarming, and arming for a time or later.
* `Recognizer.fired`: the timers that fire at a time, in their order.
-/

namespace TouchStream

theorem Micros.le_later (t span : Micros) : t ≤ t.later span := by
  have h := t.toNat_lt
  rw [UInt64.le_iff_toNat_le, toNat_later]
  omega

namespace Timers

variable {κ : Type} [DecidableEq κ] {q q' : Timers κ} {t : PendingTimer κ} {P : Micros → Prop}

/-- A queue comes from another by disarming, and by arming for deadlines of some kind. -/
inductive Rearmed (P : Micros → Prop) (q : Timers κ) : Timers κ → Prop
  | refl : Rearmed P q q
  | disarm {q' : Timers κ} (h : Rearmed P q q') (a : κ) : Rearmed P q (q'.disarm a)
  | arm {q' : Timers κ} (h : Rearmed P q q') (a : κ) {d : Micros} (hd : P d) :
      Rearmed P q (q'.arm a d)

namespace Rearmed

theorem mem_pending (h : Rearmed P q q') (ht : t ∈ q'.pending) :
    t ∈ q.pending ∨ P t.deadline := by
  induction h with
  | refl => exact Or.inl ht
  | disarm h a ih => exact ih (mem_pending_disarm.mp ht).1
  | arm h a hd ih =>
    rcases mem_pending_arm.mp ht with ⟨hold, -⟩ | rfl
    · exact ih hold
    · exact Or.inr hd

theorem distinct (h : Rearmed P q q') (hq : q.Distinct) : q'.Distinct := by
  induction h with
  | refl => exact hq
  | disarm h a ih => exact ih.disarm a
  | arm h a hd ih => exact ih.arm a _

end Rearmed

end Timers

namespace Recognizer

variable {r : Recognizer} {s d : Sample} {now time : Micros} {P : Micros → Prop}

open Timers (Rearmed)

/-! ## What stays -/

theorem timers_giveUp (r : Recognizer) (s : Sample) : (r.giveUp s).1.timers = r.timers := by
  rcases giveUp_eq r s with ⟨h, -⟩ | ⟨h, -⟩ <;> rw [h]

theorem timers_completeDouble (r : Recognizer) (s : Sample) :
    (r.completeDouble s).1.timers = r.timers := by
  rcases completeDouble_eq r s with ⟨h, -⟩ | ⟨h, -⟩ <;> rw [h]

theorem timers_giveUpDoubleTap (r : Recognizer) (s : Sample) (offset : Float32) :
    (r.giveUpDoubleTap s offset).1.timers = r.timers := by
  rcases giveUpDoubleTap_eq r s offset with ⟨he, -⟩ | ⟨-, he⟩ <;> rw [he]
  exact timers_giveUp _ s

theorem timers_extendRoute (r : Recognizer) (position : Point) :
    (r.extendRoute position).timers = r.timers := by
  unfold extendRoute
  split <;> rfl

theorem timers_swipeUp (r : Recognizer) (s : Sample) : (r.swipeUp s).1.timers = r.timers := by
  unfold swipeUp
  split
  · exact timers_complete r _
  · exact timers_giveUp r s

theorem timers_beginTap (r : Recognizer) (now : Micros) :
    (r.beginTap now).1.timers =
      r.timers.arm .singleTap (now.later r.settings.doubleTapTimeout) := by
  unfold beginTap
  split
  rename_i r' ds heq
  have hsame : r'.timers = r.timers ∧ r'.settings = r.settings := by
    split at heq
    · have hr : (r.complete .tap).1 = r' := congrArg Prod.fst heq
      rw [← hr]
      exact ⟨timers_complete r .tap, (Kept.complete r .tap).settings⟩
    · cases heq
      exact ⟨rfl, rfl⟩
  show r'.timers.arm .singleTap (now.later r'.settings.doubleTapTimeout) = _
  rw [hsame.1, hsame.2]

/-! ## Samples -/

/-- An accepted down arms the timer of the long press, and unless it is a second tap, that
of the first tap. -/
theorem timers_of_accepts {position : Point} (h : r.accepts (.event (.pointer d)) = true)
    (hposition : d.position = some position) :
    (r.pointer d).state.timers =
      (if r.isSecondTap d position then r.timers.disarm .singleTap
        else r.timers.arm .singleTap (d.time.later r.settings.doubleTapTimeout)).arm .longPress
          (d.time.later r.settings.longPressTimeout) := by
  obtain ⟨position', hposition', hp⟩ := pointer_of_accepts h
  obtain rfl : position = position' := Option.some.inj (hposition.symm.trans hposition')
  rw [hp]
  split
  · rfl
  · have hsettings := (Kept.beginTap r d.time).settings
    show (r.beginTap d.time).1.timers.arm .longPress
      (d.time.later (r.beginTap d.time).1.settings.longPressTimeout) = _
    rw [timers_beginTap, hsettings]

theorem rearmed_clear {q : Timers RecognizerTimer} (h : Rearmed P q r.timers) :
    Rearmed P q r.clear.timers :=
  (h.disarm .longPress).disarm .singleTap

theorem rearmed_move (r : Recognizer) (s : Sample) :
    Rearmed P r.timers (r.move s).state.timers := by
  rcases move_eq r s with ⟨he, -⟩ |
    ⟨position, given, -, -, hgiven, ⟨-, he⟩ | ⟨-, he⟩ | he | ⟨-, he⟩⟩
  · rw [he]
    exact .refl
  all_goals
    have hg : Rearmed P r.timers given.1.timers := by
      rw [hgiven, timers_giveUpDoubleTap]
      exact .refl
    have hmoved : Rearmed P r.timers (given.1.moveAnchor position s.time).timers :=
      (hg.disarm .singleTap).disarm .longPress
    rw [he]
    dsimp only
  · rw [timers_extendRoute]
    exact hmoved
  · exact hmoved
  · show Rearmed P r.timers (((given.1.giveUp s).1.timers.disarm .longPress).disarm .singleTap)
    rw [timers_giveUp]
    exact (hg.disarm .longPress).disarm .singleTap
  · rw [timers_extendRoute]
    exact hg

theorem rearmed_tapUp (r : Recognizer) (s : Sample) :
    Rearmed (s.time ≤ ·) r.timers (r.tapUp s).timers := by
  have hsame : Rearmed (s.time ≤ ·) r.timers r.timers := .refl
  unfold tapUp
  dsimp only
  split
  · exact (hsame.disarm .singleTap).disarm .longPress
  · split
    · split
      · exact (hsame.arm .singleTap (Micros.le_later s.time _)).disarm .longPress
      · exact hsame.disarm .longPress
    · exact hsame.disarm .longPress

theorem rearmed_up (r : Recognizer) (s : Sample) :
    Rearmed (s.time ≤ ·) r.timers (r.up s).state.timers := by
  have hsame : Rearmed (s.time ≤ ·) r.timers r.timers := .refl
  rcases up_eq r s with ⟨-, he⟩ | ⟨-, ⟨-, he⟩ | ⟨-, ⟨-, -, he⟩ | ⟨-, -, he⟩ | ⟨-, -, he⟩ |
    ⟨-, -, he⟩⟩⟩ <;> rw [he]
  · exact hsame
  · exact hsame.disarm .longPress
  · exact rearmed_clear hsame
  · dsimp only
    rw [timers_completeDouble]
    exact rearmed_clear hsame
  · refine rearmed_clear ?_
    rw [timers_swipeUp]
    exact hsame
  · exact rearmed_tapUp r s

/-- A timer that a sample arms is for the time of the sample or later. -/
theorem rearmed_pointer (r : Recognizer) (s : Sample) :
    Rearmed (s.time ≤ ·) r.timers (r.pointer s).state.timers := by
  have hsame : Rearmed (s.time ≤ ·) r.timers r.timers := .refl
  by_cases hsource : s.source = .touchscreen
  · have hp := pointer_of_touchscreen (r := r) hsource
    cases ha : s.action with
    | down =>
      cases haccepts : r.accepts (.event (.pointer s)) with
      | true =>
        obtain ⟨position, hposition, -⟩ := pointer_of_accepts haccepts
        rw [timers_of_accepts haccepts hposition]
        split
        · exact (hsame.disarm .singleTap).arm .longPress (Micros.le_later s.time _)
        · exact (hsame.arm .singleTap (Micros.le_later s.time _)).arm .longPress
            (Micros.le_later s.time _)
      | false =>
        rw [hp, ha]
        dsimp only
        rcases (down_of_not_accepts hsource ha haccepts).2 with h | h
        · rw [h]
          exact hsame
        · rw [h]
          exact rearmed_clear hsame
    | move =>
      rw [hp, ha]
      exact rearmed_move r s
    | up =>
      rw [hp, ha]
      exact rearmed_up r s
    | cancel =>
      rw [hp, ha]
      show Rearmed (s.time ≤ ·) r.timers (r.clear.giveUp s).1.timers
      rw [timers_giveUp]
      exact rearmed_clear hsame
  · have hp : r.pointer s = ⟨r, [], false⟩ := if_pos hsource
    rw [hp]
    exact hsame

theorem kind_of_mem_disarm {q : Timers RecognizerTimer} {t : PendingTimer RecognizerTimer}
    (h : t ∈ (q.disarm .longPress).pending) : t.kind = .singleTap := by
  have hne := (Timers.mem_pending_disarm.mp h).2
  cases hk : t.kind with
  | singleTap => rfl
  | longPress => exact absurd hk hne

/-- After the up of a single finger nothing waits for a long press. -/
theorem kind_of_mem_up (hone : s.pointerCount = 1) {t : PendingTimer RecognizerTimer}
    (h : t ∈ (r.up s).state.timers.pending) : t.kind = .singleTap := by
  have hidle {q : Recognizer} (hq : q.Idle) (hmem : t ∈ q.timers.pending) :
      t.kind = .singleTap := by
    rw [hq.timers] at hmem
    cases hmem
  rcases up_eq r s with ⟨hmany, -⟩ | ⟨-, ⟨-, he⟩ | ⟨-, ⟨-, -, he⟩ | ⟨-, -, he⟩ | ⟨-, -, he⟩ |
    ⟨-, -, he⟩⟩⟩
  · exact absurd hone hmany
  all_goals rw [he] at h
  · exact kind_of_mem_disarm h
  · exact hidle (idle_clear r) h
  · exact hidle ((idle_clear r).completeDouble s) h
  · exact hidle (idle_clear _) h
  · exact kind_of_mem_disarm h

/-- Of the timers that an accepted down leaves pending, those that it armed can be overdue at
a time at which none was. -/
theorem overdue_down_iff {position : Point} (h : r.accepts (.event (.pointer d)) = true)
    (hposition : d.position = some position) (hnone : ∀ t ∈ r.timers.pending, time ≤ t.deadline) :
    (∃ t ∈ (r.pointer d).state.timers.pending, t.deadline < time) ↔
      d.time.later r.settings.longPressTimeout < time ∨
        r.isSecondTap d position = false ∧ d.time.later r.settings.doubleTapTimeout < time := by
  rw [timers_of_accepts h hposition]
  have hold {t : PendingTimer RecognizerTimer} (ht : t ∈ r.timers.pending)
      (hlt : t.deadline < time) : False :=
    UInt64.not_lt.mpr (hnone t ht) hlt
  constructor
  · rintro ⟨t, ht, hlt⟩
    rcases Timers.mem_pending_arm.mp ht with ⟨ht, -⟩ | rfl
    · split at ht
      · exact (hold (Timers.mem_pending_disarm.mp ht).1 hlt).elim
      · rename_i hsecond
        rcases Timers.mem_pending_arm.mp ht with ⟨ht, -⟩ | rfl
        · exact (hold ht hlt).elim
        · exact Or.inr ⟨by simpa using hsecond, hlt⟩
    · exact Or.inl hlt
  · rintro (hlt | ⟨hsecond, hlt⟩)
    · exact ⟨_, Timers.mem_pending_arm.mpr (Or.inr rfl), hlt⟩
    · rw [if_neg (by simp [hsecond])]
      have hmem := Timers.mem_pending_arm.mpr (Or.inr (rfl :
        (⟨.singleTap, d.time.later r.settings.doubleTapTimeout, r.timers.armed⟩ :
          PendingTimer RecognizerTimer) = _))
      exact ⟨_, Timers.mem_pending_arm.mpr (Or.inl ⟨hmem, by simp⟩), hlt⟩

/-! ## Expiry -/

/-- An expiry disarms its own timer, and then others at most. -/
theorem rearmed_expired {q : Timers RecognizerTimer} {t : RecognizerTimer}
    (h : Rearmed P q (r.timers.disarm t)) : Rearmed P q (r.expire t).1.timers := by
  rcases expire_eq r t with he | ⟨rfl, -, -, -, he⟩ | ⟨rfl, -, -, -, he⟩ <;> rw [he]
  · exact h
  · exact rearmed_clear h
  · exact h.disarm .singleTap

theorem rearmed_expire (r : Recognizer) (t : RecognizerTimer) :
    Rearmed (fun _ => False) r.timers (r.expire t).1.timers :=
  rearmed_expired (Rearmed.refl.disarm t)

/-- The timers that fire at a time, in their order, at most `rounds` of them. -/
def firedIn (now : Micros) : (rounds : Nat) → Recognizer → List (PendingTimer RecognizerTimer)
  | 0, _ => []
  | rounds + 1, r =>
    match r.timers.firstDue now with
    | none => []
    | some t => t :: firedIn now rounds (r.expire t.kind).1

/-- The timers that fire at a time, in their order. -/
def fired (r : Recognizer) (now : Micros) : List (PendingTimer RecognizerTimer) :=
  firedIn now r.timers.size r

/-- Takes out and fires timers one after another. -/
def expireAll (r : Recognizer) :
    List (PendingTimer RecognizerTimer) → Recognizer × List Decision
  | [] => (r, [])
  | t :: ts =>
    (((r.expire t.kind).1.expireAll ts).1,
      (r.expire t.kind).2 ++ ((r.expire t.kind).1.expireAll ts).2)

/-- The firing of all due timers is the firing of those that are listed. -/
theorem advance_eq_expireAll (r : Recognizer) (now : Micros) :
    r.advance now = r.expireAll (r.fired now) := by
  unfold advance fired
  generalize r.timers.size = n
  induction n generalizing r with
  | zero => rfl
  | succ n ih =>
    rw [fireDue_succ, firedIn, Timers.takeDue]
    cases r.timers.firstDue now with
    | none => rfl
    | some t =>
      show ((fireDue now n (r.expire t.kind).1).1, _ ++ (fireDue now n (r.expire t.kind).1).2) = _
      rw [ih]
      rfl

theorem mem_fired {t : PendingTimer RecognizerTimer} (h : t ∈ r.fired now) :
    t ∈ r.timers.pending ∧ t.deadline ≤ now := by
  unfold fired at h
  generalize r.timers.size = n at h
  induction n generalizing r with
  | zero => cases h
  | succ n ih =>
    rw [firedIn] at h
    cases hd : r.timers.firstDue now with
    | none =>
      rw [hd] at h
      cases h
    | some t' =>
      rw [hd] at h
      rcases List.mem_cons.mp h with rfl | h
      · have hmem := List.mem_filter.mp (PendingTimer.mem_of_first? hd)
        exact ⟨hmem.1, by simpa using hmem.2⟩
      · obtain ⟨hmem, hdue⟩ := ih h
        have hold := (rearmed_expire r t'.kind).mem_pending hmem
        exact ⟨hold.resolve_right id, hdue⟩

/-- Where a timer is due, one fires. -/
theorem exists_mem_fired {t : PendingTimer RecognizerTimer} (ht : t ∈ r.timers.pending)
    (hdue : t.deadline ≤ now) : ∃ t', t' ∈ r.fired now := by
  obtain ⟨d, hd, hle⟩ := Timers.nextDeadline_le_of_mem ht
  obtain ⟨⟨t', q⟩, htake⟩ :=
    Timers.exists_takeDue_of_nextDeadline hd (UInt64.le_trans hle hdue)
  obtain ⟨t'', hfirst, -⟩ := Option.map_eq_some_iff.mp htake
  have hpositive : 0 < r.timers.size := List.length_pos_of_mem ht
  refine ⟨t'', ?_⟩
  unfold fired
  rw [← Nat.succ_pred_eq_of_pos hpositive, firedIn, hfirst]
  exact List.mem_cons_self

theorem rearmed_advance (r : Recognizer) (now : Micros) :
    (r.timers.Distinct → (r.advance now).1.timers.Distinct) ∧
      ∀ t ∈ (r.advance now).1.timers.pending, t ∈ r.timers.pending := by
  have hkeeps := @advance_keeps (fun r' _ => (r.timers.Distinct → r'.timers.Distinct) ∧
    ∀ t ∈ r'.timers.pending, t ∈ r.timers.pending) now ?_ r [] ⟨id, fun _ => id⟩
  · exact hkeeps
  · rintro r' ds t - ⟨hdistinct, hmem⟩
    have hexpired := rearmed_expire r' t
    refine ⟨fun h => hexpired.distinct (hdistinct h), ?_⟩
    intro t' ht'
    exact hmem t' ((hexpired.mem_pending ht').resolve_right id)

end Recognizer

end TouchStream
