import TouchStream.Proofs.Timers
import TouchStream.Recognizer

/-!
# Runs of the recognizer

A run gives a recognizer one message after another. Pointer samples of any device,
readings of the clock, and requests to clear or to destroy are all messages, so a run
is any list of messages.

* `Recognizer.decides`, `Recognizer.after`: what is decided on a message, and the
  state after a run.
* `Recognizer.accepts`: the downs that begin an interaction. They are the messages
  that record a last down (`lastDown_of_accepts`, `Kept.receive`).
* `Recognizer.move_eq`, `up_eq`, `expire_eq`: all that a move, an up and an expiry can come
  to. `receive_cases` does so for the messages that begin no interaction.
* `Recognizer.expire`: the taking out and firing of one timer. `advance_keeps` reduces
  what holds after all due timers fired to what one expiry keeps.
* `Recognizer.advance_of_due`, `advance_of_none_due`: the firing of all due timers
  without a count of rounds.
* `Recognizer.advance_advance`: it makes no difference whether due timers are fired at
  once or in two steps.
-/

namespace TouchStream

/-- The decisions among signals. -/
def decisionsIn (out : List Signal) : List Decision := decisionsOf (out.filterMap Signal.report?)

@[simp] theorem decisionsIn_nil : decisionsIn [] = [] := rfl

@[simp] theorem decisionsIn_message (m : Message) (out : List Signal) :
    decisionsIn (.message m :: out) = decisionsIn out := rfl

@[simp] theorem decisionsIn_decision (d : Decision) (out : List Signal) :
    decisionsIn (.decision d :: out) = d :: decisionsIn out := rfl

@[simp] theorem decisionsIn_map_append (ds : List Decision) (out : List Signal) :
    decisionsIn (ds.map .decision ++ out) = ds ++ decisionsIn out := by
  induction ds with
  | nil => rfl
  | cons d ds ih => rw [List.map_cons, List.cons_append, decisionsIn_decision, ih, List.cons_append]

namespace Recognizer

/-! ## Messages -/

/-- What a recognizer decides on a message. -/
def decides (r : Recognizer) (m : Message) : List Decision := decisionsIn (r.receive m).out

/-- The recognizer after a run of messages. -/
def after (r : Recognizer) : List Message → Recognizer
  | [] => r
  | m :: ms => (r.receive m).state.after ms

/-- Whether a message is a down that begins an interaction. -/
def accepts (r : Recognizer) : Message → Bool
  | .event (.pointer s) =>
    s.source = .touchscreen && s.action = .down && !(r.awaitingSecondUp && r.heldLong)
      && s.pointerCount ≤ 1 && s.position.isSome
  | _ => false

@[simp] theorem after_nil (r : Recognizer) : r.after [] = r := rfl

@[simp] theorem after_cons (r : Recognizer) (m : Message) (ms : List Message) :
    r.after (m :: ms) = (r.receive m).state.after ms := rfl

theorem after_append (r : Recognizer) (ms ms' : List Message) :
    r.after (ms ++ ms') = (r.after ms).after ms' := by
  induction ms generalizing r with
  | nil => rfl
  | cons m ms ih => exact ih _

@[simp] theorem decides_pointer (r : Recognizer) (s : Sample) :
    r.decides (.event (.pointer s)) = (r.pointer s).decisions := by
  simp only [decides, receive, decisionsIn_map_append]
  split <;> simp [Signal.sample]

@[simp] theorem decides_time (r : Recognizer) (now : Micros) :
    r.decides (.time now) = (r.advance now).2 := by
  simp [decides, receive]

@[simp] theorem decides_clear (r : Recognizer) (source : PointerSource) :
    r.decides (.clear source) = [] := rfl

@[simp] theorem decides_destroy (r : Recognizer) : r.decides .destroy = [] := rfl

theorem accepts_pointer_iff {r : Recognizer} {s : Sample} :
    r.accepts (.event (.pointer s)) = true ↔
      s.source = .touchscreen ∧ s.action = .down ∧ (r.awaitingSecondUp && r.heldLong) = false ∧
        s.pointerCount ≤ 1 ∧ ∃ position, s.position = some position := by
  simp only [accepts, Bool.and_eq_true, decide_eq_true_iff, Bool.not_eq_true', and_assoc,
    Option.isSome_iff_exists]

/-- Only a pointer sample begins an interaction. -/
theorem exists_pointer_of_accepts {r : Recognizer} {m : Message} (h : r.accepts m = true) :
    ∃ s, m = .event (.pointer s) := by
  unfold accepts at h
  split at h
  · exact ⟨_, rfl⟩
  · cases h

/-! ## What the single operations give -/

/-- A report is made unless a flag forbids it. -/
theorem report_eq (r q : Recognizer) (c : Bool) (ds : List Decision) :
    ((if c then (r, []) else (q, ds)) = (r, []) ∧ c = true) ∨
      ((if c then (r, []) else (q, ds)) = (q, ds) ∧ c = false) := by
  cases c with
  | true => exact Or.inl ⟨rfl, rfl⟩
  | false => exact Or.inr ⟨rfl, rfl⟩

theorem giveUp_eq (r : Recognizer) (s : Sample) :
    (r.giveUp s = (r, []) ∧ (r.cancelled || r.classified) = true) ∨
      (r.giveUp s = ({ r with cancelled := true }, [.cancelled s]) ∧ r.cancelled = false ∧
        r.classified = false) := by
  rcases report_eq r { r with cancelled := true } (r.cancelled || r.classified) [.cancelled s]
    with ⟨h, hc⟩ | ⟨h, hc⟩
  · exact Or.inl ⟨h, hc⟩
  · exact Or.inr ⟨h, Bool.or_eq_false_iff.mp hc⟩

theorem complete_eq (r : Recognizer) (g : Gesture) :
    (r.complete g = (r, []) ∧ r.classified = true) ∨
      (r.complete g = ({ r with classified := true }, [.completed g]) ∧ r.classified = false) :=
  report_eq r { r with classified := true } r.classified [.completed g]

theorem completeDouble_eq (r : Recognizer) (s : Sample) :
    (r.completeDouble s = (r, []) ∧ r.classified = true) ∨
      (r.completeDouble s = ({ r with classified := true }, [.doubleTap s]) ∧
        r.classified = false) :=
  report_eq r { r with classified := true } r.classified [.doubleTap s]

/-- The recognizer that an accepted down begins an interaction from: a second tap is
expected to end as a double tap, and any other down forgets the first tap. -/
theorem down_of_accepts {r : Recognizer} {s : Sample} {position : Point}
    (hheld : (r.awaitingSecondUp && r.heldLong) = false) (hcount : s.pointerCount ≤ 1)
    (hposition : s.position = some position) :
    r.down s =
      if r.isSecondTap s position then ⟨r.beginSecondTap.beginInteraction s position, [], false⟩
      else
        ⟨(r.beginTap s.time).1.beginInteraction s position, (r.beginTap s.time).2, false⟩ := by
  have hone : ¬ 1 < s.pointerCount := Nat.not_lt.mpr hcount
  simp only [down, hheld, hone, hposition, Bool.false_eq_true, if_false]
  split <;> rfl

theorem pointer_of_touchscreen {r : Recognizer} {s : Sample} (h : s.source = .touchscreen) :
    r.pointer s =
      match s.action with
      | .down => r.down s
      | .move => r.move s
      | .up => r.up s
      | .cancel => r.cancel s :=
  if_neg (not_not_intro h)

/-- A down that begins no interaction decides nothing, and at most resets the
recognizer. -/
theorem down_of_not_accepts {r : Recognizer} {s : Sample} (hsource : s.source = .touchscreen)
    (haction : s.action = .down) (h : r.accepts (.event (.pointer s)) = false) :
    (r.down s).decisions = [] ∧ ((r.down s).state = r ∨ (r.down s).state = r.clear) := by
  unfold down
  split
  · exact ⟨rfl, Or.inl rfl⟩
  · rename_i hheld
    split
    · exact ⟨rfl, Or.inr rfl⟩
    · rename_i hcount
      split
      · exact ⟨rfl, Or.inl rfl⟩
      · rename_i position hposition
        have haccepts : r.accepts (.event (.pointer s)) = true :=
          accepts_pointer_iff.mpr
            ⟨hsource, haction, by simpa using hheld, Nat.not_lt.mp hcount, position, hposition⟩
        rw [h] at haccepts
        cases haccepts

theorem pointer_of_accepts {r : Recognizer} {s : Sample}
    (h : r.accepts (.event (.pointer s)) = true) :
    ∃ position, s.position = some position ∧ r.pointer s =
      if r.isSecondTap s position then ⟨r.beginSecondTap.beginInteraction s position, [], false⟩
      else
        ⟨(r.beginTap s.time).1.beginInteraction s position, (r.beginTap s.time).2, false⟩ := by
  obtain ⟨hsource, haction, hheld, hcount, position, hposition⟩ := accepts_pointer_iff.mp h
  refine ⟨position, hposition, ?_⟩
  rw [← down_of_accepts hheld hcount hposition]
  simp [pointer, hsource, haction]

/-! ## What moves and ups come to -/

/-- A double tap is given up by a move beyond the slop, and else it goes on. -/
theorem giveUpDoubleTap_eq (r : Recognizer) (s : Sample) (offset : Float32) :
    (r.giveUpDoubleTap s offset = (r, []) ∧
        (r.awaitingSecondUp = true → ¬ r.settings.touchSlop < offset)) ∨
      (r.awaitingSecondUp = true ∧ r.giveUpDoubleTap s offset =
        ({ r with awaitingSecondUp := false, firstTapDone := false } : Recognizer).giveUp s) := by
  unfold giveUpDoubleTap
  split
  · rename_i hbeyond
    exact Or.inr ⟨(Bool.and_eq_true_iff.mp hbeyond).1, rfl⟩
  · rename_i hnot
    refine Or.inl ⟨rfl, fun hawaiting hbeyond => hnot ?_⟩
    simp [hawaiting, hbeyond]

/-- A move is passed over; or it leads away from the anchor, in a swipe that goes on or that
starts; or it comes too late; or it stays near the anchor. -/
theorem move_eq (r : Recognizer) (s : Sample) :
    (r.move s = ⟨r, [], false⟩ ∧
        (r.recognizing = true → r.heldLong = false → s.position = none)) ∨
      ∃ position given, s.position = some position ∧ r.recognizing = true ∧
        given = r.giveUpDoubleTap s (r.anchor.distance position) ∧
        (given.1.swiping = true ∧
            r.move s =
              ⟨(given.1.moveAnchor position s.time).extendRoute position, given.2, true⟩ ∨
          given.1.swiping = false ∧
            r.move s =
              ⟨{ given.1.moveAnchor position s.time with swiping := true },
                given.2 ++ [.started], true⟩ ∨
          r.move s = ⟨(given.1.giveUp s).1.abandon, given.2 ++ (given.1.giveUp s).2, true⟩ ∨
          ¬ given.1.thresholds.swipeStart < r.anchor.distance position ∧
            r.move s = ⟨given.1.extendRoute position, given.2, given.1.swiping⟩) := by
  unfold move
  split
  · rename_i hboth
    refine Or.inl ⟨rfl, fun _ hheld => ?_⟩
    simp [hheld] at hboth
  · split
    · rename_i hover
      refine Or.inl ⟨rfl, fun hr => ?_⟩
      simp [hr] at hover
    · rename_i hr
      split
      · rename_i hposition
        exact Or.inl ⟨rfl, fun _ _ => hposition⟩
      · rename_i position hposition
        refine Or.inr ⟨position, _, hposition, by simpa using hr, rfl, ?_⟩
        dsimp only
        generalize r.giveUpDoubleTap s (r.anchor.distance position) = given
        split
        · split
          · rename_i hs
            exact Or.inl ⟨hs, rfl⟩
          · rename_i hs
            exact Or.inr (Or.inl ⟨Bool.eq_false_iff.mpr hs, rfl⟩)
        · rename_i hnear
          split
          · exact Or.inr (Or.inr (Or.inl rfl))
          · exact Or.inr (Or.inr (Or.inr ⟨hnear, rfl⟩))

/-- The up of a single finger only releases it; or it ends a second tap, which was held for
long or not; or it ends a swipe; or it ends what may be a tap. -/
theorem up_eq (r : Recognizer) (s : Sample) :
    (s.pointerCount ≠ 1 ∧ r.up s = ⟨r, [], false⟩) ∨
      s.pointerCount = 1 ∧
        (r.recognizing = false ∧
            r.up s = ⟨{ r.disarm .longPress with fingerDown := false }, [], false⟩ ∨
          r.recognizing = true ∧
            (r.awaitingSecondUp = true ∧ r.heldLong = true ∧ r.up s = ⟨r.clear, [], false⟩ ∨
              r.awaitingSecondUp = true ∧ r.heldLong = false ∧
                r.up s = ⟨(r.clear.completeDouble s).1, (r.clear.completeDouble s).2, true⟩ ∨
              r.awaitingSecondUp = false ∧ r.swiping = true ∧
                r.up s = ⟨(r.swipeUp s).1.clear, (r.swipeUp s).2, true⟩ ∨
              r.awaitingSecondUp = false ∧ r.swiping = false ∧
                r.up s = ⟨r.tapUp s, [], false⟩)) := by
  unfold up
  split
  · rename_i hmany
    exact Or.inl ⟨hmany, rfl⟩
  · rename_i hone
    refine Or.inr ⟨Decidable.not_not.mp hone, ?_⟩
    split
    · rename_i hover
      exact Or.inl ⟨by simpa using hover, rfl⟩
    · rename_i hr
      refine Or.inr ⟨by simpa using hr, ?_⟩
      split
      · rename_i ha
        split
        · rename_i hheld
          exact Or.inl ⟨ha, hheld, rfl⟩
        · rename_i hheld
          exact Or.inr (Or.inl ⟨ha, Bool.eq_false_iff.mpr hheld, rfl⟩)
      · rename_i ha
        have ha := Bool.eq_false_iff.mpr ha
        split
        · rename_i hs
          exact Or.inr (Or.inr (Or.inl ⟨ha, hs, rfl⟩))
        · rename_i hs
          exact Or.inr (Or.inr (Or.inr ⟨ha, Bool.eq_false_iff.mpr hs, rfl⟩))

/-- What holds after a message that begins no interaction, when each thing that a recognizer
can do on one brings it about: to leave everything as it is, to be cleared, to handle a move,
an up or a cancel, to let time go by, or to be destroyed. -/
theorem receive_cases {r : Recognizer} {m : Message} {P : Recognizer → List Decision → Prop}
    (hm : r.accepts m = false) (same : P r []) (clear : P r.clear [])
    (move : ∀ s, m = .event (.pointer s) ∧ s.source = .touchscreen ∧ s.action = .move →
      P (r.move s).state (r.move s).decisions)
    (up : ∀ s, m = .event (.pointer s) ∧ s.source = .touchscreen ∧ s.action = .up →
      P (r.up s).state (r.up s).decisions)
    (cancel : ∀ s, m = .event (.pointer s) ∧ s.source = .touchscreen ∧ s.action = .cancel →
      P (r.cancel s).state (r.cancel s).decisions)
    (advance : ∀ now, m = .time now → P (r.advance now).1 (r.advance now).2)
    (destroy : m = .destroy → P r.destroy []) : P (r.receive m).state (r.decides m) := by
  cases m with
  | event e =>
    cases e with
    | pointer s =>
      rw [decides_pointer]
      show P (r.pointer s).state (r.pointer s).decisions
      by_cases hsource : s.source = .touchscreen
      · rw [pointer_of_touchscreen hsource]
        cases ha : s.action with
        | down =>
          obtain ⟨hnothing, hstate | hstate⟩ := down_of_not_accepts hsource ha hm
          · simp only [hnothing, hstate]
            exact same
          · simp only [hnothing, hstate]
            exact clear
        | move => exact move s ⟨rfl, hsource, ha⟩
        | up => exact up s ⟨rfl, hsource, ha⟩
        | cancel => exact cancel s ⟨rfl, hsource, ha⟩
      · have hp : r.pointer s = ⟨r, [], false⟩ := if_pos hsource
        rw [hp]
        exact same
    | key k => exact same
    | accessibility a => exact same
  | time now =>
    rw [decides_time]
    exact advance now rfl
  | clear source =>
    simp only [receive, decides_clear]
    split
    · exact clear
    · exact same
  | destroy => exact destroy rfl

/-! ## Expiry -/

/-- Takes out a timer and fires it. -/
def expire (r : Recognizer) (t : RecognizerTimer) : Recognizer × List Decision :=
  (r.disarm t).fire t

/-- An expiry decides nothing, or it reports a tap and clears, or it reports a long press. -/
theorem expire_eq (r : Recognizer) (t : RecognizerTimer) :
    r.expire t = (r.disarm t, []) ∨
      (t = .singleTap ∧ r.fingerDown = false ∧ r.firstTapDone = true ∧ r.classified = false ∧
        r.expire t =
          (({ r.disarm .singleTap with classified := true } : Recognizer).clear,
            [.completed .tap])) ∨
      (t = .longPress ∧ r.fingerDown = true ∧ r.swiping = false ∧ r.classified = false ∧
        r.expire t =
          ({ (r.disarm .longPress).disarm .singleTap with heldLong := true, classified := true },
            (r.lastDown.map .longPress).toList)) := by
  cases t with
  | singleTap =>
    simp only [expire, fire]
    split
    · rename_i hwaits
      simp only [disarm, Bool.and_eq_true, Bool.not_eq_true'] at hwaits
      obtain ⟨⟨hfinger, hfirst⟩, hclassified⟩ := hwaits
      refine Or.inr (Or.inl ⟨trivial, hfinger, hfirst, hclassified, ?_⟩)
      simp [complete, disarm, hclassified]
    · exact Or.inl rfl
  | longPress =>
    simp only [expire, fire]
    split
    · rename_i hheld
      simp only [disarm, Bool.and_eq_true, Bool.not_eq_true'] at hheld
      exact Or.inr (Or.inr ⟨trivial, hheld.1.1, hheld.1.2, hheld.2, rfl⟩)
    · exact Or.inl rfl

theorem timers_complete (r : Recognizer) (g : Gesture) : (r.complete g).1.timers = r.timers := by
  rcases complete_eq r g with ⟨h, -⟩ | ⟨h, -⟩ <;> rw [h]

/-- No expiry arms a timer. -/
theorem size_fire_le (r : Recognizer) (t : RecognizerTimer) :
    (r.fire t).1.timers.size ≤ r.timers.size := by
  have hclear : ∀ r : Recognizer, r.clear.timers.size ≤ r.timers.size := fun r =>
    Nat.le_trans (Timers.size_disarm_le _ _) (Timers.size_disarm_le _ _)
  cases t with
  | singleTap =>
    simp only [fire]
    split
    · rw [← timers_complete r .tap]
      exact hclear _
    · exact Nat.le_refl _
  | longPress =>
    simp only [fire]
    split
    · exact Timers.size_disarm_le _ _
    · exact Nat.le_refl _

theorem size_expire_lt {r : Recognizer} {t : PendingTimer RecognizerTimer}
    (h : t ∈ r.timers.pending) : (r.expire t.kind).1.timers.size < r.timers.size :=
  Nat.lt_of_le_of_lt (size_fire_le _ _) (Timers.size_disarm_lt h)

/-- One round of firing takes out the timer that goes first among those due. -/
theorem fireDue_succ (now : Micros) (n : Nat) (r : Recognizer) :
    fireDue now (n + 1) r =
      match r.timers.takeDue now with
      | none => (r, [])
      | some (t, _) =>
        ((fireDue now n (r.expire t.kind).1).1,
          (r.expire t.kind).2 ++ (fireDue now n (r.expire t.kind).1).2) := by
  rw [fireDue]
  cases h : r.timers.takeDue now with
  | none => rfl
  | some x =>
    obtain ⟨t, q⟩ := x
    obtain ⟨-, -, rfl⟩ := Timers.takeDue_eq_some h
    rfl

/-- Rounds beyond the number of timers change nothing. -/
theorem fireDue_of_size_le (now : Micros) {n k : Nat} {r : Recognizer} (hn : r.timers.size ≤ n)
    (hk : r.timers.size ≤ k) : fireDue now n r = fireDue now k r := by
  induction n generalizing r k with
  | zero =>
    have hnone : r.timers.takeDue now = none := by
      rw [Timers.takeDue_eq_none_iff, List.eq_nil_of_length_eq_zero (Nat.le_zero.mp hn)]
      simp
    cases k with
    | zero => rfl
    | succ k => rw [fireDue_succ, hnone]; rfl
  | succ n ih =>
    cases hd : r.timers.takeDue now with
    | none =>
      cases k with
      | zero => rw [fireDue_succ, hd]; rfl
      | succ k => rw [fireDue_succ, fireDue_succ, hd]
    | some x =>
      obtain ⟨t, q⟩ := x
      have hlt := size_expire_lt (Timers.takeDue_eq_some hd).1
      cases k with
      | zero => omega
      | succ k =>
        rw [fireDue_succ, fireDue_succ, hd]
        simp only
        rw [ih (k := k) (by omega) (by omega)]

theorem advance_of_none_due {r : Recognizer} {now : Micros} (h : r.timers.takeDue now = none) :
    r.advance now = (r, []) := by
  unfold advance
  cases r.timers.size with
  | zero => rfl
  | succ n => rw [fireDue_succ, h]

theorem advance_of_no_timer {r : Recognizer} (h : r.timers.pending = []) (now : Micros) :
    r.advance now = (r, []) := by
  apply advance_of_none_due
  rw [Timers.takeDue_eq_none_iff, h]
  exact List.forall_mem_nil _

theorem advance_of_due {r : Recognizer} {now : Micros} {t : PendingTimer RecognizerTimer}
    {q : Timers RecognizerTimer} (h : r.timers.takeDue now = some (t, q)) :
    r.advance now =
      (((r.expire t.kind).1.advance now).1,
        (r.expire t.kind).2 ++ ((r.expire t.kind).1.advance now).2) := by
  have hlt := size_expire_lt (Timers.takeDue_eq_some h).1
  unfold advance
  rw [fireDue_of_size_le now (k := r.timers.size + 1) (Nat.le_refl _) (Nat.le_succ _),
    fireDue_succ, h]
  simp only
  rw [fireDue_of_size_le now (Nat.le_of_lt hlt) (Nat.le_refl _)]

/-- What holds after all due timers fired holds when each expiry of a due timer keeps it. -/
theorem advance_keeps_of_due {P : Recognizer → List Decision → Prop} {now : Micros}
    (hstep : ∀ (r : Recognizer) (ds : List Decision) (t : PendingTimer RecognizerTimer),
      t ∈ r.timers.pending → t.deadline ≤ now → P r ds →
        P (r.expire t.kind).1 (ds ++ (r.expire t.kind).2))
    {r : Recognizer} (ds : List Decision) (h : P r ds) :
    P (r.advance now).1 (ds ++ (r.advance now).2) := by
  unfold advance
  generalize r.timers.size = n
  induction n generalizing r ds with
  | zero => simpa [fireDue] using h
  | succ n ih =>
    rw [fireDue_succ]
    cases hd : r.timers.takeDue now with
    | none => simpa using h
    | some x =>
      obtain ⟨t, q⟩ := x
      obtain ⟨hmem, hdue, -⟩ := Timers.takeDue_eq_some hd
      simpa only [List.append_assoc] using ih _ (hstep r ds t hmem hdue h)

/-- So it does when each expiry of a pending timer keeps it. -/
theorem advance_keeps {P : Recognizer → List Decision → Prop} {now : Micros}
    (hstep : ∀ (r : Recognizer) (ds : List Decision) (t : RecognizerTimer),
      r.timers.isPending t = true → P r ds → P (r.expire t).1 (ds ++ (r.expire t).2))
    {r : Recognizer} (ds : List Decision) (h : P r ds) :
    P (r.advance now).1 (ds ++ (r.advance now).2) :=
  advance_keeps_of_due (fun r ds _ hmem _ h => hstep r ds _ (Timers.isPending_of_mem hmem) h) ds h

theorem size_advance_le (r : Recognizer) (now : Micros) :
    (r.advance now).1.timers.size ≤ r.timers.size := by
  have hkeeps := @advance_keeps (fun r' _ => r'.timers.size ≤ r.timers.size) now
    (fun r' _ t _ h => Nat.le_trans (size_fire_le _ _)
      (Nat.le_trans (Timers.size_disarm_le r'.timers t) h)) r [] (Nat.le_refl _)
  exact hkeeps

/-- Firing what is due at a time and then what is due at a later one is firing all at
once: what goes first at the earlier time goes first at the later one, and so do the
timers that are left by its expiry. -/
theorem advance_advance (r : Recognizer) {now later : Micros} (h : now ≤ later) :
    r.advance later =
      (((r.advance now).1.advance later).1,
        (r.advance now).2 ++ ((r.advance now).1.advance later).2) := by
  generalize hn : r.timers.size = n
  induction n using Nat.strongRecOn generalizing r with
  | ind n ih =>
    cases hd : r.timers.takeDue now with
    | none =>
      rw [advance_of_none_due hd]
      rfl
    | some x =>
      obtain ⟨t, q⟩ := x
      have hsize := size_expire_lt (Timers.takeDue_eq_some hd).1
      have hrest := ih _ (hn ▸ hsize) (r.expire t.kind).1 rfl
      rw [advance_of_due hd, advance_of_due (Timers.takeDue_of_le h hd), hrest]
      simp only [List.append_assoc]

theorem size_advance_lt {r : Recognizer} {now : Micros} {x : PendingTimer RecognizerTimer × _}
    (h : r.timers.takeDue now = some x) :
    (r.advance now).1.timers.size < r.timers.size := by
  obtain ⟨t, q⟩ := x
  rw [advance_of_due h]
  exact Nat.lt_of_le_of_lt (size_advance_le _ now)
    (size_expire_lt (Timers.takeDue_eq_some h).1)

/-- After all due timers fired none is due. -/
theorem takeDue_advance (r : Recognizer) (now : Micros) :
    (r.advance now).1.timers.takeDue now = none := by
  cases hd : (r.advance now).1.timers.takeDue now with
  | none => rfl
  | some x =>
    have hlt := size_advance_lt hd
    have hagain := congrArg Prod.fst (r.advance_advance (UInt64.le_refl now))
    rw [← hagain] at hlt
    exact absurd hlt (Nat.lt_irrefl _)

/-! ## What stays -/

/-- The settings, the thresholds and the last down are the same. -/
structure Kept (r r' : Recognizer) : Prop where
  settings : r'.settings = r.settings
  thresholds : r'.thresholds = r.thresholds
  lastDown : r'.lastDown = r.lastDown

namespace Kept

variable {r r' r'' : Recognizer}

theorem refl (r : Recognizer) : Kept r r := ⟨rfl, rfl, rfl⟩

theorem trans (h : Kept r r') (h' : Kept r' r'') : Kept r r'' :=
  ⟨h'.settings.trans h.settings, h'.thresholds.trans h.thresholds, h'.lastDown.trans h.lastDown⟩

theorem clear (r : Recognizer) : Kept r r.clear := ⟨rfl, rfl, rfl⟩

theorem giveUp (r : Recognizer) (s : Sample) : Kept r (r.giveUp s).1 := by
  rcases giveUp_eq r s with ⟨h, -⟩ | ⟨h, -⟩ <;> rw [h] <;> exact ⟨rfl, rfl, rfl⟩

theorem complete (r : Recognizer) (g : Gesture) : Kept r (r.complete g).1 := by
  rcases complete_eq r g with ⟨h, -⟩ | ⟨h, -⟩ <;> rw [h] <;> exact ⟨rfl, rfl, rfl⟩

theorem completeDouble (r : Recognizer) (s : Sample) : Kept r (r.completeDouble s).1 := by
  rcases completeDouble_eq r s with ⟨h, -⟩ | ⟨h, -⟩ <;> rw [h] <;> exact ⟨rfl, rfl, rfl⟩

theorem beginTap (r : Recognizer) (now : Micros) : Kept r (r.beginTap now).1 := by
  unfold Recognizer.beginTap
  split
  rename_i r' ds heq
  have h : Kept r r' := by
    split at heq
    · have he : (r.complete .tap).1 = r' := congrArg Prod.fst heq
      rw [← he]
      exact complete r .tap
    · cases heq
      exact refl r
  exact ⟨h.settings, h.thresholds, h.lastDown⟩

theorem giveUpDoubleTap (r : Recognizer) (s : Sample) (offset : Float32) :
    Kept r (r.giveUpDoubleTap s offset).1 := by
  rcases giveUpDoubleTap_eq r s offset with ⟨he, -⟩ | ⟨-, he⟩
  · rw [he]
    exact refl r
  · rw [he]
    have h := giveUp { r with awaitingSecondUp := false, firstTapDone := false } s
    exact ⟨h.settings, h.thresholds, h.lastDown⟩

theorem extendRoute (r : Recognizer) (position : Point) : Kept r (r.extendRoute position) := by
  unfold Recognizer.extendRoute
  split <;> exact ⟨rfl, rfl, rfl⟩

theorem move (r : Recognizer) (s : Sample) : Kept r (r.move s).state := by
  rcases move_eq r s with ⟨he, -⟩ | ⟨position, given, -, -, rfl, ⟨-, he⟩ | ⟨-, he⟩ | he | ⟨-, he⟩⟩
  · rw [he]
    exact refl r
  all_goals
    rw [he]
    refine (giveUpDoubleTap r s (r.anchor.distance position)).trans ?_
    generalize (r.giveUpDoubleTap s (r.anchor.distance position)).1 = q
  · have h := extendRoute (q.moveAnchor position s.time) position
    exact ⟨h.settings, h.thresholds, h.lastDown⟩
  · exact ⟨rfl, rfl, rfl⟩
  · have h := giveUp q s
    exact ⟨h.settings, h.thresholds, h.lastDown⟩
  · exact extendRoute q position

theorem tapUp (r : Recognizer) (s : Sample) : Kept r (r.tapUp s) := by
  unfold Recognizer.tapUp
  dsimp only
  split
  · exact ⟨rfl, rfl, rfl⟩
  · split
    · split <;> exact ⟨rfl, rfl, rfl⟩
    · exact ⟨rfl, rfl, rfl⟩

theorem swipeUp (r : Recognizer) (s : Sample) : Kept r (r.swipeUp s).1 := by
  unfold Recognizer.swipeUp
  split
  · exact complete _ _
  · exact giveUp _ _

theorem up (r : Recognizer) (s : Sample) : Kept r (r.up s).state := by
  rcases up_eq r s with ⟨-, he⟩ | ⟨-, ⟨-, he⟩ | ⟨-, ⟨-, -, he⟩ | ⟨-, -, he⟩ | ⟨-, -, he⟩ |
    ⟨-, -, he⟩⟩⟩ <;> rw [he]
  · exact refl r
  · exact ⟨rfl, rfl, rfl⟩
  · exact clear r
  · exact (clear r).trans (completeDouble _ s)
  · exact (swipeUp r s).trans (clear _)
  · exact tapUp r s

theorem expire (r : Recognizer) (t : RecognizerTimer) : Kept r (r.expire t).1 := by
  rcases expire_eq r t with he | ⟨-, -, -, -, he⟩ | ⟨-, -, -, -, he⟩ <;> rw [he] <;>
    exact ⟨rfl, rfl, rfl⟩

theorem advance (r : Recognizer) (now : Micros) : Kept r (r.advance now).1 :=
  advance_keeps (P := fun r' _ => Kept r r') (fun _ _ _ _ h => h.trans (expire _ _)) [] (refl r)

/-- A message that begins no interaction and does not destroy keeps the last down. -/
theorem receive {m : Message} (hm : r.accepts m = false) (hd : m ≠ .destroy) :
    Kept r (r.receive m).state :=
  receive_cases (P := fun q _ => Kept r q) hm (refl r) (clear r) (fun s _ => move r s)
    (fun s _ => up r s) (fun s _ => (clear r).trans (giveUp r.clear s))
    (fun now _ => advance r now) (fun h => absurd h hd)

end Kept

/-- A down that begins an interaction is the last down from then on. -/
theorem lastDown_of_accepts {r : Recognizer} {s : Sample}
    (h : r.accepts (.event (.pointer s)) = true) :
    (r.receive (.event (.pointer s))).state.lastDown = some s := by
  obtain ⟨position, -, hp⟩ := pointer_of_accepts h
  simp only [receive, hp]
  split <;> rfl

/-- No message changes what a recognizer was built from. -/
theorem settings_receive (r : Recognizer) (m : Message) :
    (r.receive m).state.settings = r.settings ∧ (r.receive m).state.thresholds = r.thresholds := by
  by_cases hd : m = .destroy
  · subst hd
    exact ⟨rfl, rfl⟩
  · cases hm : r.accepts m with
    | false => exact ⟨(Kept.receive hm hd).settings, (Kept.receive hm hd).thresholds⟩
    | true =>
      obtain ⟨s, rfl⟩ := exists_pointer_of_accepts hm
      obtain ⟨position, -, hp⟩ := pointer_of_accepts hm
      simp only [receive, hp]
      split
      · exact ⟨rfl, rfl⟩
      · have h := Kept.beginTap r s.time
        exact ⟨h.settings, h.thresholds⟩

theorem settings_after (r : Recognizer) (ms : List Message) :
    (r.after ms).settings = r.settings ∧ (r.after ms).thresholds = r.thresholds := by
  induction ms generalizing r with
  | nil => exact ⟨rfl, rfl⟩
  | cons m ms ih =>
    obtain ⟨h1, h2⟩ := settings_receive r m
    obtain ⟨h3, h4⟩ := ih (r.receive m).state
    exact ⟨h3.trans h1, h4.trans h2⟩

end Recognizer

end TouchStream
