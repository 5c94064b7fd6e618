import TouchStream.Proofs.Recognizer.Isolation

/-!
# Recognizers that have nothing to report

Once it is cleared, a recognizer is idle until the next accepted down. A down of several
fingers clears it as well, but for one state: while the second tap of a double tap is held
for long, every down is ignored (`Holding`). There nothing is reported either, since the
long press was reported already, and the next up clears the recognizer.

The flags do not say by themselves that a long press that is held was reported. It is an
invariant of its own (`HeldReported`).

* `Muted.receive`: a message that begins no interaction leaves a muted recognizer muted,
  and nothing but a cancellation is reported on it.
* `muted_of_manyDown`: a down of several fingers mutes.
-/

namespace TouchStream.Recognizer

variable {r : Recognizer} {s : Sample} {m : Message} {ms ms' : List Message}

/-! ## Long presses that are held -/

/-- A long press that is held was reported. -/
def HeldReported (r : Recognizer) : Prop := r.heldLong = true → r.classified = true

namespace HeldReported

theorem of_not_held (h : r.heldLong = false) : r.HeldReported := by
  intro hl
  rw [h] at hl
  cases hl

theorem giveUp (h : r.HeldReported) (s : Sample) : (r.giveUp s).1.HeldReported := by
  rcases giveUp_eq r s with ⟨he, -⟩ | ⟨he, -⟩ <;> rw [he] <;> exact h

theorem giveUpDoubleTap (h : r.HeldReported) (s : Sample) (offset : Float32) :
    (r.giveUpDoubleTap s offset).1.HeldReported := by
  rcases giveUpDoubleTap_eq r s offset with ⟨he, -⟩ | ⟨-, he⟩ <;> rw [he]
  · exact h
  · exact giveUp (r := { r with awaitingSecondUp := false, firstTapDone := false }) h s

theorem extendRoute (h : r.HeldReported) (position : Point) :
    (r.extendRoute position).HeldReported := by
  unfold Recognizer.extendRoute
  split <;> exact h

theorem accept (h : r.accepts m = true) : (r.receive m).state.HeldReported := by
  obtain ⟨s, rfl⟩ := exists_pointer_of_accepts h
  obtain ⟨position, -, hp⟩ := pointer_of_accepts h
  refine of_not_held ?_
  simp only [Recognizer.receive, hp]
  split <;> rfl

theorem move (h : r.HeldReported) (s : Sample) : (r.move s).state.HeldReported := by
  rcases move_eq r s with ⟨he, -⟩ |
    ⟨position, given, -, -, hgiven, ⟨-, he⟩ | ⟨-, he⟩ | he | ⟨-, he⟩⟩
  · rw [he]
    exact h
  all_goals
    have hg : given.1.HeldReported := hgiven ▸ h.giveUpDoubleTap s _
    rw [he]
  · exact extendRoute (r := given.1.moveAnchor position s.time) hg position
  · exact hg
  · exact of_not_held rfl
  · exact hg.extendRoute position

theorem tapUp (h : r.HeldReported) (s : Sample) : (r.tapUp s).HeldReported := by
  unfold Recognizer.tapUp
  dsimp only
  split
  · exact of_not_held rfl
  · split
    · split <;> exact h
    · exact h

theorem up (h : r.HeldReported) (s : Sample) : (r.up s).state.HeldReported := by
  rcases up_eq r s with ⟨-, he⟩ | ⟨-, ⟨-, he⟩ | ⟨-, ⟨-, -, he⟩ | ⟨-, -, he⟩ | ⟨-, -, he⟩ |
    ⟨-, -, he⟩⟩⟩ <;> rw [he]
  · exact h
  · exact h
  · exact of_not_held rfl
  · refine of_not_held ?_
    rcases completeDouble_eq r.clear s with ⟨he, -⟩ | ⟨he, -⟩ <;> rw [he] <;> rfl
  · exact of_not_held rfl
  · exact h.tapUp s

theorem expire (h : r.HeldReported) (t : RecognizerTimer) : (r.expire t).1.HeldReported := by
  rcases expire_eq r t with he | ⟨-, -, -, -, he⟩ | ⟨-, -, -, -, he⟩ <;> rw [he]
  · exact h
  · exact of_not_held rfl
  · exact fun _ => rfl

theorem receive (h : r.HeldReported) (m : Message) : (r.receive m).state.HeldReported := by
  cases hm : r.accepts m with
  | true => exact accept hm
  | false =>
    exact receive_cases (P := fun q _ => q.HeldReported) hm h (of_not_held rfl)
      (fun s _ => h.move s) (fun s _ => h.up s) (fun s _ => giveUp (of_not_held rfl) s)
      (fun now _ => advance_keeps (P := fun q _ => q.HeldReported) (fun _ _ t _ h => h.expire t)
        [] h) (fun _ => of_not_held rfl)

theorem after (h : r.HeldReported) (ms : List Message) : (r.after ms).HeldReported := by
  induction ms generalizing r with
  | nil => exact h
  | cons m ms ih => exact ih (h.receive m)

end HeldReported

/-! ## Second taps that are held -/

/-- The second tap of a double tap is held for long. -/
structure Holding (r : Recognizer) : Prop where
  consistent : r.Consistent
  awaiting : r.awaitingSecondUp = true
  heldLong : r.heldLong = true
  classified : r.classified = true

theorem Idle.not_holding (h : r.Idle) : ¬ r.Holding := by
  intro hh
  have hawaiting := hh.awaiting
  rw [h.awaiting] at hawaiting
  cases hawaiting

namespace Holding

theorem not_accepts (h : r.Holding) (m : Message) : r.accepts m = false := by
  unfold accepts
  split
  · simp [h.awaiting, h.heldLong]
  · rfl

/-- The timer of the long press has fired, and that of the first tap finds the finger
down. -/
theorem expire (h : r.Holding) {t : RecognizerTimer} (ht : r.timers.isPending t = true) :
    (r.expire t).1.Holding ∧ (r.expire t).2 = [] := by
  have hconsistent := h.consistent.expire ht
  cases t with
  | longPress =>
    have hunreported := (h.consistent.longPress ht).2.2
    rw [h.classified] at hunreported
    cases hunreported
  | singleTap =>
    have hfinger := h.consistent.fingerDown (h.consistent.awaiting h.awaiting).1
    have hfire : r.expire .singleTap = (r.disarm .singleTap, []) := by
      simp [Recognizer.expire, fire, Recognizer.disarm, hfinger]
    rw [hfire] at hconsistent ⊢
    exact ⟨⟨hconsistent, h.awaiting, h.heldLong, h.classified⟩, rfl⟩

theorem advance (h : r.Holding) (now : Micros) :
    (r.advance now).1.Holding ∧ (r.advance now).2 = [] := by
  refine advance_keeps (P := fun r ds => r.Holding ∧ ds = []) ?_ [] ⟨h, rfl⟩
  rintro r ds t ht ⟨h, rfl⟩
  exact h.expire ht

theorem up (h : r.Holding) (s : Sample) :
    ((r.up s).state.Idle ∨ (r.up s).state.Holding) ∧ (r.up s).decisions = [] := by
  have hr := (h.consistent.awaiting h.awaiting).1
  unfold Recognizer.up
  split
  · exact ⟨Or.inr h, rfl⟩
  · rw [if_neg (by simp [hr]), if_pos h.awaiting, if_pos h.heldLong]
    exact ⟨Or.inl (idle_clear r), rfl⟩

theorem cancel (h : r.Holding) (s : Sample) :
    (r.cancel s).state.Idle ∧ (r.cancel s).decisions = [] := by
  obtain ⟨hidle, ⟨hnothing, -⟩ | ⟨-, hbefore⟩, -⟩ := idle_cancel r s
  · exact ⟨hidle, hnothing⟩
  · rw [isSilenced, h.classified, Bool.or_true] at hbefore
    cases hbefore

/-- Whatever comes, nothing is decided, and the hold goes on or everything is cleared. -/
theorem receive (h : r.Holding) (m : Message) :
    ((r.receive m).state.Idle ∨ (r.receive m).state.Holding) ∧ r.decides m = [] := by
  refine receive_cases (P := fun q ds => (q.Idle ∨ q.Holding) ∧ ds = []) (h.not_accepts m)
    ⟨Or.inr h, rfl⟩ ⟨Or.inl (idle_clear r), rfl⟩ (fun s _ => ?_) (fun s _ => h.up s)
    (fun s _ => ⟨Or.inl (h.cancel s).1, (h.cancel s).2⟩)
    (fun now _ => ⟨Or.inr (h.advance now).1, (h.advance now).2⟩)
    (fun _ => ⟨Or.inl (idle_destroy r), rfl⟩)
  -- a finger that is held may move
  have hmove : r.move s = ⟨r, [], false⟩ := by
    simp [Recognizer.move, h.awaiting, h.heldLong]
  rw [hmove]
  exact ⟨Or.inr h, rfl⟩

end Holding

/-! ## Muted recognizers -/

/-- No interaction is read, or one that has nothing left to report. -/
def Muted (r : Recognizer) : Prop := r.Idle ∨ r.Holding

theorem Muted.receive (h : r.Muted) (hm : r.accepts m = false) :
    (r.receive m).state.Muted ∧ ∀ d ∈ r.decides m, d.isCancelled = true := by
  rcases h with h | h
  · obtain ⟨hidle, ⟨hnothing, -⟩ | ⟨s, -, -, -, hgiven, -⟩⟩ := h.receive hm
    · refine ⟨Or.inl hidle, ?_⟩
      rw [hnothing]
      simp
    · refine ⟨Or.inl hidle, ?_⟩
      rw [hgiven]
      simp [Decision.isCancelled]
  · obtain ⟨hmuted, hnothing⟩ := h.receive m
    refine ⟨hmuted, ?_⟩
    rw [hnothing]
    simp

theorem Muted.advance (h : r.Muted) (now : Micros) :
    (r.advance now).1.Muted ∧ ((r.advance now).1.Holding ↔ r.Holding) := by
  rcases h with h | h
  · rw [h.advance_eq]
    exact ⟨Or.inl h, Iff.rfl⟩
  · have hlater := (h.advance now).1
    exact ⟨Or.inr hlater, fun _ => h, fun _ => hlater⟩

theorem muted_of_manyDown (hr : r.Consistent) (hreported : r.HeldReported)
    (hsource : s.source = .touchscreen) (haction : s.action = .down) (hmany : 1 < s.pointerCount) :
    (r.receive (.event (.pointer s))).state.Muted := by
  have hp : r.pointer s = r.down s := by
    rw [pointer_of_touchscreen hsource, haction]
  show (r.pointer s).state.Muted
  rw [hp, Recognizer.down, if_pos hmany]
  split
  · rename_i hboth
    obtain ⟨hawaiting, hheld⟩ := Bool.and_eq_true_iff.mp hboth
    exact Or.inr ⟨hr, hawaiting, hheld, hreported hheld⟩
  · exact Or.inl (idle_clear r)

/-! ## Runs -/

theorem interactions_cons_eq_nil :
    (r.interactions (m :: ms)).2 = [] ↔
      r.accepts m = false ∧ ((r.receive m).state.interactions ms).2 = [] := by
  rw [interactions]
  cases r.accepts m <;> simp

theorem interactions_append_eq_nil :
    (r.interactions (ms ++ ms')).2 = [] ↔
      (r.interactions ms).2 = [] ∧ ((r.after ms).interactions ms').2 = [] := by
  induction ms generalizing r with
  | nil => simp [interactions]
  | cons m ms ih =>
    rw [List.cons_append, interactions_cons_eq_nil, interactions_cons_eq_nil, ih, after_cons,
      and_assoc]

theorem Muted.after (h : r.Muted) (hms : (r.interactions ms).2 = []) :
    (r.after ms).Muted ∧ ∀ d ∈ (r.interactions ms).1, d.isCancelled = true := by
  induction ms generalizing r with
  | nil => exact ⟨h, by simp [interactions]⟩
  | cons m ms ih =>
    obtain ⟨hm, hrest⟩ := interactions_cons_eq_nil.mp hms
    obtain ⟨hmuted, hfirst⟩ := h.receive hm
    obtain ⟨hlast, hlater⟩ := ih hmuted hrest
    refine ⟨hlast, ?_⟩
    intro d hd
    simp only [interactions, hm, Bool.false_eq_true, if_false, List.mem_append] at hd
    rcases hd with hd | hd
    · exact hfirst d hd
    · exact hlater d hd

end TouchStream.Recognizer
