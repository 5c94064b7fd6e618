import TouchStream.Proofs.Recognizer.Isolation

/-!
# The latches of an interaction

An interaction is classified at most once and cancelled at most once. The recognizer has a
flag for either, which it sets as it reports and resets at the next accepted down. So
between two states of one interaction the flags say what was reported (`Latches`).

* `Latches.receive`: the flags after a message that begins no interaction.
* `Latches.interactions`: the flags after a run within an interaction.
-/

namespace TouchStream.Recognizer

variable {r q : Recognizer} {m : Message} {ms : List Message} {ds ds' : List Decision}

/-- Between two states the flags record what was decided. -/
structure Latches (r q : Recognizer) (ds : List Decision) : Prop where
  cancelled : q.cancelled = (r.cancelled || ds.any Decision.isCancelled)
  classified : q.classified = (r.classified || ds.any Decision.classifies)

namespace Latches

theorem of_eq (hcancelled : q.cancelled = r.cancelled) (hclassified : q.classified = r.classified) :
    Latches r q [] :=
  ⟨by simp [hcancelled], by simp [hclassified]⟩

theorem refl (r : Recognizer) : Latches r r [] := of_eq rfl rfl

theorem trans {p : Recognizer} (h : Latches r q ds) (h' : Latches q p ds') :
    Latches r p (ds ++ ds') where
  cancelled := by rw [h'.cancelled, h.cancelled, List.any_append, Bool.or_assoc]
  classified := by rw [h'.classified, h.classified, List.any_append, Bool.or_assoc]

/-- A step that reports nothing more and leaves the flags. -/
theorem step {p : Recognizer} (h : Latches r q ds) (hcancelled : p.cancelled = q.cancelled)
    (hclassified : p.classified = q.classified) : Latches r p ds :=
  ⟨hcancelled.trans h.cancelled, hclassified.trans h.classified⟩

theorem giveUp (r : Recognizer) (s : Sample) : Latches r (r.giveUp s).1 (r.giveUp s).2 := by
  rcases giveUp_eq r s with ⟨he, -⟩ | ⟨he, -⟩
  · rw [he]
    exact refl r
  · rw [he]
    exact ⟨by simp [Decision.isCancelled], by simp [Decision.classifies]⟩

theorem complete (r : Recognizer) (g : Gesture) : Latches r (r.complete g).1 (r.complete g).2 := by
  rcases complete_eq r g with ⟨he, -⟩ | ⟨he, -⟩
  · rw [he]
    exact refl r
  · rw [he]
    exact ⟨by simp [Decision.isCancelled], by simp [Decision.classifies]⟩

theorem completeDouble (r : Recognizer) (s : Sample) :
    Latches r (r.completeDouble s).1 (r.completeDouble s).2 := by
  rcases completeDouble_eq r s with ⟨he, -⟩ | ⟨he, -⟩
  · rw [he]
    exact refl r
  · rw [he]
    exact ⟨by simp [Decision.isCancelled], by simp [Decision.classifies]⟩

theorem giveUpDoubleTap (r : Recognizer) (s : Sample) (offset : Float32) :
    Latches r (r.giveUpDoubleTap s offset).1 (r.giveUpDoubleTap s offset).2 := by
  rcases giveUpDoubleTap_eq r s offset with ⟨he, -⟩ | ⟨-, he⟩ <;> rw [he]
  · exact refl r
  · have h := giveUp { r with awaitingSecondUp := false, firstTapDone := false } s
    exact ⟨h.cancelled, h.classified⟩

theorem extendRoute (r : Recognizer) (position : Point) :
    Latches r (r.extendRoute position) [] := by
  unfold Recognizer.extendRoute
  split
  · exact of_eq rfl rfl
  · exact refl r

theorem move (r : Recognizer) (s : Sample) :
    Latches r (r.move s).state (r.move s).decisions := by
  rcases move_eq r s with ⟨he, -⟩ |
    ⟨position, given, -, -, hgiven, ⟨-, he⟩ | ⟨-, he⟩ | he | ⟨-, he⟩⟩
  · rw [he]
    exact refl r
  all_goals
    have hg : Latches r given.1 given.2 := hgiven ▸ giveUpDoubleTap r s _
    have hmoved : Latches r (given.1.moveAnchor position s.time) given.2 := hg.step rfl rfl
    rw [he]
  · simpa using hmoved.trans (extendRoute _ position)
  · exact hmoved.trans ⟨by simp [Decision.isCancelled], by simp [Decision.classifies]⟩
  · exact (hg.trans (giveUp given.1 s)).step rfl rfl
  · simpa using hg.trans (extendRoute _ position)

theorem swipeUp (r : Recognizer) (s : Sample) : Latches r (r.swipeUp s).1 (r.swipeUp s).2 := by
  unfold Recognizer.swipeUp
  split
  · exact complete r _
  · exact giveUp r s

theorem tapUp (r : Recognizer) (s : Sample) : Latches r (r.tapUp s) [] := by
  unfold Recognizer.tapUp
  dsimp only
  split
  · exact of_eq rfl rfl
  · split
    · split <;> exact of_eq rfl rfl
    · exact of_eq rfl rfl

theorem up (r : Recognizer) (s : Sample) : Latches r (r.up s).state (r.up s).decisions := by
  rcases up_eq r s with ⟨-, he⟩ | ⟨-, ⟨-, he⟩ | ⟨-, ⟨-, -, he⟩ | ⟨-, -, he⟩ | ⟨-, -, he⟩ |
    ⟨-, -, he⟩⟩⟩ <;> rw [he]
  · exact refl r
  · exact of_eq rfl rfl
  · exact of_eq rfl rfl
  · have h := completeDouble r.clear s
    exact ⟨h.cancelled, h.classified⟩
  · exact (swipeUp r s).step rfl rfl
  · exact tapUp r s

theorem expire (hr : r.Consistent) {t : RecognizerTimer} (ht : r.timers.isPending t = true) :
    Latches r (r.expire t).1 (r.expire t).2 := by
  rcases expire_eq r t with he | ⟨-, -, -, -, he⟩ | ⟨rfl, -, -, -, he⟩ <;> rw [he]
  · exact of_eq rfl rfl
  · exact ⟨by simp [Decision.isCancelled, clear, resetTaps, disarm],
      by simp [Decision.classifies, clear, resetTaps, disarm]⟩
  · obtain ⟨down, hdown⟩ := Option.isSome_iff_exists.mp (hr.lastDown (hr.longPress ht).1)
    simp only [disarm, hdown, Option.map_some, Option.toList_some]
    exact ⟨by simp [Decision.isCancelled], by simp [Decision.classifies]⟩

theorem advance (hr : r.Consistent) (now : Micros) :
    Latches r (r.advance now).1 (r.advance now).2 := by
  have hboth := @advance_keeps (fun q ds => q.Consistent ∧ Latches r q ds) now
    (fun _ _ _ ht h => ⟨h.1.expire ht, h.2.trans (expire h.1 ht)⟩) r [] ⟨hr, refl r⟩
  exact hboth.2

theorem receive (hr : r.Consistent) (hm : r.accepts m = false) :
    Latches r (r.receive m).state (r.decides m) :=
  receive_cases hm (refl r) (of_eq rfl rfl) (fun s _ => move r s) (fun s _ => up r s)
    (fun s _ => ⟨(giveUp r.clear s).cancelled, (giveUp r.clear s).classified⟩)
    (fun now _ => advance hr now) (fun _ => of_eq rfl rfl)

end Latches

theorem Latches.interactions (hr : r.Consistent) (hms : (r.interactions ms).2 = []) :
    Latches r (r.after ms) (r.interactions ms).1 := by
  induction ms generalizing r with
  | nil => exact refl r
  | cons m ms ih =>
    simp only [Recognizer.interactions] at hms ⊢
    split at hms
    · cases hms
    · rename_i hm
      rw [if_neg hm]
      exact (receive hr (by simpa using hm)).trans (ih (hr.receive m) hms)

theorem Accounts.after (h : Accounts r ds) (hr : r.Consistent) (hms : (r.interactions ms).2 = []) :
    Accounts (r.after ms) (ds ++ (r.interactions ms).1) := by
  induction ms generalizing r ds with
  | nil => simpa [Recognizer.interactions] using h
  | cons m ms ih =>
    simp only [Recognizer.interactions] at hms ⊢
    split at hms
    · cases hms
    · rename_i hm
      rw [if_neg hm, ← List.append_assoc]
      exact ih (h.receive hr (by simpa using hm)) (hr.receive m) hms

end TouchStream.Recognizer
