import Mathlib.Data.List.Induction
import TouchStream.Proofs.Recognizer.Muted

/-!
# Second taps

An accepted down begins a tap of its own or is taken for the second tap of a double tap
(`beginsSecondTap`). The latter sets a flag, and nothing lowers that flag but the end of
the interaction that is read. A down does not end one: where the up of a second tap is
missing, the flag still stands within the next interaction. So it stands exactly while an
interaction has been read ever since a second tap began, be it always the same or not
(`secondTapBegun_after_iff`).

* `GoesOn`: an interaction goes on with its flag, or is over.
* `GoesOn.receive`: so it is at each message that begins no interaction.
-/

namespace TouchStream.Recognizer

variable {r q : Recognizer} {s : Sample} {m : Message} {ms : List Message}

/-- Whether a message is a down that is taken for the second tap of a double tap. -/
def beginsSecondTap (r : Recognizer) : Message → Bool
  | .event (.pointer s) =>
    r.accepts (.event (.pointer s)) &&
      match s.position with
      | some position => r.isSecondTap s position
      | none => false
  | _ => false

/-- Whether an interaction is read all along a run. -/
def reads (r : Recognizer) : List Message → Bool
  | [] => r.recognizing
  | m :: ms => r.recognizing && (r.receive m).state.reads ms

/-- A second tap was begun in a run, and an interaction has been read ever since. -/
def LeavesSecondTap (r : Recognizer) (ms : List Message) : Prop :=
  ∃ before m since, ms = before ++ m :: since ∧ (r.after before).beginsSecondTap m = true ∧
    ((r.after before).receive m).state.reads since = true

/-! ## Downs -/

theorem accepts_of_beginsSecondTap (h : r.beginsSecondTap m = true) : r.accepts m = true := by
  unfold beginsSecondTap at h
  split at h
  · exact (Bool.and_eq_true_iff.mp h).1
  · cases h

theorem beginsSecondTap_of_accepts {position : Point}
    (h : r.accepts (.event (.pointer s)) = true) (hposition : s.position = some position) :
    r.beginsSecondTap (.event (.pointer s)) = r.isSecondTap s position := by
  simp [beginsSecondTap, h, hposition]

theorem secondTapBegun_beginTap (r : Recognizer) (now : Micros) :
    (r.beginTap now).1.secondTapBegun = r.secondTapBegun := by
  unfold beginTap
  split
  rename_i q ds heq
  show q.secondTapBegun = r.secondTapBegun
  split at heq
  · have hq : (r.complete .tap).1 = q := congrArg Prod.fst heq
    rw [← hq]
    rcases complete_eq r .tap with ⟨he, -⟩ | ⟨he, -⟩ <;> rw [he]
  · cases heq
    rfl

/-- A down that begins a tap of its own does not lower the flag. -/
theorem secondTapBegun_of_accepts (h : r.accepts m = true) :
    (r.receive m).state.recognizing = true ∧
      (r.receive m).state.secondTapBegun = (r.secondTapBegun || r.beginsSecondTap m) := by
  obtain ⟨s, rfl⟩ := exists_pointer_of_accepts h
  obtain ⟨position, hposition, hp⟩ := pointer_of_accepts h
  rw [beginsSecondTap_of_accepts h hposition]
  simp only [receive, hp]
  cases r.isSecondTap s position with
  | true => exact ⟨rfl, (Bool.or_true _).symm⟩
  | false =>
    rw [Bool.or_false]
    exact ⟨rfl, secondTapBegun_beginTap r s.time⟩

/-! ## Other messages -/

/-- The interaction goes on with its flag of a second tap, or is over. -/
def GoesOn (r q : Recognizer) : Prop :=
  q.recognizing = r.recognizing ∧ q.secondTapBegun = r.secondTapBegun ∨
    q.recognizing = false ∧ q.secondTapBegun = false

namespace GoesOn

theorem refl (r : Recognizer) : GoesOn r r := Or.inl ⟨rfl, rfl⟩

theorem trans {p : Recognizer} (h : GoesOn r q) (h' : GoesOn q p) : GoesOn r p := by
  rcases h' with ⟨hrecognizing, hsecond⟩ | hover
  · rcases h with ⟨hr, hs⟩ | ⟨hr, hs⟩
    · exact Or.inl ⟨hrecognizing.trans hr, hsecond.trans hs⟩
    · exact Or.inr ⟨hrecognizing.trans hr, hsecond.trans hs⟩
  · exact Or.inr hover

theorem clear (r : Recognizer) : GoesOn r r.clear := Or.inr ⟨rfl, rfl⟩

theorem giveUp (r : Recognizer) (s : Sample) : GoesOn r (r.giveUp s).1 := by
  rcases giveUp_eq r s with ⟨he, -⟩ | ⟨he, -⟩ <;> rw [he] <;> exact Or.inl ⟨rfl, rfl⟩

theorem complete (r : Recognizer) (g : Gesture) : GoesOn r (r.complete g).1 := by
  rcases complete_eq r g with ⟨he, -⟩ | ⟨he, -⟩ <;> rw [he] <;> exact Or.inl ⟨rfl, rfl⟩

theorem completeDouble (r : Recognizer) (s : Sample) : GoesOn r (r.completeDouble s).1 := by
  rcases completeDouble_eq r s with ⟨he, -⟩ | ⟨he, -⟩ <;> rw [he] <;> exact Or.inl ⟨rfl, rfl⟩

theorem giveUpDoubleTap (r : Recognizer) (s : Sample) (offset : Float32) :
    GoesOn r (r.giveUpDoubleTap s offset).1 := by
  rcases giveUpDoubleTap_eq r s offset with ⟨he, -⟩ | ⟨-, he⟩ <;> rw [he]
  · exact refl r
  · exact giveUp { r with awaitingSecondUp := false, firstTapDone := false } s

theorem extendRoute (r : Recognizer) (position : Point) : GoesOn r (r.extendRoute position) := by
  unfold Recognizer.extendRoute
  split <;> exact Or.inl ⟨rfl, rfl⟩

theorem move (r : Recognizer) (s : Sample) : GoesOn r (r.move s).state := by
  rcases move_eq r s with ⟨he, -⟩ |
    ⟨position, given, -, -, hgiven, ⟨-, he⟩ | ⟨-, he⟩ | he | ⟨-, he⟩⟩
  · rw [he]
    exact refl r
  all_goals
    have hg : GoesOn r given.1 := hgiven ▸ giveUpDoubleTap r s _
    rw [he]
    refine hg.trans ?_
  · exact trans (Or.inl ⟨rfl, rfl⟩) (extendRoute (given.1.moveAnchor position s.time) position)
  · exact Or.inl ⟨rfl, rfl⟩
  · exact Or.inr ⟨rfl, rfl⟩
  · exact extendRoute given.1 position

theorem up (r : Recognizer) (s : Sample) : GoesOn r (r.up s).state := by
  rcases up_eq r s with ⟨-, he⟩ | ⟨-, ⟨-, he⟩ | ⟨-, ⟨-, -, he⟩ | ⟨-, -, he⟩ | ⟨-, -, he⟩ |
    ⟨-, -, he⟩⟩⟩ <;> rw [he]
  · exact refl r
  · exact Or.inl ⟨rfl, rfl⟩
  · exact clear r
  · exact (clear r).trans (completeDouble r.clear s)
  · exact Or.inr ⟨rfl, rfl⟩
  · exact Or.inr ⟨rfl, rfl⟩

theorem expire (r : Recognizer) (t : RecognizerTimer) : GoesOn r (r.expire t).1 := by
  rcases expire_eq r t with he | ⟨-, -, -, -, he⟩ | ⟨-, -, -, -, he⟩ <;> rw [he]
  · exact Or.inl ⟨rfl, rfl⟩
  · exact Or.inr ⟨rfl, rfl⟩
  · exact Or.inl ⟨rfl, rfl⟩

theorem advance (r : Recognizer) (now : Micros) : GoesOn r (r.advance now).1 :=
  advance_keeps (P := fun q _ => GoesOn r q) (fun q _ t _ h => h.trans (expire q t)) [] (refl r)

theorem receive (hm : r.accepts m = false) : GoesOn r (r.receive m).state :=
  receive_cases (P := fun q _ => GoesOn r q) hm (refl r) (clear r) (fun s _ => move r s)
    (fun s _ => up r s) (fun s _ => (clear r).trans (giveUp r.clear s))
    (fun now _ => advance r now) (fun _ => Or.inr ⟨rfl, rfl⟩)

end GoesOn

/-! ## Runs -/

/-- The flag after a message: it stands where an interaction is read and it stood before, or
where a second tap has begun. -/
theorem secondTapBegun_receive (hr : r.Consistent) (m : Message) :
    (r.receive m).state.secondTapBegun =
      ((r.receive m).state.recognizing && (r.secondTapBegun || r.beginsSecondTap m)) := by
  cases hm : r.accepts m with
  | true =>
    obtain ⟨hrecognizing, hsecond⟩ := secondTapBegun_of_accepts hm
    rw [hrecognizing, hsecond, Bool.true_and]
  | false =>
    have hnone : r.beginsSecondTap m = false := by
      cases h : r.beginsSecondTap m with
      | false => rfl
      | true => exact absurd ((accepts_of_beginsSecondTap h).symm.trans hm) (by simp)
    rcases GoesOn.receive hm with ⟨hrecognizing, hsecond⟩ | ⟨hrecognizing, hsecond⟩
    · rw [hrecognizing, hsecond, hnone, Bool.or_false]
      cases hs : r.secondTapBegun with
      | false => rw [Bool.and_false]
      | true => rw [hr.second hs, Bool.and_true]
    · rw [hrecognizing, hsecond, Bool.false_and]

theorem reads_concat (r : Recognizer) (ms : List Message) (m : Message) :
    r.reads (ms ++ [m]) = (r.reads ms && ((r.after ms).receive m).state.recognizing) := by
  induction ms generalizing r with
  | nil => rfl
  | cons a ms ih =>
    show (r.recognizing && (r.receive a).state.reads (ms ++ [m])) = _
    rw [ih, ← Bool.and_assoc]
    rfl

theorem leavesSecondTap_concat :
    r.LeavesSecondTap (ms ++ [m]) ↔
      ((r.after ms).receive m).state.recognizing = true ∧
        (r.LeavesSecondTap ms ∨ (r.after ms).beginsSecondTap m = true) := by
  constructor
  · rintro ⟨before, first, since, heq, hfirst, hreads⟩
    rcases List.eq_nil_or_concat since with rfl | ⟨rest, last, rfl⟩
    · obtain ⟨rfl, hlast⟩ := List.append_inj' heq rfl
      obtain rfl := List.singleton_inj.mp hlast
      exact ⟨hreads, Or.inr hfirst⟩
    · rw [List.concat_eq_append] at heq hreads
      rw [← List.cons_append, ← List.append_assoc] at heq
      obtain ⟨rfl, hlast⟩ := List.append_inj' heq rfl
      obtain rfl := List.singleton_inj.mp hlast
      rw [reads_concat, Bool.and_eq_true] at hreads
      rw [after_append]
      exact ⟨hreads.2, Or.inl ⟨before, first, rest, rfl, hfirst, hreads.1⟩⟩
  · rintro ⟨hreading, ⟨before, first, since, rfl, hfirst, hreads⟩ | hfirst⟩
    · refine ⟨before, first, since ++ [m], List.append_assoc _ _ _, hfirst, ?_⟩
      rw [after_append] at hreading
      rw [reads_concat, hreads, Bool.true_and]
      exact hreading
    · exact ⟨ms, m, [], rfl, hfirst, hreading⟩

/-- The flag of a second tap stands exactly when one was begun and an interaction has been
read ever since. -/
theorem secondTapBegun_after_iff (hr : r.Consistent) (hnone : r.secondTapBegun = false)
    (ms : List Message) : (r.after ms).secondTapBegun = true ↔ r.LeavesSecondTap ms := by
  induction ms using List.reverseRecOn with
  | nil =>
    have hempty : ¬ r.LeavesSecondTap [] := by
      rintro ⟨before, first, since, heq, -⟩
      cases before <;> cases heq
    simp [hnone, hempty]
  | append_singleton ms m ih =>
    have hstep := secondTapBegun_receive (hr.after ms) m
    rw [leavesSecondTap_concat, after_append, after_cons, after_nil, hstep, ← ih]
    simp only [Bool.and_eq_true, Bool.or_eq_true]

end TouchStream.Recognizer
