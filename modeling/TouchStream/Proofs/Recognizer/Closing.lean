import TouchStream.Proofs.Recognizer.Latches

/-!
# How a started swipe is closed

A swipe that was started is closed when its finger lifts, when it takes too long and when
it is cancelled: as the swipe that its route is, or as given up (`verdict`). But an
interaction is classified and cancelled at most once, and both can be spent before the
swipe starts. A finger that was held for long may still swipe, and is closed by nothing
then. A second tap that was given up as it moved may still swipe, and is closed only where
its route is read as a swipe.

From the start of the swipe to its end nothing is reported (`decides_of_swiping`), and
after the end the recognizer is idle and silent.

* `interactions_of_swiping`: the start of a swipe that goes on is the last report.
* `decisions_of_ends`: what is decided on the sample that ends a swipe.
* `started_swipe_closed`: what follows a start in every interaction of every run.
-/

namespace TouchStream.Recognizer

variable {r : Recognizer} {s : Sample} {m : Message} {ms : List Message}

/-! ## Outside an interaction -/

theorem not_recognizing_advance (h : r.recognizing = false) (now : Micros) :
    (r.advance now).1.recognizing = false := by
  refine advance_keeps (P := fun q _ => q.recognizing = false) ?_ [] h
  intro q _ t _ hq
  rcases expire_eq q t with he | ⟨-, -, -, -, he⟩ | ⟨-, -, -, -, he⟩ <;> rw [he]
  · exact hq
  · rfl
  · exact hq

/-- Only an accepted down makes a recognizer read an interaction. -/
theorem not_recognizing_receive (h : r.recognizing = false) (hm : r.accepts m = false) :
    (r.receive m).state.recognizing = false := by
  refine receive_cases (P := fun q _ => q.recognizing = false) hm h rfl ?move ?up
    (fun s _ => (idle_cancel r s).1.recognizing) (fun now _ => not_recognizing_advance h now)
    (fun _ => rfl)
  case move =>
    intro s _
    rcases move_eq r s with ⟨he, -⟩ | ⟨_, _, -, hr, -⟩
    · rw [he]
      exact h
    · exact absurd (hr.symm.trans h) (by simp)
  case up =>
    intro s _
    rcases up_eq r s with ⟨-, he⟩ | ⟨-, ⟨-, he⟩ | ⟨hr, -⟩⟩
    · rw [he]
      exact h
    · rw [he]
      exact h
    · exact absurd (hr.symm.trans h) (by simp)

/-! ## While a swipe goes on -/

theorem swiping_giveUpDoubleTap (r : Recognizer) (s : Sample) (offset : Float32) :
    (r.giveUpDoubleTap s offset).1.swiping = r.swiping := by
  rcases giveUpDoubleTap_eq r s offset with ⟨he, -⟩ | ⟨-, he⟩ <;> rw [he]
  rcases giveUp_eq { r with awaitingSecondUp := false, firstTapDone := false } s with
    ⟨he, -⟩ | ⟨he, -⟩ <;> rw [he]

theorem Consistent.giveUpDoubleTap_of_swiping (hr : r.Consistent) (hs : r.swiping = true)
    (s : Sample) (offset : Float32) : r.giveUpDoubleTap s offset = (r, []) := by
  have ha : r.awaitingSecondUp = false := by
    cases ha : r.awaitingSecondUp with
    | false => rfl
    | true =>
      have hnot := (hr.awaiting ha).2
      rw [hs] at hnot
      cases hnot
  simp [Recognizer.giveUpDoubleTap, ha]

theorem swiping_extendRoute (r : Recognizer) (position : Point) :
    (r.extendRoute position).swiping = r.swiping := by
  unfold extendRoute
  split <;> rfl

/-- A swipe that goes on after a move went on before it, or starts with it. -/
theorem Consistent.move_of_swiping (hr : r.Consistent) (s : Sample)
    (h : (r.move s).state.swiping = true) :
    r.swiping = true ∧ (r.move s).decisions = [] ∨
      ∃ given, (r.move s).decisions = given ++ [.started] := by
  rcases move_eq r s with ⟨he, -⟩ |
    ⟨position, given, -, -, hgiven, ⟨hs, he⟩ | ⟨-, he⟩ | he | ⟨-, he⟩⟩
  · rw [he] at h ⊢
    exact Or.inl ⟨h, rfl⟩
  all_goals
    have hkept : given.1.swiping = r.swiping := hgiven ▸ swiping_giveUpDoubleTap r s _
    have hnone (hs : r.swiping = true) : given = (r, []) :=
      hgiven.trans (hr.giveUpDoubleTap_of_swiping hs s _)
    rw [he] at h ⊢
  · have hs := hkept.symm.trans hs
    exact Or.inl ⟨hs, by rw [hnone hs]⟩
  · exact Or.inr ⟨given.2, rfl⟩
  · cases h
  · have hs : r.swiping = true := by
      rw [← hkept, ← swiping_extendRoute given.1 position]
      exact h
    exact Or.inl ⟨hs, by rw [hnone hs]⟩

theorem swiping_tapUp (r : Recognizer) (s : Sample) : (r.tapUp s).swiping = r.swiping := by
  unfold tapUp
  dsimp only
  split
  · rfl
  · split
    · split <;> rfl
    · rfl

theorem up_of_swiping (r : Recognizer) (s : Sample) (h : (r.up s).state.swiping = true) :
    r.swiping = true ∧ (r.up s).decisions = [] := by
  rcases up_eq r s with ⟨-, he⟩ | ⟨-, ⟨-, he⟩ | ⟨-, ⟨-, -, he⟩ | ⟨-, -, he⟩ | ⟨-, -, he⟩ |
    ⟨-, -, he⟩⟩⟩ <;> rw [he] at h ⊢
  · exact ⟨h, rfl⟩
  · exact ⟨h, rfl⟩
  · cases h
  · exact absurd h (by simp [((idle_clear r).completeDouble s).swiping])
  · cases h
  · exact ⟨(swiping_tapUp r s).symm.trans h, rfl⟩

theorem Consistent.advance_of_swiping (hr : r.Consistent) {now : Micros}
    (h : (r.advance now).1.swiping = true) : r.swiping = true ∧ (r.advance now).2 = [] := by
  have hkeeps := @advance_keeps
    (fun q ds => q.Consistent ∧ (q.swiping = true → r.swiping = true ∧ ds = [])) now ?_ r []
    ⟨hr, fun hs => ⟨hs, rfl⟩⟩
  · exact hkeeps.2 h
  · rintro q ds t ht ⟨hq, hs⟩
    refine ⟨hq.expire ht, ?_⟩
    rcases expire_eq q t with he | ⟨-, -, -, -, he⟩ | ⟨-, -, hnot, -, he⟩ <;> rw [he]
    · rw [List.append_nil]
      exact hs
    · intro hcleared
      cases hcleared
    · intro hswiping
      exact absurd (hnot.symm.trans hswiping) (by simp)

/-- A swipe that goes on after a message went on before it without a report, or starts
with it. -/
theorem decides_of_swiping (hr : r.Consistent) (hm : r.accepts m = false)
    (h : (r.receive m).state.swiping = true) :
    r.swiping = true ∧ r.decides m = [] ∨ ∃ given, r.decides m = given ++ [.started] := by
  revert h
  refine receive_cases (P := fun q ds => q.swiping = true →
      r.swiping = true ∧ ds = [] ∨ ∃ given, ds = given ++ [.started]) hm
    (fun h => Or.inl ⟨h, rfl⟩) (fun h => ?_) (fun s _ h => hr.move_of_swiping s h)
    (fun s _ h => Or.inl (up_of_swiping r s h)) (fun s _ h => ?_)
    (fun now _ h => Or.inl (hr.advance_of_swiping h)) (fun _ h => ?_)
  · cases h
  · exact absurd h (by simp [(idle_cancel r s).1.swiping])
  · cases h

/-- So the start of a swipe that still goes on was the last report. -/
theorem interactions_of_swiping (hr : r.Consistent) (hms : (r.interactions ms).2 = [])
    (h : (r.after ms).swiping = true) :
    r.swiping = true ∧ (r.interactions ms).1 = [] ∨
      ∃ before, (r.interactions ms).1 = before ++ [.started] := by
  induction ms generalizing r with
  | nil => exact Or.inl ⟨h, rfl⟩
  | cons m ms ih =>
    simp only [interactions] at hms ⊢
    split at hms
    · cases hms
    · rename_i hm
      rw [if_neg hm]
      rcases ih (hr.receive m) hms h with ⟨hs, hrest⟩ | ⟨before, hrest⟩
      · rw [hrest, List.append_nil]
        exact decides_of_swiping hr (by simpa using hm) hs
      · rw [hrest]
        exact Or.inr ⟨r.decides m ++ before, (List.append_assoc _ _ _).symm⟩

/-! ## The start of a swipe -/

theorem not_started_giveUp (r : Recognizer) (s : Sample) : .started ∉ (r.giveUp s).2 := by
  rcases giveUp_eq r s with ⟨he, -⟩ | ⟨he, -⟩ <;> rw [he] <;> simp

theorem not_started_complete (r : Recognizer) (g : Gesture) : .started ∉ (r.complete g).2 := by
  rcases complete_eq r g with ⟨he, -⟩ | ⟨he, -⟩ <;> rw [he] <;> simp

theorem not_started_giveUpDoubleTap (r : Recognizer) (s : Sample) (offset : Float32) :
    .started ∉ (r.giveUpDoubleTap s offset).2 := by
  rcases giveUpDoubleTap_eq r s offset with ⟨he, -⟩ | ⟨-, he⟩ <;> rw [he]
  · exact List.not_mem_nil
  · exact not_started_giveUp _ s

theorem swiping_of_started_move (r : Recognizer) (s : Sample)
    (h : .started ∈ (r.move s).decisions) : (r.move s).state.swiping = true := by
  rcases move_eq r s with ⟨he, -⟩ |
    ⟨position, given, -, -, hgiven, ⟨-, he⟩ | ⟨-, he⟩ | he | ⟨-, he⟩⟩
  · rw [he] at h
    cases h
  all_goals
    have hnot : .started ∉ given.2 := hgiven ▸ not_started_giveUpDoubleTap r s _
    rw [he] at h
  · exact absurd h hnot
  · rw [he]
  · rcases List.mem_append.mp h with h | h
    · exact absurd h hnot
    · exact absurd h (not_started_giveUp _ s)
  · exact absurd h hnot

theorem not_started_swipeUp (r : Recognizer) (s : Sample) : .started ∉ (r.swipeUp s).2 := by
  unfold swipeUp
  split
  · exact not_started_complete r _
  · exact not_started_giveUp r s

theorem not_started_up (r : Recognizer) (s : Sample) : .started ∉ (r.up s).decisions := by
  rcases up_eq r s with ⟨-, he⟩ | ⟨-, ⟨-, he⟩ | ⟨-, ⟨-, -, he⟩ | ⟨-, -, he⟩ | ⟨-, -, he⟩ |
    ⟨-, -, he⟩⟩⟩ <;> rw [he]
  · exact List.not_mem_nil
  · exact List.not_mem_nil
  · exact List.not_mem_nil
  · rcases completeDouble_eq r.clear s with ⟨he, -⟩ | ⟨he, -⟩ <;> rw [he] <;> simp
  · exact not_started_swipeUp r s
  · exact List.not_mem_nil

theorem not_started_advance (r : Recognizer) (now : Micros) : .started ∉ (r.advance now).2 := by
  refine advance_keeps (P := fun _ ds => Decision.started ∉ ds) ?_ [] List.not_mem_nil
  intro q ds t _ hds
  rcases expire_eq q t with he | ⟨-, -, -, -, he⟩ | ⟨-, -, -, -, he⟩ <;> rw [he] <;> simp [hds]

/-- Where a start is reported a swipe goes on. -/
theorem swiping_of_started (hm : r.accepts m = false) (h : .started ∈ r.decides m) :
    (r.receive m).state.swiping = true := by
  revert h
  refine receive_cases (P := fun q ds => .started ∈ ds → q.swiping = true) hm
    (fun h => ?_) (fun h => ?_) (fun s _ h => swiping_of_started_move r s h)
    (fun s _ h => absurd h (not_started_up r s))
    (fun s _ h => absurd h (not_started_giveUp r.clear s))
    (fun now _ h => absurd h (not_started_advance r now)) (fun _ h => ?_) <;> cases h

/-- An accepted down reports at most the tap before it. -/
theorem not_started_of_accepts (hm : r.accepts m = true) : .started ∉ r.decides m := by
  obtain ⟨s, rfl⟩ := exists_pointer_of_accepts hm
  obtain ⟨position, -, hp⟩ := pointer_of_accepts hm
  rw [decides_pointer, hp]
  split
  · exact List.not_mem_nil
  · simp only [beginTap]
    split
    · exact not_started_complete r .tap
    · exact List.not_mem_nil

/-- Outside an interaction no swipe starts. -/
theorem not_started_interactions (hr : r.Consistent) (h : r.recognizing = false)
    (ms : List Message) : .started ∉ (r.interactions ms).1 := by
  induction ms generalizing r with
  | nil => exact List.not_mem_nil
  | cons m ms ih =>
    simp only [interactions]
    split
    · rename_i hm
      exact not_started_of_accepts hm
    · rename_i hm
      have hm : r.accepts m = false := by simpa using hm
      have hlater := not_recognizing_receive h hm
      have hnow : .started ∉ r.decides m := by
        intro hstarted
        have hs := (hr.receive m).swiping (swiping_of_started hm hstarted)
        rw [hlater] at hs
        cases hs
      simp [hnow, ih (hr.receive m) hlater]

/-! ## The end of a swipe -/

/-- What a swipe is closed as by the sample that ends it. -/
def verdict (r : Recognizer) (s : Sample) : Decision :=
  match s.action, Route.recognize (r.closeRoute s) with
  | .up, some g => .completed g
  | _, _ => .cancelled s

theorem isSwipe_of_recognize {route : List Point} {g : Gesture}
    (h : Route.recognize route = some g) : g.isSwipe = true := by
  unfold Route.recognize at h
  split at h
  · cases h
  · unfold Route.classify at h
    split at h
    · cases h
      rename_i a b _
      cases Direction.between a b <;> rfl
    · cases h
      rename_i a b c _
      cases Direction.between a b <;> cases Direction.between b c <;> rfl
    · cases h

/-- A sample ends the reading of an interaction: the up of a single finger, a move that
comes too late, or a cancel. -/
structure Ends (r : Recognizer) (during : List Message) (s : Sample) : Prop where
  lone : (r.interactions during).2 = []
  reading : (r.after during).recognizing = true
  ended : ((r.after during).pointer s).state.recognizing = false
  action : s.action ≠ .down

/-- Whether a flag forbids the report of how a swipe is closed. -/
def withholds (r : Recognizer) (d : Decision) : Bool :=
  r.classified || (d.isCancelled && r.cancelled)

theorem giveUp_decisions (r : Recognizer) (s : Sample) :
    (r.giveUp s).2 = if r.withholds (.cancelled s) then [] else [.cancelled s] := by
  have hguard : (r.cancelled || r.classified) = r.withholds (.cancelled s) := by
    simp [withholds, Decision.isCancelled, Bool.or_comm]
  unfold giveUp
  rw [hguard]
  split <;> rfl

theorem complete_decisions (r : Recognizer) (g : Gesture) :
    (r.complete g).2 = if r.withholds (.completed g) then [] else [.completed g] := by
  have hguard : r.classified = r.withholds (.completed g) := by
    simp [withholds, Decision.isCancelled]
  unfold complete
  rw [hguard]
  split <;> rfl

theorem swipeUp_decisions (r : Recognizer) (ha : s.action = .up) :
    (r.swipeUp s).2 = if r.withholds (r.verdict s) then [] else [r.verdict s] := by
  unfold swipeUp verdict
  rw [ha]
  cases Route.recognize (r.closeRoute s) with
  | some g => exact complete_decisions r g
  | none => exact giveUp_decisions r s

theorem recognizing_extendRoute (r : Recognizer) (position : Point) :
    (r.extendRoute position).recognizing = r.recognizing := by
  unfold extendRoute
  split <;> rfl

/-- A move ends a swipe only when it comes too late. -/
theorem move_of_over (hr : r.recognizing = true) (hs : r.swiping = true)
    (hawaiting : r.awaitingSecondUp = false) (hover : (r.move s).state.recognizing = false) :
    (r.move s).state.Idle ∧ (r.move s).decisions = (r.giveUp s).2 := by
  have hnone (offset : Float32) : r.giveUpDoubleTap s offset = (r, []) := by
    simp [giveUpDoubleTap, hawaiting]
  have hgoes {q : Recognizer} {position : Point} (hq : q.recognizing = true)
      (hover : (q.extendRoute position).recognizing = false) : False := by
    rw [recognizing_extendRoute, hq] at hover
    cases hover
  rcases move_eq r s with ⟨he, -⟩ |
    ⟨position, given, -, -, hgiven, ⟨-, he⟩ | ⟨hnot, -⟩ | he | ⟨-, he⟩⟩
  · rw [he] at hover
    exact absurd (hr.symm.trans hover) (by simp)
  all_goals rw [hnone] at hgiven; subst hgiven
  · rw [he] at hover
    exact (hgoes (q := r.moveAnchor position s.time) hr hover).elim
  · exact absurd (hs.symm.trans hnot) (by simp)
  · rw [he]
    exact ⟨idle_abandon _, rfl⟩
  · rw [he] at hover
    exact (hgoes hr hover).elim

theorem decisions_of_ends (hr : r.Consistent) (hs : r.swiping = true)
    (hover : (r.pointer s).state.recognizing = false) (ha : s.action ≠ .down) :
    (r.pointer s).state.Idle ∧
      (r.pointer s).decisions =
        if r.withholds (r.verdict s) then [] else [r.verdict s] := by
  have hreading := hr.swiping hs
  have hawaiting : r.awaitingSecondUp = false := by
    cases ha : r.awaitingSecondUp with
    | false => rfl
    | true => exact absurd (hs.symm.trans (hr.awaiting ha).2) (by simp)
  by_cases hsource : s.source = .touchscreen
  · rw [pointer_of_touchscreen hsource] at hover ⊢
    cases haction : s.action with
    | down => exact absurd haction ha
    | move =>
      simp only [haction] at hover ⊢
      obtain ⟨hidle, hdecisions⟩ := move_of_over hreading hs hawaiting hover
      refine ⟨hidle, ?_⟩
      rw [hdecisions, giveUp_decisions]
      simp [verdict, haction]
    | up =>
      simp only [haction] at hover ⊢
      unfold Recognizer.up at hover ⊢
      split at hover
      · exact absurd (hreading.symm.trans hover) (by simp)
      · rename_i hcount
        rw [if_neg hcount]
        simp only [hreading, hawaiting, hs, Bool.not_true, Bool.false_eq_true, if_false, if_true]
        exact ⟨idle_clear _, swipeUp_decisions r haction⟩
    | cancel =>
      refine ⟨(idle_cancel r s).1, ?_⟩
      have hverdict : r.verdict s = .cancelled s := by simp [verdict, haction]
      rw [hverdict]
      exact giveUp_decisions r.clear s
  · have hp : r.pointer s = ⟨r, [], false⟩ := if_pos hsource
    rw [hp] at hover
    exact absurd (hreading.symm.trans hover) (by simp)

/-! ## Interactions with a swipe -/

theorem interactions_append (hms : (r.interactions ms).2 = []) (later : List Message) :
    (r.interactions (ms ++ later)).1 =
      (r.interactions ms).1 ++ ((r.after ms).interactions later).1 := by
  induction ms generalizing r with
  | nil => rfl
  | cons m ms ih =>
    simp only [List.cons_append, interactions] at hms ⊢
    split at hms
    · cases hms
    · rename_i hm
      rw [if_neg hm, if_neg hm, List.append_assoc]
      exact congrArg (r.decides m ++ ·) (ih hms)

/-- An accepted down resets both latches, and no swipe goes on after it. -/
theorem fresh_of_accepts (hm : r.accepts m = true) :
    (r.receive m).state.cancelled = false ∧ (r.receive m).state.classified = false ∧
      (r.receive m).state.swiping = false := by
  obtain ⟨s, rfl⟩ := exists_pointer_of_accepts hm
  obtain ⟨position, -, hp⟩ := pointer_of_accepts hm
  simp only [receive, hp]
  split <;> exact ⟨rfl, rfl, rfl⟩

theorem verdict_eq_or (r : Recognizer) (s : Sample) :
    r.verdict s = .cancelled s ∨ ∃ g, r.verdict s = .completed g ∧ g.isSwipe = true := by
  unfold verdict
  split
  · rename_i g _ hg
    exact Or.inr ⟨g, rfl, isSwipe_of_recognize hg⟩
  · exact Or.inl rfl

/-- Nothing is reported after a swipe is closed, until the next accepted down included. -/
theorem silent_of_ends (hr : r.Consistent) (hs : r.swiping = true)
    (hover : (r.pointer s).state.recognizing = false) (ha : s.action ≠ .down)
    (later : List Message) : ((r.pointer s).state.interactions later).1 = [] := by
  obtain ⟨hidle, hdecisions⟩ := decisions_of_ends hr hs hover ha
  refine (hidle.interactions later).1 ?_
  have hm : r.accepts (.event (.pointer s)) = false := by simp [accepts, ha]
  have hlatches : Latches r (r.pointer s).state (r.decides (.event (.pointer s))) :=
    Latches.receive hr hm
  rw [decides_pointer, hdecisions] at hlatches
  rw [isSilenced, hlatches.cancelled, hlatches.classified]
  split
  · rename_i hwithheld
    simp only [withholds, Bool.or_eq_true, Bool.and_eq_true] at hwithheld
    rcases hwithheld with hc | ⟨-, hc⟩ <;> simp [hc]
  · rcases verdict_eq_or r s with hv | ⟨g, hv, -⟩ <;>
      simp [hv, Decision.isCancelled, Decision.classifies]

/-- **Every started swipe is closed unless a latch was spent before it.** Take any
interaction of any run of a new recognizer, in which a start is reported, and which ends
by an up, by a move that comes too late or by a cancel. After the start the swipe that the
route of the up is read as is reported, or else that it was given up, and nothing more.
Where a gesture was reported before the start nothing is reported after it, and where it
was reported before the start that the interaction was given up, this is not reported
again. -/
theorem started_swipe_closed (settings : RecognizerSettings) (display : Option Display)
    (past : List Message) {m : Message} {during : List Message} {s : Sample}
    {later : List Message}
    (hm : ((new settings display).after past).accepts m = true)
    (hends : (((new settings display).after past).receive m).state.Ends during s)
    (hstarted : .started ∈ ((((new settings display).after past).receive m).state.interactions
      (during ++ .event (.pointer s) :: later)).1) :
    let r := (((new settings display).after past).receive m).state
    let closing := (r.after during).verdict s
    (closing = .cancelled s ∨ ∃ g, closing = .completed g ∧ g.isSwipe = true) ∧
      ∃ before, (r.interactions (during ++ .event (.pointer s) :: later)).1 =
        before ++ .started ::
          if before.any Decision.classifies ||
              (closing.isCancelled && before.any Decision.isCancelled) then []
          else [closing] := by
  intro r closing
  have hpast : ((new settings display).after past).Consistent :=
    (consistent_new settings display).after past
  have hr : r.Consistent := hpast.receive m
  obtain ⟨hcancelled, hclassified, hswiping⟩ := fresh_of_accepts hm
  have haccounts : Accounts r [] := .nil hswiping
  have hq : (r.after during).Consistent := hr.after during
  have hsplit := interactions_append hends.lone (.event (.pointer s) :: later)
  have hfirst : (r.after during).accepts (.event (.pointer s)) = false := by
    simp [accepts, hends.action]
  have hstep : ((r.after during).interactions (.event (.pointer s) :: later)).1 =
      ((r.after during).pointer s).decisions ++
        (((r.after during).pointer s).state.interactions later).1 := by
    simp only [interactions, hfirst, Bool.false_eq_true, if_false, decides_pointer]
    rfl
  -- the swipe goes on until the sample that ends the interaction
  have hs : (r.after during).swiping = true := by
    have hmem := hstarted
    rw [hsplit, hstep, List.mem_append, List.mem_append] at hmem
    rcases hmem with hmem | hmem | hmem
    · exact ((haccounts.after hr hends.lone).started hmem).2.2 hends.reading
    · rw [← decides_pointer] at hmem
      have hswiping := swiping_of_started hfirst hmem
      exact absurd (((hq.receive _).swiping hswiping).symm.trans hends.ended) (by simp)
    · exact absurd hmem (not_started_interactions (hq.pointer s) hends.ended later)
  refine ⟨verdict_eq_or _ s, ?_⟩
  rcases interactions_of_swiping hr hends.lone hs with ⟨hbefore, -⟩ | ⟨before, hbefore⟩
  · exact absurd (haccounts.swiping hbefore) List.not_mem_nil
  · refine ⟨before, ?_⟩
    have hlatches := Latches.interactions hr hends.lone
    rw [hbefore] at hlatches
    have hwithholds : (r.after during).withholds closing =
        (before.any Decision.classifies ||
          (closing.isCancelled && before.any Decision.isCancelled)) := by
      rw [withholds, hlatches.cancelled, hlatches.classified, hcancelled, hclassified]
      simp [Decision.classifies, Decision.isCancelled]
    obtain ⟨-, hdecisions⟩ := decisions_of_ends hq hs hends.ended hends.action
    rw [hsplit, hstep, hbefore, silent_of_ends hq hs hends.ended hends.action later,
      hdecisions, ← hwithholds, List.append_nil, List.append_assoc]
    rfl

/-- A second tap that becomes a swipe is reported as given up before the start. It ends as
the swipe that it is. -/
theorem started_swipe_closed_after_tap :
    let touch (action : PointerAction) (x : Float32) (time : Micros) : Sample :=
      .touch action ⟨x, 0⟩ time
    let r := (new {} none).after
      [.event (.pointer (touch .down 0 0)), .event (.pointer (touch .up 0 50000)),
        .event (.pointer (touch .down 0 200000))]
    let during : List Message := [.event (.pointer (touch .move 20 250000))]
    let decisions := (r.interactions (during ++ [.event (.pointer (touch .up 20 300000))])).1
    let closing := (r.after during).verdict (touch .up 20 300000)
    r.Ends during (touch .up 20 300000) ∧
      decisions = [.cancelled (touch .move 20 250000), .started, .completed .swipeRight] ∧
      ∃ before, decisions = before ++ .started ::
        if before.any Decision.classifies ||
            (closing.isCancelled && before.any Decision.isCancelled) then []
        else [closing] := by
  intro touch r during decisions closing
  have hm : ((new {} none).after [.event (.pointer (touch .down 0 0)),
      .event (.pointer (touch .up 0 50000))]).accepts
        (.event (.pointer (touch .down 0 200000))) = true := by
    decide +kernel
  have hends : r.Ends during (touch .up 20 300000) :=
    ⟨by decide +kernel, by decide +kernel, by decide +kernel, by decide⟩
  have hdecisions : decisions =
      [.cancelled (touch .move 20 250000), .started, .completed .swipeRight] := by
    decide +kernel
  have hstarted : .started ∈ decisions := by simp [hdecisions]
  exact ⟨hends, hdecisions, (started_swipe_closed {} none _ hm hends hstarted).2⟩

/-- A finger that was held for long before it swipes is not reported again. -/
theorem held_swipe_not_closed :
    let touch (action : PointerAction) (x : Float32) (time : Micros) : Sample :=
      .touch action ⟨x, 0⟩ time
    let during : List Message := [.time 300000, .event (.pointer (touch .move 20 310000))]
    let r := (new {} none).after [.event (.pointer (touch .down 0 0))]
    let decisions :=
      (r.interactions (during ++ [.event (.pointer (touch .up 20 320000))])).1
    r.Ends during (touch .up 20 320000) ∧
      decisions = [.longPress (touch .down 0 0), .started] ∧
      ¬ ∃ before closing, decisions = before ++ [.started, closing] := by
  intro touch during r decisions
  have hdecisions : decisions = [.longPress (touch .down 0 0), .started] := by decide +kernel
  refine ⟨⟨by decide +kernel, by decide +kernel, by decide +kernel, by decide⟩, hdecisions, ?_⟩
  rintro ⟨before, closing, h⟩
  rw [hdecisions] at h
  cases before with
  | nil => cases h
  | cons d before =>
    have hlength := congrArg List.length h
    simp at hlength

end TouchStream.Recognizer
