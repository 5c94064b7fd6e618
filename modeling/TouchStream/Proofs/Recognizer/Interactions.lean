import TouchStream.Proofs.Recognizer.Consistent

/-!
# What is decided within an interaction

An interaction lasts from one accepted down to the next. `Orderly` is the grammar of
the decisions in it: a swipe starts at most once, there is at most one classification
and at most one cancellation, nothing is cancelled after it was classified, a swipe is
completed only after it was started, and a finger whose swipe was started is reported
for no tap and no long press.

The flags of the recognizer do not remember what was decided. `Accounts` ties them to
it: they know of every classification and cancellation of the interaction, and a
started swipe goes on swiping as long as the interaction is read. The last clause is
what keeps the timers silent after a start.

* `Accounts.receive`: a message that begins no interaction keeps the account and the
  grammar.
* `Accounts.accept`: an accepted down closes one account in order and opens the next.
* `interactions_orderly`: every interaction of every run is orderly.
-/

namespace TouchStream

namespace Decision

/-- Whether a decision says that the interaction was given up. -/
def isCancelled : Decision → Bool
  | cancelled _ => true
  | _ => false

/-- Whether a decision says what the interaction was. -/
def classifies : Decision → Bool
  | completed _ => true
  | doubleTap _ => true
  | longPress _ => true
  | _ => false

/-- Whether a decision says that the finger stayed where it was. -/
def isStationary : Decision → Bool
  | completed g => g = .tap
  | doubleTap _ => true
  | longPress _ => true
  | _ => false

end Decision

/-- The grammar of the decisions of one interaction. -/
structure Orderly (ds : List Decision) : Prop where
  started_once : ds.count .started ≤ 1
  cancelled_once : ds.countP Decision.isCancelled ≤ 1
  classified_once : ds.countP Decision.classifies ≤ 1
  uncancelled_after_classified : ds.Pairwise fun d e => d.classifies = true → e.isCancelled = false
  /-- Apart from a tap only a swipe is ever completed. -/
  completed_after_started : ∀ before g later, ds = before ++ .completed g :: later → g ≠ .tap →
    .started ∈ before
  moving_after_started : ds.Pairwise fun d e => d = .started → e.isStationary = false

namespace Orderly

variable {ds : List Decision} {d : Decision}

theorem nil : Orderly [] where
  started_once := by decide
  cancelled_once := by decide
  classified_once := by decide
  uncancelled_after_classified := .nil
  completed_after_started := by
    intro before g later h
    cases before <;> cases h
  moving_after_started := .nil

theorem pairwise_concat {α : Type} {R : α → α → Prop} {xs : List α} {x : α}
    (h : xs.Pairwise R) (hx : ∀ y ∈ xs, R y x) : (xs ++ [x]).Pairwise R := by
  refine List.pairwise_append.mpr ⟨h, List.pairwise_singleton R x, ?_⟩
  intro y hy z hz
  rw [List.mem_singleton.mp hz]
  exact hx y hy

theorem countP_concat_le_one {α : Type} {p : α → Bool} {xs : List α} {x : α}
    (h : xs.countP p ≤ 1) (hx : p x = true → ∀ y ∈ xs, p y = false) :
    (xs ++ [x]).countP p ≤ 1 := by
  rw [List.countP_append, List.countP_singleton]
  split
  · rename_i hp
    have hzero : xs.countP p = 0 := by
      apply List.countP_eq_zero.mpr
      intro y hy
      simp [hx hp y hy]
    omega
  · exact h

/-- One more decision is in order when nothing before it forbids it. -/
theorem concat (h : Orderly ds) (hstarted : d = .started → .started ∉ ds)
    (hcancelled : d.isCancelled = true →
      ∀ e ∈ ds, e.isCancelled = false ∧ e.classifies = false)
    (hclassified : d.classifies = true → ∀ e ∈ ds, e.classifies = false)
    (hstationary : d.isStationary = true → .started ∉ ds)
    (hcompleted : ∀ g, d = .completed g → g ≠ .tap → .started ∈ ds) : Orderly (ds ++ [d]) where
  started_once := by
    refine countP_concat_le_one h.started_once ?_
    intro hd e he
    have hnot := hstarted (by simpa using hd)
    have hne : e ≠ .started := fun hs => hnot (hs ▸ he)
    simpa using hne
  cancelled_once := countP_concat_le_one h.cancelled_once fun hd e he => (hcancelled hd e he).1
  classified_once := countP_concat_le_one h.classified_once hclassified
  uncancelled_after_classified := by
    refine pairwise_concat h.uncancelled_after_classified ?_
    intro e he hc
    cases hd : d.isCancelled with
    | false => rfl
    | true => exact absurd hc (by simp [(hcancelled hd e he).2])
  completed_after_started := by
    intro before g later heq hg
    rcases List.eq_nil_or_concat later with rfl | ⟨rest, last, rfl⟩
    · obtain ⟨rfl, hd⟩ := List.append_inj' heq rfl
      exact hcompleted g (List.singleton_inj.mp hd) hg
    · rw [List.concat_eq_append, ← List.cons_append, ← List.append_assoc] at heq
      obtain ⟨rfl, -⟩ := List.append_inj' heq rfl
      exact h.completed_after_started before g rest rfl hg
  moving_after_started := by
    refine pairwise_concat h.moving_after_started ?_
    intro e he hs
    cases hd : d.isStationary with
    | false => rfl
    | true => exact absurd (hs ▸ he) (hstationary hd)

end Orderly

namespace Recognizer

variable {r : Recognizer} {s : Sample} {ds : List Decision}

/-- The flags know what was decided since the last accepted down. -/
structure Accounts (r : Recognizer) (ds : List Decision) : Prop where
  orderly : Orderly ds
  swiping : r.swiping = true → .started ∈ ds
  started : .started ∈ ds →
    r.awaitingSecondUp = false ∧ r.firstTapDone = false ∧
      (r.recognizing = true → r.swiping = true)
  cancelled : r.cancelled = false → ∀ d ∈ ds, d.isCancelled = false
  classified : r.classified = false → ∀ d ∈ ds, d.classifies = false

namespace Accounts

/-- The account of an interaction that has just begun. -/
theorem nil (h : r.swiping = false) : Accounts r [] where
  orderly := .nil
  swiping hs := by simp [h] at hs
  started hs := by cases hs
  cancelled _ d hd := by cases hd
  classified _ d hd := by cases hd

/-- Before a start nothing that is done without reporting one disturbs the account. -/
theorem not_started (h : Accounts r ds) (hr : r.recognizing = true) (hs : r.swiping = false) :
    .started ∉ ds := by
  intro hmem
  have hswiping := (h.started hmem).2.2 hr
  rw [hs] at hswiping
  cases hswiping

theorem not_started_of_awaiting (h : Accounts r ds) (ha : r.awaitingSecondUp = true) :
    .started ∉ ds := by
  intro hmem
  rw [(h.started hmem).1] at ha
  cases ha

theorem not_started_of_firstTap (h : Accounts r ds) (hf : r.firstTapDone = true) :
    .started ∉ ds := by
  intro hmem
  rw [(h.started hmem).2.1] at hf
  cases hf

/-! ## Reports -/

theorem forall_mem_concat {p : Decision → Bool} {d : Decision} (h : ∀ e ∈ ds, p e = false)
    (hd : p d = false) : ∀ e ∈ ds ++ [d], p e = false := by
  intro e hmem
  rcases List.mem_append.mp hmem with hmem | hmem
  · exact h e hmem
  · rw [List.mem_singleton.mp hmem]
    exact hd

theorem giveUp (h : Accounts r ds) (s : Sample) :
    Accounts (r.giveUp s).1 (ds ++ (r.giveUp s).2) := by
  rcases giveUp_eq r s with ⟨he, -⟩ | ⟨he, hcancelled, hclassified⟩
  · rw [he, List.append_nil]
    exact h
  · rw [he]
    have hnone : ∀ e ∈ ds, e.isCancelled = false ∧ e.classifies = false := fun e hmem =>
      ⟨h.cancelled hcancelled e hmem, h.classified hclassified e hmem⟩
    exact
      { orderly := h.orderly.concat (by simp) (fun _ => hnone) (by simp [Decision.classifies])
          (by simp [Decision.isStationary]) (by simp)
        swiping := fun hs => List.mem_append_left _ (h.swiping hs)
        started := fun hmem => h.started (by simpa using hmem)
        cancelled := fun hc => by cases hc
        classified := fun hc => forall_mem_concat (h.classified hc) rfl }

/-- A classification is in order when it fits what was started. -/
theorem classify (h : Accounts r ds) {d : Decision} (hd : d.classifies = true)
    (hc : r.classified = false) (hstationary : d.isStationary = true → .started ∉ ds)
    (hcompleted : ∀ g, d = .completed g → g ≠ .tap → .started ∈ ds) :
    Accounts { r with classified := true } (ds ++ [d]) := by
  have hnone := h.classified hc
  have hne : d ≠ .started := by
    rintro rfl
    cases hd
  have hnc : d.isCancelled = false := by cases d <;> first | rfl | cases hd
  exact
    { orderly := h.orderly.concat (fun he => absurd he hne)
        (fun he => by rw [hnc] at he; cases he) (fun _ => hnone) hstationary hcompleted
      swiping := fun hs => List.mem_append_left _ (h.swiping hs)
      started := fun hmem => h.started (by simpa [Ne.symm hne] using hmem)
      cancelled := fun hc => forall_mem_concat (h.cancelled hc) hnc
      classified := fun hc => by cases hc }

theorem completeDouble (h : Accounts r ds) (hs : .started ∉ ds) (s : Sample) :
    Accounts (r.completeDouble s).1 (ds ++ (r.completeDouble s).2) := by
  rcases completeDouble_eq r s with ⟨he, -⟩ | ⟨he, hc⟩
  · rw [he, List.append_nil]
    exact h
  · rw [he]
    exact h.classify rfl hc (fun _ => hs) (by simp)

theorem completeTap (h : Accounts r ds) (hs : .started ∉ ds) :
    Accounts (r.complete .tap).1 (ds ++ (r.complete .tap).2) := by
  rcases complete_eq r .tap with ⟨he, -⟩ | ⟨he, hc⟩
  · rw [he, List.append_nil]
    exact h
  · rw [he]
    refine h.classify rfl hc (fun _ => hs) ?_
    intro g hg hne
    cases hg
    exact absurd rfl hne

/-- The gesture of a route is never a tap. -/
theorem recognize_ne_tap {route : List Point} {g : Gesture}
    (h : Route.recognize route = some g) : g ≠ .tap := by
  unfold Route.recognize at h
  split at h
  · cases h
  · unfold Route.classify at h
    split at h
    · cases h
      rename_i a b _
      cases Direction.between a b <;> simp [Gesture.swipe]
    · cases h
      rename_i a b c _
      cases Direction.between a b <;> cases Direction.between b c <;> simp [Gesture.turnedSwipe]
    · cases h

theorem swipeUp (h : Accounts r ds) (hs : .started ∈ ds) (s : Sample) :
    Accounts (r.swipeUp s).1 (ds ++ (r.swipeUp s).2) := by
  unfold Recognizer.swipeUp
  split
  · rename_i g hg
    have hne := recognize_ne_tap hg
    rcases complete_eq r g with ⟨he, -⟩ | ⟨he, hc⟩
    · rw [he, List.append_nil]
      exact h
    · rw [he]
      exact h.classify rfl hc (by simp [Decision.isStationary, hne]) (fun _ _ _ => hs)
  · exact h.giveUp s

/-! ## Samples -/

theorem clear (h : Accounts r ds) : Accounts r.clear ds :=
  { h with
    swiping := by simp [Recognizer.clear]
    started := fun _ => ⟨rfl, rfl, by simp [Recognizer.clear]⟩ }

theorem giveUpDoubleTap (h : Accounts r ds) (s : Sample) (offset : Float32) :
    Accounts (r.giveUpDoubleTap s offset).1 (ds ++ (r.giveUpDoubleTap s offset).2) := by
  rcases giveUpDoubleTap_eq r s offset with ⟨he, -⟩ | ⟨-, he⟩ <;> rw [he]
  · rw [List.append_nil]
    exact h
  · have hforget : Accounts { r with awaitingSecondUp := false, firstTapDone := false } ds :=
      { h with started := fun hmem => ⟨rfl, rfl, (h.started hmem).2.2⟩ }
    exact hforget.giveUp s

theorem moveAnchor (h : Accounts r ds) (position : Point) (now : Micros) :
    Accounts (r.moveAnchor position now) ds :=
  { h with started := fun hmem => ⟨rfl, rfl, (h.started hmem).2.2⟩ }

theorem extendRoute (h : Accounts r ds) (position : Point) :
    Accounts (r.extendRoute position) ds := by
  unfold Recognizer.extendRoute
  split
  · exact { h with }
  · exact h

/-- The start of a swipe is reported when the finger leaves its anchor for the first
time. -/
theorem startSwipe (h : Accounts r ds) (hr : r.recognizing = true) (hs : r.swiping = false)
    (position : Point) (now : Micros) :
    Accounts { r.moveAnchor position now with swiping := true } (ds ++ [.started]) where
  orderly := h.orderly.concat (fun _ => h.not_started hr hs) (by simp [Decision.isCancelled])
    (by simp [Decision.classifies]) (by simp [Decision.isStationary]) (by simp)
  swiping _ := List.mem_append_right _ (List.mem_singleton.mpr rfl)
  started _ := ⟨rfl, rfl, fun _ => rfl⟩
  cancelled hc := forall_mem_concat (h.cancelled hc) rfl
  classified hc := forall_mem_concat (h.classified hc) rfl

theorem abandon (h : Accounts r ds) : Accounts r.abandon ds :=
  { h with
    swiping := by simp [Recognizer.abandon]
    started := fun _ => ⟨rfl, rfl, by simp [Recognizer.abandon]⟩ }

theorem move (h : Accounts r ds) (s : Sample) :
    Accounts (r.move s).state (ds ++ (r.move s).decisions) := by
  rcases move_eq r s with ⟨he, -⟩ |
    ⟨position, given, -, hr, hgiven, ⟨-, he⟩ | ⟨hs, he⟩ | he | ⟨-, he⟩⟩
  · rw [he, List.append_nil]
    exact h
  all_goals
    have hg : Accounts given.1 (ds ++ given.2) := hgiven ▸ h.giveUpDoubleTap s _
    rw [he]
    dsimp only
  · exact (hg.moveAnchor position s.time).extendRoute position
  · have hgr : given.1.recognizing = true := by
      rw [hgiven, recognizing_giveUpDoubleTap, hr]
    rw [← List.append_assoc]
    exact hg.startSwipe hgr hs position s.time
  · rw [← List.append_assoc]
    exact (hg.giveUp s).abandon
  · exact hg.extendRoute position

theorem tapUp (h : Accounts r ds) (hr : r.recognizing = true) (hs : r.swiping = false)
    (s : Sample) : Accounts (r.tapUp s) ds := by
  have hnot := h.not_started hr hs
  unfold Recognizer.tapUp
  dsimp only
  split
  · exact { h with started := fun hmem => absurd hmem hnot }
  · split
    · split <;> exact { h with started := fun hmem => absurd hmem hnot }
    · exact { h with started := fun hmem => absurd hmem hnot }

theorem up (h : Accounts r ds) (s : Sample) :
    Accounts (r.up s).state (ds ++ (r.up s).decisions) := by
  rcases up_eq r s with ⟨-, he⟩ | ⟨-, ⟨-, he⟩ | ⟨hr, ⟨-, -, he⟩ | ⟨ha, -, he⟩ | ⟨-, hs, he⟩ |
    ⟨-, hs, he⟩⟩⟩ <;> rw [he]
  · rw [List.append_nil]
    exact h
  · rw [List.append_nil]
    exact { h with }
  · rw [List.append_nil]
    exact h.clear
  -- a second up is awaited no longer once a swipe was started
  · exact h.clear.completeDouble (h.not_started_of_awaiting ha) s
  · exact (h.swipeUp (h.swiping hs) s).clear
  · rw [List.append_nil]
    exact h.tapUp hr hs s

/-! ## Expiry -/

theorem expire (h : Accounts r ds) (hr : r.Consistent) {t : RecognizerTimer}
    (ht : r.timers.isPending t = true) : Accounts (r.expire t).1 (ds ++ (r.expire t).2) := by
  rcases expire_eq r t with he | ⟨-, -, hf, hc, he⟩ | ⟨rfl, -, hs, hc, he⟩ <;> rw [he]
  · rw [List.append_nil]
    exact { h with }
  · have htap : Accounts { r.disarm .singleTap with classified := true }
        (ds ++ [.completed .tap]) := by
      have hdisarmed : Accounts (r.disarm .singleTap) ds := { h with }
      refine hdisarmed.classify rfl hc (fun _ => h.not_started_of_firstTap hf) ?_
      intro g hg hne
      cases hg
      exact absurd rfl hne
    exact htap.clear
  · -- the timer is pending only in an interaction that does not swipe, so none was started
    have hrecognizing := (hr.longPress ht).1
    have hnot := h.not_started hrecognizing hs
    obtain ⟨down, hdown⟩ := Option.isSome_iff_exists.mp (hr.lastDown hrecognizing)
    have hreport := h.classify (d := .longPress down) rfl hc (fun _ => hnot) (by simp)
    simp only [hdown, Option.map_some, Option.toList_some]
    exact { hreport with }

theorem advance (h : Accounts r ds) (hr : r.Consistent) (now : Micros) :
    Accounts (r.advance now).1 (ds ++ (r.advance now).2) := by
  have hboth := @advance_keeps (fun r ds => r.Consistent ∧ Accounts r ds) now
    (fun _ _ _ ht h => ⟨h.1.expire ht, h.2.expire h.1 ht⟩) _ ds ⟨hr, h⟩
  exact hboth.2

/-! ## Messages -/

theorem receive (h : Accounts r ds) (hr : r.Consistent) {m : Message} (hm : r.accepts m = false) :
    Accounts (r.receive m).state (ds ++ r.decides m) := by
  refine receive_cases (P := fun q more => Accounts q (ds ++ more)) hm ?_ ?_ (fun s _ => h.move s)
    (fun s _ => h.up s) (fun s _ => h.clear.giveUp s) (fun now _ => h.advance hr now) fun _ => ?_
  all_goals rw [List.append_nil]
  · exact h
  · exact h.clear
  · exact { h.clear with }

/-- An accepted down may report the tap before it, which belongs to the interaction
that it ends. -/
theorem accept (h : Accounts r ds) {m : Message} (hm : r.accepts m = true) :
    Orderly (ds ++ r.decides m) ∧ Accounts (r.receive m).state [] := by
  obtain ⟨s, rfl⟩ := exists_pointer_of_accepts hm
  obtain ⟨position, -, hp⟩ := pointer_of_accepts hm
  rw [decides_pointer]
  simp only [Recognizer.receive, hp]
  split
  · rw [List.append_nil]
    exact ⟨h.orderly, nil rfl⟩
  · refine ⟨?_, nil rfl⟩
    simp only [beginTap]
    split
    · rename_i hcond
      have hf : r.firstTapDone = true := by
        simp only [Bool.and_eq_true] at hcond
        exact hcond.1.2
      exact (h.completeTap (h.not_started_of_firstTap hf)).orderly
    · rw [List.append_nil]
      exact h.orderly

end Accounts

/-! ## Runs -/

/-- The decisions of a run by interaction: those before the first accepted down, and
then those of each interaction. What is decided on an accepted down itself belongs to
the interaction before it. -/
def interactions (r : Recognizer) : List Message → List Decision × List (List Decision)
  | [] => ([], [])
  | m :: ms =>
    let (ds, later) := interactions (r.receive m).state ms
    if r.accepts m then (r.decides m, ds :: later) else (r.decides m ++ ds, later)

theorem Accounts.interactions (h : Accounts r ds) (hr : r.Consistent) (ms : List Message) :
    Orderly (ds ++ (r.interactions ms).1) ∧ ∀ ds' ∈ (r.interactions ms).2, Orderly ds' := by
  induction ms generalizing r ds with
  | nil =>
    simp only [Recognizer.interactions, List.append_nil]
    exact ⟨h.orderly, by simp⟩
  | cons m ms ih =>
    simp only [Recognizer.interactions]
    split
    · rename_i hm
      obtain ⟨horderly, hnext⟩ := h.accept hm
      obtain ⟨hfirst, hlater⟩ := ih hnext (hr.receive m)
      refine ⟨horderly, ?_⟩
      intro ds' hmem
      rcases List.mem_cons.mp hmem with rfl | hmem
      · exact hfirst
      · exact hlater ds' hmem
    · rename_i hm
      have hnext := h.receive hr (by simpa using hm)
      rw [← List.append_assoc]
      exact ih hnext (hr.receive m)

/-- **The grammar of an interaction.** Whatever a new recognizer is given, what it
decides between two accepted downs, before the first and after the last is orderly. -/
theorem interactions_orderly (settings : RecognizerSettings) (display : Option Display)
    (ms : List Message) :
    Orderly ((new settings display).interactions ms).1 ∧
      ∀ ds ∈ ((new settings display).interactions ms).2, Orderly ds :=
  (Accounts.nil rfl).interactions (consistent_new settings display) ms

end Recognizer

end TouchStream
