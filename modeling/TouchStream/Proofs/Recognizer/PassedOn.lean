import TouchStream.Proofs.Recognizer.Closing

/-!
# What a recognizer passes on

A sample is consumed or passed on: the next stage is given exactly the samples for which the
recognizer answers that it did not take charge of them (`passedOn_eq_declined`). Samples of
other devices are always passed on.

While a swipe goes on, no move and no up of the finger is passed on. The flags alone are
enough for that, whatever the timers and latches hold: from the start of a swipe on, and as
long as no other interaction begins, what is read is a swipe, and no second up is awaited
(`ReadsSwipe`). So it holds for runs in which the timer of a long press is armed from
outside as well.

* `Recognizer.perform`: the calls of a run.
* `ReadsSwipe.perform`: a call that begins no interaction keeps this.
* `ReadsSwipe.consumed`: the samples of the finger are consumed then.
* `consumed_or_passed_on`: what the next stage is given in a run.
-/

namespace TouchStream

/-- The sample that a signal hands on, if it hands one on. -/
def Signal.sample? : Signal → Option Sample
  | .message (.event (.pointer s)) => some s
  | _ => none

/-- Whether a sample is a move of the finger of a swipe, or the up of a single one. -/
def Sample.isOfSwipe (s : Sample) : Bool :=
  s.source = .touchscreen &&
    match s.action with
    | .move => s.position.isSome
    | .up => s.pointerCount = 1
    | _ => false

namespace Recognizer

/-! ## Calls -/

/-- What can be done with a recognizer: it is given a message, or the timer of a long press
is armed from outside. -/
inductive Call
  | message (m : Message)
  | press (now : Micros)
deriving DecidableEq, Repr

namespace Call

/-- The call that gives a sample. -/
def sample (s : Sample) : Call := .message (.event (.pointer s))

/-- The sample that a call gives, if it gives one. -/
def sample? : Call → Option Sample
  | .message (.event (.pointer s)) => some s
  | _ => none

end Call

/-- What a recognizer makes of a call. -/
def perform (r : Recognizer) : Call → Reply Recognizer
  | .message m => r.receive m
  | .press now => ⟨r.awaitLongPress now, false, []⟩

/-- Whether a call is a down that begins an interaction. -/
def begins (r : Recognizer) : Call → Bool
  | .message m => r.accepts m
  | .press _ => false

/-- The recognizer after a run of calls. -/
def afterCalls (r : Recognizer) : List Call → Recognizer
  | [] => r
  | c :: cs => (r.perform c).state.afterCalls cs

/-- The samples that are passed on in a run. -/
def passedOn (r : Recognizer) : List Call → List Sample
  | [] => []
  | c :: cs => (r.perform c).out.filterMap Signal.sample? ++ (r.perform c).state.passedOn cs

/-- The samples of a run for which the recognizer answers that it did not take charge. -/
def declined (r : Recognizer) : List Call → List Sample
  | [] => []
  | c :: cs =>
    (if (r.perform c).handled then [] else c.sample?.toList) ++ (r.perform c).state.declined cs

/-- Whether one interaction is read all through a run: an interaction is read before every
call, and no call begins another one. -/
def readsThrough (r : Recognizer) : List Call → Bool
  | [] => true
  | c :: cs => r.recognizing && !r.begins c && (r.perform c).state.readsThrough cs

variable {r : Recognizer} {s : Sample} {c : Call} {m : Message}

/-! ## Consumed or passed on -/

theorem samples_decisions (ds : List Decision) :
    (ds.map Signal.decision).filterMap Signal.sample? = [] := by
  rw [List.filterMap_eq_nil_iff]
  intro x hx
  obtain ⟨d, -, rfl⟩ := List.mem_map.mp hx
  rfl

/-- A call passes on the sample that it gives, unless that is consumed, and no other. -/
theorem samples_perform (r : Recognizer) (c : Call) :
    (r.perform c).out.filterMap Signal.sample? =
      if (r.perform c).handled then [] else c.sample?.toList := by
  cases c with
  | press now => rfl
  | message m =>
    cases m with
    | event e =>
      cases e with
      | pointer s =>
        simp only [perform, receive, List.filterMap_append, samples_decisions, List.nil_append]
        by_cases hconsumed : (r.pointer s).consumed = true
        · simp only [hconsumed, if_true]
          rfl
        · simp only [hconsumed]
          rfl
      | key k => rfl
      | accessibility a => rfl
    | time now =>
      simp only [perform, receive, List.filterMap_append, samples_decisions, List.nil_append]
      rfl
    | clear source => rfl
    | destroy => rfl

/-- The next stage is given the samples that are not taken charge of, and no others. -/
theorem passedOn_eq_declined (r : Recognizer) (cs : List Call) :
    r.passedOn cs = r.declined cs := by
  induction cs generalizing r with
  | nil => rfl
  | cons c cs ih => rw [passedOn, declined, samples_perform, ih]

/-- Samples of other devices change nothing and are passed on. -/
theorem perform_other (r : Recognizer) (hsource : s.source ≠ .touchscreen) :
    r.perform (.sample s) = ⟨r, false, [.sample s]⟩ := by
  have hp : r.pointer s = ⟨r, [], false⟩ := if_pos hsource
  simp only [Call.sample, perform, receive, hp]
  rfl

/-! ## Swipes -/

/-- If an interaction is read, it is a swipe, and the next up is not a second one. -/
def ReadsSwipe (r : Recognizer) : Prop :=
  r.recognizing = true → r.swiping = true ∧ r.awaitingSecondUp = false

theorem readsSwipe_of_over (h : r.recognizing = false) : r.ReadsSwipe := by
  intro hr
  exact absurd (h.symm.trans hr) (by simp)

theorem giveUpDoubleTap_of_not_awaiting (ha : r.awaitingSecondUp = false) (s : Sample)
    (offset : Float32) : r.giveUpDoubleTap s offset = (r, []) := by
  simp [giveUpDoubleTap, ha]

theorem readsSwipe_extendRoute (position : Point) (hs : r.swiping = true)
    (ha : r.awaitingSecondUp = false) : (r.extendRoute position).ReadsSwipe := by
  unfold extendRoute
  split <;> exact fun _ => ⟨hs, ha⟩

/-- The move with which a swipe starts is consumed. -/
theorem started_move (h : .started ∈ (r.move s).decisions) :
    (r.move s).consumed = true ∧ (r.move s).state.ReadsSwipe := by
  rcases move_eq r s with ⟨he, -⟩ |
    ⟨position, given, -, -, hgiven, ⟨-, he⟩ | ⟨-, he⟩ | he | ⟨-, he⟩⟩
  · rw [he] at h
    cases h
  all_goals
    have hnot : .started ∉ given.2 := hgiven ▸ not_started_giveUpDoubleTap r s _
    rw [he] at h
  · exact absurd h hnot
  · rw [he]
    exact ⟨rfl, fun _ => ⟨rfl, rfl⟩⟩
  · rcases List.mem_append.mp h with h | h
    · exact absurd h hnot
    · exact absurd h (not_started_giveUp _ s)
  · exact absurd h hnot

/-- A start is reported by a move of the finger alone. -/
theorem started_perform (h : .started ∈ decisionsIn (r.perform c).out) :
    (r.perform c).handled = true ∧ (r.perform c).state.ReadsSwipe := by
  cases c with
  | press now => cases h
  | message m =>
    have hm : r.accepts m = false := by
      cases hm : r.accepts m with
      | false => rfl
      | true => exact absurd h (not_started_of_accepts hm)
    have hdecided : .started ∈ r.decides m := h
    cases m with
    | event e =>
      cases e with
      | pointer s =>
        rw [decides_pointer] at hdecided
        by_cases hsource : s.source = .touchscreen
        · rw [pointer_of_touchscreen hsource] at hdecided
          cases ha : s.action with
          | down =>
            simp only [ha, (down_of_not_accepts hsource ha hm).1] at hdecided
            cases hdecided
          | move =>
            simp only [ha] at hdecided
            have hp : r.pointer s = r.move s := by rw [pointer_of_touchscreen hsource, ha]
            simp only [perform, receive, hp]
            exact started_move hdecided
          | up =>
            simp only [ha] at hdecided
            exact absurd hdecided (not_started_up r s)
          | cancel =>
            simp only [ha] at hdecided
            exact absurd hdecided (not_started_giveUp r.clear s)
        · have hp : r.pointer s = ⟨r, [], false⟩ := if_pos hsource
          rw [hp] at hdecided
          cases hdecided
      | key k => cases hdecided
      | accessibility a => cases hdecided
    | time now =>
      rw [decides_time] at hdecided
      exact absurd hdecided (not_started_advance r now)
    | clear source => cases hdecided
    | destroy => cases hdecided

namespace ReadsSwipe

theorem move (h : r.ReadsSwipe) (s : Sample) : (r.move s).state.ReadsSwipe := by
  rcases move_eq r s with ⟨he, -⟩ |
    ⟨position, given, -, hr, hgiven, ⟨-, he⟩ | ⟨-, he⟩ | he | ⟨-, he⟩⟩
  · rw [he]
    exact h
  all_goals
    obtain ⟨hs, ha⟩ := h hr
    rw [giveUpDoubleTap_of_not_awaiting ha] at hgiven
    subst hgiven
    rw [he]
  · exact readsSwipe_extendRoute position hs rfl
  · exact fun _ => ⟨rfl, rfl⟩
  · exact readsSwipe_of_over rfl
  · exact readsSwipe_extendRoute position hs ha

theorem up (h : r.ReadsSwipe) (s : Sample) : (r.up s).state.ReadsSwipe := by
  rcases up_eq r s with ⟨-, he⟩ | ⟨-, ⟨hr, he⟩ | ⟨-, ⟨-, -, he⟩ | ⟨-, -, he⟩ | ⟨-, -, he⟩ |
    ⟨-, -, he⟩⟩⟩ <;> rw [he]
  · exact h
  · exact readsSwipe_of_over hr
  · exact readsSwipe_of_over rfl
  · exact readsSwipe_of_over ((idle_clear r).completeDouble s).recognizing
  · exact readsSwipe_of_over rfl
  · exact readsSwipe_of_over rfl

theorem expire (h : r.ReadsSwipe) (t : RecognizerTimer) : (r.expire t).1.ReadsSwipe := by
  rcases expire_eq r t with he | ⟨-, -, -, -, he⟩ | ⟨-, -, -, -, he⟩ <;> rw [he]
  · exact h
  · exact readsSwipe_of_over rfl
  · exact h

/-- Until another interaction begins nothing but the swipe is read. -/
theorem perform (h : r.ReadsSwipe) (hc : r.begins c = false) :
    (r.perform c).state.ReadsSwipe := by
  cases c with
  | press now => exact h
  | message m =>
    refine receive_cases (P := fun q _ => q.ReadsSwipe) hc h (readsSwipe_of_over rfl)
      (fun s _ => h.move s) (fun s _ => h.up s)
      (fun s _ => readsSwipe_of_over (idle_cancel r s).1.recognizing) (fun now _ => ?_)
      (fun _ => readsSwipe_of_over rfl)
    exact advance_keeps (P := fun q _ => q.ReadsSwipe) (fun _ _ t _ hq => hq.expire t) [] h

/-- A swipe that goes on consumes the moves of the finger and its up. -/
theorem consumed (h : r.ReadsSwipe) (hr : r.recognizing = true) (hs : s.isOfSwipe = true) :
    (r.pointer s).consumed = true := by
  obtain ⟨hswiping, hawaiting⟩ := h hr
  simp only [Sample.isOfSwipe, Bool.and_eq_true, decide_eq_true_iff] at hs
  obtain ⟨hsource, hs⟩ := hs
  rw [pointer_of_touchscreen hsource]
  cases ha : s.action with
  | down => simp [ha] at hs
  | move =>
    rw [ha] at hs
    obtain ⟨position, hposition⟩ := Option.isSome_iff_exists.mp hs
    simp only [Recognizer.move, hr, hawaiting, hposition, giveUpDoubleTap_of_not_awaiting,
      Bool.false_and, Bool.not_true, Bool.false_eq_true, if_false]
    -- the swipe goes on from a new anchor, or is too late, or stays near its anchor
    split
    · rw [if_pos (show (r.moveAnchor position s.time).swiping = true from hswiping)]
    · split
      · rfl
      · exact hswiping
  | up =>
    rw [ha] at hs
    have hone : s.pointerCount = 1 := by simpa using hs
    simp only [Recognizer.up, hone, hr, hawaiting, hswiping, ne_eq, not_true_eq_false,
      Bool.not_true, Bool.false_eq_true, if_false, if_true]
  | cancel => simp [ha] at hs

/-- As long as the swipe goes on none of its samples is passed on. -/
theorem passedOn (h : r.ReadsSwipe) {cs : List Call} (hcs : r.readsThrough cs = true) :
    ∀ s ∈ r.passedOn cs, s.isOfSwipe = false := by
  induction cs generalizing r with
  | nil => exact List.forall_mem_nil _
  | cons c cs ih =>
    simp only [readsThrough, Bool.and_eq_true, Bool.not_eq_true'] at hcs
    obtain ⟨⟨hr, hc⟩, hcs⟩ := hcs
    intro s hs
    rw [Recognizer.passedOn, samples_perform, List.mem_append] at hs
    rcases hs with hs | hs
    · split at hs
      · cases hs
      · rename_i hdeclined
        cases hswipe : s.isOfSwipe with
        | false => rfl
        | true =>
          have hgiven : c = .sample s := by
            unfold Call.sample? at hs
            split at hs
            · rw [List.mem_singleton.mp hs]
              rfl
            · cases hs
          subst hgiven
          exact absurd (h.consumed hr hswipe) hdeclined
    · exact ih (h.perform hc) hcs s hs

end ReadsSwipe

/-! ## Runs -/

/-- **A sample is consumed or passed on, and a swipe in progress keeps to itself.** In every
run of a recognizer the next stage is given exactly the samples that the recognizer declined,
each of them once, unchanged and in order, and those of other devices are always among them.
From the report of a start on, and as long as its interaction is read, no move of the finger
and no up of a single finger is passed on. -/
theorem consumed_or_passed_on (r : Recognizer) (cs : List Call) :
    r.passedOn cs = r.declined cs ∧
      (∀ s : Sample, s.source ≠ .touchscreen →
        (r.afterCalls cs).perform (.sample s) = ⟨r.afterCalls cs, false, [.sample s]⟩) ∧
      ∀ c during, .started ∈ decisionsIn ((r.afterCalls cs).perform c).out →
        ((r.afterCalls cs).perform c).state.readsThrough during = true →
        ∀ s ∈ (r.afterCalls cs).passedOn (c :: during), s.isOfSwipe = false := by
  refine ⟨passedOn_eq_declined r cs, fun s hs => perform_other _ hs, ?_⟩
  intro c during hstarted hduring s hs
  obtain ⟨hhandled, hswipe⟩ := started_perform hstarted
  rw [passedOn, samples_perform, if_pos hhandled, List.nil_append] at hs
  exact hswipe.passedOn hduring s hs

/-- The timer of a long press is armed in a swipe, and a mouse moves and a second finger lifts
meanwhile. The samples of the swipe stay with the recognizer. -/
theorem consumed_or_passed_on_swipe :
    let touch (action : PointerAction) (x : Float32) (time : Micros) : Call :=
      .sample (.touch action ⟨x, 0⟩ time)
    let r := (new {} none).afterCalls [touch .down 0 0]
    let first := touch .move 20 10000
    let mouse : Sample := { Sample.touch .move .zero 30000 with source := .mouse }
    let lifted : Sample :=
      { Sample.touch .up .zero 40000 with contacts := [⟨0, .zero⟩, ⟨1, .zero⟩] }
    let during : List Call :=
      [.press 20000, .sample mouse, .sample lifted, .message (.time 500000), touch .move 40 510000,
        touch .up 40 520000]
    .started ∈ decisionsIn (r.perform first).out ∧
      (r.perform first).state.readsThrough during = true ∧
      r.passedOn (first :: during) = [mouse, lifted] ∧
      ∀ s ∈ r.passedOn (first :: during), s.isOfSwipe = false := by
  intro touch r first mouse lifted during
  have hstarted : .started ∈ decisionsIn (r.perform first).out := by decide +kernel
  have hduring : (r.perform first).state.readsThrough during = true := by decide +kernel
  exact ⟨hstarted, hduring, by decide +kernel,
    (consumed_or_passed_on (new {} none) [touch .down 0 0]).2.2 first during hstarted hduring⟩

end Recognizer

end TouchStream
