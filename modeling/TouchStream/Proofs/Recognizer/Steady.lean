import TouchStream.Proofs.Recognizer.Closing
import TouchStream.Proofs.Recognizer.Phases

/-!
# Fingers that rest

A finger rests while an interaction is read that does not swipe and was not held for long
(`Steady`). Only an accepted down leads into this state, so a finger that rests at the end
of a run in which no down was accepted has rested all along, and the run tells what did not
happen in it (`Rested`): no message interrupted the touch, and no move led further from its
anchor than a swipe allows, nor, while a second up is awaited, than a double tap allows.

* `advance_eq_of_silent`: the firing of timers that could not have reported anything.
* `Rested.receive`: what a message was that left the finger at rest.
* `Rested.interactions`: what a run was that did.
-/

namespace TouchStream

namespace Message

/-- Whether a message ends or aborts a touch whatever came before it: the up of a single
finger, the down of several, a cancel, and a request to clear or to destroy. -/
def interrupts : Message → Bool
  | .event (.pointer s) =>
    s.source = .touchscreen &&
      match s.action with
      | .down => 1 < s.pointerCount
      | .move => false
      | .up => s.pointerCount = 1
      | .cancel => true
  | .event _ => false
  | .time _ => false
  | .clear source => source = .touchscreen
  | .destroy => true

/-- Whether a message is a move on a touch screen that leads further from a point than a
limit. -/
def strays (limit : Float32) (origin : Point) : Message → Bool
  | .event (.pointer s) =>
    s.source = .touchscreen && s.action = .move &&
      match s.position with
      | some position => limit < origin.distance position
      | none => false
  | _ => false

end Message

namespace Recognizer

variable {r q : Recognizer} {s : Sample} {m : Message} {ms : List Message} {ds : List Decision}

/-! ## Silent firings -/

/-- Where the state that all due timers leave could not come from a report, no timer that
fired reported anything. -/
theorem advance_eq_of_silent {P : Recognizer → Prop} {now : Micros}
    (hP : ∀ q t, P (q.expire t).1 → P q ∧ q.expire t = (q.disarm t, []))
    (h : P (r.advance now).1) :
    P r ∧ r.advance now = ({ r with timers := (r.advance now).1.timers }, []) := by
  have hkeeps := @advance_keeps
    (fun q ds => P q → P r ∧ q = { r with timers := q.timers } ∧ ds = []) now ?_ r []
    (fun h => ⟨h, rfl, rfl⟩)
  · obtain ⟨hr, hsame, hnothing⟩ := hkeeps h
    exact ⟨hr, Prod.ext hsame hnothing⟩
  · intro q ds t _ hq hafter
    obtain ⟨hbefore, he⟩ := hP q t hafter
    obtain ⟨hr, hsame, rfl⟩ := hq hbefore
    rw [he]
    refine ⟨hr, ?_, rfl⟩
    rw [hsame]
    rfl

/-! ## Steady fingers -/

/-- The finger is down and may still be reported for staying where it is. -/
structure Steady (r : Recognizer) : Prop where
  recognizing : r.recognizing = true
  swiping : r.swiping = false
  heldLong : r.heldLong = false

theorem Idle.not_steady (h : r.Idle) : ¬ r.Steady := by
  intro hs
  have hrecognizing := hs.recognizing
  rw [h.recognizing] at hrecognizing
  cases hrecognizing

/-- A finger that waits for its second up rests, unless it was held for long. -/
theorem Consistent.steady (h : r.Consistent) (ha : r.awaitingSecondUp = true)
    (hl : r.heldLong = false) : r.Steady :=
  ⟨(h.awaiting ha).1, (h.awaiting ha).2, hl⟩

/-- From one state to the next a finger rested that rests in the end. -/
structure Rested (r : Recognizer) (ms : List Message) (q : Recognizer) (ds : List Decision) :
    Prop where
  steady : r.Steady
  anchor : q.anchor = r.anchor
  second : q.secondTapBegun = r.secondTapBegun
  timers : ∀ t ∈ q.timers.pending, t ∈ r.timers.pending
  undisturbed : ∀ m ∈ ms, m.interrupts = false ∧ m.strays r.thresholds.swipeStart r.anchor = false
  awaiting : q.awaitingSecondUp = true →
    r.awaitingSecondUp = true ∧ ∀ m ∈ ms, m.strays r.settings.touchSlop r.anchor = false
  /-- Nothing was decided, unless a double tap was given up. -/
  silent : q.awaitingSecondUp = r.awaitingSecondUp → ds = []

namespace Rested

theorem nil (h : r.Steady) : Rested r [] r [] :=
  ⟨h, rfl, rfl, fun _ => id, by simp, fun ha => ⟨ha, by simp⟩, fun _ => rfl⟩

/-- A message that changes nothing leaves the finger where it was. -/
theorem same (h : r.Steady) (hm : m.interrupts = false)
    (hstays : ∀ limit, m.strays limit r.anchor = false) : Rested r [m] r [] where
  steady := h
  anchor := rfl
  second := rfl
  timers _ := id
  undisturbed m' hm' := by
    obtain rfl := List.mem_singleton.mp hm'
    exact ⟨hm, hstays _⟩
  awaiting ha := by
    refine ⟨ha, fun m' hm' => ?_⟩
    obtain rfl := List.mem_singleton.mp hm'
    exact hstays _
  silent _ := rfl

theorem cons {p : Recognizer} {ds' : List Decision} (h : Rested r [m] q ds)
    (hsettings : q.settings = r.settings ∧ q.thresholds = r.thresholds)
    (h' : Rested q ms p ds') : Rested r (m :: ms) p (ds ++ ds') where
  steady := h.steady
  anchor := h'.anchor.trans h.anchor
  second := h'.second.trans h.second
  timers t ht := h.timers t (h'.timers t ht)
  undisturbed := by
    rw [← hsettings.2, ← h.anchor, List.forall_mem_cons]
    refine ⟨?_, h'.undisturbed⟩
    have hfirst := h.undisturbed m (List.mem_singleton.mpr rfl)
    rw [← hsettings.2, ← h.anchor] at hfirst
    exact hfirst
  awaiting ha := by
    obtain ⟨hq, hlater⟩ := h'.awaiting ha
    obtain ⟨hr, hfirst⟩ := h.awaiting hq
    refine ⟨hr, List.forall_mem_cons.mpr ⟨hfirst m (List.mem_singleton.mpr rfl), ?_⟩⟩
    rw [← hsettings.1, ← h.anchor]
    exact hlater
  silent heq := by
    -- the wait for a second up does not come back once it is over
    have hq : q.awaitingSecondUp = r.awaitingSecondUp ∧
        p.awaitingSecondUp = q.awaitingSecondUp := by
      cases hp : p.awaitingSecondUp with
      | true =>
        have hq := (h'.awaiting hp).1
        exact ⟨by rw [hq, ← heq, hp], by rw [hq]⟩
      | false =>
        have hr : r.awaitingSecondUp = false := heq.symm.trans hp
        cases hq : q.awaitingSecondUp with
        | true => exact absurd (h.awaiting hq).1 (by simp [hr])
        | false => exact ⟨hr.symm, rfl⟩
    rw [h.silent hq.1, h'.silent hq.2]
    rfl

/-! ### Messages -/

theorem expire {t : RecognizerTimer} (h : (r.expire t).1.Steady) :
    r.Steady ∧ r.expire t = (r.disarm t, []) := by
  rcases expire_eq r t with he | ⟨-, -, -, -, he⟩ | ⟨-, -, -, -, he⟩
  · rw [he] at h
    exact ⟨⟨h.recognizing, h.swiping, h.heldLong⟩, he⟩
  · rw [he] at h
    cases h.recognizing
  · rw [he] at h
    cases h.heldLong

theorem advance {now : Micros} (h : (r.advance now).1.Steady) :
    Rested r [.time now] (r.advance now).1 (r.advance now).2 := by
  obtain ⟨hr, hsame⟩ := advance_eq_of_silent (P := Steady) (fun _ _ => expire) h
  have htimers := (rearmed_advance r now).2
  generalize (r.advance now).1.timers = q at hsame htimers
  rw [hsame]
  exact { same (m := .time now) hr rfl (fun _ => rfl) with timers := htimers }

theorem giveUpDoubleTap {position : Point} (hsource : s.source = .touchscreen)
    (haction : s.action = .move) (hposition : s.position = some position)
    (hnear : ¬ r.thresholds.swipeStart < r.anchor.distance position)
    (h : (r.giveUpDoubleTap s (r.anchor.distance position)).1.Steady) :
    Rested r [.event (.pointer s)] (r.giveUpDoubleTap s (r.anchor.distance position)).1
      (r.giveUpDoubleTap s (r.anchor.distance position)).2 := by
  have hstrays (limit : Float32) : (Message.event (.pointer s)).strays limit r.anchor =
      decide (limit < r.anchor.distance position) := by
    simp [Message.strays, hsource, haction, hposition]
  have hinterrupts : (Message.event (.pointer s)).interrupts = false := by
    simp [Message.interrupts, haction]
  have hundisturbed : ∀ m ∈ [Message.event (.pointer s)],
      m.interrupts = false ∧ m.strays r.thresholds.swipeStart r.anchor = false := by
    intro m hm
    rw [List.mem_singleton.mp hm, hstrays]
    exact ⟨hinterrupts, decide_eq_false hnear⟩
  rcases giveUpDoubleTap_eq r s (r.anchor.distance position) with ⟨he, hslop⟩ | ⟨ha, he⟩
  · rw [he] at h ⊢
    refine ⟨h, rfl, rfl, fun _ => id, hundisturbed, fun ha => ⟨ha, ?_⟩, fun _ => rfl⟩
    intro m hm
    rw [List.mem_singleton.mp hm, hstrays]
    exact decide_eq_false (hslop ha)
  · rw [he] at h ⊢
    rcases giveUp_eq { r with awaitingSecondUp := false, firstTapDone := false } s with
      ⟨hg, -⟩ | ⟨hg, -⟩
    · rw [hg] at h ⊢
      exact ⟨⟨h.recognizing, h.swiping, h.heldLong⟩, rfl, rfl, fun _ => id, hundisturbed,
        by simp, by simp [ha]⟩
    · rw [hg] at h ⊢
      exact ⟨⟨h.recognizing, h.swiping, h.heldLong⟩, rfl, rfl, fun _ => id, hundisturbed,
        by simp, by simp [ha]⟩

theorem move (hsource : s.source = .touchscreen) (haction : s.action = .move)
    (h : (r.move s).state.Steady) :
    Rested r [.event (.pointer s)] (r.move s).state (r.move s).decisions := by
  rcases move_eq r s with ⟨he, hnone⟩ |
    ⟨position, _, hposition, hr, rfl, ⟨hs, he⟩ | ⟨-, he⟩ | he | ⟨hnear, he⟩⟩
  · rw [he] at h ⊢
    refine same h (by simp [Message.interrupts, haction]) fun limit => ?_
    simp [Message.strays, hnone h.recognizing h.heldLong]
  · rw [he] at h
    have hswiping := h.swiping
    rw [swiping_extendRoute] at hswiping
    exact absurd (hs.symm.trans hswiping) (by simp)
  · rw [he] at h
    cases h.swiping
  · rw [he] at h
    cases h.recognizing
  · rw [he] at h ⊢
    rw [(Kept.giveUpDoubleTap r s _).thresholds] at hnear
    -- a point more on the route changes nothing that counts here
    have hgiven : Recognizer.Steady (r.giveUpDoubleTap s (r.anchor.distance position)).1 := by
      unfold extendRoute at h
      split at h
      · exact ⟨h.recognizing, h.swiping, h.heldLong⟩
      · exact h
    have hrested := giveUpDoubleTap hsource haction hposition hnear hgiven
    unfold extendRoute
    split
    · exact { hrested with }
    · exact hrested

theorem up (haction : s.action = .up) (h : (r.up s).state.Steady) :
    Rested r [.event (.pointer s)] (r.up s).state (r.up s).decisions := by
  rcases up_eq r s with ⟨hmany, he⟩ | ⟨-, ⟨hover, he⟩ | ⟨-, ⟨-, -, he⟩ | ⟨-, -, he⟩ |
    ⟨-, -, he⟩ | ⟨-, -, he⟩⟩⟩ <;> rw [he] at h ⊢
  · exact same h (by simp [Message.interrupts, haction, hmany])
      (fun limit => by simp [Message.strays, haction])
  · exact absurd (hover.symm.trans h.recognizing) (by simp)
  · cases h.recognizing
  · exact absurd h ((idle_clear r).completeDouble s).not_steady
  · cases h.recognizing
  · cases h.recognizing

theorem down (hsource : s.source = .touchscreen) (haction : s.action = .down)
    (hm : r.accepts (.event (.pointer s)) = false) (h : (r.down s).state.Steady) :
    Rested r [.event (.pointer s)] (r.down s).state (r.down s).decisions := by
  obtain ⟨hnothing, hstate | hstate⟩ := down_of_not_accepts hsource haction hm
  · rw [hstate] at h ⊢
    rw [hnothing]
    refine same h ?_ (fun limit => by simp [Message.strays, haction])
    by_cases hmany : 1 < s.pointerCount
    · have hclear : (r.down s).state = r.clear := by
        unfold Recognizer.down
        rw [if_neg (by simp [h.heldLong]), if_pos hmany]
      rw [← hstate, hclear] at h
      exact absurd h (idle_clear r).not_steady
    · simp [Message.interrupts, haction, hmany]
  · rw [hstate] at h
    exact absurd h (idle_clear r).not_steady

/-- Where the finger rests after a message that begins no interaction it rested before, and
the message left it where it was. -/
theorem receive (hm : r.accepts m = false) (h : (r.receive m).state.Steady) :
    Rested r [m] (r.receive m).state (r.decides m) := by
  cases m with
  | event e =>
    cases e with
    | pointer s =>
      rw [decides_pointer]
      by_cases hsource : s.source = .touchscreen
      · simp only [Recognizer.receive, pointer_of_touchscreen hsource] at h ⊢
        cases ha : s.action with
        | down =>
          rw [ha] at h
          exact down hsource ha hm h
        | move =>
          rw [ha] at h
          exact move hsource ha h
        | up =>
          rw [ha] at h
          exact up ha h
        | cancel =>
          rw [ha] at h
          exact absurd h (idle_cancel r s).1.not_steady
      · have hp : r.pointer s = ⟨r, [], false⟩ := if_pos hsource
        simp only [Recognizer.receive, hp] at h ⊢
        exact same h (by simp [Message.interrupts, hsource])
          (fun limit => by simp [Message.strays, hsource])
    | key k => exact same h rfl (fun _ => rfl)
    | accessibility a => exact same h rfl (fun _ => rfl)
  | time now =>
    rw [decides_time]
    exact advance h
  | clear source =>
    simp only [Recognizer.receive] at h ⊢
    split at h
    · exact absurd h (idle_clear r).not_steady
    · rename_i hsource
      rw [if_neg hsource]
      exact same h (by simp [Message.interrupts, hsource]) (fun _ => rfl)
  | destroy => exact absurd h (idle_destroy r).not_steady

/-! ### Runs -/

/-- A finger that rests at the end of a run without an accepted down has rested all along. -/
theorem interactions (hms : (r.interactions ms).2 = []) (h : (r.after ms).Steady) :
    Rested r ms (r.after ms) (r.interactions ms).1 := by
  induction ms generalizing r with
  | nil => exact nil h
  | cons m ms ih =>
    obtain ⟨hm, hrest⟩ := interactions_cons_eq_nil.mp hms
    have hlater := ih hrest h
    have hfirst := receive hm hlater.steady
    simp only [Recognizer.interactions, hm, Bool.false_eq_true, if_false]
    exact hfirst.cons (settings_receive r m) hlater

end Rested

end Recognizer

end TouchStream
