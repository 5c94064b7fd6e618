import TouchStream.Proofs.Chain

/-!
# Pass-through stages

A pass-through stage hands on every signal that it is given and waits for no deadline. So
stages of this kind may be put into a chain anywhere behind its head: what comes out, the
deadlines and the answers of the head stay the same (`Padded.sight`). Put before the head
they become the head, and a head that passes everything on takes charge of nothing.

* `Padded`: pass-through stages are put into a chain.
* `Padded.relay`: the signals come out as before, and the chains stay alike.
* `pass_through_unnoticed`: both, for every run.
-/

namespace TouchStream

/-! ## What can be seen -/

/-- Whether the head answers a message. -/
def Message.isAnswered : Message → Bool
  | .event (.pointer _) => true
  | .event (.key _) => true
  | _ => false

/-- What can be seen of a chain when its head is given a message: the answer, if there is
one, what comes out, and the deadline that the chain waits for then. -/
structure Sight where
  answer : Option Bool
  reports : List Report
  deadline : Option Micros
deriving DecidableEq, Repr

/-- The same but for the answer: nothing is taken charge of. -/
def Sight.disclaimed (o : Sight) : Sight := { o with answer := o.answer.map fun _ => false }

namespace Chain

/-- What can be seen when the head is given a message. -/
def sight (c : Chain) (m : Message) : Sight :=
  let (c, handled, reports) := c.send m
  { answer := if m.isAnswered then some handled else none
    reports
    deadline := c.nextDeadline }

/-- What can be seen in a run. -/
def sights (c : Chain) : List Message → List Sight
  | [] => []
  | m :: ms => c.sight m :: (c.send m).1.sights ms

end Chain

/-! ## Putting stages in -/

theorem Stage.relay_passThrough (xs : List Signal) :
    relay Stage.receive .passThrough xs = (.passThrough, xs) := by
  induction xs with
  | nil => rfl
  | cons x xs ih =>
    cases x with
    | message m => simp only [relay, Stage.receive, ih, List.singleton_append]
    | report r => simp only [relay, ih]

/-- The second chain is the first one with pass-through stages put in, anywhere and as many
as one likes. -/
inductive Padded : Chain → Chain → Prop
  | nil : Padded [] []
  | keep {c c' : Chain} (stage : Stage) (h : Padded c c') : Padded (stage :: c) (stage :: c')
  | insert {c c' : Chain} (h : Padded c c') : Padded c (.passThrough :: c')

namespace Padded

variable {c c' : Chain}

theorem nextDeadline (h : Padded c c') : c'.nextDeadline = c.nextDeadline := by
  induction h with
  | nil => rfl
  | keep stage h ih =>
    exact congrArg (earlierDeadline stage.nextDeadline) ih
  | insert h ih => exact ih

/-- What comes out is the same, and the chains stay alike. -/
theorem relay (h : Padded c c') (xs : List Signal) :
    Padded (c.relay xs).1 (c'.relay xs).1 ∧ (c'.relay xs).2 = (c.relay xs).2 := by
  induction h generalizing xs with
  | nil => exact ⟨.nil, rfl⟩
  | keep stage h ih =>
    obtain ⟨hrest, hout⟩ := ih (TouchStream.relay Stage.receive stage xs).2
    exact ⟨hrest.keep _, hout⟩
  | insert h ih =>
    obtain ⟨hrest, hout⟩ := ih xs
    simp only [Chain.relay, Stage.relay_passThrough]
    exact ⟨hrest.insert, hout⟩

/-- Behind the head the stages go unnoticed. -/
theorem sight (h : Padded c c') (head : Stage) (m : Message) :
    Chain.sight (head :: c') m = Chain.sight (head :: c) m := by
  obtain ⟨hrest, hout⟩ := h.relay (head.receive m).out
  have hdeadline := (hrest.keep (head.receive m).state).nextDeadline
  simp only [Chain.sight, Chain.send, hout, hdeadline]

theorem sights (h : Padded c c') (head : Stage) (ms : List Message) :
    Chain.sights (head :: c') ms = Chain.sights (head :: c) ms := by
  induction ms generalizing c c' head with
  | nil => rfl
  | cons m ms ih =>
    have hrest := (h.relay (head.receive m).out).1
    exact List.cons_eq_cons.mpr ⟨h.sight head m, ih hrest (head.receive m).state⟩

/-- A pass-through stage in front answers in the place of the head. -/
theorem sight_front (h : Padded c c') (m : Message) :
    Chain.sight (.passThrough :: c') m = (c.sight m).disclaimed := by
  obtain ⟨hrest, hout⟩ := h.relay [.message m]
  have hdeadline := hrest.insert.nextDeadline
  rw [Chain.relay_message c m] at hout hdeadline
  simp only [Chain.sight, Chain.send, Stage.receive, hout, hdeadline, Sight.disclaimed]
  split <;> rfl

theorem sights_front (h : Padded c c') (ms : List Message) :
    Chain.sights (.passThrough :: c') ms = (c.sights ms).map Sight.disclaimed := by
  induction ms generalizing c c' with
  | nil => rfl
  | cons m ms ih =>
    have hrest := (h.relay [.message m]).1
    rw [Chain.relay_message c m] at hrest
    exact List.cons_eq_cons.mpr ⟨h.sight_front m, ih hrest⟩

end Padded

/-! ## Runs -/

/-- **Pass-through stages go unnoticed.** Put any number of them into a chain: as long as the
head stays the head, nothing that can be seen in any run is different, and with one of them
in front everything is the same but that every answer is that nothing was taken charge of. -/
theorem pass_through_unnoticed (head : Stage) (c : Chain) (ms : List Message) :
    (∀ c', Padded c c' →
      Chain.nextDeadline (head :: c') = Chain.nextDeadline (head :: c) ∧
        Chain.sights (head :: c') ms = Chain.sights (head :: c) ms) ∧
      ∀ c', Padded (head :: c) c' →
        Chain.nextDeadline (.passThrough :: c') = Chain.nextDeadline (head :: c) ∧
          Chain.sights (.passThrough :: c') ms =
            (Chain.sights (head :: c) ms).map Sight.disclaimed :=
  ⟨fun _ h => ⟨(h.keep head).nextDeadline, h.sights head ms⟩,
    fun _ h => ⟨h.insert.nextDeadline, h.sights_front ms⟩⟩

/-- A tap and a key, with two recognizers in the chain. -/
theorem pass_through_unnoticed_tap :
    let head : Stage := .filter (.new { clickDelay := .medium } none)
    let recognizer : Stage := .recognizer (.new {} none)
    let c : Chain := [recognizer, recognizer, .sink]
    let c' : Chain := [.passThrough, recognizer, .passThrough, .passThrough, recognizer, .sink]
    let key : KeyEvent := ⟨4, .down, 8⟩
    let down : Sample := .touch .down .zero 0
    let ms : List Message :=
      [.event (.pointer down), .event (.pointer (.touch .up .zero 310000)), .event (.key key),
        .time 400000]
    let seen : List Sight :=
      [⟨some true, [], none⟩,
        ⟨some true, [.delivered (.pointer down),
          .delivered (.pointer (.touch .up .zero 310000))], some 300000⟩,
        ⟨some false, [.delivered (.key key)], some 300000⟩,
        ⟨none, [.decided (.completed .tap), .decided (.completed .tap)], none⟩]
    (Padded c c' ∧ Padded (head :: c) (head :: c') ∧ Chain.sights (head :: c) ms = seen) ∧
      Chain.sights (head :: c') ms = seen ∧
      Chain.sights (.passThrough :: head :: c') ms = seen.map Sight.disclaimed := by
  intro head recognizer c c' key down ms seen
  have h : Padded c c' := .insert (.keep _ (.insert (.insert (.keep _ (.keep _ .nil)))))
  have hseen : Chain.sights (head :: c) ms = seen := by decide +kernel
  obtain ⟨hbehind, hfront⟩ := pass_through_unnoticed head c ms
  refine ⟨⟨h, h.keep head, hseen⟩, (hbehind c' h).2.trans hseen, ?_⟩
  rw [← hseen]
  exact (hfront _ (h.keep head)).2

end TouchStream
