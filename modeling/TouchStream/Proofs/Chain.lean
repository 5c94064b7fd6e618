import TouchStream.Chain

/-!
# Signals through chains

A stage takes signals one after another, so a run of signals can be given to a chain
in parts, and reports pass every stage as they are. A plain chain has only stages
without a state: what comes out of it depends on nothing but what is put in. A chain
without recognizers has no timers, and to be told the time makes no difference to it.

* `Chain.relay_append`: the parts of a run of signals come out one after the other.
* `Chain.relay_reports`: reports come out unchanged.
* `Chain.IsUntimed.relay_time`: a chain without timers stays what it is at a time.
* `Chain.IsPlain.relay_eq`: a plain chain stays what it is.
-/

namespace TouchStream

/-! ## One stage -/

variable {σ : Type} {receive : σ → Message → Reply σ}

theorem relay_append (s : σ) (xs ys : List Signal) :
    relay receive s (xs ++ ys) =
      ((relay receive (relay receive s xs).1 ys).1,
        (relay receive s xs).2 ++ (relay receive (relay receive s xs).1 ys).2) := by
  induction xs generalizing s with
  | nil => rfl
  | cons x xs ih =>
    cases x with
    | message m => simp only [List.cons_append, relay, ih, List.append_assoc]
    | report r => simp only [List.cons_append, relay, ih]

theorem relay_reports (s : σ) (rs : List Report) :
    relay receive s (rs.map .report) = (s, rs.map .report) := by
  induction rs with
  | nil => rfl
  | cons r rs ih => simp only [List.map_cons, relay, ih]

/-- A stage whose state no message changes keeps it in every run of signals. -/
theorem relay_state {s : σ} (h : ∀ m, (receive s m).state = s) (xs : List Signal) :
    (relay receive s xs).1 = s := by
  induction xs with
  | nil => rfl
  | cons x xs ih =>
    cases x with
    | message m => simpa only [relay, h m] using ih
    | report r => simpa only [relay] using ih

namespace Chain

/-! ## All stages -/

theorem relay_append (c : Chain) (xs ys : List Signal) :
    c.relay (xs ++ ys) =
      (((c.relay xs).1.relay ys).1, (c.relay xs).2 ++ ((c.relay xs).1.relay ys).2) := by
  induction c generalizing xs ys with
  | nil => simp [relay]
  | cons stage rest ih => simp only [relay, TouchStream.relay_append, ih]

theorem relay_reports (c : Chain) (rs : List Report) : c.relay (rs.map .report) = (c, rs) := by
  induction c with
  | nil =>
    have h : ∀ rs : List Report, (rs.map Signal.report).filterMap Signal.report? = rs := by
      intro rs
      induction rs with
      | nil => rfl
      | cons r rs ih => simp only [List.map_cons, List.filterMap_cons, Signal.report?, ih]
    simp only [relay, h]
  | cons stage rest ih => simp only [relay, TouchStream.relay_reports, ih]

/-- To be sent a message is to be given it as the only signal. -/
theorem relay_message (c : Chain) (m : Message) :
    c.relay [.message m] = ((c.send m).1, (c.send m).2.2) := by
  cases c with
  | nil => rfl
  | cons stage rest => simp only [relay, send, TouchStream.relay, List.append_nil]

end Chain

/-! ## Chains without timers -/

/-- Whether a stage goes by no time of its own. -/
def Stage.isUntimed : Stage → Bool
  | .recognizer _ => false
  | _ => true

namespace Stage

variable {stage : Stage}

theorem isUntimed_receive (stage : Stage) (m : Message) :
    (stage.receive m).state.isUntimed = stage.isUntimed := by
  cases stage <;> rfl

theorem isUntimed_relay (stage : Stage) (xs : List Signal) :
    (TouchStream.relay Stage.receive stage xs).1.isUntimed = stage.isUntimed := by
  induction xs generalizing stage with
  | nil => rfl
  | cons x xs ih =>
    cases x with
    | message m => exact (ih _).trans (isUntimed_receive stage m)
    | report r => exact ih stage

theorem receive_time (h : stage.isUntimed = true) (now : Micros) :
    stage.receive (.time now) = ⟨stage, false, [.message (.time now)]⟩ := by
  cases stage with
  | recognizer r => cases h
  | passThrough => rfl
  | filter f => rfl
  | sink => rfl

theorem nextDeadline_untimed (h : stage.isUntimed = true) : stage.nextDeadline = none := by
  cases stage with
  | recognizer r => cases h
  | passThrough => rfl
  | filter f => rfl
  | sink => rfl

theorem pendingTimers_untimed (h : stage.isUntimed = true) : stage.pendingTimers = 0 := by
  cases stage with
  | recognizer r => cases h
  | passThrough => rfl
  | filter f => rfl
  | sink => rfl

end Stage

namespace Chain

/-- No stage is a recognizer. -/
def IsUntimed (c : Chain) : Prop := ∀ stage ∈ c, stage.isUntimed = true

instance (c : Chain) : Decidable c.IsUntimed := inferInstanceAs (Decidable (∀ _ ∈ c, _))

namespace IsUntimed

variable {c : Chain}

theorem relay (h : c.IsUntimed) (xs : List Signal) : IsUntimed (c.relay xs).1 := by
  induction c generalizing xs with
  | nil => exact h
  | cons stage rest ih =>
    obtain ⟨hstage, hrest⟩ := List.forall_mem_cons.mp h
    exact List.forall_mem_cons.mpr ⟨(stage.isUntimed_relay xs).trans hstage, ih hrest _⟩

/-- Nothing happens in a chain without timers when the clock moves on. -/
theorem relay_time (h : c.IsUntimed) (now : Micros) :
    c.relay [.message (.time now)] = (c, []) := by
  induction c with
  | nil => rfl
  | cons stage rest ih =>
    obtain ⟨hstage, hrest⟩ := List.forall_mem_cons.mp h
    simp only [Chain.relay, TouchStream.relay, Stage.receive_time hstage, List.append_nil,
      ih hrest]

theorem nextDeadline_eq (h : c.IsUntimed) : c.nextDeadline = none := by
  induction c with
  | nil => rfl
  | cons stage rest ih =>
    obtain ⟨hstage, hrest⟩ := List.forall_mem_cons.mp h
    show earlierDeadline stage.nextDeadline (nextDeadline rest) = none
    rw [Stage.nextDeadline_untimed hstage, ih hrest]
    rfl

theorem pendingTimers_eq (h : c.IsUntimed) : c.pendingTimers = 0 := by
  induction c with
  | nil => rfl
  | cons stage rest ih =>
    obtain ⟨hstage, hrest⟩ := List.forall_mem_cons.mp h
    show stage.pendingTimers + pendingTimers rest = 0
    rw [Stage.pendingTimers_untimed hstage, ih hrest]

end IsUntimed

end Chain

/-! ## Plain chains -/

/-- Whether a stage is one without a state. -/
def Stage.isPlain : Stage → Bool
  | .passThrough => true
  | .sink => true
  | _ => false

namespace Stage

variable {stage : Stage}

theorem eq_of_isPlain (h : stage.isPlain = true) : stage = .passThrough ∨ stage = .sink := by
  cases stage with
  | passThrough => exact Or.inl rfl
  | sink => exact Or.inr rfl
  | filter f => cases h
  | recognizer r => cases h

theorem isUntimed_of_isPlain (h : stage.isPlain = true) : stage.isUntimed = true := by
  rcases eq_of_isPlain h with rfl | rfl <;> rfl

theorem receive_plain (h : stage.isPlain = true) (m : Message) :
    (stage.receive m).state = stage := by
  rcases eq_of_isPlain h with rfl | rfl <;> rfl

/-- A plain stage passes a message on, but for the events that come to a sink. It delivers them. -/
theorem out_plain (h : stage.isPlain = true) (m : Message) :
    (stage = .sink ∧ ∃ e, m = .event e ∧ (stage.receive m).out = [.report (.delivered e)]) ∨
      (stage = .sink → ∀ e, m ≠ .event e) ∧ (stage.receive m).out = [.message m] := by
  rcases eq_of_isPlain h with rfl | rfl
  · exact Or.inr ⟨nofun, rfl⟩
  · cases m with
    | event e => cases e <;> exact Or.inl ⟨rfl, _, rfl, rfl⟩
    | time now => exact Or.inr ⟨fun _ _ => nofun, rfl⟩
    | clear source => exact Or.inr ⟨fun _ _ => nofun, rfl⟩
    | destroy => exact Or.inr ⟨fun _ _ => nofun, rfl⟩

end Stage

namespace Chain

/-- Every stage is one without a state. -/
def IsPlain (c : Chain) : Prop := ∀ stage ∈ c, stage.isPlain = true

instance (c : Chain) : Decidable c.IsPlain := inferInstanceAs (Decidable (∀ _ ∈ c, _))

namespace IsPlain

variable {c : Chain}

theorem untimed (h : c.IsPlain) : c.IsUntimed :=
  fun stage hmem => Stage.isUntimed_of_isPlain (h stage hmem)

theorem relay_eq (h : c.IsPlain) (xs : List Signal) : (c.relay xs).1 = c := by
  induction c generalizing xs with
  | nil => rfl
  | cons stage rest ih =>
    obtain ⟨hstage, hrest⟩ := List.forall_mem_cons.mp h
    simp only [relay, relay_state (Stage.receive_plain hstage), ih hrest]

end IsPlain

end Chain

end TouchStream
