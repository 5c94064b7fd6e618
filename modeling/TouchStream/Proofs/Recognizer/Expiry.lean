import TouchStream.Proofs.Recognizer.Timing

/-!
# Firing what is due

A recognizer that is told the time takes out the first timer that is due and fires it, and does
so again until none is due. An expiry may disarm a timer that has not fired yet, but it arms
none, so this comes to an end.

* `Drains`: the loop, with the timers that it fires, its last state and its decisions.
* `drains_iff`: it ends, and in one way.
* `Cancels`: the expiry of one timer disarms another.
* `Spent`: what becomes of the timers that were pending.
* `Drains.spent`: this holds of every end of the loop.
-/

namespace TouchStream

/-! ## Disarming alone -/

namespace Timers

variable {κ : Type} [DecidableEq κ] {q q' : Timers κ}

/-- Where nothing is armed, nothing new is pending. -/
theorem Rearmed.none_armed (h : Rearmed (fun _ => False) q q') :
    q'.pending.Sublist q.pending ∧ q'.armed = q.armed := by
  induction h with
  | refl => exact ⟨List.Sublist.refl _, rfl⟩
  | disarm h a ih => exact ⟨List.filter_sublist.trans ih.1, ih.2⟩
  | arm h a hd ih => exact hd.elim

end Timers

namespace Recognizer

variable {r : Recognizer} {now : Micros} {t : PendingTimer RecognizerTimer}
  {ts : List (PendingTimer RecognizerTimer)} {out : Recognizer × List Decision}

open Timers (Rearmed)

/-! ## The loop -/

/-- The loop that fires what is due: the timers that it takes out, one after another, and its
last state with all that is decided. -/
inductive Drains (now : Micros) :
    Recognizer → List (PendingTimer RecognizerTimer) → Recognizer × List Decision → Prop
  | done {r : Recognizer} (h : r.timers.takeDue now = none) : Drains now r [] (r, [])
  | fire {r : Recognizer} {t : PendingTimer RecognizerTimer} {timers : Timers RecognizerTimer}
      {ts : List (PendingTimer RecognizerTimer)} {out : Recognizer × List Decision}
      (h : r.timers.takeDue now = some (t, timers))
      (rest : Drains now ({ r with timers }.fire t.kind).1 ts out) :
      Drains now r (t :: ts) (out.1, ({ r with timers }.fire t.kind).2 ++ out.2)

/-- To take a due timer out and to fire it is its expiry. -/
theorem fire_of_takeDue {timers : Timers RecognizerTimer}
    (h : r.timers.takeDue now = some (t, timers)) :
    { r with timers }.fire t.kind = r.expire t.kind := by
  obtain ⟨-, -, rfl⟩ := Timers.takeDue_eq_some h
  rfl

theorem drains_firedIn {n : Nat} (h : r.timers.size ≤ n) :
    Drains now r (firedIn now n r) (fireDue now n r) := by
  induction n generalizing r with
  | zero =>
    have hnil : r.timers.pending = [] := List.eq_nil_of_length_eq_zero (Nat.le_zero.mp h)
    apply Drains.done
    rw [Timers.takeDue_eq_none_iff, hnil]
    exact List.forall_mem_nil _
  | succ n ih =>
    cases hd : r.timers.firstDue now with
    | none =>
      have htake : r.timers.takeDue now = none := by rw [Timers.takeDue, hd, Option.map_none]
      rw [firedIn, hd, fireDue_succ, htake]
      exact .done htake
    | some t =>
      have htake : r.timers.takeDue now = some (t, r.timers.disarm t.kind) := by
        rw [Timers.takeDue, hd, Option.map_some]
      have hfewer := size_expire_lt (Timers.takeDue_eq_some htake).1
      have hrest : Drains now (r.expire t.kind).1 (firedIn now n (r.expire t.kind).1)
          (fireDue now n (r.expire t.kind).1) := ih (by omega)
      rw [firedIn, hd, fireDue_succ, htake]
      exact .fire htake hrest

/-- The loop comes to an end. -/
theorem drains_advance (r : Recognizer) (now : Micros) :
    Drains now r (r.fired now) (r.advance now) :=
  drains_firedIn (Nat.le_refl _)

namespace Drains

theorem unique {ts' : List (PendingTimer RecognizerTimer)} {out' : Recognizer × List Decision}
    (h : Drains now r ts out) (h' : Drains now r ts' out') : ts' = ts ∧ out' = out := by
  induction h generalizing ts' out' with
  | done hnone =>
    cases h' with
    | done _ => exact ⟨rfl, rfl⟩
    | fire hsome _ => cases hnone.symm.trans hsome
  | fire hsome _ ih =>
    cases h' with
    | done hnone => cases hsome.symm.trans hnone
    | fire hsome' rest =>
      cases hsome.symm.trans hsome'
      obtain ⟨rfl, rfl⟩ := ih rest
      exact ⟨rfl, rfl⟩

theorem none_due (h : Drains now r ts out) : out.1.timers.takeDue now = none := by
  induction h with
  | done hnone => exact hnone
  | fire _ _ ih => exact ih

end Drains

/-- The loop ends, and in one way. -/
theorem drains_iff : Drains now r ts out ↔ ts = r.fired now ∧ out = r.advance now := by
  constructor
  · exact (drains_advance r now).unique
  · rintro ⟨rfl, rfl⟩
    exact drains_advance r now

/-! ## What becomes of the timers -/

/-- What is pending after an expiry was pending before, and is of another kind. -/
theorem mem_expire {k : RecognizerTimer} (h : t ∈ (r.expire k).1.timers.pending) :
    t ∈ r.timers.pending ∧ t.kind ≠ k :=
  Timers.mem_pending_disarm.mp
    (((rearmed_expired (P := fun _ => False) .refl).mem_pending h).resolve_right id)

theorem mem_expireAll (h : t ∈ (r.expireAll ts).1.timers.pending) : t ∈ r.timers.pending := by
  induction ts generalizing r with
  | nil => exact h
  | cons t' ts ih => exact (mem_expire (ih h)).1

/-- Among timers that are fired one after another, the expiry of one disarms another that was
still pending then. -/
def Cancels (r : Recognizer) (ts : List (PendingTimer RecognizerTimer))
    (t : PendingTimer RecognizerTimer) : Prop :=
  ∃ before t' after, ts = before ++ t' :: after ∧ t'.kind ≠ t.kind ∧
    t ∈ (r.expireAll before).1.timers.pending ∧
    t ∉ (r.expireAll (before ++ [t'])).1.timers.pending

theorem cancels_cons {t' : PendingTimer RecognizerTimer} (ht : t ∈ r.timers.pending) :
    r.Cancels (t' :: ts) t ↔
      (t'.kind ≠ t.kind ∧ t ∉ (r.expire t'.kind).1.timers.pending) ∨
        (r.expire t'.kind).1.Cancels ts t := by
  constructor
  · rintro ⟨before, t'', after, hsplit, hkind, hbefore, hafter⟩
    cases before with
    | nil =>
      cases hsplit
      exact Or.inl ⟨hkind, hafter⟩
    | cons first before =>
      cases hsplit
      exact Or.inr ⟨before, t'', after, rfl, hkind, hbefore, hafter⟩
  · rintro (⟨hkind, hgone⟩ | ⟨before, t'', after, rfl, hkind, hbefore, hafter⟩)
    · exact ⟨[], t', ts, rfl, hkind, ht, hgone⟩
    · exact ⟨t' :: before, t'', after, rfl, hkind, hbefore, hafter⟩

/-- What becomes of the timers that are pending when a recognizer is told the time: some that
are due fire, each kind once, and those that are due and do not fire are cancelled by one that
does. No timer is armed, and none that is due is left. -/
structure Spent (now : Micros) (r : Recognizer) (ts : List (PendingTimer RecognizerTimer))
    (r' : Recognizer) : Prop where
  due : ∀ t ∈ ts, t ∈ r.timers.pending ∧ t.deadline ≤ now
  once : ts.Pairwise fun t t' => t.kind ≠ t'.kind
  cancelled : ∀ t ∈ r.timers.pending, t.deadline ≤ now → (t ∉ ts ↔ r.Cancels ts t)
  left : r'.timers.pending.Sublist r.timers.pending
  none_armed : r'.timers.armed = r.timers.armed
  none_due : ∀ t ∈ r'.timers.pending, now < t.deadline

namespace Drains

theorem none_armed (h : Drains now r ts out) :
    out.1.timers.pending.Sublist r.timers.pending ∧ out.1.timers.armed = r.timers.armed := by
  induction h with
  | done _ => exact ⟨List.Sublist.refl _, rfl⟩
  | @fire r t timers ts out htake _ ih =>
    rw [fire_of_takeDue htake] at ih
    obtain ⟨hleft, harmed⟩ := (rearmed_expire r t.kind).none_armed
    exact ⟨ih.1.trans hleft, ih.2.trans harmed⟩

theorem due (h : Drains now r ts out) : ∀ t ∈ ts, t ∈ r.timers.pending ∧ t.deadline ≤ now := by
  induction h with
  | done _ => exact List.forall_mem_nil _
  | @fire r t timers ts out htake _ ih =>
    obtain ⟨hmem, hdue, -⟩ := Timers.takeDue_eq_some htake
    rw [fire_of_takeDue htake] at ih
    refine List.forall_mem_cons.mpr ⟨⟨hmem, hdue⟩, fun t' ht' => ?_⟩
    exact ⟨(mem_expire (ih t' ht').1).1, (ih t' ht').2⟩

theorem once (h : Drains now r ts out) : ts.Pairwise fun t t' => t.kind ≠ t'.kind := by
  induction h with
  | done _ => exact .nil
  | fire htake rest ih =>
    refine List.pairwise_cons.mpr ⟨fun t' ht' => ?_, ih⟩
    have hpending := (rest.due t' ht').1
    rw [fire_of_takeDue htake] at hpending
    exact (mem_expire hpending).2.symm

/-- A timer that is due fires, or else it is one that fires that disarms it. -/
theorem cancelled (h : Drains now r ts out) (hone : r.timers.Distinct)
    (ht : t ∈ r.timers.pending) (hdue : t.deadline ≤ now) : t ∉ ts ↔ r.Cancels ts t := by
  induction h with
  | done hnone =>
    have hlate := Timers.takeDue_eq_none_iff.mp hnone t ht
    exact absurd hdue (UInt64.not_le.mpr hlate)
  | @fire r t' timers ts out htake rest ih =>
    rw [fire_of_takeDue htake] at ih rest
    obtain ⟨ht', -, -⟩ := Timers.takeDue_eq_some htake
    rw [cancels_cons ht]
    by_cases hkind : t'.kind = t.kind
    · -- the timer itself fires, and is pending no more
      have hsame : t' = t := hone t' ht' t ht hkind
      have hnot : ¬ (r.expire t'.kind).1.Cancels ts t := by
        rintro ⟨before, -, -, -, -, hbefore, -⟩
        exact (mem_expire (mem_expireAll hbefore)).2 hkind.symm
      simp only [hsame] at hnot ⊢
      simp [hnot]
    · have hne : t ≠ t' := fun he => hkind (he ▸ rfl)
      by_cases hpending : t ∈ (r.expire t'.kind).1.timers.pending
      · have hdistinct := (rearmed_expire r t'.kind).distinct hone
        simp [hne, hpending, ih hdistinct hpending]
      · have hnot : t ∉ ts := fun h => hpending (rest.due t h).1
        simp [hne, hkind, hpending, hnot]

theorem spent (h : Drains now r ts out) (hone : r.timers.Distinct) : Spent now r ts out.1 where
  due := h.due
  once := h.once
  cancelled := fun _ ht hdue => h.cancelled hone ht hdue
  left := h.none_armed.1
  none_armed := h.none_armed.2
  none_due := Timers.takeDue_eq_none_iff.mp h.none_due

end Drains

end Recognizer

end TouchStream
