import TouchStream.Timers

/-!
# The queue of timers

What the operations do to the pending timers, said once for every use of the queue,
and what is needed about times for it.

* `isPending_disarm`, `isPending_arm`: which kinds are pending after an operation.
* `takeDue_eq_some`: the timer that is taken out is pending and due, and its kind is
  disarmed.
* `takeDue_of_le`: a timer that goes first among those due at a time goes first at
  every later time, so the order of firing does not depend on how often the queue is
  looked at.
* `size_disarm_lt`: taking a timer out leaves fewer.
* `nextDeadline_lt_iff`: a deadline before a time is pending exactly when the earliest
  one is before it.
-/

namespace TouchStream

/-! ## Times -/

namespace Micros

theorem le_sub_one_iff {t time d : Micros} (h : t < time) : d ≤ time - 1 ↔ d < time := by
  have hlt : t.toNat < time.toNat := UInt64.lt_iff_toNat_lt.mp h
  have hone : (1 : Micros).toNat = 1 := rfl
  have hle : (1 : Micros) ≤ time := by
    rw [UInt64.le_iff_toNat_le, hone]
    omega
  rw [UInt64.le_iff_toNat_le, UInt64.lt_iff_toNat_lt, UInt64.toNat_sub_of_le _ _ hle, hone]
  omega

theorem le_last (t : Micros) : t ≤ last := by
  have h := t.toNat_lt
  rw [UInt64.le_iff_toNat_le, toNat_last]
  omega

theorem max_eq_right {s t : Micros} (h : s ≤ t) : max s t = t := if_pos h

theorem le_max_left (s t : Micros) : s ≤ max s t := by
  show s ≤ if s ≤ t then t else s
  split
  · assumption
  · exact UInt64.le_refl s

theorem le_max_right (s t : Micros) : t ≤ max s t := by
  show t ≤ if s ≤ t then t else s
  split
  · exact UInt64.le_refl t
  · rename_i h
    exact UInt64.le_of_lt (UInt64.not_le.mp h)

theorem max_lt {s t u : Micros} (hs : s < u) (ht : t < u) : max s t < u := by
  show (if s ≤ t then t else s) < u
  split
  · exact ht
  · exact hs

theorem max_sub_one {d time : Micros} (h : d < time) : max time (time - 1) = time := by
  show (if time ≤ time - 1 then time - 1 else time) = time
  apply if_neg
  rw [le_sub_one_iff h]
  exact UInt64.lt_irrefl time

end Micros

/-! ## The timer that goes first -/

namespace PendingTimer

variable {κ : Type}

theorem first?_eq_none_iff {ts : List (PendingTimer κ)} : first? ts = none ↔ ts = [] := by
  cases ts with
  | nil => simp [first?]
  | cons t ts =>
    simp only [first?]
    split <;> simp

theorem mem_of_first? {ts : List (PendingTimer κ)} {t : PendingTimer κ}
    (h : first? ts = some t) : t ∈ ts := by
  induction ts generalizing t with
  | nil => cases h
  | cons a ts ih =>
    simp only [first?] at h
    split at h
    · cases h
      exact List.mem_cons_self
    · rename_i s hs
      cases h
      split
      · exact List.mem_cons_of_mem _ (ih hs)
      · exact List.mem_cons_self

theorem before_of_deadline_lt {s t : PendingTimer κ} (h : s.deadline < t.deadline) :
    s.before t = true := by
  simp [before, h]

theorem not_before_of_deadline_lt {s t : PendingTimer κ} (h : t.deadline < s.deadline) :
    s.before t = false := by
  have h1 : ¬ s.deadline < t.deadline := UInt64.lt_asymm h
  have h2 : s.deadline ≠ t.deadline := (UInt64.ne_of_lt h).symm
  simp [before, h1, h2]

/-- Timers that are due only later do not change which timer goes first among those
that are due now, and where none is due now, whatever goes first later is due after
now. -/
theorem first?_filter_of_le {ts : List (PendingTimer κ)} {now later : Micros} (h : now ≤ later) :
    match first? (ts.filter (·.deadline ≤ now)) with
    | some s => first? (ts.filter (·.deadline ≤ later)) = some s
    | none => ∀ s, first? (ts.filter (·.deadline ≤ later)) = some s → now < s.deadline := by
  induction ts with
  | nil => simp [first?]
  | cons t ts ih =>
    by_cases hnow : t.deadline ≤ now
    · have hlater : t.deadline ≤ later := UInt64.le_trans hnow h
      simp only [List.filter_cons, hnow, hlater, decide_true, if_true, first?]
      cases hs : first? (ts.filter (·.deadline ≤ now)) with
      | some s =>
        rw [hs] at ih
        simp only [ih]
      | none =>
        rw [hs] at ih
        cases hl : first? (ts.filter (·.deadline ≤ later)) with
        | none => rfl
        | some s =>
          -- what is due only later does not go before `t`
          have hlt : t.deadline < s.deadline := UInt64.lt_of_le_of_lt hnow (ih s hl)
          simp [not_before_of_deadline_lt hlt]
    · have hgt : now < t.deadline := UInt64.not_le.mp hnow
      simp only [List.filter_cons, hnow, decide_false, Bool.false_eq_true, if_false]
      by_cases hlater : t.deadline ≤ later
      · simp only [hlater, decide_true, if_true, first?]
        cases hs : first? (ts.filter (·.deadline ≤ now)) with
        | some s =>
          rw [hs] at ih
          have hdue : s.deadline ≤ now := by
            have hmem := mem_of_first? hs
            simpa using (List.mem_filter.mp hmem).2
          have hlt : s.deadline < t.deadline := UInt64.lt_of_le_of_lt hdue hgt
          simp [ih, before_of_deadline_lt hlt]
        | none =>
          rw [hs] at ih
          intro s h1
          split at h1
          · cases h1
            exact hgt
          · rename_i u hu
            cases h1
            split
            · exact ih u hu
            · exact hgt
      · simpa only [hlater, decide_false, Bool.false_eq_true, if_false] using ih

end PendingTimer

namespace Timers

variable {κ : Type} {q q' : Timers κ} {t : PendingTimer κ} {now later : Micros}

/-! ## The earliest deadline -/

theorem nextDeadline_cons (t : PendingTimer κ) (ts : List (PendingTimer κ)) (n : Nat) :
    (⟨t :: ts, n⟩ : Timers κ).nextDeadline =
      earlierDeadline (some t.deadline) (⟨ts, n⟩ : Timers κ).nextDeadline := rfl

theorem nextDeadline_eq_none_iff : q.nextDeadline = none ↔ q.pending = [] := by
  obtain ⟨pending, armed⟩ := q
  cases pending with
  | nil => simp [nextDeadline]
  | cons t ts =>
    rw [nextDeadline_cons]
    cases (⟨ts, armed⟩ : Timers κ).nextDeadline <;> simp [earlierDeadline]

theorem exists_mem_of_nextDeadline {d : Micros} (h : q.nextDeadline = some d) :
    ∃ t ∈ q.pending, t.deadline = d := by
  obtain ⟨pending, armed⟩ := q
  induction pending generalizing d with
  | nil => simp [nextDeadline] at h
  | cons t ts ih =>
    rw [nextDeadline_cons] at h
    cases hs : (⟨ts, armed⟩ : Timers κ).nextDeadline with
    | none =>
      rw [hs] at h
      cases h
      exact ⟨t, List.mem_cons_self, rfl⟩
    | some e =>
      rw [hs] at h
      simp only [earlierDeadline, Option.some.injEq] at h
      rcases Std.min_eq_or (a := t.deadline) (b := e) with he | he
      · exact ⟨t, List.mem_cons_self, he.symm.trans h⟩
      · obtain ⟨u, hu, hue⟩ := ih hs
        exact ⟨u, List.mem_cons_of_mem _ hu, hue.trans (he.symm.trans h)⟩

theorem nextDeadline_le_of_mem (h : t ∈ q.pending) :
    ∃ d, q.nextDeadline = some d ∧ d ≤ t.deadline := by
  obtain ⟨pending, armed⟩ := q
  induction pending with
  | nil => cases h
  | cons s ts ih =>
    rw [nextDeadline_cons]
    rcases List.mem_cons.mp h with rfl | hmem
    · cases (⟨ts, armed⟩ : Timers κ).nextDeadline with
      | none => exact ⟨t.deadline, rfl, UInt64.le_refl _⟩
      | some e => exact ⟨min t.deadline e, rfl, Std.min_le_left⟩
    · obtain ⟨d, hd, hle⟩ := ih hmem
      rw [hd]
      exact ⟨min s.deadline d, rfl, UInt64.le_trans Std.min_le_right hle⟩

theorem nextDeadline_eq_some_iff {d : Micros} :
    q.nextDeadline = some d ↔
      (∃ t ∈ q.pending, t.deadline = d) ∧ ∀ t ∈ q.pending, d ≤ t.deadline := by
  constructor
  · intro h
    refine ⟨exists_mem_of_nextDeadline h, fun t ht => ?_⟩
    obtain ⟨d', hd', hle⟩ := nextDeadline_le_of_mem ht
    cases h.symm.trans hd'
    exact hle
  · rintro ⟨⟨t, ht, rfl⟩, hleast⟩
    obtain ⟨d', hd', hle⟩ := nextDeadline_le_of_mem ht
    obtain ⟨t', ht', rfl⟩ := exists_mem_of_nextDeadline hd'
    rw [hd', UInt64.le_antisymm hle (hleast t' ht')]

theorem nextDeadline_lt_iff {time : Micros} :
    (∃ d, q.nextDeadline = some d ∧ d < time) ↔ ∃ t ∈ q.pending, t.deadline < time := by
  constructor
  · rintro ⟨d, hd, hlt⟩
    obtain ⟨t, hmem, rfl⟩ := exists_mem_of_nextDeadline hd
    exact ⟨t, hmem, hlt⟩
  · rintro ⟨t, hmem, hlt⟩
    obtain ⟨d, hd, hle⟩ := nextDeadline_le_of_mem hmem
    exact ⟨d, hd, UInt64.lt_of_le_of_lt hle hlt⟩

/-- What goes first among the timers that are due goes first among all. -/
theorem first?_of_firstDue (h : q.firstDue now = some t) :
    PendingTimer.first? q.pending = some t := by
  have hall : q.pending.filter (·.deadline ≤ .last) = q.pending := by
    apply List.filter_eq_self.mpr
    intro t' _
    simpa using Micros.le_last t'.deadline
  have hlater := @PendingTimer.first?_filter_of_le κ q.pending now .last (Micros.le_last now)
  rw [firstDue] at h
  rw [h, hall] at hlater
  exact hlater

variable [DecidableEq κ]

/-! ## What is pending -/

theorem isPending_iff {a : κ} : q.isPending a = true ↔ ∃ t ∈ q.pending, t.kind = a := by
  simp [isPending]

@[simp] theorem isPending_disarm (q : Timers κ) (a b : κ) :
    (q.disarm a).isPending b = (decide (b ≠ a) && q.isPending b) := by
  rw [Bool.eq_iff_iff, Bool.and_eq_true, isPending_iff, isPending_iff, decide_eq_true_iff]
  simp only [disarm, List.mem_filter, decide_eq_true_iff]
  constructor
  · rintro ⟨t, ⟨hmem, hne⟩, rfl⟩
    exact ⟨hne, t, hmem, rfl⟩
  · rintro ⟨hne, t, hmem, rfl⟩
    exact ⟨t, ⟨hmem, hne⟩, rfl⟩

@[simp] theorem isPending_arm (q : Timers κ) (a b : κ) (d : Micros) :
    (q.arm a d).isPending b = (decide (b = a) || q.isPending b) := by
  have h : (q.arm a d).isPending b = ((q.disarm a).isPending b || decide (a = b)) := by
    simp [isPending, arm]
  rw [h, isPending_disarm]
  by_cases hb : b = a
  · simp [hb]
  · simp [hb, Ne.symm hb]

theorem isPending_of_mem (h : t ∈ q.pending) : q.isPending t.kind = true :=
  isPending_iff.mpr ⟨t, h, rfl⟩

theorem isPending_eq_false_of_nil (h : q.pending = []) (a : κ) : q.isPending a = false := by
  simp [isPending, h]

theorem mem_pending_disarm {a : κ} : t ∈ (q.disarm a).pending ↔ t ∈ q.pending ∧ t.kind ≠ a := by
  simp [disarm]

theorem mem_pending_arm {a : κ} {d : Micros} :
    t ∈ (q.arm a d).pending ↔ t ∈ q.pending ∧ t.kind ≠ a ∨ t = ⟨a, d, q.armed⟩ := by
  rw [arm, List.mem_append, List.mem_singleton]
  exact or_congr mem_pending_disarm Iff.rfl

/-- Pending timers of one kind are one timer. -/
def Distinct (q : Timers κ) : Prop :=
  ∀ t ∈ q.pending, ∀ t' ∈ q.pending, t.kind = t'.kind → t = t'

theorem Distinct.disarm (h : q.Distinct) (a : κ) : (q.disarm a).Distinct := by
  intro t ht t' ht'
  exact h t (mem_pending_disarm.mp ht).1 t' (mem_pending_disarm.mp ht').1

theorem Distinct.arm (h : q.Distinct) (a : κ) (d : Micros) : (q.arm a d).Distinct := by
  intro t ht t' ht' hkind
  rcases mem_pending_arm.mp ht with ⟨hold, hne⟩ | rfl
  · rcases mem_pending_arm.mp ht' with ⟨hold', -⟩ | rfl
    · exact h t hold t' hold' hkind
    · exact absurd hkind hne
  · rcases mem_pending_arm.mp ht' with ⟨-, hne⟩ | rfl
    · exact absurd hkind.symm hne
    · rfl

/-- To disarm the kind of a pending timer takes out that timer and no other. -/
theorem Distinct.pending_disarm (h : q.Distinct) (ht : t ∈ q.pending) :
    (q.disarm t.kind).pending = q.pending.filter (· ≠ t) := by
  apply List.filter_congr
  intro u hu
  have hkind : u.kind = t.kind ↔ u = t := ⟨h u hu t ht, fun he => he ▸ rfl⟩
  rw [decide_eq_decide, Ne, hkind]

theorem size_disarm_le (q : Timers κ) (a : κ) : (q.disarm a).size ≤ q.size :=
  List.length_filter_le _ _

theorem size_disarm_lt (h : t ∈ q.pending) : (q.disarm t.kind).size < q.size :=
  List.length_filter_lt_length_iff_exists.mpr ⟨t, h, by simp⟩

/-! ## Taking out what is due -/

theorem takeDue_eq_some (h : q.takeDue now = some (t, q')) :
    t ∈ q.pending ∧ t.deadline ≤ now ∧ q' = q.disarm t.kind := by
  obtain ⟨s, hs, he⟩ := Option.map_eq_some_iff.mp h
  cases he
  have hmem := List.mem_filter.mp (PendingTimer.mem_of_first? hs)
  exact ⟨hmem.1, by simpa using hmem.2, rfl⟩

theorem takeDue_eq_none_iff :
    q.takeDue now = none ↔ ∀ t ∈ q.pending, now < t.deadline := by
  rw [takeDue, Option.map_eq_none_iff, firstDue, PendingTimer.first?_eq_none_iff,
    List.filter_eq_nil_iff]
  constructor
  · intro h t hmem
    exact UInt64.not_le.mp (by simpa using h t hmem)
  · intro h t hmem
    simpa using UInt64.not_le.mpr (h t hmem)

theorem exists_takeDue_of_nextDeadline {d : Micros} (h : q.nextDeadline = some d) (hle : d ≤ now) :
    ∃ x, q.takeDue now = some x := by
  obtain ⟨t, hmem, rfl⟩ := exists_mem_of_nextDeadline h
  cases htake : q.takeDue now with
  | none => exact absurd (takeDue_eq_none_iff.mp htake t hmem) (UInt64.not_lt.mpr hle)
  | some x => exact ⟨x, rfl⟩

theorem takeDue_of_le (hle : now ≤ later) (h : q.takeDue now = some (t, q')) :
    q.takeDue later = some (t, q') := by
  obtain ⟨s, hs, he⟩ := Option.map_eq_some_iff.mp h
  have hfirst := @PendingTimer.first?_filter_of_le κ q.pending now later hle
  rw [firstDue] at hs
  rw [hs] at hfirst
  rw [takeDue, firstDue, hfirst, Option.map_some, he]

end Timers

end TouchStream
