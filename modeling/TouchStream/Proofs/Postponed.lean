import Mathlib.Data.List.Forall2
import TouchStream.Proofs.Timers
import TouchStream.Signal

/-!
# The same, some time later

Two things are related by `Postponed c room` when the second is the first with `c` added to
every time in it, and `room` could be added to its times before the range ends. Without room
a deadline could stop at the last time, and two deadlines could fall together that lay apart.

* `Micros.Postponed`: times. They compare as before, and the spans between them are the same.
* `Timers.Postponed`: queues of timers. The same timer is taken out, at a time that is
  postponed as well.
* `Sample.Postponed`, `Message.Postponed`, `Report.Postponed`, `Signal.Postponed`: what is
  passed between the stages, and what comes out.
-/

namespace TouchStream

variable {c room room' : Nat}

/-! ## Times -/

namespace Micros

/-- A time is another one `c` later, and is followed by more than `room` times yet. -/
structure Postponed (c room : Nat) (t t' : Micros) : Prop where
  toNat_eq : t'.toNat = t.toNat + c
  room : t'.toNat + room ≤ last.toNat

namespace Postponed

variable {s s' t t' : Micros}

theorem tight (h : Postponed c room t t') : Postponed c 0 t t' :=
  ⟨h.toNat_eq, by have := h.room; omega⟩

theorem lt_iff (hs : Postponed c room s s') (ht : Postponed c room' t t') :
    s' < t' ↔ s < t := by
  have hs' := hs.toNat_eq
  have ht' := ht.toNat_eq
  rw [UInt64.lt_iff_toNat_lt, UInt64.lt_iff_toNat_lt]
  omega

theorem le_iff (hs : Postponed c room s s') (ht : Postponed c room' t t') :
    s' ≤ t' ↔ s ≤ t := by
  rw [← UInt64.not_lt, ← UInt64.not_lt, ht.lt_iff hs]

theorem eq_iff (hs : Postponed c room s s') (ht : Postponed c room' t t') :
    s' = t' ↔ s = t := by
  rw [← UInt64.toNat_inj, ← UInt64.toNat_inj, hs.toNat_eq, ht.toNat_eq]
  omega

theorem since_eq (hs : Postponed c room s s') (ht : Postponed c room' t t') :
    t'.since s' = t.since s := by
  rw [← UInt64.toNat_inj, toNat_since, toNat_since, hs.toNat_eq, ht.toNat_eq]
  omega

theorem later {span : Micros} (ht : Postponed c room t t') (hspan : span.toNat ≤ room) :
    Postponed c 0 (t.later span) (t'.later span) := by
  have heq := ht.toNat_eq
  have hle := ht.room
  rw [toNat_last] at hle
  constructor
  · rw [toNat_later, toNat_later]
    omega
  · rw [toNat_later, toNat_last]
    omega

theorem max (hs : Postponed c room s s') (ht : Postponed c room t t') :
    Postponed c room (max s t) (max s' t') := by
  show Postponed c room (if s ≤ t then t else s) (if s' ≤ t' then t' else s')
  by_cases h : s ≤ t
  · rw [if_pos h, if_pos ((hs.le_iff ht).mpr h)]
    exact ht
  · rw [if_neg h, if_neg (mt (hs.le_iff ht).mp h)]
    exact hs

theorem min (hs : Postponed c room s s') (ht : Postponed c room t t') :
    Postponed c room (min s t) (min s' t') := by
  show Postponed c room (if s ≤ t then s else t) (if s' ≤ t' then s' else t')
  by_cases h : s ≤ t
  · rw [if_pos h, if_pos ((hs.le_iff ht).mpr h)]
    exact hs
  · rw [if_neg h, if_neg (mt (hs.le_iff ht).mp h)]
    exact ht

/-- A time that something lies before has a time before it. -/
theorem sub_one {d : Micros} (hd : d < t) (ht : Postponed c room t t') :
    Postponed c 0 (t - 1) (t' - 1) := by
  have heq := ht.toNat_eq
  have hle := ht.room
  have hlt := UInt64.lt_iff_toNat_lt.mp hd
  have hone : (1 : Micros).toNat = 1 := rfl
  have hsub (u : Micros) (hu : 0 < u.toNat) : (u - 1).toNat = u.toNat - 1 := by
    have hone_le : (1 : Micros) ≤ u := by
      rw [UInt64.le_iff_toNat_le, hone]
      omega
    rw [UInt64.toNat_sub_of_le _ _ hone_le, hone]
  constructor
  · rw [hsub t (by omega), hsub t' (by omega)]
    omega
  · rw [hsub t' (by omega)]
    omega

end Postponed

end Micros

theorem earlierDeadline_postponed {a a' b b' : Option Micros}
    (ha : Option.Rel (Micros.Postponed c 0) a a') (hb : Option.Rel (Micros.Postponed c 0) b b') :
    Option.Rel (Micros.Postponed c 0) (earlierDeadline a b) (earlierDeadline a' b') := by
  cases ha with
  | none =>
    cases hb with
    | none => exact .none
    | some hb => exact .some hb
  | some ha =>
    cases hb with
    | none => exact .some ha
    | some hb => exact .some (ha.min hb)

/-! ## Timers -/

namespace PendingTimer

variable {κ : Type}

/-- The same timer with a deadline `c` later. -/
def Postponed (c : Nat) (t t' : PendingTimer κ) : Prop :=
  ∃ deadline, Micros.Postponed c 0 t.deadline deadline ∧ t' = { t with deadline }

variable {s s' t t' : PendingTimer κ} {ts ts' : List (PendingTimer κ)} {now now' : Micros}

theorem Postponed.deadline (h : Postponed c t t') :
    Micros.Postponed c 0 t.deadline t'.deadline := by
  obtain ⟨d, hd, rfl⟩ := h
  exact hd

theorem Postponed.kind_eq (h : Postponed c t t') : t'.kind = t.kind := by
  obtain ⟨d, -, rfl⟩ := h
  rfl

theorem Postponed.before_eq (hs : Postponed c s s') (ht : Postponed c t t') :
    s'.before t' = s.before t := by
  obtain ⟨d, hd, rfl⟩ := hs
  obtain ⟨e, he, rfl⟩ := ht
  show (decide (d < e) || (d == e && decide (s.order < t.order))) = s.before t
  have hbeq : (d == e) = (s.deadline == t.deadline) := by
    rw [Bool.eq_iff_iff, beq_iff_eq, beq_iff_eq]
    exact hd.eq_iff he
  rw [decide_eq_decide.mpr (hd.lt_iff he), hbeq]
  rfl

theorem first?_postponed (h : List.Forall₂ (Postponed c) ts ts') :
    Option.Rel (Postponed c) (first? ts) (first? ts') := by
  induction h with
  | nil => exact .none
  | cons ht _ ih =>
    simp only [first?]
    revert ih
    generalize first? _ = a, first? _ = a'
    intro ih
    cases ih with
    | none => exact .some ht
    | some hs =>
      dsimp only
      rw [hs.before_eq ht]
      split
      · exact .some hs
      · exact .some ht

theorem due_postponed (hnow : Micros.Postponed c room now now')
    (h : List.Forall₂ (Postponed c) ts ts') :
    List.Forall₂ (Postponed c) (ts.filter (·.deadline ≤ now)) (ts'.filter (·.deadline ≤ now')) := by
  refine List.rel_filter ?_ h
  intro t t' ht
  simp only [decide_eq_true_eq]
  exact (ht.deadline.le_iff hnow).symm

end PendingTimer

namespace Timers

variable {κ : Type} {q q' : Timers κ} {now now' d d' : Micros}

/-- The same timers, armed in the same order, with deadlines `c` later. -/
structure Postponed (c : Nat) (q q' : Timers κ) : Prop where
  pending : List.Forall₂ (PendingTimer.Postponed c) q.pending q'.pending
  armed_eq : q'.armed = q.armed

namespace Postponed

theorem of_nil (h : q.pending = []) : Postponed c q q := ⟨by rw [h]; exact .nil, rfl⟩

theorem size_eq (h : Postponed c q q') : q'.size = q.size := h.pending.length_eq.symm

theorem nextDeadline (h : Postponed c q q') :
    Option.Rel (Micros.Postponed c 0) q.nextDeadline q'.nextDeadline := by
  obtain ⟨pending, armed⟩ := q
  obtain ⟨pending', armed'⟩ := q'
  have hpending := h.pending
  clear h
  simp only [Timers.nextDeadline] at *
  induction hpending with
  | nil => exact .none
  | cons ht _ ih => exact earlierDeadline_postponed (.some ht.deadline) ih

theorem disarmAll (h : Postponed c q q') : Postponed c q.disarmAll q'.disarmAll :=
  ⟨.nil, h.armed_eq⟩

variable [DecidableEq κ]

theorem isPending_eq (h : Postponed c q q') (a : κ) : q'.isPending a = q.isPending a := by
  obtain ⟨pending, armed⟩ := q
  obtain ⟨pending', armed'⟩ := q'
  have hpending := h.pending
  clear h
  simp only [isPending] at *
  induction hpending with
  | nil => rfl
  | cons ht _ ih => simp only [List.any_cons, ht.kind_eq, ih]

theorem disarm (h : Postponed c q q') (a : κ) : Postponed c (q.disarm a) (q'.disarm a) where
  pending := by
    refine List.rel_filter ?_ h.pending
    intro t t' ht
    simp only [ht.kind_eq]
  armed_eq := h.armed_eq

theorem arm (h : Postponed c q q') (a : κ) (hd : Micros.Postponed c 0 d d') :
    Postponed c (q.arm a d) (q'.arm a d') where
  pending := by
    refine List.rel_append (h.disarm a).pending (.cons ⟨d', hd, ?_⟩ .nil)
    rw [h.armed_eq]
  armed_eq := congrArg (· + 1) h.armed_eq

theorem takeDue (h : Postponed c q q') (hnow : Micros.Postponed c room now now') :
    Option.Rel (fun x x' => PendingTimer.Postponed c x.1 x'.1 ∧ Postponed c x.2 x'.2)
      (q.takeDue now) (q'.takeDue now') := by
  have hfirst := PendingTimer.first?_postponed (PendingTimer.due_postponed hnow h.pending)
  simp only [Timers.takeDue, firstDue]
  revert hfirst
  generalize PendingTimer.first? _ = a, PendingTimer.first? _ = a'
  intro hfirst
  cases hfirst with
  | none => exact .none
  | some ht =>
    refine .some ⟨ht, ?_⟩
    dsimp only
    rw [ht.kind_eq]
    exact h.disarm _

end Postponed

end Timers

/-! ## Events -/

/-- The same sample, `c` later. -/
def Sample.Postponed (c room : Nat) (s s' : Sample) : Prop :=
  ∃ time, Micros.Postponed c room s.time time ∧ s' = { s with time }

namespace Sample.Postponed

variable {s s' : Sample}

theorem time (h : Postponed c room s s') : Micros.Postponed c room s.time s'.time := by
  obtain ⟨t, ht, rfl⟩ := h
  exact ht

theorem withAction (h : Postponed c room s s') (a : PointerAction) :
    Postponed c room (s.withAction a) (s'.withAction a) := by
  obtain ⟨t, ht, rfl⟩ := h
  exact ⟨t, ht, rfl⟩

end Sample.Postponed

/-- The same event, `c` later. -/
inductive Event.Postponed (c room : Nat) : Event → Event → Prop
  | pointer {s s' : Sample} (h : s.Postponed c room s') : Postponed c room (.pointer s) (.pointer s')
  | key {k : KeyEvent} {time : Micros} (h : k.time.Postponed c 0 time) :
    Postponed c room (.key k) (.key { k with time })
  | accessibility {a : AccessibilityEvent} {time : Micros} (h : a.time.Postponed c 0 time) :
    Postponed c room (.accessibility a) (.accessibility { a with time })

/-! ## Messages and reports -/

/-- The same message, `c` later. -/
inductive Message.Postponed (c room : Nat) : Message → Message → Prop
  | event {e e' : Event} (h : e.Postponed c room e') : Postponed c room (.event e) (.event e')
  | time {now now' : Micros} (h : now.Postponed c 0 now') :
    Postponed c room (.time now) (.time now')
  | clear (source : PointerSource) : Postponed c room (.clear source) (.clear source)
  | destroy : Postponed c room .destroy .destroy

/-- The same decision, about a sample that came `c` later. -/
inductive Decision.Postponed (c room : Nat) : Decision → Decision → Prop
  | started : Postponed c room .started .started
  | completed (g : Gesture) : Postponed c room (.completed g) (.completed g)
  | cancelled {s s' : Sample} (h : s.Postponed c room s') :
    Postponed c room (.cancelled s) (.cancelled s')
  | doubleTap {s s' : Sample} (h : s.Postponed c room s') :
    Postponed c room (.doubleTap s) (.doubleTap s')
  | longPress {s s' : Sample} (h : s.Postponed c room s') :
    Postponed c room (.longPress s) (.longPress s')

/-- The same report, of a decision or an event `c` later. -/
inductive Report.Postponed (c room : Nat) : Report → Report → Prop
  | decided {d d' : Decision} (h : d.Postponed c room d') :
    Postponed c room (.decided d) (.decided d')
  | delivered {e e' : Event} (h : e.Postponed c room e') :
    Postponed c room (.delivered e) (.delivered e')

/-- The same signal, `c` later. -/
inductive Signal.Postponed (c room : Nat) : Signal → Signal → Prop
  | message {m m' : Message} (h : m.Postponed c room m') :
    Postponed c room (.message m) (.message m')
  | report {r r' : Report} (h : r.Postponed c room r') : Postponed c room (.report r) (.report r')

/-- The same reply, and states related by `R`. -/
structure Reply.Postponed {σ : Type} (c room : Nat) (R : σ → σ → Prop) (x x' : Reply σ) :
    Prop where
  state : R x.state x'.state
  handled_eq : x'.handled = x.handled
  out : List.Forall₂ (Signal.Postponed c room) x.out x'.out

theorem samples_postponed {xs xs' : List Sample}
    (h : List.Forall₂ (Sample.Postponed c room) xs xs') :
    List.Forall₂ (Signal.Postponed c room) (xs.map .sample) (xs'.map .sample) :=
  List.rel_map (fun _ _ hs => .message (.event (.pointer hs))) h

theorem decisions_postponed {ds ds' : List Decision}
    (h : List.Forall₂ (Decision.Postponed c room) ds ds') :
    List.Forall₂ (Signal.Postponed c room) (ds.map .decision) (ds'.map .decision) :=
  List.rel_map (fun _ _ hd => .report (.decided hd)) h

theorem reports_postponed {out out' : List Signal}
    (h : List.Forall₂ (Signal.Postponed c room) out out') :
    List.Forall₂ (Report.Postponed c room) (out.filterMap Signal.report?)
      (out'.filterMap Signal.report?) := by
  induction h with
  | nil => exact .nil
  | cons hsignal _ ih =>
    cases hsignal with
    | message _ => exact ih
    | report hr => exact .cons hr ih

/-- A stage that answers messages some time later in the same way answers signals so. -/
theorem relay_postponed {σ : Type} {receive : σ → Message → Reply σ} {R : σ → σ → Prop}
    (hreceive : ∀ {x x' m m'}, R x x' → Message.Postponed c room m m' →
      Reply.Postponed c room R (receive x m) (receive x' m'))
    {x x' : σ} (hx : R x x') {signals signals' : List Signal}
    (h : List.Forall₂ (Signal.Postponed c room) signals signals') :
    R (relay receive x signals).1 (relay receive x' signals').1 ∧
      List.Forall₂ (Signal.Postponed c room) (relay receive x signals).2
        (relay receive x' signals').2 := by
  induction h generalizing x x' with
  | nil => exact ⟨hx, .nil⟩
  | cons hsignal _ ih =>
    cases hsignal with
    | message hm =>
      have hreply := hreceive hx hm
      obtain ⟨hstate, hout⟩ := ih hreply.state
      exact ⟨hstate, List.rel_append hreply.out hout⟩
    | report hr =>
      obtain ⟨hstate, hout⟩ := ih hx
      exact ⟨hstate, .cons (.report hr) hout⟩

end TouchStream
