import TouchStream.Proofs.Timers

/-!
# The queue as a map to the latest armings

What the queue answers depends only on what was last done to each kind of timer. A record of what
was done (`Recorded`) gives for each kind its latest arming, unless it was disarmed or taken out
since (`latest`), and the queue agrees with that map at any time (`Agrees`).

What is due is taken out in the order of the deadlines, and in the order of arming where these
are the same. A timer that is armed anew counts from then on. For this it is used that the
pending timers are kept in the order of arming (`Follows`).

* `Follows.call`: one call, for each thing that can be done.
* `Follows.agrees`: what the queue answers.
* `Recorded.takes`: what is taken out, however often the queue is asked.
* `agrees_latest`: all of it, for every sequence of calls on a new queue.
-/

namespace TouchStream

/-! ## Which timer goes first -/

namespace PendingTimer

variable {κ : Type} {s t u : PendingTimer κ}

theorem before_iff :
    s.before t = true ↔ s.deadline < t.deadline ∨ s.deadline = t.deadline ∧ s.order < t.order := by
  simp [before]

theorem before_trans (hst : s.before t = true) (htu : t.before u = true) : s.before u = true := by
  rw [before_iff, UInt64.lt_iff_toNat_lt, ← UInt64.toNat_inj] at *
  omega

theorem before_of_order_lt (h : s.order < t.order) (hnot : t.before s = false) :
    s.before t = true := by
  rw [Bool.eq_false_iff, Ne, before_iff, UInt64.lt_iff_toNat_lt, ← UInt64.toNat_inj] at hnot
  rw [before_iff, UInt64.lt_iff_toNat_lt, ← UInt64.toNat_inj]
  omega

/-- Of timers in the order of arming, the first one goes before every other. -/
theorem before_of_first? {ts : List (PendingTimer κ)}
    (hts : ts.Pairwise fun s t => s.order < t.order) (h : first? ts = some t) (hs : s ∈ ts)
    (hne : s ≠ t) : t.before s = true := by
  induction ts generalizing s t with
  | nil => cases hs
  | cons a ts ih =>
    obtain ⟨hlater, hrest⟩ := List.pairwise_cons.mp hts
    rw [first?] at h
    split at h
    · rename_i hnone
      rw [first?_eq_none_iff.mp hnone, List.mem_singleton] at hs
      exact absurd (hs.trans (Option.some.inj h)) hne
    · rename_i f hf
      have hfirst : ∀ s ∈ ts, s ≠ f → f.before s = true := fun s hs hne => ih hrest hf hs hne
      cases hbefore : f.before a with
      | true =>
        rw [hbefore] at h
        cases h
        rcases List.mem_cons.mp hs with rfl | hs
        · exact hbefore
        · exact hfirst s hs hne
      | false =>
        rw [hbefore] at h
        cases h
        have haf := before_of_order_lt (hlater f (mem_of_first? hf)) hbefore
        have hs := (List.mem_cons.mp hs).resolve_left hne
        by_cases hsf : s = f
        · rw [hsf]
          exact haf
        · exact before_trans haf (hfirst s hs hsf)

end PendingTimer

namespace Timers

/-! ## Calls and their record -/

/-- A call of the queue. -/
inductive Call (κ : Type)
  | arm (kind : κ) (deadline : Micros)
  | disarm (kind : κ)
  | disarmAll
  | takeDue (now : Micros)
deriving DecidableEq, Repr

/-- What was done to the queue. -/
inductive Deed (κ : Type)
  | armed (kind : κ) (deadline : Micros)
  | disarmed (kind : κ)
  | disarmedAll
  /-- The kind and the deadline of a timer were taken out, or none was due. -/
  | took (timer : Option (κ × Micros))
deriving DecidableEq, Repr

/-- A queue, and what was done to it, the last thing first. -/
structure Recorded (κ : Type) where
  queue : Timers κ
  deeds : List (Deed κ)
deriving DecidableEq, Repr

/-- The latest arming of a kind: its deadline, and how many armings came before it. -/
structure Arming where
  deadline : Micros
  order : Nat
deriving DecidableEq, Repr

variable {κ : Type}

/-- How often a timer was armed. -/
def armings : List (Deed κ) → Nat
  | [] => 0
  | .armed _ _ :: older => armings older + 1
  | .disarmed _ :: older => armings older
  | .disarmedAll :: older => armings older
  | .took _ :: older => armings older

/-- What is done when a queue is asked for the `i`-th time, where these timers are due. -/
def taken (due : List (PendingTimer κ)) (i : Nat) : Deed κ :=
  .took (due[i]?.map fun t => (t.kind, t.deadline))

/-- To ask `n + 1` times is to ask once and then `n` times more. -/
theorem taken_succ (due : List (PendingTimer κ)) (n : Nat) (deeds : List (Deed κ)) :
    ((List.range (n + 1)).map (taken due)).reverse ++ deeds =
      ((List.range n).map (taken due.tail)).reverse ++ taken due 0 :: deeds := by
  have hlater : taken due ∘ Nat.succ = taken due.tail := by
    funext i
    rw [Function.comp_apply, taken, taken, List.getElem?_tail]
  rw [List.range_succ_eq_map, List.map_cons, List.map_map, hlater, List.reverse_cons,
    List.append_assoc, List.singleton_append]

variable [DecidableEq κ]

namespace Recorded

/-- A new queue, to which nothing was done. -/
def new : Recorded κ := ⟨.empty, []⟩

/-- A call of the queue is recorded. -/
def call (r : Recorded κ) : Call κ → Recorded κ
  | .arm kind deadline => ⟨r.queue.arm kind deadline, .armed kind deadline :: r.deeds⟩
  | .disarm kind => ⟨r.queue.disarm kind, .disarmed kind :: r.deeds⟩
  | .disarmAll => ⟨r.queue.disarmAll, .disarmedAll :: r.deeds⟩
  | .takeDue now =>
    match r.queue.takeDue now with
    | none => ⟨r.queue, .took none :: r.deeds⟩
    | some (t, queue) => ⟨queue, .took (some (t.kind, t.deadline)) :: r.deeds⟩

/-- The calls of a list, one after another. -/
def run (r : Recorded κ) (calls : List (Call κ)) : Recorded κ := calls.foldl call r

end Recorded

/-- The latest arming of a kind, if it was not disarmed or taken out since. -/
def latest (kind : κ) : List (Deed κ) → Option Arming
  | [] => none
  | .armed kind' deadline :: older =>
    if kind' = kind then some ⟨deadline, armings older⟩ else latest kind older
  | .disarmed kind' :: older => if kind' = kind then none else latest kind older
  | .disarmedAll :: _ => none
  | .took none :: older => latest kind older
  | .took (some (kind', _)) :: older => if kind' = kind then none else latest kind older

variable {q : Timers κ} {t : PendingTimer κ} {deeds : List (Deed κ)} {kind : κ} {a : Arming}

theorem order_lt_armings (h : latest kind deeds = some a) : a.order < armings deeds := by
  fun_induction latest kind deeds with
  | case1 => cases h
  | case2 deadline older =>
    cases h
    exact Nat.lt_succ_self _
  | case3 kind' deadline older hne ih => exact Nat.lt_succ_of_lt (ih h)
  | case4 older => cases h
  | case5 kind' older hne ih => exact ih h
  | case6 older => cases h
  | case7 older ih => exact ih h
  | case8 deadline older => cases h
  | case9 kind' deadline older hne ih => exact ih h

/-! ## What every call keeps -/

/-- What a queue holds after what was done to it: the latest armings, in their order. -/
structure Follows (q : Timers κ) (deeds : List (Deed κ)) : Prop where
  mem_iff : ∀ t, t ∈ q.pending ↔ latest t.kind deeds = some ⟨t.deadline, t.order⟩
  armed : q.armed = armings deeds
  sorted : q.pending.Pairwise fun s t => s.order < t.order

namespace Follows

theorem new : Follows (empty : Timers κ) [] where
  mem_iff := by simp [empty, latest]
  armed := rfl
  sorted := .nil

theorem arm (h : Follows q deeds) (kind : κ) (deadline : Micros) :
    Follows (q.arm kind deadline) (.armed kind deadline :: deeds) where
  mem_iff := by
    intro t
    rw [mem_pending_arm, h.mem_iff, latest]
    split
    · rename_i hkind
      obtain ⟨kind', deadline', order⟩ := t
      simp [hkind, h.armed, eq_comm]
    · rename_i hkind
      have hne : t ≠ ⟨kind, deadline, q.armed⟩ := fun he => hkind (he ▸ rfl)
      simp [hne, Ne.symm hkind]
  armed := congrArg (· + 1) h.armed
  sorted := by
    refine List.pairwise_append.mpr ⟨h.sorted.filter _, List.pairwise_singleton _ _, ?_⟩
    intro s hs t ht
    cases List.mem_singleton.mp ht
    have hlatest := (h.mem_iff s).mp (mem_pending_disarm.mp hs).1
    rw [h.armed]
    exact order_lt_armings hlatest

/-- A kind is disarmed, by a call or because its timer is taken out. -/
theorem disarm {deed : Deed κ} (h : Follows q deeds) (kind : κ)
    (harmings : armings (deed :: deeds) = armings deeds)
    (hlatest : ∀ kind',
      latest kind' (deed :: deeds) = if kind = kind' then none else latest kind' deeds) :
    Follows (q.disarm kind) (deed :: deeds) where
  mem_iff := by
    intro t
    rw [mem_pending_disarm, h.mem_iff, hlatest]
    split
    · rename_i hkind
      simp [hkind]
    · rename_i hkind
      simp [Ne.symm hkind]
  armed := h.armed.trans harmings.symm
  sorted := h.sorted.filter _

theorem disarmAll (h : Follows q deeds) : Follows q.disarmAll (.disarmedAll :: deeds) where
  mem_iff := by simp [Timers.disarmAll, latest]
  armed := h.armed
  sorted := .nil

theorem call {r : Recorded κ} (h : Follows r.queue r.deeds) (c : Call κ) :
    Follows (r.call c).queue (r.call c).deeds := by
  cases c with
  | arm kind deadline => exact h.arm kind deadline
  | disarm kind => exact h.disarm kind rfl fun _ => rfl
  | disarmAll => exact h.disarmAll
  | takeDue now =>
    rw [Recorded.call]
    split
    · exact ⟨h.mem_iff, h.armed, h.sorted⟩
    · rename_i t queue htake
      obtain ⟨-, -, rfl⟩ := takeDue_eq_some htake
      exact h.disarm t.kind rfl fun _ => rfl

theorem run {r : Recorded κ} (h : Follows r.queue r.deeds) (calls : List (Call κ)) :
    Follows (r.run calls).queue (r.run calls).deeds := by
  induction calls generalizing r with
  | nil => exact h
  | cons c calls ih => exact ih (h.call c)

theorem distinct (h : Follows q deeds) : q.Distinct := by
  intro t ht t' ht' hkind
  have hlatest := (h.mem_iff t).mp ht
  have hlatest' := (h.mem_iff t').mp ht'
  obtain ⟨kind, deadline, order⟩ := t
  obtain ⟨kind', deadline', order'⟩ := t'
  cases hkind
  cases hlatest.symm.trans hlatest'
  rfl

/-- A kind was armed last for a deadline exactly when its timer is pending. -/
theorem latest_iff (h : Follows q deeds) :
    latest kind deeds = some a ↔ ⟨kind, a.deadline, a.order⟩ ∈ q.pending :=
  (h.mem_iff ⟨kind, a.deadline, a.order⟩).symm

theorem isPending_eq (h : Follows q deeds) (kind : κ) :
    q.isPending kind = (latest kind deeds).isSome := by
  rw [Bool.eq_iff_iff, isPending_iff, Option.isSome_iff_exists]
  constructor
  · rintro ⟨t, ht, rfl⟩
    exact ⟨_, (h.mem_iff t).mp ht⟩
  · rintro ⟨a, ha⟩
    exact ⟨_, h.latest_iff.mp ha, rfl⟩

theorem deadline_eq (h : Follows q deeds) (kind : κ) :
    q.deadline? kind = (latest kind deeds).map Arming.deadline := by
  rw [deadline?]
  cases hfind : q.pending.find? (·.kind = kind) with
  | some t =>
    have hkind : t.kind = kind := by simpa using List.find?_some hfind
    have hlatest := (h.mem_iff t).mp (List.mem_of_find?_eq_some hfind)
    rw [← hkind, hlatest]
    rfl
  | none =>
    have hnot : q.isPending kind = false := by
      rw [Bool.eq_false_iff, Ne, isPending_iff]
      rintro ⟨t, ht, hkind⟩
      exact List.find?_eq_none.mp hfind t ht (decide_eq_true hkind)
    rw [h.isPending_eq, Option.isSome_eq_false_iff, Option.isNone_iff_eq_none] at hnot
    rw [hnot]
    rfl

end Follows

/-- Disarming takes a timer out exactly when one is pending. -/
theorem disarms_eq (q : Timers κ) (kind : κ) : q.disarms kind = q.isPending kind := by
  rw [Bool.eq_iff_iff, isPending_iff, disarms, decide_eq_true_iff, size, size, disarm, Ne,
    List.length_filter_eq_length_iff]
  simp

/-! ## What the queue answers -/

/-- The queue is a map to the latest armings. -/
structure Agrees (q : Timers κ) (deeds : List (Deed κ)) : Prop where
  /-- One timer at most is pending of each kind. -/
  unique : (q.pending.map PendingTimer.kind).Nodup
  isPending : ∀ kind, q.isPending kind = (latest kind deeds).isSome
  deadline : ∀ kind, q.deadline? kind = (latest kind deeds).map Arming.deadline
  disarms : ∀ kind, q.disarms kind = (latest kind deeds).isSome
  isEmpty : q.isEmpty = true ↔ ∀ kind, latest kind deeds = none
  nextDeadline : ∀ d, q.nextDeadline = some d ↔
    (∃ kind, (latest kind deeds).map Arming.deadline = some d) ∧
      ∀ kind a, latest kind deeds = some a → d ≤ a.deadline
  /-- Timers are numbered by how many were armed. -/
  armed : q.armed = armings deeds

theorem Follows.agrees (h : Follows q deeds) : Agrees q deeds where
  unique := by
    refine List.pairwise_map.mpr (h.sorted.imp_of_mem ?_)
    intro s t hs ht hlt hkind
    rw [h.distinct s hs t ht hkind] at hlt
    exact Nat.lt_irrefl _ hlt
  isPending := h.isPending_eq
  deadline := h.deadline_eq
  disarms := fun kind => (disarms_eq q kind).trans (h.isPending_eq kind)
  isEmpty := by
    rw [isEmpty, List.isEmpty_iff, List.eq_nil_iff_forall_not_mem]
    constructor
    · intro hnone kind
      rw [Option.eq_none_iff_forall_ne_some]
      exact fun a ha => hnone _ (h.latest_iff.mp ha)
    · intro hnone t ht
      cases (hnone t.kind).symm.trans ((h.mem_iff t).mp ht)
  nextDeadline := by
    intro d
    rw [nextDeadline_eq_some_iff]
    constructor
    · rintro ⟨⟨t, ht, rfl⟩, hleast⟩
      refine ⟨⟨t.kind, ?_⟩, fun kind a ha => hleast _ (h.latest_iff.mp ha)⟩
      rw [(h.mem_iff t).mp ht]
      rfl
    · rintro ⟨⟨kind, hkind⟩, hleast⟩
      obtain ⟨a, ha, rfl⟩ := Option.map_eq_some_iff.mp hkind
      exact ⟨⟨_, h.latest_iff.mp ha, rfl⟩, fun t ht => hleast _ _ ((h.mem_iff t).mp ht)⟩
  armed := h.armed

/-! ## What is taken out -/

/-- The timers that are due at a time, in the order in which they go. -/
structure DueAt (deeds : List (Deed κ)) (now : Micros) (due : List (PendingTimer κ)) : Prop where
  mem_iff : ∀ t, t ∈ due ↔
    latest t.kind deeds = some ⟨t.deadline, t.order⟩ ∧ t.deadline ≤ now
  once : (due.map PendingTimer.kind).Nodup
  sorted : due.Pairwise fun s t =>
    s.deadline < t.deadline ∨ s.deadline = t.deadline ∧ s.order < t.order

variable {q' : Timers κ} {now : Micros} {due : List (PendingTimer κ)}

/-- What is taken out goes before all that is left. -/
theorem before_of_takeDue {u : PendingTimer κ}
    (hsorted : q.pending.Pairwise fun s t => s.order < t.order)
    (htake : q.takeDue now = some (t, q')) (hu : u ∈ q.pending) (hne : u ≠ t) :
    t.before u = true := by
  obtain ⟨t', hfirst, heq⟩ := Option.map_eq_some_iff.mp htake
  cases heq
  exact PendingTimer.before_of_first? hsorted (first?_of_firstDue hfirst) hu hne

theorem Follows.dueAt_nil (h : Follows q deeds) (htake : q.takeDue now = none) :
    DueAt deeds now [] where
  mem_iff := by
    intro t
    rw [← h.mem_iff]
    constructor
    · rintro ⟨⟩
    · rintro ⟨ht, hdue⟩
      exact absurd (takeDue_eq_none_iff.mp htake t ht) (UInt64.not_lt.mpr hdue)
  once := .nil
  sorted := .nil

/-- What is due goes on with what is due when the first timer was taken out. -/
theorem Follows.dueAt_cons (h : Follows q deeds) (htake : q.takeDue now = some (t, q'))
    (hdue : DueAt (.took (some (t.kind, t.deadline)) :: deeds) now due) :
    DueAt deeds now (t :: due) := by
  obtain ⟨hpending, hnow, -⟩ := takeDue_eq_some htake
  have hrest : ∀ u, u ∈ due ↔
      t.kind ≠ u.kind ∧ latest u.kind deeds = some ⟨u.deadline, u.order⟩ ∧ u.deadline ≤ now := by
    intro u
    rw [hdue.mem_iff, latest]
    split
    · rename_i hkind
      simp [hkind]
    · rename_i hkind
      simp [hkind]
  constructor
  case mem_iff =>
    intro u
    rw [List.mem_cons, hrest, ← h.mem_iff]
    constructor
    · rintro (rfl | ⟨-, hu⟩)
      · exact ⟨hpending, hnow⟩
      · exact hu
    · rintro ⟨hu, hle⟩
      by_cases hkind : t.kind = u.kind
      · exact Or.inl (h.distinct t hpending u hu hkind).symm
      · exact Or.inr ⟨hkind, hu, hle⟩
  case once =>
    refine List.nodup_cons.mpr ⟨fun hmem => ?_, hdue.once⟩
    obtain ⟨u, hu, hkind⟩ := List.mem_map.mp hmem
    exact ((hrest u).mp hu).1 hkind.symm
  case sorted =>
    refine List.pairwise_cons.mpr ⟨fun u hu => ?_, hdue.sorted⟩
    obtain ⟨hkind, hlatest, -⟩ := (hrest u).mp hu
    have hne : u ≠ t := fun he => hkind (he ▸ rfl)
    exact PendingTimer.before_iff.mp
      (before_of_takeDue h.sorted htake ((h.mem_iff u).mpr hlatest) hne)

namespace Recorded

variable {r : Recorded κ}

/-- However often the queue is asked for what is due, it takes out these timers, one each time,
then none any more, and leaves the others as they are. -/
def Takes (now : Micros) (r : Recorded κ) (due : List (PendingTimer κ)) : Prop :=
  ∀ n, (r.run (List.replicate n (.takeDue now))).deeds =
      ((List.range n).map (taken due)).reverse ++ r.deeds ∧
    (r.run (List.replicate n (.takeDue now))).queue.pending =
      r.queue.pending.filter (· ∉ due.take n)

theorem run_cons (r : Recorded κ) (c : Call κ) (calls : List (Call κ)) :
    r.run (c :: calls) = (r.call c).run calls := rfl

theorem takes_nil (htake : r.queue.takeDue now = none) : Takes now r [] := by
  intro n
  induction n generalizing r with
  | zero => exact ⟨rfl, (List.filter_eq_self.mpr (by simp)).symm⟩
  | succ n ih =>
    have hcall : r.call (.takeDue now) = ⟨r.queue, .took none :: r.deeds⟩ := by rw [call, htake]
    have hrest := ih (r := ⟨r.queue, .took none :: r.deeds⟩) htake
    rw [List.take_nil] at hrest ⊢
    rw [List.replicate_succ, run_cons, hcall, taken_succ]
    exact hrest

theorem takes_cons (hone : r.queue.Distinct) {queue : Timers κ}
    (htake : r.queue.takeDue now = some (t, queue))
    (hrest : Takes now ⟨queue, .took (some (t.kind, t.deadline)) :: r.deeds⟩ due) :
    Takes now r (t :: due) := by
  have hcall : r.call (.takeDue now) =
      ⟨queue, .took (some (t.kind, t.deadline)) :: r.deeds⟩ := by rw [call, htake]
  obtain ⟨hpending, -, rfl⟩ := takeDue_eq_some htake
  intro n
  cases n with
  | zero => exact ⟨rfl, (List.filter_eq_self.mpr (by simp)).symm⟩
  | succ n =>
    obtain ⟨hdeeds, hleft⟩ := hrest n
    rw [List.replicate_succ, run_cons, hcall, hdeeds, hleft, taken_succ,
      hone.pending_disarm hpending, List.filter_filter]
    refine ⟨rfl, List.filter_congr fun u _ => ?_⟩
    simp [Bool.and_comm]

/-- What is due is taken out in order. -/
theorem takes (h : Follows r.queue r.deeds) (now : Micros) :
    ∃ due, DueAt r.deeds now due ∧ Takes now r due := by
  induction hsize : r.queue.size using Nat.strongRecOn generalizing r with
  | ind size ih =>
    cases htake : r.queue.takeDue now with
    | none => exact ⟨[], h.dueAt_nil htake, takes_nil htake⟩
    | some x =>
      obtain ⟨t, queue⟩ := x
      obtain ⟨hpending, -, rfl⟩ := takeDue_eq_some htake
      have hfewer : (r.queue.disarm t.kind).size < size := hsize ▸ size_disarm_lt hpending
      have hrest : Follows (r.queue.disarm t.kind)
          (.took (some (t.kind, t.deadline)) :: r.deeds) := h.disarm t.kind rfl fun _ => rfl
      obtain ⟨due, hdue, htakes⟩ := ih _ hfewer (r := ⟨_, _⟩) hrest rfl
      exact ⟨t :: due, h.dueAt_cons htake hdue, takes_cons h.distinct htake htakes⟩

end Recorded

/-- **The queue is a map from kinds to their latest armings.** Whatever is done to a new queue,
one timer at most is pending of each kind; which kinds are pending, their deadlines, the earliest
one, whether there is any, and whether disarming a kind takes a timer out are as the latest
armings say that were not disarmed or taken out since. A queue that is asked for what is due,
again and again, takes out each timer that is due once, in the order of the deadlines, and of
their latest armings where the deadlines are the same. Then it takes out nothing, and it leaves
all others as they are. The armings are numbered from zero on, so their numbers fit into 64 bits
as long as timers were armed fewer than 2⁶⁴ times. -/
theorem agrees_latest (calls : List (Call κ)) :
    let r := Recorded.new.run calls
    Agrees r.queue r.deeds ∧ ∀ now, ∃ due, DueAt r.deeds now due ∧ r.Takes now due := by
  have h : Follows (Recorded.new.run calls).queue (Recorded.new.run calls).deeds :=
    Follows.new.run calls
  exact ⟨h.agrees, Recorded.takes h⟩

/-- A timer that is armed anew for the same deadline goes behind the others. -/
example :
    let calls : List (Call Nat) := [.arm 1 100, .arm 2 100, .arm 3 200, .arm 1 100]
    (Recorded.new.run (calls ++ List.replicate 3 (.takeDue 150))).deeds.take 3 =
      [.took none, .took (some (1, 100)), .took (some (2, 100))] := by decide

end Timers

end TouchStream
