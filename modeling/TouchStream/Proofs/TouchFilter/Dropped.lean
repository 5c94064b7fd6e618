import Mathlib.Data.List.Induction
import Mathlib.Data.List.TakeWhile
import TouchStream.Proofs.TouchFilter.Downs
import TouchStream.Proofs.TouchFilter.Sample

/-!
# Touches of which nothing is let on

Of a touch the last sample that is let on is its up, or nothing is let on, and there are two
reasons for that: its down comes too soon after the last up that the filter has recorded, or
it ends before the click delay without a far move.

The two are not independent of one another. An up is recorded when the repeat rule lets it
through, and only then the click delay decides about it. So the window counts from the last up
that was let on or that the click delay alone has dropped.

* `feed_touch_state`: the filter after a touch.
* `dropped_iff`: the two reasons.
* `repeats_iff`: what the window counts from.
-/

namespace TouchStream

/-! ## Touches -/

namespace Touch

theorem no_moves_single : ∀ m ∈ ([] : List Sample), m.IsSingle .move := List.forall_mem_nil _

/-- The touch of a finger that stays where it came down, from one time to another. -/
def still (point : Point) (first last : Micros) : Touch where
  down := .touch .down point first
  moves := []
  up := .touch .up point last
  down_single := Sample.isSingle_touch _ _ _
  moves_single := no_moves_single
  up_single := Sample.isSingle_touch _ _ _

theorem up_mem_samples (t : Touch) : t.up ∈ t.samples := by
  simp [samples]

theorem time_le_up {t : Touch} (htimes : t.samples.Pairwise fun x y => x.time ≤ y.time) :
    ∀ m ∈ t.moves, m.time ≤ t.up.time := by
  intro m hm
  rw [samples, List.pairwise_cons, List.pairwise_append] at htimes
  exact htimes.2.2.2 m hm t.up (List.mem_singleton.mpr rfl)

end Touch

namespace TouchFilter

variable {f : TouchFilter} {t q : Touch} {ts : List Touch} {s : Sample} {ms : List Sample}

/-! ## The filter after a touch -/

/-- Whether a touch comes down less than the window after a time. -/
def follows (f : TouchFilter) (t : Touch) (up : Micros) : Bool :=
  (t.down.time.since up).toNat / 1000 < f.window

theorem ignores_iff_follows : f.ignores t = true ↔
    f.policy.ignoresRepeats = true ∧ ∃ up ∈ f.lastUp, f.follows t up = true := by
  rw [ignores, Bool.and_eq_true, isRepeat]
  cases f.lastUp <;> simp [follows]

/-- A touch that is ignored leaves the filter as it was. -/
theorem feed_ignored_state (hignores : f.ignores t = true) :
    (f.feed t.samples).1 = { f with ignoring := false } := by
  have hboth := hignores
  rw [ignores] at hboth
  have hpolicy := (Bool.and_eq_true_iff.mp hboth).1
  have hdown := congrArg Prod.fst (pointer_down_eq (f := f) t.down_single.isLone
    t.down_single.action)
  rw [if_pos hboth] at hdown
  have hmoves := @feed_ignored { f with ignoring := true } hpolicy rfl t.moves t.moves_single
  have hup := congrArg Prod.fst (pointer_up_eq (f := { f with ignoring := true })
    t.up_single.isLone t.up_single.action)
  rw [if_pos (by simpa using hpolicy)] at hup
  rw [Touch.samples, feed_cons, hdown, feed_append, hmoves, feed_cons]
  exact hup

/-- Without the click delay moves leave the filter as it is. -/
theorem feed_passing_state (hdelays : f.policy.delays = false)
    (hignoring : (f.policy.ignoresRepeats && f.ignoring) = false)
    (hms : ∀ m ∈ ms, m.IsSingle .move) : (f.feed ms).1 = f := by
  induction ms with
  | nil => rfl
  | cons m ms ih =>
    obtain ⟨hm, hms⟩ := List.forall_mem_cons.mp hms
    have hstep := congrArg Prod.fst (pointer_move_eq (f := f) hm.isLone hm.action)
    rw [if_neg (by simp [hignoring]), onward, if_neg (by simp [hdelays])] at hstep
    rw [feed_cons, hstep]
    exact ih hms

/-- What a touch that is not ignored leaves of itself: the time of its up, where repetitions
are ignored, and under the click delay where it started and whether it moved far. -/
theorem feed_touch_state (hignores : f.ignores t = false) :
    (f.feed t.samples).1 =
      { (if f.policy.delays then f.during t none (!(f.farMoves t).isEmpty)
          else { f with ignoring := f.ignoring && !f.policy.ignoresRepeats }) with
        lastUp := if f.policy.ignoresRepeats then some t.up.time else f.lastUp } := by
  rw [Touch.samples, feed_cons, feed_append, feed_cons]
  cases hdelays : f.policy.delays with
  | false =>
    have hdown := congrArg Prod.fst (pointer_down_eq (f := f) t.down_single.isLone
      t.down_single.action)
    rw [if_neg (by rw [ignores] at hignores; simp [hignores]), onward,
      if_neg (by simp [hdelays])] at hdown
    have hopen : (f.policy.ignoresRepeats && (f.ignoring && !f.policy.ignoresRepeats)) = false := by
      cases f.policy.ignoresRepeats <;> simp
    have hmoves := @feed_passing_state
      { f with ignoring := f.ignoring && !f.policy.ignoresRepeats } t.moves hdelays hopen
      t.moves_single
    have hup := congrArg Prod.fst (pointer_up_eq
      (f := { f with ignoring := f.ignoring && !f.policy.ignoresRepeats })
      t.up_single.isLone t.up_single.action)
    rw [if_neg (by simp [hopen]), onward, if_neg (by simp [hdelays])] at hup
    rw [hdown, hmoves]
    exact hup
  | true =>
    have hdown := congrArg Prod.fst (pointer_down hignores hdelays)
    dsimp only at hdown
    rw [hdown, feed_moves hdelays]
    have hup (held : Option Sample) (dragging : Bool) := congrArg Prod.fst
      (@pointer_during f t t.up .up hdelays t.up_single (Or.inr rfl) held dragging)
    dsimp only
    show (pointer _ t.up).1 = _
    refine (hup _ _).trans ?_
    rw [delayed, t.up_single.action]
    -- whether the down is still held or not, the up leaves none behind
    cases hfar : f.farMoves t with
    | nil =>
      cases (f.lateMoves t).isEmpty <;> simp [holdUp, during]
    | cons m ms => simp [holdUp, during]

theorem after_nil (f : TouchFilter) : f.after [] = f := rfl

theorem after_concat (f : TouchFilter) (ts : List Touch) (t : Touch) :
    f.after (ts ++ [t]) = ((f.after ts).feed t.samples).1 := by
  simp only [after, List.flatMap_append, List.flatMap_cons, List.flatMap_nil, List.append_nil,
    feed_append]

theorem feed_touches_concat (f : TouchFilter) (ts : List Touch) (t : Touch) :
    (f.feed ((ts ++ [t]).flatMap Touch.samples)).2 =
      (f.feed (ts.flatMap Touch.samples)).2 ++ (f.after ts).letOn t := by
  simp only [after, List.flatMap_append, List.flatMap_cons, List.flatMap_nil, List.append_nil,
    feed_append, feed_touch]

/-- What touches do not change in a filter. -/
structure Alike (f g : TouchFilter) : Prop where
  policy : g.policy = f.policy
  delay : g.delay = f.delay
  window : g.window = f.window
  threshold : g.threshold = f.threshold
  held : f.held = none → g.held = none

theorem alike_feed_touch (f : TouchFilter) (t : Touch) : f.Alike (f.feed t.samples).1 := by
  cases hignores : f.ignores t with
  | true =>
    rw [feed_ignored_state hignores]
    exact ⟨rfl, rfl, rfl, rfl, id⟩
  | false =>
    rw [feed_touch_state hignores]
    split
    · exact ⟨rfl, rfl, rfl, rfl, fun _ => rfl⟩
    · exact ⟨rfl, rfl, rfl, rfl, id⟩

theorem alike_after (f : TouchFilter) (ts : List Touch) : f.Alike (f.after ts) := by
  induction ts using List.reverseRecOn with
  | nil => exact ⟨rfl, rfl, rfl, rfl, id⟩
  | append_singleton ts t ih =>
    have h := (f.after ts).alike_feed_touch t
    rw [after_concat]
    exact ⟨h.policy.trans ih.policy, h.delay.trans ih.delay, h.window.trans ih.window,
      h.threshold.trans ih.threshold, fun hheld => h.held (ih.held hheld)⟩

namespace Alike

variable {g : TouchFilter}

theorem isFar_eq (h : f.Alike g) (t : Touch) (m : Sample) : g.isFar t m = f.isFar t m := by
  rw [isFar, isFar, h.threshold]

theorem isLate_eq (h : f.Alike g) (t : Touch) (m : Sample) : g.isLate t m = f.isLate t m := by
  rw [isLate, isLate, h.delay]

theorem follows_eq (h : f.Alike g) (t : Touch) (up : Micros) : g.follows t up = f.follows t up := by
  rw [follows, follows, h.window]

end Alike

/-! ## The two reasons -/

theorem farMoves_eq_nil_iff : f.farMoves t = [] ↔ ∀ m ∈ t.moves, f.isFar t m = false := by
  simp [farMoves, List.dropWhile_eq_nil_iff]

theorem heldBack_eq_nil_iff (htimes : t.samples.Pairwise fun x y => x.time ≤ y.time) :
    f.heldBack t = [] ↔
      f.isLate t t.up = false ∧ ∀ m ∈ t.moves, f.isFar t m = false := by
  rw [heldBack, ← farMoves_eq_nil_iff]
  constructor
  · intro h
    obtain ⟨hmoves, hup⟩ := List.append_eq_nil_iff.mp h
    obtain ⟨hlate, hfar⟩ := List.append_eq_nil_iff.mp hmoves
    have hnear : f.farMoves t = [] := by
      cases hms : f.farMoves t with
      | nil => rfl
      | cons m ms =>
        rw [hms] at hfar
        cases hfar
    have hsoon : f.lateMoves t = [] := by
      cases hms : f.lateMoves t with
      | nil => rfl
      | cons m ms =>
        rw [hms] at hlate
        cases hlate
    rw [hnear, hsoon] at hup
    refine ⟨?_, hnear⟩
    cases hover : f.isLate t t.up with
    | false => rfl
    | true => simp [hover] at hup
  · rintro ⟨hup, hfar⟩
    -- no move comes after the delay if the up does not
    have hlate : f.lateMoves t = [] := by
      refine List.filter_eq_nil_iff.mpr fun m hm hover => ?_
      have hle := Touch.time_le_up htimes m ((List.takeWhile_sublist _).subset hm)
      have hover : t.down.time.later f.delay ≤ m.time := of_decide_eq_true hover
      exact of_decide_eq_false hup (UInt64.le_trans hover hle)
    rw [hfar, hlate]
    simp [begun, dragged, hup]

/-- The up comes last in what is let on of a touch. -/
theorem letOn_eq_nil_or_concat (f : TouchFilter) (t : Touch) :
    f.letOn t = [] ∨ ∃ ss, f.letOn t = ss ++ [t.up] := by
  unfold letOn
  split
  · exact Or.inl rfl
  · split
    · rw [heldBack]
      split
      · rename_i hnone
        have hlate := List.isEmpty_iff.mp (Bool.and_eq_true_iff.mp hnone).1
        have hfar := List.isEmpty_iff.mp (Bool.and_eq_true_iff.mp hnone).2
        rw [hlate, hfar]
        split
        · exact Or.inr ⟨[t.down], rfl⟩
        · exact Or.inl rfl
      · exact Or.inr ⟨_, rfl⟩
    · exact Or.inr ⟨t.down :: t.moves, rfl⟩

theorem letOn_eq_nil_iff (htimes : t.samples.Pairwise fun x y => x.time ≤ y.time) :
    f.letOn t = [] ↔ f.ignores t = true ∨
      f.policy.delays = true ∧ f.isLate t t.up = false ∧ ∀ m ∈ t.moves, f.isFar t m = false := by
  unfold letOn
  cases hignores : f.ignores t with
  | true => simp
  | false =>
    cases f.policy.delays with
    | true => simpa using heldBack_eq_nil_iff htimes
    | false => simp [Touch.samples]

/-- So in a chain nothing of a touch comes to the stage behind the filter for the same reasons. -/
theorem relay_touch_eq_nil_iff (htimes : t.samples.Pairwise fun x y => x.time ≤ y.time) :
    (relay receive f (t.samples.map .sample)).2 = [] ↔ f.ignores t = true ∨
      f.policy.delays = true ∧ f.isLate t t.up = false ∧ ∀ m ∈ t.moves, f.isFar t m = false := by
  rw [relay_touch, List.map_eq_nil_iff, letOn_eq_nil_iff htimes]

/-- **When nothing is let on of a touch.** Whatever touches came before, nothing is let on of
a touch of which the times do not decrease, exactly when its down comes less than the window
after the last up that the filter has recorded, or it ends before the click delay without a far
move. Otherwise its up is let on last. Either way nothing of it is held back any longer. -/
theorem dropped_iff (settings : FilterSettings) (display : Option Display) (before : List Touch)
    (t : Touch) (htimes : t.samples.Pairwise fun x y => x.time ≤ y.time) :
    let f := new settings display
    let g := f.after before
    ((g.feed t.samples).2 = [] ↔
      (f.policy.ignoresRepeats = true ∧ ∃ up ∈ g.lastUp, f.follows t up = true) ∨
        f.policy.delays = true ∧ f.isLate t t.up = false ∧ ∀ m ∈ t.moves, f.isFar t m = false) ∧
      ((g.feed t.samples).2 ≠ [] → (g.feed t.samples).2.getLast? = some t.up) ∧
      (g.feed t.samples).1.held = none := by
  intro f g
  have h : f.Alike g := f.alike_after before
  rw [feed_touch]
  refine ⟨?_, ?_, (g.alike_feed_touch t).held (h.held rfl)⟩
  · simp only [letOn_eq_nil_iff htimes, ignores_iff_follows, h.policy, h.follows_eq, h.isLate_eq,
      h.isFar_eq]
  · intro hsome
    obtain hnil | ⟨ss, hss⟩ := g.letOn_eq_nil_or_concat t
    · exact absurd hnil hsome
    · rw [hss, List.getLast?_concat]

/-- A finger that comes down 100 ms after the last up repeats it if the window is 1300 ms, and
nothing is let on of its touch, however long that takes. -/
theorem dropped_repeated_touch :
    let f := new { ignoreRepeat := true, repeatWindow := .longest } none
    let t := Touch.still ⟨10, 10⟩ 500000 900000
    (t.samples.Pairwise fun x y => x.time ≤ y.time) ∧
      ((f.after [.still ⟨10, 10⟩ 0 400000]).feed t.samples).2 = [] := by
  intro f t
  have htimes : t.samples.Pairwise fun x y => x.time ≤ y.time := by decide +kernel
  refine ⟨htimes, ?_⟩
  refine (dropped_iff _ _ [.still ⟨10, 10⟩ 0 400000] t htimes).1.mpr (Or.inl ⟨rfl, 400000, ?_, ?_⟩)
  · decide +kernel
  · decide +kernel

/-! ## What the window counts from -/

/-- The last up among some samples. -/
def lastUpIn (ss : List Sample) : Option Sample := (ss.filter (·.action = .up)).getLast?

/-- The repeat rule lets one of the touches through, but nothing of it is let on. -/
def Loses (f : TouchFilter) (ts : List Touch) (q : Touch) : Prop :=
  ∃ before later, ts = before ++ q :: later ∧ (f.after before).ignores q = false ∧
    ((f.after before).feed q.samples).2 = []

theorem lastUpIn_append_letOn (ss : List Sample) (f : TouchFilter) (t : Touch) :
    lastUpIn (ss ++ f.letOn t) = if f.letOn t = [] then lastUpIn ss else some t.up := by
  obtain hnil | ⟨rest, hrest⟩ := f.letOn_eq_nil_or_concat t
  · rw [if_pos hnil, hnil, List.append_nil]
  · rw [if_neg (by simp [hrest]), hrest, lastUpIn, ← List.append_assoc, List.filter_append,
      List.filter_cons_of_pos (by simpa using t.up_single.action), List.filter_nil,
      List.getLast?_concat]

theorem Loses.mem (h : f.Loses ts q) : q ∈ ts := by
  obtain ⟨before, later, rfl, -⟩ := h
  exact List.mem_append_right before List.mem_cons_self

theorem loses_concat : f.Loses (ts ++ [t]) q ↔
    f.Loses ts q ∨ q = t ∧ (f.after ts).ignores t = false ∧ (f.after ts).letOn t = [] := by
  constructor
  · rintro ⟨before, later, heq, hignores, hout⟩
    obtain rfl | ⟨later, x, rfl⟩ := List.eq_nil_or_concat later
    · obtain ⟨rfl, hq⟩ := List.append_inj' heq rfl
      cases hq
      rw [feed_touch] at hout
      exact Or.inr ⟨rfl, hignores, hout⟩
    · rw [List.concat_eq_append, ← List.cons_append, ← List.append_assoc] at heq
      obtain ⟨rfl, -⟩ := List.append_inj' heq rfl
      exact Or.inl ⟨before, later, rfl, hignores, hout⟩
  · rintro (⟨before, later, rfl, hignores, hout⟩ | ⟨rfl, hignores, hout⟩)
    · exact ⟨before, later ++ [t], by simp, hignores, hout⟩
    · exact ⟨ts, [], rfl, hignores, by rw [feed_touch, hout]⟩

/-- The time from which the window counts after some touches: that of the last up that was let
on or lost. -/
structure CountsFrom (f : TouchFilter) (ts : List Touch) (last : Option Micros) : Prop where
  origin : ∀ time ∈ last, (∃ up ∈ lastUpIn (f.feed (ts.flatMap Touch.samples)).2, up.time = time) ∨
    ∃ q, f.Loses ts q ∧ q.up.time = time
  letOn : ∀ up ∈ lastUpIn (f.feed (ts.flatMap Touch.samples)).2,
    (∃ q ∈ ts, q.up = up) ∧ ∃ time ∈ last, up.time ≤ time
  lost : ∀ q, f.Loses ts q → ∃ time ∈ last, q.up.time ≤ time

theorem lastUp_feed_touch (hpolicy : f.policy.ignoresRepeats = true) (t : Touch) :
    (f.feed t.samples).1.lastUp = if f.ignores t then f.lastUp else some t.up.time := by
  cases hignores : f.ignores t with
  | true => rw [feed_ignored_state hignores, if_pos rfl]
  | false => rw [feed_touch_state hignores, hpolicy, if_neg Bool.false_ne_true, if_pos rfl]

theorem lastUpIn_feed_concat (f : TouchFilter) (ts : List Touch) (t : Touch) :
    lastUpIn (f.feed ((ts ++ [t]).flatMap Touch.samples)).2 =
      if (f.after ts).letOn t = [] then lastUpIn (f.feed (ts.flatMap Touch.samples)).2
      else some t.up := by
  rw [feed_touches_concat, lastUpIn_append_letOn]

namespace CountsFrom

variable {last : Option Micros}

/-- A touch that is ignored is neither let on nor lost. -/
theorem ignored (h : f.CountsFrom ts last) (hignores : (f.after ts).ignores t = true) :
    f.CountsFrom (ts ++ [t]) last := by
  have hout := f.lastUpIn_feed_concat ts t
  rw [if_pos (by rw [TouchFilter.letOn, hignores, if_pos rfl])] at hout
  refine ⟨?_, ?_, ?_⟩
  · intro time htime
    rw [hout]
    rcases h.origin time htime with hup | ⟨q, hq, heq⟩
    · exact Or.inl hup
    · exact Or.inr ⟨q, loses_concat.mpr (Or.inl hq), heq⟩
  · intro up hmem
    rw [hout] at hmem
    obtain ⟨⟨q, hq, heq⟩, hle⟩ := h.letOn up hmem
    exact ⟨⟨q, List.mem_append_left _ hq, heq⟩, hle⟩
  · intro q hq
    rcases loses_concat.mp hq with hq | ⟨-, hno, -⟩
    · exact h.lost q hq
    · rw [hignores] at hno
      cases hno

/-- The up of any other touch is the latest so far, and it is let on, or the touch is lost. -/
theorem recorded (h : f.CountsFrom ts last) (hignores : (f.after ts).ignores t = false)
    (hup : ∀ q ∈ ts, q.up.time ≤ t.up.time) : f.CountsFrom (ts ++ [t]) (some t.up.time) := by
  have hout := f.lastUpIn_feed_concat ts t
  refine ⟨?_, ?_, ?_⟩
  · rintro time ⟨⟩
    by_cases hnil : (f.after ts).letOn t = []
    · exact Or.inr ⟨t, loses_concat.mpr (Or.inr ⟨rfl, hignores, hnil⟩), rfl⟩
    · rw [hout, if_neg hnil]
      exact Or.inl ⟨t.up, rfl, rfl⟩
  · intro up hmem
    rw [hout] at hmem
    split at hmem
    · obtain ⟨⟨q, hq, rfl⟩, -⟩ := h.letOn up hmem
      exact ⟨⟨q, List.mem_append_left _ hq, rfl⟩, _, rfl, hup q hq⟩
    · cases hmem
      exact ⟨⟨t, List.mem_append_right _ List.mem_cons_self, rfl⟩, _, rfl, UInt64.le_refl _⟩
  · intro q hq
    rcases loses_concat.mp hq with hq | ⟨rfl, -, -⟩
    · exact ⟨_, rfl, hup q hq.mem⟩
    · exact ⟨_, rfl, UInt64.le_refl _⟩

end CountsFrom

theorem countsFrom_lastUp (hpolicy : f.policy.ignoresRepeats = true) (hfresh : f.lastUp = none)
    (htimes : (ts.flatMap Touch.samples).Pairwise fun x y => x.time ≤ y.time) :
    f.CountsFrom ts (f.after ts).lastUp := by
  induction ts using List.reverseRecOn with
  | nil =>
    rw [after_nil, hfresh]
    refine ⟨?_, ?_, ?_⟩
    · intro time htime
      cases htime
    · intro up hup
      cases hup
    · intro q hq
      cases hq.mem
  | append_singleton ts t ih =>
    rw [List.flatMap_append, List.flatMap_singleton, List.pairwise_append] at htimes
    obtain ⟨hts, -, hlater⟩ := htimes
    have hup (q : Touch) (hq : q ∈ ts) : q.up.time ≤ t.up.time :=
      hlater q.up (List.mem_flatMap.mpr ⟨q, hq, q.up_mem_samples⟩) t.up t.up_mem_samples
    rw [after_concat, lastUp_feed_touch (by rwa [(f.alike_after ts).policy])]
    cases hignores : (f.after ts).ignores t with
    | true => exact (ih hts).ignored hignores
    | false => exact (ih hts).recorded hignores hup

/-- A touch that comes soon after an up comes soon after every later one. -/
theorem follows_of_le {a b : Micros} (hle : a ≤ b) (h : f.follows t a = true) :
    f.follows t b = true := by
  have hspan : (t.down.time.since b).toNat ≤ (t.down.time.since a).toNat := by
    rw [Micros.toNat_since, Micros.toNat_since]
    exact Nat.sub_le_sub_left (UInt64.le_iff_toNat_le.mp hle) _
  rw [follows, decide_eq_true_iff] at h ⊢
  exact Nat.lt_of_le_of_lt (Nat.div_le_div_right hspan) h

theorem CountsFrom.follows_iff {last : Option Micros} (h : f.CountsFrom ts last) (t : Touch) :
    (∃ time ∈ last, f.follows t time = true) ↔
      (∃ up ∈ lastUpIn (f.feed (ts.flatMap Touch.samples)).2, f.follows t up.time = true) ∨
        ∃ q, f.Loses ts q ∧ f.follows t q.up.time = true := by
  constructor
  · rintro ⟨time, htime, hfollows⟩
    rcases h.origin time htime with ⟨up, hup, rfl⟩ | ⟨q, hq, rfl⟩
    · exact Or.inl ⟨up, hup, hfollows⟩
    · exact Or.inr ⟨q, hq, hfollows⟩
  · rintro (⟨up, hup, hfollows⟩ | ⟨q, hq, hfollows⟩)
    · obtain ⟨-, time, htime, hle⟩ := h.letOn up hup
      exact ⟨time, htime, follows_of_le hle hfollows⟩
    · obtain ⟨time, htime, hle⟩ := h.lost q hq
      exact ⟨time, htime, follows_of_le hle hfollows⟩

/-- A touch that is lost ends before the click delay without a far move. -/
theorem Loses.quick (h : f.Loses ts q) (hpolicy : f.policy.ignoresRepeats = true)
    (htimes : (ts.flatMap Touch.samples).Pairwise fun x y => x.time ≤ y.time) :
    f.policy = .both ∧ f.isLate q q.up = false ∧ ∀ m ∈ q.moves, f.isFar q m = false := by
  have hq : q.samples.Pairwise fun x y => x.time ≤ y.time :=
    (List.pairwise_flatMap.mp htimes).1 q h.mem
  obtain ⟨before, later, -, hignores, hout⟩ := h
  have halike := f.alike_after before
  rw [feed_touch, letOn_eq_nil_iff hq, hignores, halike.policy, halike.isLate_eq] at hout
  simp only [Bool.false_eq_true, false_or, halike.isFar_eq] at hout
  obtain ⟨hdelays, hlate, hfar⟩ := hout
  refine ⟨?_, hlate, hfar⟩
  cases hf : f.policy with
  | both => rfl
  | none => rw [hf] at hpolicy; cases hpolicy
  | delayOnly => rw [hf] at hpolicy; cases hpolicy
  | ignoreRepeatOnly => rw [hf] at hdelays; cases hdelays

/-- **What the window counts from.** Under either policy with the repeat rule and in every run of
touches of which the times do not decrease, a touch is ignored exactly when its down comes less
than the window after the last up that was let on, or after the up of a touch that was lost. For
an up moves the window whenever the repeat rule lets its touch through. What is lost then is what
the click delay drops, so that nothing is lost under the repeat rule alone. -/
theorem repeats_iff (settings : FilterSettings) (display : Option Display)
    (hpolicy : (FilterPolicy.ofSettings settings).ignoresRepeats = true) (ts : List Touch)
    (t : Touch)
    (htimes : ((ts ++ [t]).flatMap Touch.samples).Pairwise fun x y => x.time ≤ y.time) :
    let f := new settings display
    ((f.after ts).ignores t = true ↔
      (∃ up ∈ lastUpIn (f.feed (ts.flatMap Touch.samples)).2, f.follows t up.time = true) ∨
        ∃ q, f.Loses ts q ∧ f.follows t q.up.time = true) ∧
      (f.after (ts ++ [t])).lastUp =
        (if (f.after ts).ignores t then (f.after ts).lastUp else some t.up.time) ∧
      ∀ q, f.Loses ts q →
        f.policy = .both ∧ f.isLate q q.up = false ∧ ∀ m ∈ q.moves, f.isFar q m = false := by
  intro f
  have hpolicy : f.policy.ignoresRepeats = true := hpolicy
  have halike := f.alike_after ts
  have hpast : (ts.flatMap Touch.samples).Pairwise fun x y => x.time ≤ y.time := by
    rw [List.flatMap_append] at htimes
    exact (List.pairwise_append.mp htimes).1
  have hcounts := countsFrom_lastUp hpolicy rfl hpast
  refine ⟨?_, ?_, fun q hq => hq.quick hpolicy hpast⟩
  · rw [ignores_iff_follows, halike.policy, ← hcounts.follows_iff]
    simp only [hpolicy, true_and, halike.follows_eq]
  · rw [after_concat, lastUp_feed_touch (by rwa [halike.policy])]

/-- Nothing has been let on yet, and still a touch is ignored, for the touch before it was lost. -/
theorem repeats_iff_lost_touch :
    let settings : FilterSettings :=
      { clickDelay := .medium, ignoreRepeat := true, repeatWindow := .longest }
    let f := new settings none
    let q := Touch.still ⟨10, 10⟩ 0 100000
    let t := Touch.still ⟨10, 10⟩ 200000 700000
    (FilterPolicy.ofSettings settings).ignoresRepeats = true ∧
      (([q] ++ [t]).flatMap Touch.samples).Pairwise (fun x y => x.time ≤ y.time) ∧
      (f.after [q]).ignores t = true := by
  intro settings f q t
  have htimes : (([q] ++ [t]).flatMap Touch.samples).Pairwise (fun x y => x.time ≤ y.time) := by
    decide +kernel
  refine ⟨rfl, htimes, (repeats_iff settings none rfl [q] t htimes).1.mpr (Or.inr ⟨q, ?_, ?_⟩)⟩
  · exact ⟨[], [], rfl, by decide +kernel, by decide +kernel⟩
  · decide +kernel

/-- With a click delay of 300 ms and a window of 1300 ms, a tap of 100 ms is dropped, and a touch
100 ms after it is ignored although no up was ever let on. Without the tap all of it is let on. -/
theorem lost_touch_moves_window :
    let f := new { clickDelay := .medium, ignoreRepeat := true, repeatWindow := .longest }
      (some ⟨1524, 2000, 160, 1⟩)
    let q := Touch.still ⟨10, 10⟩ 0 100000
    let t := Touch.still ⟨10, 10⟩ 200000 700000
    (f.feed ([q].flatMap Touch.samples)).2 = [] ∧ (f.after [q]).lastUp ≠ f.lastUp ∧
      ¬ ((f.after [q]).ignores t = true ↔
        ∃ up ∈ lastUpIn (f.feed ([q].flatMap Touch.samples)).2, f.follows t up.time = true) ∧
      ((f.after [q]).feed t.samples).2 = [] ∧ (f.feed t.samples).2 = t.samples := by
  intro f q t
  have hnone : (f.feed ([q].flatMap Touch.samples)).2 = [] := by decide +kernel
  have hignores : (f.after [q]).ignores t = true := by decide +kernel
  refine ⟨hnone, by decide +kernel, ?_, by decide +kernel, by decide +kernel⟩
  rw [hnone]
  intro hclaim
  obtain ⟨up, hup, -⟩ := hclaim.mp hignores
  cases hup

end TouchFilter

end TouchStream
