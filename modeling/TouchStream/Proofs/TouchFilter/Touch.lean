import TouchStream.TouchFilter

/-!
# What the filter lets on of a touch

A touch of a single finger is a down, any number of moves and an up. What the filter
lets on of it depends on the state before it only through the last up: whatever else
an earlier touch left behind is set anew by the down.

Under the click delay the moves fall into two parts. Up to the first move that is far
from the down, those that come after the delay are let on, and the first of them also
as a down. From the first far move on all are let on, that move as a down. The up
follows if a down was let on, or else with the down itself if it comes after the
delay.

* `Touch`: a touch with the well-formedness of its samples.
* `TouchFilter.pointer_during_move`: the handling of a move in the midst of a touch
  under the click delay.
* `TouchFilter.feed_touch`: the samples that the filter lets on of a touch, which are those
  that a chain passes on (`TouchFilter.relay_touch`).
-/

namespace TouchStream

/-! ## Touches -/

/-- The sample comes from a touch screen and holds one contact, that of the acting
pointer. -/
structure Sample.IsSingle (s : Sample) (a : PointerAction) : Prop where
  source : s.source = .touchscreen
  action : s.action = a
  alone : ∃ c, s.contacts = [c] ∧ c.id = s.pointer

theorem Sample.isSingle_touch (a : PointerAction) (point : Point) (time : Micros) :
    (Sample.touch a point time).IsSingle a := ⟨rfl, rfl, ⟨0, point⟩, rfl, rfl⟩

/-- The position of a sample that has one. -/
def Sample.point (s : Sample) : Point := s.position.getD .zero

theorem Sample.IsSingle.position_eq {s : Sample} {a : PointerAction} (h : s.IsSingle a) :
    s.position = some s.point := by
  obtain ⟨c, hc, hid⟩ := h.alone
  simp [Sample.point, Sample.position, Sample.acting, hc, hid]

theorem Sample.IsSingle.pointerCount_eq {s : Sample} {a : PointerAction} (h : s.IsSingle a) :
    s.pointerCount = 1 := by
  obtain ⟨c, hc, -⟩ := h.alone
  simp [Sample.pointerCount, hc]

/-- A touch of a single finger. -/
structure Touch where
  down : Sample
  moves : List Sample
  up : Sample
  down_single : down.IsSingle .down
  moves_single : ∀ m ∈ moves, m.IsSingle .move
  up_single : up.IsSingle .up

/-- The samples of a touch in their order. -/
def Touch.samples (t : Touch) : List Sample := t.down :: (t.moves ++ [t.up])

namespace FilterPolicy

/-- Whether downs are held back. -/
def delays : FilterPolicy → Bool
  | delayOnly => true
  | both => true
  | _ => false

/-- Whether repetitions are ignored. -/
def ignoresRepeats : FilterPolicy → Bool
  | ignoreRepeatOnly => true
  | both => true
  | _ => false

end FilterPolicy

namespace TouchFilter

variable {f : TouchFilter} {t : Touch} {s m : Sample}

/-! ## Runs -/

/-- The filter after some samples, and the samples that it lets on. -/
def feed (f : TouchFilter) : List Sample → TouchFilter × List Sample
  | [] => (f, [])
  | s :: rest =>
    let (f, _, out) := f.pointer s
    let (f, more) := f.feed rest
    (f, out ++ more)

theorem feed_cons (f : TouchFilter) (s : Sample) (rest : List Sample) :
    f.feed (s :: rest) =
      (((f.pointer s).1.feed rest).1, (f.pointer s).2.2 ++ ((f.pointer s).1.feed rest).2) := rfl

theorem feed_append (f : TouchFilter) (xs ys : List Sample) :
    f.feed (xs ++ ys) =
      (((f.feed xs).1.feed ys).1, (f.feed xs).2 ++ ((f.feed xs).1.feed ys).2) := by
  induction xs generalizing f with
  | nil => rfl
  | cons x xs ih => simp only [List.cons_append, feed_cons, ih, List.append_assoc]

/-- In a chain, what is let on is passed to the next stage, and nothing else is. -/
theorem relay_samples (f : TouchFilter) (samples : List Sample) :
    relay receive f (samples.map .sample) =
      ((f.feed samples).1, (f.feed samples).2.map .sample) := by
  induction samples generalizing f with
  | nil => rfl
  | cons s rest ih =>
    rw [List.map_cons, feed_cons, Signal.sample, relay, receive]
    dsimp only
    rw [ih, List.map_append]

/-! ## One sample -/

/-- What is done with a sample that is not ignored. -/
def onward (f : TouchFilter) (s : Sample) : TouchFilter × List Sample :=
  if f.policy.delays then f.delayed s s.point else (f, [s])

/-- The repeat rule comes first, and the click delay is for what it does not ignore. -/
theorem pointer_single {a : PointerAction} (h : s.IsSingle a) (ha : a ≠ .cancel) :
    ((f.pointer s).1, (f.pointer s).2.2) =
      if f.policy.ignoresRepeats then f.unlessRepeated s fun f => f.onward s else f.onward s := by
  have hcancel : s.action ≠ .cancel := by
    rw [h.action]
    exact ha
  have hcount : ¬ 1 < s.pointerCount := by
    rw [h.pointerCount_eq]
    decide
  simp only [pointer, h.source, hcancel, hcount, h.position_eq, ne_eq, not_true_eq_false, if_false,
    or_false]
  cases hpolicy : f.policy with
  | none => simp [FilterPolicy.ignoresRepeats, onward, FilterPolicy.delays, hpolicy]
  | delayOnly => simp [FilterPolicy.ignoresRepeats, onward, FilterPolicy.delays, hpolicy]
  | ignoreRepeatOnly =>
    simp [FilterPolicy.ignoresRepeats, onward, FilterPolicy.delays, hpolicy, unlessRepeated]
  | both =>
    simp [FilterPolicy.ignoresRepeats, onward, FilterPolicy.delays, hpolicy, unlessRepeated]

theorem unlessRepeated_move {further : TouchFilter → TouchFilter × List Sample}
    (hs : s.action = .move) (h : f.ignoring = false) : f.unlessRepeated s further = further f := by
  simp [unlessRepeated, hs, h]

theorem unlessRepeated_up {further : TouchFilter → TouchFilter × List Sample}
    (hs : s.action = .up) (h : f.ignoring = false) :
    f.unlessRepeated s further = further { f with lastUp := some s.time } := by
  simp [unlessRepeated, hs, h]

/-! ## A touch that is ignored, and one that passes -/

/-- Whether a touch is ignored as a repetition. -/
def ignores (f : TouchFilter) (t : Touch) : Bool :=
  f.policy.ignoresRepeats && f.isRepeat t.down.time

theorem feed_ignored (hpolicy : f.policy.ignoresRepeats = true) (hignoring : f.ignoring = true)
    {ms : List Sample} (hms : ∀ m ∈ ms, m.IsSingle .move) : f.feed ms = (f, []) := by
  induction ms with
  | nil => rfl
  | cons m ms ih =>
    obtain ⟨hm, hms⟩ := List.forall_mem_cons.mp hms
    have hstep := pointer_single (f := f) hm (by decide)
    simp only [hpolicy, if_true, unlessRepeated, hm.action, hignoring, Prod.mk.injEq] at hstep
    rw [feed_cons, hstep.1, hstep.2, ih hms]
    rfl

theorem feed_touch_of_ignores (h : f.ignores t = true) : (f.feed t.samples).2 = [] := by
  obtain ⟨hpolicy, hrepeat⟩ := Bool.and_eq_true_iff.mp h
  have hdown := pointer_single (f := f) t.down_single (by decide)
  simp only [hpolicy, if_true, unlessRepeated, t.down_single.action, hrepeat,
    Prod.mk.injEq] at hdown
  have hup := pointer_single (f := { f with ignoring := true }) t.up_single (by decide)
  simp only [hpolicy, if_true, unlessRepeated, t.up_single.action, Prod.mk.injEq] at hup
  have hmoves := @feed_ignored { f with ignoring := true } hpolicy rfl t.moves t.moves_single
  rw [Touch.samples, feed_cons, feed_append, hdown.1, hdown.2, hmoves, feed_cons, hup.2]
  rfl

/-- Without the click delay, what is not ignored passes. -/
theorem pointer_passing {a : PointerAction} (h : s.IsSingle a) (ha : a ≠ .cancel)
    (hdelays : f.policy.delays = false)
    (hignoring : f.policy.ignoresRepeats = true → a ≠ .down → f.ignoring = false)
    (hrepeat : f.policy.ignoresRepeats = true → a = .down → f.isRepeat s.time = false) :
    (f.pointer s).2.2 = [s] ∧ (f.pointer s).1.policy = f.policy ∧
      (f.policy.ignoresRepeats = true → (f.pointer s).1.ignoring = false) := by
  have hstep := pointer_single (f := f) h ha
  have honward (g : TouchFilter) (hg : g.policy = f.policy) : g.onward s = (g, [s]) := by
    rw [onward, hg, hdelays]
    rfl
  cases hpolicy : f.policy.ignoresRepeats with
  | false =>
    simp only [hpolicy, Bool.false_eq_true, if_false, honward f rfl, Prod.mk.injEq] at hstep
    rw [hstep.1, hstep.2]
    exact ⟨rfl, rfl, fun hfalse => by cases hfalse⟩
  | true =>
    simp only [hpolicy, if_true, unlessRepeated, h.action] at hstep
    cases a with
    | down =>
      simp only [hrepeat hpolicy rfl, Bool.false_eq_true, if_false, honward, Prod.mk.injEq] at hstep
      rw [hstep.1, hstep.2]
      exact ⟨rfl, rfl, fun _ => rfl⟩
    | move =>
      have hstays := hignoring hpolicy (by decide)
      simp only [hstays, Bool.false_eq_true, if_false, honward, Prod.mk.injEq] at hstep
      rw [hstep.1, hstep.2]
      exact ⟨rfl, rfl, fun _ => hstays⟩
    | up =>
      have hstays := hignoring hpolicy (by decide)
      simp only [hstays, Bool.false_eq_true, if_false, honward, Prod.mk.injEq] at hstep
      rw [hstep.1, hstep.2]
      exact ⟨rfl, rfl, fun _ => rfl⟩
    | cancel => exact absurd rfl ha

theorem feed_passing (hdelays : f.policy.delays = false)
    (hignoring : f.policy.ignoresRepeats = true → f.ignoring = false) {ms : List Sample}
    (hms : ∀ m ∈ ms, m.IsSingle .move) :
    (f.feed ms).2 = ms ∧ (f.feed ms).1.policy = f.policy ∧
      (f.policy.ignoresRepeats = true → (f.feed ms).1.ignoring = false) := by
  induction ms generalizing f with
  | nil => exact ⟨rfl, rfl, hignoring⟩
  | cons m ms ih =>
    obtain ⟨hm, hms⟩ := List.forall_mem_cons.mp hms
    obtain ⟨hout, hpolicy, hstays⟩ :=
      pointer_passing hm (by decide) hdelays (fun h _ => hignoring h) (fun _ h => by cases h)
    rw [← hpolicy] at hdelays hstays
    obtain ⟨hrest, hpolicy', hstays'⟩ := ih hdelays hstays hms
    rw [feed_cons, hout, hrest]
    exact ⟨rfl, hpolicy'.trans hpolicy, fun h => hstays' (hpolicy ▸ h)⟩

theorem feed_touch_of_passes (hignores : f.ignores t = false) (hdelays : f.policy.delays = false) :
    (f.feed t.samples).2 = t.samples := by
  have hrepeat (h : f.policy.ignoresRepeats = true) : f.isRepeat t.down.time = false := by
    rw [ignores, h, Bool.true_and] at hignores
    exact hignores
  obtain ⟨hdown, hpolicy, hignoring⟩ :=
    pointer_passing t.down_single (by decide) hdelays (fun _ h => absurd rfl h)
      (fun h _ => hrepeat h)
  rw [← hpolicy] at hdelays hignoring
  obtain ⟨hmoves, hpolicy', hignoring'⟩ := feed_passing hdelays hignoring t.moves_single
  rw [← hpolicy'] at hdelays hignoring'
  obtain ⟨hup, -, -⟩ :=
    pointer_passing t.up_single (by decide) hdelays (fun h _ => hignoring' h)
      (fun _ h => by cases h)
  rw [Touch.samples, feed_cons, feed_append, hdown, hmoves, feed_cons, hup]
  rfl

/-! ## A touch that is held back -/

/-- Whether a sample is far from where a touch started. -/
def isFar (f : TouchFilter) (t : Touch) (m : Sample) : Bool :=
  f.threshold < t.down.point.distance m.point

/-- Whether a sample comes after the click delay of a touch. -/
def isLate (f : TouchFilter) (t : Touch) (m : Sample) : Bool := t.down.time.later f.delay ≤ m.time

/-- The filter in the midst of a touch that is not ignored. -/
def during (f : TouchFilter) (t : Touch) (held : Option Sample) (dragging : Bool) : TouchFilter :=
  { f with
    startTime := t.down.time, startPoint := t.down.point, held, dragging
    ignoring := f.ignoring && !f.policy.ignoresRepeats }

/-- The down of a touch replaces whatever an earlier touch has left. -/
theorem pointer_down (hignores : f.ignores t = false) (hdelays : f.policy.delays = true) :
    ((f.pointer t.down).1, (f.pointer t.down).2.2) = (f.during t (some t.down) false, []) := by
  rw [pointer_single t.down_single (by decide)]
  have honward (g : TouchFilter) (hg : g.policy = f.policy) :
      g.onward t.down = (g.holdDown t.down t.down.point, []) := by
    rw [onward, hg, hdelays, if_pos rfl, delayed, t.down_single.action]
  cases hpolicy : f.policy.ignoresRepeats with
  | false => simp [honward, holdDown, during, hpolicy]
  | true =>
    have hrepeat : f.isRepeat t.down.time = false := by
      rw [ignores, hpolicy, Bool.true_and] at hignores
      exact hignores
    simp [unlessRepeated, t.down_single.action, hrepeat, honward, holdDown, during, hpolicy]

theorem pointer_during {a : PointerAction} (hdelays : f.policy.delays = true) (hs : s.IsSingle a)
    (ha : a = .move ∨ a = .up) (held : Option Sample) (dragging : Bool) :
    (((f.during t held dragging).pointer s).1, ((f.during t held dragging).pointer s).2.2) =
      ({ f.during t held dragging with
        lastUp := if f.policy.ignoresRepeats && a = .up then some s.time else f.lastUp } :
          TouchFilter).delayed s s.point := by
  have hpolicy : (f.during t held dragging).policy = f.policy := rfl
  have honward (g : TouchFilter) (hg : g.policy = f.policy) : g.onward s = g.delayed s s.point := by
    rw [onward, hg, hdelays, if_pos rfl]
  have hcancel : a ≠ .cancel := by
    rcases ha with rfl | rfl <;> decide
  rw [pointer_single hs hcancel, hpolicy]
  cases hignores : f.policy.ignoresRepeats with
  | false =>
    rw [if_neg (by decide), honward _ hpolicy]
    rfl
  | true =>
    have hignoring : (f.during t held dragging).ignoring = false := by
      simp [during, hignores]
    rcases ha with rfl | rfl
    · rw [if_pos rfl, unlessRepeated_move hs.action hignoring]
      exact honward _ hpolicy
    · rw [if_pos rfl, unlessRepeated_up hs.action hignoring]
      exact honward _ hpolicy

/-- A far move starts a drag even if a down was let on before. Before the delay a near
move is dropped, and after it the first one goes on as a down, too. -/
theorem pointer_during_move (hdelays : f.policy.delays = true) (hm : m.IsSingle .move)
    (held : Option Sample) (dragging : Bool) :
    (((f.during t held dragging).pointer m).1, ((f.during t held dragging).pointer m).2.2) =
      if dragging then (f.during t held true, [m])
      else if f.isFar t m then (f.during t none true, [m.withAction .down])
      else if f.isLate t m then
        (f.during t none false, if held.isSome then [m.withAction .down, m] else [m])
      else (f.during t held false, []) := by
  have hstep := @pointer_during f t m .move hdelays hm (Or.inl rfl) held dragging
  have hsame : (({ f.during t held dragging with
      lastUp := if f.policy.ignoresRepeats && PointerAction.move = .up then some m.time
        else f.lastUp } : TouchFilter)) = f.during t held dragging := by
    rw [if_neg (by simp)]
    rfl
  rw [hstep, hsame, delayed, hm.action]
  show (f.during t held dragging).holdMove m m.point = _
  have hfar : (f.during t held dragging).threshold <
      (f.during t held dragging).startPoint.distance m.point ↔ f.isFar t m = true := by
    rw [isFar, decide_eq_true_iff]
    exact Iff.rfl
  have hlate : (f.during t held dragging).delayPassed m.time = f.isLate t m := rfl
  rw [holdMove, hlate]
  cases dragging with
  | true => rfl
  | false =>
    have hdragging : (f.during t held false).dragging = false := rfl
    simp only [hdragging, Bool.false_eq_true, if_false]
    by_cases hf : f.isFar t m = true
    · rw [if_pos (hfar.mpr hf), if_pos hf]
      rfl
    · rw [if_neg (fun h => hf (hfar.mp h)), if_neg hf]
      cases f.isLate t m with
      | false => rfl
      | true => cases held <;> rfl

theorem feed_dragging (hdelays : f.policy.delays = true) {ms : List Sample}
    (hms : ∀ m ∈ ms, m.IsSingle .move) (held : Option Sample) :
    (f.during t held true).feed ms = (f.during t held true, ms) := by
  induction ms with
  | nil => rfl
  | cons m ms ih =>
    obtain ⟨hm, hms⟩ := List.forall_mem_cons.mp hms
    obtain ⟨hstate, hout⟩ := Prod.mk.inj (@pointer_during_move f t m hdelays hm held true)
    rw [feed_cons, hstate, hout, ih hms]
    rfl

/-- Some samples, the first of them also as a down. -/
def begun : List Sample → List Sample
  | [] => []
  | m :: ms => m.withAction .down :: m :: ms

/-- Some samples, the first of them as a down. -/
def dragged : List Sample → List Sample
  | [] => []
  | m :: ms => m.withAction .down :: ms

theorem feed_near (hdelays : f.policy.delays = true) {ms : List Sample}
    (hms : ∀ m ∈ ms, m.IsSingle .move) (hnear : ∀ m ∈ ms, f.isFar t m = false)
    (held : Option Sample) :
    (f.during t held false).feed ms =
      (f.during t (if (ms.filter (f.isLate t)).isEmpty then held else none) false,
        if held.isSome then begun (ms.filter (f.isLate t)) else ms.filter (f.isLate t)) := by
  induction ms generalizing held with
  | nil => cases held <;> rfl
  | cons m ms ih =>
    obtain ⟨hm, hms⟩ := List.forall_mem_cons.mp hms
    obtain ⟨hfar, hnear⟩ := List.forall_mem_cons.mp hnear
    have hstep := @pointer_during_move f t m hdelays hm held false
    simp only [hfar, Bool.false_eq_true, if_false] at hstep
    cases hlate : f.isLate t m with
    | true =>
      simp only [hlate, if_true, Prod.mk.injEq] at hstep
      rw [feed_cons, hstep.1, hstep.2, ih hms hnear, List.filter_cons_of_pos hlate]
      cases held with
      | none => simp
      | some d => simp [begun]
    | false =>
      simp only [hlate, Bool.false_eq_true, if_false, Prod.mk.injEq] at hstep
      rw [feed_cons, hstep.1, hstep.2, ih hms hnear, List.filter_cons_of_neg (by simp [hlate])]
      rfl

/-- The moves of a touch before the first far one. -/
def nearMoves (f : TouchFilter) (t : Touch) : List Sample := t.moves.takeWhile fun m => !f.isFar t m

/-- Those of them that come after the delay. -/
def lateMoves (f : TouchFilter) (t : Touch) : List Sample := (f.nearMoves t).filter (f.isLate t)

/-- The moves of a touch from the first far one on. -/
def farMoves (f : TouchFilter) (t : Touch) : List Sample := t.moves.dropWhile fun m => !f.isFar t m

theorem nearMoves_append (f : TouchFilter) (t : Touch) : f.nearMoves t ++ f.farMoves t = t.moves :=
  List.takeWhile_append_dropWhile

theorem isFar_of_mem_nearMoves (hm : m ∈ f.nearMoves t) : f.isFar t m = false := by
  have h := List.all_eq_true.mp List.all_takeWhile m hm
  simpa using h

theorem isFar_of_farMoves {ms : List Sample} (h : f.farMoves t = m :: ms) : f.isFar t m = true := by
  have hhead := List.head?_dropWhile_not (fun m => !f.isFar t m) t.moves
  rw [← farMoves, h] at hhead
  simpa using hhead

theorem feed_moves (hdelays : f.policy.delays = true) :
    (f.during t (some t.down) false).feed t.moves =
      (f.during t (if (f.lateMoves t).isEmpty && (f.farMoves t).isEmpty then some t.down else none)
          (!(f.farMoves t).isEmpty),
        begun (f.lateMoves t) ++ dragged (f.farMoves t)) := by
  have hmoves (m : Sample) (hm : m ∈ f.nearMoves t ∨ m ∈ f.farMoves t) : m.IsSingle .move := by
    apply t.moves_single
    rw [← nearMoves_append f t]
    exact List.mem_append.mpr hm
  have hnear := @feed_near f t hdelays (f.nearMoves t) (fun m hm => hmoves m (Or.inl hm))
    (fun m hm => isFar_of_mem_nearMoves hm) (some t.down)
  rw [← nearMoves_append f t, feed_append, hnear]
  cases hfar : f.farMoves t with
  | nil => simp [lateMoves, feed, dragged]
  | cons m ms =>
    have hm : m.IsSingle .move := hmoves m (Or.inr (hfar ▸ List.mem_cons_self))
    have hms (s : Sample) (hs : s ∈ ms) : s.IsSingle .move :=
      hmoves s (Or.inr (hfar ▸ List.mem_cons_of_mem m hs))
    -- whether the down is still held makes no difference to a far move
    generalize (if ((f.nearMoves t).filter (f.isLate t)).isEmpty then some t.down else none) = held
    have hstep := @pointer_during_move f t m hdelays hm held false
    simp only [isFar_of_farMoves hfar, Bool.false_eq_true, if_false, if_true,
      Prod.mk.injEq] at hstep
    rw [feed_cons, hstep.1, hstep.2, feed_dragging hdelays hms]
    simp [lateMoves, dragged]

theorem pointer_during_up (hdelays : f.policy.delays = true) (held : Option Sample)
    (dragging : Bool) :
    ((f.during t held dragging).pointer t.up).2.2 =
      if dragging then [t.up]
      else
        match held with
        | some d => if f.isLate t t.up then [d, t.up] else []
        | none => [t.up] := by
  have hstep := congrArg Prod.snd
    (@pointer_during f t t.up .up hdelays t.up_single (Or.inr rfl) held dragging)
  rw [delayed, t.up_single.action] at hstep
  refine hstep.trans ?_
  cases dragging with
  | true => rfl
  | false => cases held <;> rfl

/-! ## A whole touch -/

/-- What is let on of a touch that the click delay is for. -/
def heldBack (f : TouchFilter) (t : Touch) : List Sample :=
  begun (f.lateMoves t) ++ dragged (f.farMoves t) ++
    if (f.lateMoves t).isEmpty && (f.farMoves t).isEmpty then
      if f.isLate t t.up then [t.down, t.up] else []
    else [t.up]

/-- What is let on of a touch. -/
def letOn (f : TouchFilter) (t : Touch) : List Sample :=
  if f.ignores t then [] else if f.policy.delays then f.heldBack t else t.samples

theorem feed_touch (f : TouchFilter) (t : Touch) : (f.feed t.samples).2 = f.letOn t := by
  unfold letOn
  cases hignores : f.ignores t with
  | true => exact feed_touch_of_ignores hignores
  | false =>
    cases hdelays : f.policy.delays with
    | false => exact feed_touch_of_passes hignores hdelays
    | true =>
      obtain ⟨hstate, hout⟩ := Prod.mk.inj (pointer_down hignores hdelays)
      rw [Touch.samples, feed_cons, hstate, hout, feed_append, feed_moves hdelays, feed_cons]
      simp only [pointer_during_up hdelays, feed, List.append_nil, List.nil_append]
      show _ = f.heldBack t
      rw [heldBack]
      congr 1
      cases f.farMoves t with
      | nil => cases (f.lateMoves t) <;> rfl
      | cons m ms => simp

/-- So this is what a chain passes on of a touch to the stage behind the filter. -/
theorem relay_touch (f : TouchFilter) (t : Touch) :
    (relay receive f (t.samples.map .sample)).2 = (f.letOn t).map .sample := by
  rw [relay_samples, feed_touch]

end TouchFilter

end TouchStream
