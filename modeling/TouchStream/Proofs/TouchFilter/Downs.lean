import TouchStream.Proofs.TouchFilter.Touch

/-!
# The downs that the filter lets on

Of a touch nothing should be let on, or one down, then moves, then the up
(`BegunOnce`). This holds for every touch but one kind: under the click delay, a near
move after the delay is let on with a down before it, and a far move after that is
turned into a down as if none had been let on. Then the up ends two downs
(`BegunTwice`).

* `beginsTwice`: the touches of that kind, told by their moves.
* `letOn_shape`: which of the two shapes each touch has.
* `downs_paired_iff`: the stages behind the filter never get a second down before the
  up of the first, exactly when no touch is of that kind.
-/

namespace TouchStream.TouchFilter

variable {f : TouchFilter} {t : Touch}

/-- Nothing is let on of a touch, or a down, then moves, then its up. -/
def BegunOnce (t : Touch) (out : List Sample) : Prop :=
  out = [] ∨ ∃ d ms, out = d :: (ms ++ [t.up]) ∧ d.action = .down ∧ ∀ m ∈ ms, m.action = .move

/-- Two downs with moves after each are let on of a touch, and then its up. -/
def BegunTwice (t : Touch) (out : List Sample) : Prop :=
  ∃ d ms d' ms', out = d :: (ms ++ d' :: (ms' ++ [t.up])) ∧ d.action = .down ∧
    (∀ m ∈ ms, m.action = .move) ∧ d'.action = .down ∧ ∀ m ∈ ms', m.action = .move

/-- Whether no down comes before the up of the down before it. -/
def downsPaired : (isDown : Bool) → List Sample → Bool
  | _, [] => true
  | isDown, s :: rest =>
    match s.action with
    | .down => !isDown && downsPaired true rest
    | .up => downsPaired false rest
    | _ => downsPaired isDown rest

/-- Whether a touch that is not ignored has, under the click delay, a near move after
the delay and a far move after that. -/
def beginsTwice (f : TouchFilter) (t : Touch) : Bool :=
  !f.ignores t && f.policy.delays && !(f.lateMoves t).isEmpty && !(f.farMoves t).isEmpty

/-- The filter after some touches. -/
def after (f : TouchFilter) (ts : List Touch) : TouchFilter := (f.feed (ts.flatMap Touch.samples)).1

/-- In a chain the stage behind the filter gets what is let on of the touches, and nothing else. -/
theorem relay_touches (f : TouchFilter) (ts : List Touch) :
    relay receive f ((ts.flatMap Touch.samples).map .sample) =
      (f.after ts, (f.feed (ts.flatMap Touch.samples)).2.map .sample) := f.relay_samples _

/-! ## Single touches -/

theorem action_of_mem_lateMoves {m : Sample} (hm : m ∈ f.lateMoves t) : m.action = .move := by
  have hnear : m ∈ f.nearMoves t := (List.mem_filter.mp hm).1
  have hmove : m ∈ t.moves := (List.takeWhile_sublist _).subset hnear
  exact (t.moves_single m hmove).action

theorem action_of_mem_farMoves {m : Sample} (hm : m ∈ f.farMoves t) : m.action = .move := by
  have hmove : m ∈ t.moves := (List.dropWhile_sublist _).subset hm
  exact (t.moves_single m hmove).action

theorem letOn_shape (f : TouchFilter) (t : Touch) :
    if f.beginsTwice t then BegunTwice t (f.letOn t) else BegunOnce t (f.letOn t) := by
  unfold beginsTwice letOn
  cases f.ignores t with
  | true => exact Or.inl rfl
  | false =>
    cases f.policy.delays with
    | false =>
      refine Or.inr ⟨t.down, t.moves, rfl, t.down_single.action, ?_⟩
      intro m hm
      exact (t.moves_single m hm).action
    | true =>
      have hlate (m : Sample) (hm : m ∈ f.lateMoves t) := action_of_mem_lateMoves hm
      have hfar (m : Sample) (hm : m ∈ f.farMoves t) := action_of_mem_farMoves hm
      simp only [Bool.false_eq_true, if_false, if_true, heldBack]
      cases hl : f.lateMoves t with
      | nil =>
        cases hf : f.farMoves t with
        | nil =>
          cases f.isLate t t.up with
          | false => exact Or.inl rfl
          | true => exact Or.inr ⟨t.down, [], rfl, t.down_single.action, by simp⟩
        | cons m ms =>
          rw [hf] at hfar
          exact Or.inr ⟨m.withAction .down, ms, rfl, rfl, (List.forall_mem_cons.mp hfar).2⟩
      | cons l ls =>
        rw [hl] at hlate
        cases hf : f.farMoves t with
        | nil =>
          refine Or.inr ⟨l.withAction .down, l :: ls, ?_, rfl, hlate⟩
          simp [begun, dragged]
        | cons m ms =>
          rw [hf] at hfar
          refine ⟨l.withAction .down, l :: ls, m.withAction .down, ms, ?_, rfl, hlate, rfl,
            (List.forall_mem_cons.mp hfar).2⟩
          simp [begun, dragged]

/-! ## Runs of touches -/

theorem downsPaired_moves {ms : List Sample} (h : ∀ m ∈ ms, m.action = .move) (isDown : Bool)
    (rest : List Sample) : downsPaired isDown (ms ++ rest) = downsPaired isDown rest := by
  induction ms with
  | nil => rfl
  | cons m ms ih =>
    obtain ⟨hm, hms⟩ := List.forall_mem_cons.mp h
    rw [List.cons_append, downsPaired, hm]
    exact ih hms

theorem BegunOnce.downsPaired_append {out : List Sample} (h : BegunOnce t out)
    (rest : List Sample) : downsPaired false (out ++ rest) = downsPaired false rest := by
  rcases h with rfl | ⟨d, ms, rfl, hd, hms⟩
  · rfl
  · rw [List.cons_append, List.append_assoc, downsPaired, hd]
    show downsPaired true (ms ++ ([t.up] ++ rest)) = _
    rw [downsPaired_moves hms, List.singleton_append, downsPaired, t.up_single.action]

theorem BegunTwice.downsPaired_append {out : List Sample} (h : BegunTwice t out)
    (rest : List Sample) : downsPaired false (out ++ rest) = false := by
  obtain ⟨d, ms, d', ms', rfl, hd, hms, hd', -⟩ := h
  rw [List.cons_append, List.append_assoc, downsPaired, hd]
  show downsPaired true (ms ++ _) = false
  rw [downsPaired_moves hms, List.cons_append, downsPaired, hd']
  rfl

theorem after_cons (f : TouchFilter) (t : Touch) (ts : List Touch) :
    f.after (t :: ts) = (f.after [t]).after ts := by
  simp only [after, List.flatMap_cons, List.flatMap_nil, List.append_nil, feed_append]

theorem feed_touches_cons (f : TouchFilter) (t : Touch) (ts : List Touch) :
    (f.feed ((t :: ts).flatMap Touch.samples)).2 =
      f.letOn t ++ ((f.after [t]).feed (ts.flatMap Touch.samples)).2 := by
  simp only [after, List.flatMap_cons, List.flatMap_nil, List.append_nil, feed_append, feed_touch]

theorem downsPaired_feed (f : TouchFilter) (ts : List Touch) :
    downsPaired false (f.feed (ts.flatMap Touch.samples)).2 = true ↔
      ∀ before t later, ts = before ++ t :: later → (f.after before).beginsTwice t = false := by
  induction ts generalizing f with
  | nil => simp [feed, downsPaired]
  | cons t ts ih =>
    have hshape := f.letOn_shape t
    rw [feed_touches_cons]
    constructor
    · intro h before t' later heq
      cases htwice : f.beginsTwice t with
      | true =>
        rw [htwice, if_pos rfl] at hshape
        rw [hshape.downsPaired_append] at h
        cases h
      | false =>
        rw [htwice, if_neg (by decide)] at hshape
        rw [hshape.downsPaired_append] at h
        cases before with
        | nil =>
          cases heq
          exact htwice
        | cons u before =>
          rw [List.cons_append, List.cons.injEq] at heq
          obtain ⟨rfl, rfl⟩ := heq
          rw [after_cons]
          exact (ih (f.after [t])).mp h before t' later rfl
    · intro h
      have htwice : f.beginsTwice t = false := h [] t ts rfl
      rw [htwice, if_neg (by decide)] at hshape
      rw [hshape.downsPaired_append]
      apply (ih (f.after [t])).mpr
      intro before t' later heq
      rw [← after_cons]
      exact h (t :: before) t' later (by rw [heq]; rfl)

/-- So in a chain the stage behind the filter gets samples with no second down before the up of
the first exactly when no touch begins twice. -/
theorem downsPaired_relay (f : TouchFilter) (ts : List Touch) :
    ∃ out : List Sample,
      (relay receive f ((ts.flatMap Touch.samples).map .sample)).2 = out.map .sample ∧
        (downsPaired false out = true ↔
          ∀ before t later, ts = before ++ t :: later → (f.after before).beginsTwice t = false) :=
  ⟨_, congrArg Prod.snd (f.relay_touches ts), downsPaired_feed f ts⟩

/-- **Which touches begin once.** Whatever the policy, the threshold and the state of
the filter, a touch begins once or twice as its moves tell, and no second down comes
before the up of the first in what is let on of a run of touches, exactly when none of
them begins twice. -/
theorem downs_paired_iff (f : TouchFilter) (ts : List Touch) :
    (∀ before t later, ts = before ++ t :: later →
      (BegunOnce t ((f.after before).feed t.samples).2 ↔ (f.after before).beginsTwice t = false) ∧
      (BegunTwice t ((f.after before).feed t.samples).2 ↔ (f.after before).beginsTwice t = true)) ∧
      (downsPaired false (f.feed (ts.flatMap Touch.samples)).2 = true ↔
        ∀ before t later, ts = before ++ t :: later → (f.after before).beginsTwice t = false) := by
  refine ⟨?_, downsPaired_feed f ts⟩
  intro before t later _
  have hshape := (f.after before).letOn_shape t
  rw [feed_touch]
  have hnot : ¬ (BegunOnce t ((f.after before).letOn t) ∧
      BegunTwice t ((f.after before).letOn t)) := by
    rintro ⟨honce, htwice⟩
    have hpaired := honce.downsPaired_append []
    rw [htwice.downsPaired_append] at hpaired
    cases hpaired
  cases htwice : (f.after before).beginsTwice t with
  | true =>
    rw [htwice, if_pos rfl] at hshape
    exact ⟨⟨fun h => absurd ⟨h, hshape⟩ hnot, by simp⟩, ⟨fun _ => rfl, fun _ => hshape⟩⟩
  | false =>
    rw [htwice, if_neg (by decide)] at hshape
    exact ⟨⟨fun _ => rfl, fun _ => hshape⟩, ⟨fun h => absurd ⟨hshape, h⟩ hnot, by simp⟩⟩

/-- With the click delay of 300 ms and a threshold of four pixels, a finger that moves
by one pixel at 300 ms and by far more at 350 ms comes down twice before it lifts. -/
theorem late_then_far_begins_twice :
    let f := TouchFilter.new { clickDelay := .medium } (some ⟨1524, 2000, 160, 1⟩)
    ∃ t : Touch,
      t.samples =
        [.touch .down ⟨10, 10⟩ 0, .touch .move ⟨11, 10⟩ 300000, .touch .move ⟨200, 10⟩ 350000,
          .touch .up ⟨200, 10⟩ 400000] ∧
      (f.feed t.samples).2 =
        [.touch .down ⟨11, 10⟩ 300000, .touch .move ⟨11, 10⟩ 300000, .touch .down ⟨200, 10⟩ 350000,
          .touch .up ⟨200, 10⟩ 400000] ∧
      ¬ BegunOnce t (f.feed t.samples).2 ∧ downsPaired false (f.feed t.samples).2 = false := by
  intro f
  let t : Touch :=
    { down := .touch .down ⟨10, 10⟩ 0
      moves := [.touch .move ⟨11, 10⟩ 300000, .touch .move ⟨200, 10⟩ 350000]
      up := .touch .up ⟨200, 10⟩ 400000
      down_single := Sample.isSingle_touch _ _ _
      moves_single := by
        intro m hm
        rw [List.mem_cons, List.mem_singleton] at hm
        rcases hm with rfl | rfl
        · exact Sample.isSingle_touch _ _ _
        · exact Sample.isSingle_touch _ _ _
      up_single := Sample.isSingle_touch _ _ _ }
  have hout : (f.feed t.samples).2 =
      [.touch .down ⟨11, 10⟩ 300000, .touch .move ⟨11, 10⟩ 300000, .touch .down ⟨200, 10⟩ 350000,
        .touch .up ⟨200, 10⟩ 400000] := by
    decide +kernel
  have hpaired : downsPaired false (f.feed t.samples).2 = false := by
    rw [hout]
    rfl
  refine ⟨t, rfl, hout, ?_, hpaired⟩
  intro honce
  have hclosed := honce.downsPaired_append []
  rw [List.append_nil, hpaired] at hclosed
  cases hclosed

end TouchStream.TouchFilter
