import TouchStream.Proofs.TouchFilter.Touch

/-!
# What the filter does with one sample

A sample passes as it is, or is dropped, or is a down that is held back. Apart from that
the filter does one thing, and only under the click delay: a move or an up of a single
finger may bring a down on (`releases`), a far move and a late one as a down of its own,
and a late up as the down that was held. `Step` lists all that can happen, whatever the
state of the filter and the sample look like.

* `step_pointer`: nothing else happens.
* `Step.out_of_releases`, `Step.out_of_not_releases`: what is let on.
* `HeldDown.receive`: what is held back is a down of a single finger.
* `Cleared.releases_eq`, `Cleared.receive`: a filter that forgot the touch in progress has
  nothing to release but moves far from the origin, until the next down of a single finger.
-/

namespace TouchStream

/-! ## Samples of a single finger -/

namespace Sample

variable {s : Sample}

/-- Whether a sample is a well-formed one of a single finger on a touch screen. -/
def isLone (s : Sample) : Bool :=
  s.source = .touchscreen && s.pointerCount = 1 && s.position.isSome

theorem isLone_iff : s.isLone = true ↔
    s.source = .touchscreen ∧ s.pointerCount = 1 ∧ ∃ position, s.position = some position := by
  simp only [isLone, Bool.and_eq_true, decide_eq_true_iff, Option.isSome_iff_exists, and_assoc]

theorem isSingle_of_isLone (h : s.isLone = true) : s.IsSingle s.action := by
  obtain ⟨hsource, hcount, position, hposition⟩ := isLone_iff.mp h
  obtain ⟨c, hc⟩ := List.length_eq_one_iff.mp hcount
  refine ⟨hsource, rfl, c, hc, ?_⟩
  simp only [Sample.position, acting, hc, Option.map_eq_some_iff] at hposition
  obtain ⟨d, hd, -⟩ := hposition
  have hid := List.find?_some hd
  rw [List.mem_singleton.mp (List.mem_of_find?_eq_some hd)] at hid
  simpa using hid

theorem IsSingle.isLone {a : PointerAction} (h : s.IsSingle a) : s.isLone = true :=
  isLone_iff.mpr ⟨h.source, h.pointerCount_eq, s.point, h.position_eq⟩

theorem pointerCount_pos {position : Point} (h : s.position = some position) :
    0 < s.pointerCount := by
  obtain ⟨c, hc, -⟩ := Option.map_eq_some_iff.mp h
  exact List.length_pos_of_mem (List.mem_of_find?_eq_some hc)

end Sample

namespace TouchFilter

variable {f : TouchFilter} {s : Sample}

/-! ## Samples that pass -/

theorem pointer_passes (h : s.isLone = false ∨ s.action = .cancel) :
    (f.pointer s).2.2 = [s] ∧ ((f.pointer s).1 = f ∨ (f.pointer s).1 = f.clear) := by
  unfold pointer
  split
  · exact ⟨rfl, Or.inl rfl⟩
  · rename_i hsource
    split
    · exact ⟨rfl, Or.inr rfl⟩
    · rename_i haction
      split
      · exact ⟨rfl, Or.inl rfl⟩
      · rename_i hfew
        split
        · exact ⟨rfl, Or.inl rfl⟩
        · rename_i position hposition
          have hcount := Sample.pointerCount_pos hposition
          have hlone : s.isLone = true := by
            refine Sample.isLone_iff.mpr ⟨by simpa using hsource, ?_, position, hposition⟩
            simp only [not_or, Nat.not_lt] at hfew
            omega
          rcases h with h | h
          · rw [hlone] at h
            cases h
          · exact absurd h haction

/-! ## Samples of a single finger -/

theorem pointer_down_eq (h : s.isLone = true) (ha : s.action = .down) :
    ((f.pointer s).1, (f.pointer s).2.2) =
      if f.policy.ignoresRepeats && f.isRepeat s.time then ({ f with ignoring := true }, [])
      else ({ f with
        ignoring := f.ignoring && !f.policy.ignoresRepeats } : TouchFilter).onward s := by
  have hsingle := Sample.isSingle_of_isLone h
  rw [pointer_single hsingle (by simp [ha])]
  cases f.policy.ignoresRepeats with
  | false => simp
  | true =>
    simp only [if_true, Bool.true_and, Bool.not_true, Bool.and_false, unlessRepeated, ha]
    cases f.isRepeat s.time <;> rfl

theorem pointer_move_eq (h : s.isLone = true) (ha : s.action = .move) :
    ((f.pointer s).1, (f.pointer s).2.2) =
      if f.policy.ignoresRepeats && f.ignoring then (f, []) else f.onward s := by
  have hsingle := Sample.isSingle_of_isLone h
  rw [pointer_single hsingle (by simp [ha])]
  cases f.policy.ignoresRepeats with
  | false => rfl
  | true => simp only [if_true, Bool.true_and, unlessRepeated, ha]

theorem pointer_up_eq (h : s.isLone = true) (ha : s.action = .up) :
    ((f.pointer s).1, (f.pointer s).2.2) =
      if f.policy.ignoresRepeats && f.ignoring then ({ f with ignoring := false }, [])
      else ({ f with
        lastUp := if f.policy.ignoresRepeats then some s.time else f.lastUp } :
          TouchFilter).onward s := by
  have hsingle := Sample.isSingle_of_isLone h
  rw [pointer_single hsingle (by simp [ha])]
  cases f.policy.ignoresRepeats with
  | false => rfl
  | true => simp only [if_true, Bool.true_and, unlessRepeated, ha]

/-- Whether a sample that is no down makes the filter let a down on. -/
def releases (f : TouchFilter) (s : Sample) : Bool :=
  s.isLone && f.policy.delays && !(f.policy.ignoresRepeats && f.ignoring) && !f.dragging &&
    match s.action with
    | .move => f.threshold < f.startPoint.distance s.point || f.delayPassed s.time && f.held.isSome
    | .up => f.delayPassed s.time && f.held.isSome
    | _ => false

theorem isLone_of_releases (h : f.releases s = true) : s.isLone = true := by
  simp only [releases, Bool.and_eq_true] at h
  exact h.1.1.1.1

/-- What a filter may do with a sample: the filter after it, and what it lets on. -/
inductive Step (f : TouchFilter) (s : Sample) : TouchFilter → List Sample → Prop
  | passed (hnot : f.releases s = false) (ignoring : Bool) (lastUp : Option Micros)
      (hignoring : ignoring = true → f.ignoring = true) :
      Step f s { f with ignoring, lastUp } [s]
  | dropped (hnot : f.releases s = false) (ignoring : Bool)
      (hignoring : ignoring = true → f.ignoring = true ∨ s.isLone = true ∧ s.action = .down) :
      Step f s { f with ignoring } []
  | cleared (hnot : f.releases s = false) : Step f s f.clear [s]
  | heldBack (hnot : f.releases s = false) (hlone : s.isLone = true) (hdown : s.action = .down)
      (ignoring : Bool) : Step f s (({ f with ignoring } : TouchFilter).holdDown s s.point) []
  | ended (hnot : f.releases s = false) (lastUp : Option Micros) :
      Step f s { f with held := none, lastUp } []
  | farMove (hreleases : f.releases s = true) (hmove : s.action = .move) :
      Step f s { f with held := none, dragging := true } [s.withAction .down]
  | lateMove (hreleases : f.releases s = true) (hmove : s.action = .move) :
      Step f s { f with held := none } [s.withAction .down, s]
  | lateUp (hreleases : f.releases s = true) (hup : s.action = .up) {d : Sample}
      (hheld : f.held = some d) (lastUp : Option Micros) :
      Step f s { f with held := none, lastUp } [d, s]

theorem step_of_passes (h : s.isLone = false ∨ s.action = .cancel) :
    f.Step s (f.pointer s).1 (f.pointer s).2.2 := by
  have hnot : f.releases s = false := by
    rcases h with h | h <;> simp [releases, h]
  obtain ⟨hout, hstate⟩ := pointer_passes (f := f) h
  rw [hout]
  rcases hstate with hstate | hstate
  · rw [hstate]
    exact .passed hnot f.ignoring f.lastUp id
  · rw [hstate]
    exact .cleared hnot

theorem step_down (hlone : s.isLone = true) (ha : s.action = .down) :
    f.Step s (f.pointer s).1 (f.pointer s).2.2 := by
  have hnot : f.releases s = false := by simp [releases, ha]
  obtain ⟨hstate, hout⟩ := Prod.mk.inj ((pointer_down_eq (f := f) hlone ha).trans (Prod.eta _).symm)
  rw [hstate, hout]
  split
  · exact .dropped hnot true fun _ => Or.inr ⟨hlone, ha⟩
  · unfold onward
    split
    · simp only [delayed, ha]
      exact .heldBack hnot hlone ha _
    · refine .passed hnot _ f.lastUp ?_
      intro h
      exact (Bool.and_eq_true_iff.mp h).1

theorem step_move (hlone : s.isLone = true) (ha : s.action = .move) :
    f.Step s (f.pointer s).1 (f.pointer s).2.2 := by
  obtain ⟨hstate, hout⟩ := Prod.mk.inj ((pointer_move_eq (f := f) hlone ha).trans (Prod.eta _).symm)
  rw [hstate, hout]
  have hpass (hnot : f.releases s = false) : f.Step s f [s] := .passed hnot f.ignoring f.lastUp id
  have hdrop (hnot : f.releases s = false) : f.Step s f [] := .dropped hnot f.ignoring Or.inl
  cases hignored : f.policy.ignoresRepeats && f.ignoring with
  | true => exact hdrop (by simp [releases, hignored])
  | false =>
    rw [if_neg Bool.false_ne_true, onward]
    rcases Bool.eq_false_or_eq_true f.policy.delays with hdelays | hdelays
    · rw [if_pos hdelays, delayed, ha]
      show f.Step s (f.holdMove s s.point).1 (f.holdMove s s.point).2
      rcases Bool.eq_false_or_eq_true f.dragging with hdragging | hdragging
      · have hmove : f.holdMove s s.point = (f, [s]) := if_pos hdragging
        rw [hmove]
        exact hpass (by simp [releases, hdragging])
      · by_cases hfar : f.threshold < f.startPoint.distance s.point
        · have hmove : f.holdMove s s.point =
              ({ f with held := none, dragging := true }, [s.withAction .down]) := by
            simp [holdMove, hdragging, hfar]
          rw [hmove]
          exact .farMove (by simp [releases, hlone, hdelays, hignored, hdragging, ha, hfar]) ha
        · rcases Bool.eq_false_or_eq_true (f.delayPassed s.time) with hlate | hlate
          · rcases Option.eq_none_or_eq_some f.held with hheld | ⟨d, hheld⟩
            · have hmove : f.holdMove s s.point = (f, [s]) := by
                simp [holdMove, hdragging, hfar, hlate, hheld]
              rw [hmove]
              exact hpass (by simp [releases, ha, hfar, hheld])
            · have hmove : f.holdMove s s.point =
                  ({ f with held := none }, [s.withAction .down, s]) := by
                simp [holdMove, hdragging, hfar, hlate, hheld]
              have hreleases : f.releases s = true := by
                simp [releases, hlone, hdelays, hignored, hdragging, ha, hlate, hheld]
              rw [hmove]
              exact .lateMove hreleases ha
          · have hmove : f.holdMove s s.point = (f, []) := by
              simp [holdMove, hdragging, hfar, hlate]
            rw [hmove]
            exact hdrop (by simp [releases, ha, hfar, hlate])
    · rw [if_neg (by simp [hdelays])]
      exact hpass (by simp [releases, hdelays])

theorem step_up (hlone : s.isLone = true) (ha : s.action = .up) :
    f.Step s (f.pointer s).1 (f.pointer s).2.2 := by
  obtain ⟨hstate, hout⟩ := Prod.mk.inj ((pointer_up_eq (f := f) hlone ha).trans (Prod.eta _).symm)
  rw [hstate, hout]
  cases hignored : f.policy.ignoresRepeats && f.ignoring with
  | true => exact .dropped (by simp [releases, hignored]) false (by simp)
  | false =>
    rw [if_neg Bool.false_ne_true, onward]
    dsimp only
    generalize (if f.policy.ignoresRepeats then some s.time else f.lastUp) = lastUp
    have hpass (hnot : f.releases s = false) : f.Step s { f with lastUp } [s] :=
      .passed hnot f.ignoring lastUp id
    rcases Bool.eq_false_or_eq_true f.policy.delays with hdelays | hdelays
    · rw [if_pos hdelays, delayed, ha]
      show f.Step s (({ f with lastUp } : TouchFilter).holdUp s).1
        (({ f with lastUp } : TouchFilter).holdUp s).2
      rcases Bool.eq_false_or_eq_true f.dragging with hdragging | hdragging
      · have hup : ({ f with lastUp } : TouchFilter).holdUp s = ({ f with lastUp }, [s]) :=
          if_pos hdragging
        rw [hup]
        exact hpass (by simp [releases, hdragging])
      · rcases Option.eq_none_or_eq_some f.held with hheld | ⟨d, hheld⟩
        · have hup : ({ f with lastUp } : TouchFilter).holdUp s = ({ f with lastUp }, [s]) := by
            simp [holdUp, hdragging, hheld]
          rw [hup]
          exact hpass (by simp [releases, ha, hheld])
        · have hup : ({ f with lastUp } : TouchFilter).holdUp s =
              ({ f with held := none, lastUp }, if f.delayPassed s.time then [d, s] else []) := by
            simp [holdUp, hdragging, hheld, delayPassed]
          rw [hup]
          cases hlate : f.delayPassed s.time with
          | false => exact .ended (by simp [releases, ha, hlate]) lastUp
          | true =>
            have hreleases : f.releases s = true := by
              simp [releases, hlone, hdelays, hignored, hdragging, ha, hlate, hheld]
            exact .lateUp hreleases ha hheld lastUp
    · rw [if_neg (by simp [hdelays])]
      exact hpass (by simp [releases, hdelays])

/-- Nothing but a step happens. -/
theorem step_pointer (f : TouchFilter) (s : Sample) :
    f.Step s (f.pointer s).1 (f.pointer s).2.2 := by
  by_cases h : s.isLone = false ∨ s.action = .cancel
  · exact step_of_passes h
  · rw [not_or, Bool.not_eq_false] at h
    obtain ⟨hlone, hcancel⟩ := h
    cases ha : s.action with
    | down => exact step_down hlone ha
    | move => exact step_move hlone ha
    | up => exact step_up hlone ha
    | cancel => exact absurd ha hcancel

namespace Step

variable {f' : TouchFilter} {out : List Sample}

theorem out_of_not_releases (h : f.Step s f' out) (hnot : f.releases s = false) :
    out = [] ∨ out = [s] := by
  cases h with
  | passed => exact Or.inr rfl
  | dropped => exact Or.inl rfl
  | cleared => exact Or.inr rfl
  | heldBack => exact Or.inl rfl
  | ended => exact Or.inl rfl
  | farMove hreleases => exact absurd (hnot.symm.trans hreleases) (by simp)
  | lateMove hreleases => exact absurd (hnot.symm.trans hreleases) (by simp)
  | lateUp hreleases => exact absurd (hnot.symm.trans hreleases) (by simp)

theorem out_of_releases (h : f.Step s f' out) (hreleases : f.releases s = true) :
    s.action = .move ∧ (out = [s.withAction .down] ∨ out = [s.withAction .down, s]) ∨
      s.action = .up ∧ ∃ d, f.held = some d ∧ out = [d, s] := by
  cases h with
  | passed hnot => exact absurd (hnot.symm.trans hreleases) (by simp)
  | dropped hnot => exact absurd (hnot.symm.trans hreleases) (by simp)
  | cleared hnot => exact absurd (hnot.symm.trans hreleases) (by simp)
  | heldBack hnot => exact absurd (hnot.symm.trans hreleases) (by simp)
  | ended hnot => exact absurd (hnot.symm.trans hreleases) (by simp)
  | farMove _ hmove => exact Or.inl ⟨hmove, Or.inl rfl⟩
  | lateMove _ hmove => exact Or.inl ⟨hmove, Or.inr rfl⟩
  | lateUp _ hup hheld => exact Or.inr ⟨hup, _, hheld, rfl⟩

/-- The preferences stay. -/
theorem preferences (h : f.Step s f' out) :
    f'.policy = f.policy ∧ f'.delay = f.delay ∧ f'.threshold = f.threshold := by
  cases h <;> exact ⟨rfl, rfl, rfl⟩

/-- A down that is held after a sample was held before, or is that sample. -/
theorem held (h : f.Step s f' out) {d : Sample} (hd : f'.held = some d) :
    f.held = some d ∧ f'.startTime = f.startTime ∨
      d = s ∧ s.isLone = true ∧ s.action = .down ∧ f'.startTime = s.time := by
  cases h with
  | passed => exact Or.inl ⟨hd, rfl⟩
  | dropped => exact Or.inl ⟨hd, rfl⟩
  | heldBack _ hlone hdown => exact Or.inr ⟨(Option.some.inj hd).symm, hlone, hdown, rfl⟩
  | cleared => cases hd
  | ended => cases hd
  | farMove => cases hd
  | lateMove => cases hd
  | lateUp => cases hd

/-- When something is let on, no other down is held back after it than before. -/
theorem held_of_out (h : f.Step s f' out) (hout : out ≠ []) {d : Sample} (hd : f'.held = some d) :
    f.held = some d := by
  cases h with
  | passed => exact hd
  | dropped => exact hd
  | heldBack => exact absurd rfl hout
  | cleared => cases hd
  | ended => cases hd
  | farMove => cases hd
  | lateMove => cases hd
  | lateUp => cases hd

/-- Nothing stays held back when a down is let on. -/
theorem held_of_releases (h : f.Step s f' out) (hreleases : f.releases s = true) :
    f'.held = none := by
  cases h with
  | passed hnot => exact absurd (hnot.symm.trans hreleases) (by simp)
  | dropped hnot => exact absurd (hnot.symm.trans hreleases) (by simp)
  | cleared hnot => exact absurd (hnot.symm.trans hreleases) (by simp)
  | heldBack hnot => exact absurd (hnot.symm.trans hreleases) (by simp)
  | ended hnot => exact absurd (hnot.symm.trans hreleases) (by simp)
  | farMove => rfl
  | lateMove => rfl
  | lateUp => rfl

end Step

theorem preferences_receive (f : TouchFilter) (m : Message) :
    (f.receive m).state.policy = f.policy ∧ (f.receive m).state.delay = f.delay ∧
      (f.receive m).state.threshold = f.threshold := by
  cases m with
  | event e =>
    cases e with
    | pointer s => exact (f.step_pointer s).preferences
    | key k => exact ⟨rfl, rfl, rfl⟩
    | accessibility a => exact ⟨rfl, rfl, rfl⟩
  | time now => exact ⟨rfl, rfl, rfl⟩
  | clear source =>
    simp only [receive]
    split <;> exact ⟨rfl, rfl, rfl⟩
  | destroy => exact ⟨rfl, rfl, rfl⟩

/-! ## What is held -/

/-- What is held back is the down of a single finger, with which the touch started. -/
def HeldDown (f : TouchFilter) : Prop :=
  ∀ d, f.held = some d → d.isLone = true ∧ d.action = .down ∧ f.startTime = d.time

theorem heldDown_new (settings : FilterSettings) (display : Option Display) :
    (new settings display).HeldDown := by
  intro d hd
  cases hd

theorem HeldDown.receive (h : f.HeldDown) (m : Message) : (f.receive m).state.HeldDown := by
  intro d hd
  cases m with
  | event e =>
    cases e with
    | pointer s =>
      rcases (f.step_pointer s).held hd with ⟨hheld, hstart⟩ | ⟨rfl, hlone, hdown, hstart⟩
      · obtain ⟨hlone, hdown, htime⟩ := h d hheld
        exact ⟨hlone, hdown, hstart.trans htime⟩
      · exact ⟨hlone, hdown, hstart⟩
    | key k => exact h d hd
    | accessibility a => exact h d hd
  | time now => exact h d hd
  | clear source =>
    simp only [TouchFilter.receive] at hd ⊢
    split at hd
    · cases hd
    · rename_i hsource
      rw [if_neg hsource]
      exact h d hd
  | destroy => cases hd

/-! ## After a clear -/

/-- No touch is in progress. -/
structure Cleared (f : TouchFilter) : Prop where
  dragging : f.dragging = false
  ignoring : f.ignoring = false
  held : f.held = none
  startPoint : f.startPoint = .zero

theorem cleared_clear (f : TouchFilter) : f.clear.Cleared := ⟨rfl, rfl, rfl, rfl⟩

/-- Whether a sample is, under the click delay, a move of a single finger far from the
origin. -/
def isFarFromOrigin (f : TouchFilter) (s : Sample) : Bool :=
  s.isLone && f.policy.delays && s.action = .move && f.threshold < Point.zero.distance s.point

/-- Where the touch started is forgotten with it, and the origin stands in its place. -/
theorem Cleared.releases_eq (h : f.Cleared) (s : Sample) :
    f.releases s = f.isFarFromOrigin s := by
  cases ha : s.action <;>
    simp [releases, isFarFromOrigin, ha, h.dragging, h.ignoring, h.held, h.startPoint]

theorem Cleared.pointer (h : f.Cleared) (hdown : (s.isLone && s.action = .down) = false)
    (hnot : f.releases s = false) : (f.pointer s).1.Cleared := by
  have hno : ¬ (s.isLone = true ∧ s.action = .down) := by
    rintro ⟨hlone, ha⟩
    simp [hlone, ha] at hdown
  have hstep := f.step_pointer s
  generalize (f.pointer s).1 = f', (f.pointer s).2.2 = out at hstep
  cases hstep with
  | passed _ ignoring lastUp hignoring =>
    have hfalse : ignoring = false := Bool.eq_false_iff.mpr fun hi => by
      rw [h.ignoring] at hignoring
      cases hignoring hi
    exact ⟨h.dragging, hfalse, h.held, h.startPoint⟩
  | dropped _ ignoring hignoring =>
    have hfalse : ignoring = false := Bool.eq_false_iff.mpr fun hi => by
      rw [h.ignoring] at hignoring
      rcases hignoring hi with hi | hi
      · cases hi
      · exact hno hi
    exact ⟨h.dragging, hfalse, h.held, h.startPoint⟩
  | cleared => exact cleared_clear f
  | heldBack _ hlone ha => exact absurd ⟨hlone, ha⟩ hno
  | ended => exact ⟨h.dragging, h.ignoring, rfl, h.startPoint⟩
  | farMove hreleases => exact absurd (hnot.symm.trans hreleases) (by simp)
  | lateMove hreleases => exact absurd (hnot.symm.trans hreleases) (by simp)
  | lateUp hreleases => exact absurd (hnot.symm.trans hreleases) (by simp)

theorem Cleared.receive (h : f.Cleared) {m : Message}
    (hm : ∀ s, m = .event (.pointer s) →
      (s.isLone && s.action = .down) = false ∧ f.isFarFromOrigin s = false) :
    (f.receive m).state.Cleared := by
  cases m with
  | event e =>
    cases e with
    | pointer s =>
      obtain ⟨hdown, hfar⟩ := hm s rfl
      exact h.pointer hdown ((h.releases_eq s).trans hfar)
    | key k => exact h
    | accessibility a => exact h
  | time now => exact h
  | clear source =>
    simp only [TouchFilter.receive]
    split
    · exact cleared_clear f
    · exact h
  | destroy => exact ⟨rfl, rfl, rfl, rfl⟩

end TouchFilter

end TouchStream
