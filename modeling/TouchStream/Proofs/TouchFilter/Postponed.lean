import TouchStream.Proofs.Postponed
import TouchStream.Proofs.TouchFilter.Sample

/-!
# The filter, some time later

A filter that is given the same messages `c` later lets the same samples on, `c` later. The
start of the touch is zero until a down is held back, and it is looked at under the click
delay for a move without a down as well. So a filter that was never touched is not the same
filter some time later, and it is the first down of a single finger that makes it so.

* `Postponed.receive`: every message.
* `Untouched.pointer`: the first down of a single finger.
-/

namespace TouchStream.TouchFilter

variable {c room : Nat} {f f' : TouchFilter} {s s' : Sample} {now now' : Micros}

/-- The filters differ in nothing but times, and those of the second are `c` later. -/
inductive Postponed (c room : Nat) (f : TouchFilter) : TouchFilter → Prop
  | intro {startTime : Micros} {held : Option Sample} {lastUp : Option Micros}
    (hdelay : f.delay.toNat ≤ room)
    (hstart : f.policy.delays = true → f.startTime.Postponed c room startTime)
    (hheld : Option.Rel (Sample.Postponed c room) f.held held)
    (hup : Option.Rel (Micros.Postponed c room) f.lastUp lastUp) :
    Postponed c room f { f with startTime, held, lastUp }

/-- The same samples are let on, `c` later. -/
structure StepPostponed (c room : Nat) (x x' : TouchFilter × List Sample) : Prop where
  state : Postponed c room x.1 x'.1
  out : List.Forall₂ (Sample.Postponed c room) x.2 x'.2

namespace Postponed

theorem clear (h : Postponed c room f f') : Postponed c room f.clear f'.clear := by
  obtain ⟨hdelay, hstart, -, hup⟩ := h
  exact ⟨hdelay, hstart, .none, hup⟩

theorem destroy (h : Postponed c room f f') :
    Postponed c room { f.clear with lastUp := none } { f'.clear with lastUp := none } := by
  obtain ⟨hdelay, hstart, -, -⟩ := h
  exact ⟨hdelay, hstart, .none, .none⟩

theorem delayPassed_eq (h : Postponed c room f f') (hdelays : f.policy.delays = true)
    (hnow : now.Postponed c room now') : f'.delayPassed now' = f.delayPassed now := by
  obtain ⟨hdelay, hstart, -, -⟩ := h
  have hover := (hstart hdelays).later hdelay
  exact decide_eq_decide.mpr (hover.le_iff hnow)

theorem isRepeat_eq (h : Postponed c room f f') (hnow : now.Postponed c room now') :
    f'.isRepeat now' = f.isRepeat now := by
  obtain ⟨-, -, -, hup⟩ := h
  unfold isRepeat
  revert hup
  generalize f.lastUp = up
  intro hup
  cases hup with
  | none => rfl
  | some hup => simp only [hup.since_eq hnow]

/-! ## Click delay -/

theorem holdMove (h : Postponed c room f f') (hdelays : f.policy.delays = true)
    (hs : s.Postponed c room s') (position : Point) :
    StepPostponed c room (f.holdMove s position) (f'.holdMove s' position) := by
  have hpassed := h.delayPassed_eq hdelays hs.time
  have hdown := hs.withAction .down
  obtain ⟨hdelay, hstart, hheld, hup⟩ := h
  simp only [TouchFilter.holdMove, hpassed]
  split
  · exact ⟨⟨hdelay, hstart, hheld, hup⟩, .cons hs .nil⟩
  · split
    · exact ⟨⟨hdelay, hstart, .none, hup⟩, .cons hdown .nil⟩
    · split
      · exact ⟨⟨hdelay, hstart, hheld, hup⟩, .nil⟩
      · cases f with
        | mk policy delay window threshold startTime startPoint held dragging lastUp ignoring =>
          cases hheld with
          | none => exact ⟨⟨hdelay, hstart, .none, hup⟩, .cons hs .nil⟩
          | some _ => exact ⟨⟨hdelay, hstart, .none, hup⟩, .cons hdown (.cons hs .nil)⟩

theorem holdUp (h : Postponed c room f f') (hdelays : f.policy.delays = true)
    (hs : s.Postponed c room s') :
    StepPostponed c room (f.holdUp s) (f'.holdUp s') := by
  have hpassed := h.delayPassed_eq hdelays hs.time
  obtain ⟨hdelay, hstart, hheld, hup⟩ := h
  simp only [TouchFilter.holdUp, hpassed]
  split
  · exact ⟨⟨hdelay, hstart, hheld, hup⟩, .cons hs .nil⟩
  · cases f with
    | mk policy delay window threshold startTime startPoint held dragging lastUp ignoring =>
      cases hheld with
      | none => exact ⟨⟨hdelay, hstart, .none, hup⟩, .cons hs .nil⟩
      | some hdown =>
        refine ⟨⟨hdelay, hstart, .none, hup⟩, ?_⟩
        dsimp only
        split
        · exact .cons hdown (.cons hs .nil)
        · exact .nil

theorem delayed (h : Postponed c room f f') (hdelays : f.policy.delays = true)
    (hs : s.Postponed c room s') (position : Point) :
    StepPostponed c room (f.delayed s position) (f'.delayed s' position) := by
  have haction : s'.action = s.action := by
    obtain ⟨t, -, rfl⟩ := hs
    rfl
  simp only [TouchFilter.delayed, haction]
  cases s.action with
  | down =>
    obtain ⟨hdelay, -, -, hup⟩ := h
    exact ⟨⟨hdelay, fun _ => hs.time, .some hs, hup⟩, .nil⟩
  | move => exact h.holdMove hdelays hs position
  | up => exact h.holdUp hdelays hs
  | cancel => exact ⟨h, .cons hs .nil⟩

/-! ## Ignoring repetitions -/

theorem unlessRepeated (h : Postponed c room f f') (hs : s.Postponed c room s')
    {further further' : TouchFilter → TouchFilter × List Sample}
    (hfurther : ∀ {g g'}, g.policy = f.policy → Postponed c room g g' →
      StepPostponed c room (further g) (further' g')) :
    StepPostponed c room (f.unlessRepeated s further) (f'.unlessRepeated s' further') := by
  have haction : s'.action = s.action := by
    obtain ⟨t, -, rfl⟩ := hs
    rfl
  have hrepeat := h.isRepeat_eq hs.time
  obtain ⟨hdelay, hstart, hheld, hup⟩ := h
  simp only [TouchFilter.unlessRepeated, haction, hrepeat]
  cases s.action with
  | down =>
    dsimp only
    split
    · exact ⟨⟨hdelay, hstart, hheld, hup⟩, .nil⟩
    · exact hfurther rfl ⟨hdelay, hstart, hheld, hup⟩
  | move =>
    dsimp only
    split
    · exact ⟨⟨hdelay, hstart, hheld, hup⟩, .nil⟩
    · exact hfurther rfl ⟨hdelay, hstart, hheld, hup⟩
  | up =>
    dsimp only
    split
    · exact ⟨⟨hdelay, hstart, hheld, hup⟩, .nil⟩
    · exact hfurther rfl ⟨hdelay, hstart, hheld, .some hs.time⟩
  | cancel => exact ⟨⟨hdelay, hstart, hheld, hup⟩, .cons hs .nil⟩

/-! ## Samples and messages -/

theorem pointer (h : Postponed c room f f') (hs : s.Postponed c room s') :
    StepPostponed c room ((f.pointer s).1, (f.pointer s).2.2)
        ((f'.pointer s').1, (f'.pointer s').2.2) ∧
      (f'.pointer s').2.1 = (f.pointer s).2.1 := by
  have hsame : s'.source = s.source ∧ s'.action = s.action ∧ s'.pointerCount = s.pointerCount ∧
      s'.position = s.position := by
    obtain ⟨t, -, rfl⟩ := hs
    exact ⟨rfl, rfl, rfl, rfl⟩
  obtain ⟨hsource, haction, hcount, hposition⟩ := hsame
  have hpolicy : f'.policy = f.policy := by
    obtain ⟨-, -, -, -⟩ := h
    rfl
  unfold TouchFilter.pointer
  rw [hsource, haction, hcount, hposition, hpolicy]
  split
  · exact ⟨⟨h, .cons hs .nil⟩, rfl⟩
  · split
    · exact ⟨⟨h.clear, .cons hs .nil⟩, rfl⟩
    · split
      · exact ⟨⟨h, .cons hs .nil⟩, rfl⟩
      · cases s.position with
        | none => exact ⟨⟨h, .cons hs .nil⟩, rfl⟩
        | some position =>
          cases hp : f.policy with
          | none => exact ⟨⟨h, .cons hs .nil⟩, rfl⟩
          | delayOnly => exact ⟨h.delayed (by rw [hp]; rfl) hs position, rfl⟩
          | ignoreRepeatOnly =>
            have hstep : StepPostponed c room (f.unlessRepeated s fun f => (f, [s]))
                (f'.unlessRepeated s' fun f => (f, [s'])) :=
              h.unlessRepeated hs fun _ hg => ⟨hg, .cons hs .nil⟩
            exact ⟨hstep, rfl⟩
          | both =>
            have hstep : StepPostponed c room (f.unlessRepeated s fun f => f.delayed s position)
                (f'.unlessRepeated s' fun f => f.delayed s' position) :=
              h.unlessRepeated hs fun hsame hg => hg.delayed (by rw [hsame, hp]; rfl) hs position
            exact ⟨hstep, rfl⟩

theorem receive (h : Postponed c room f f') {m m' : Message} (hm : m.Postponed c room m') :
    Reply.Postponed c room (Postponed c room) (f.receive m) (f'.receive m') := by
  cases hm with
  | event he =>
    cases he with
    | pointer hs =>
      obtain ⟨hstep, hhandled⟩ := h.pointer hs
      exact ⟨hstep.state, hhandled, samples_postponed hstep.out⟩
    | key hk => exact ⟨h, rfl, .cons (.message (.event (.key hk))) .nil⟩
    | accessibility ha => exact ⟨h, rfl, .cons (.message (.event (.accessibility ha))) .nil⟩
  | time hnow => exact ⟨h, rfl, .cons (.message (.time hnow)) .nil⟩
  | clear source =>
    refine ⟨?_, rfl, .cons (.message (.clear source)) .nil⟩
    simp only [TouchFilter.receive]
    split
    · exact h.clear
    · exact h
  | destroy => exact ⟨h.destroy, rfl, .cons (.message .destroy) .nil⟩

end Postponed

/-! ## The first touch -/

/-- No sample was ever held back, and no touch has ended. -/
structure Untouched (f : TouchFilter) : Prop where
  held : f.held = none
  lastUp : f.lastUp = none

namespace Untouched

theorem new (settings : FilterSettings) (display : Option Display) :
    (new settings display).Untouched := ⟨rfl, rfl⟩

/-- A message without a sample does not touch the filter. -/
theorem receive (h : f.Untouched) {m : Message} (hm : ∀ s, m ≠ .event (.pointer s)) :
    (f.receive m).state.Untouched := by
  cases m with
  | event e =>
    cases e with
    | pointer s => exact absurd rfl (hm s)
    | key k => exact h
    | accessibility a => exact h
  | time now => exact h
  | clear source =>
    simp only [TouchFilter.receive]
    split
    · exact ⟨rfl, h.lastUp⟩
    · exact h
  | destroy => exact ⟨rfl, rfl⟩

/-- Under the click delay the first down starts the touch anew. -/
theorem pointer_restarted (h : f.Untouched) (hlone : s.isLone = true) (ha : s.action = .down)
    (hdelays : f.policy.delays = true) (startTime : Micros) :
    ({ f with startTime } : TouchFilter).pointer s = f.pointer s := by
  obtain ⟨hsource, hcount, position, hposition⟩ := Sample.isLone_iff.mp hlone
  have hlast := h.lastUp
  obtain ⟨policy, delay, window, threshold, start, point, held, dragging, lastUp, ignoring⟩ := f
  subst hlast
  cases policy with
  | none => cases hdelays
  | delayOnly =>
    simp [TouchFilter.pointer, hsource, ha, hcount, hposition, delayed, holdDown]
  | ignoreRepeatOnly => cases hdelays
  | both =>
    simp [TouchFilter.pointer, hsource, ha, hcount, hposition, unlessRepeated, isRepeat, delayed,
      holdDown]

theorem pointer (h : f.Untouched) (hdelay : f.delay.toNat ≤ room) (hlone : s.isLone = true)
    (ha : s.action = .down) (hs : s.Postponed c room s') :
    StepPostponed c room ((f.pointer s).1, (f.pointer s).2.2)
        ((f.pointer s').1, (f.pointer s').2.2) ∧
      (f.pointer s').2.1 = (f.pointer s).2.1 := by
  have hheld : Option.Rel (Sample.Postponed c room) f.held f.held := by
    rw [h.held]
    exact .none
  have hup : Option.Rel (Micros.Postponed c room) f.lastUp f.lastUp := by
    rw [h.lastUp]
    exact .none
  cases hdelays : f.policy.delays with
  | false =>
    have hsame : Postponed c room f f := ⟨hdelay, by simp [hdelays], hheld, hup⟩
    exact hsame.pointer hs
  | true =>
    have hkept : s'.isLone = true ∧ s'.action = .down := by
      obtain ⟨t, -, rfl⟩ := hs
      exact ⟨hlone, ha⟩
    have hrestarted : Postponed c room { f with startTime := s.time }
        { f with startTime := s'.time } :=
      ⟨hdelay, fun _ => hs.time, hheld, hup⟩
    have hstep := hrestarted.pointer hs
    rw [h.pointer_restarted hlone ha hdelays, h.pointer_restarted hkept.1 hkept.2 hdelays] at hstep
    exact hstep

end Untouched

end TouchStream.TouchFilter
