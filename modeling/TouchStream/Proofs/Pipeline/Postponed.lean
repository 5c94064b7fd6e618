import TouchStream.Proofs.Pipeline.Run
import TouchStream.Proofs.Recognizer.Postponed
import TouchStream.Proofs.TouchFilter.Postponed

/-!
# Only differences of times matter

A pipeline that is asked the same things `c` later answers the same, `c` later. Two pipelines
are followed side by side, with states that differ in nothing but their times. As long as no
sample was fed, the clock and the start of a touch may be zero in both; the first down of a
single finger sets them right. A sample before it is read against these zeros, and then it
matters when it comes.

* `Stage.Postponed`, `Chain.relay_postponed`: the stages behind the filter.
* `Pipeline.Postponed.handle`: one request.
* `observe_postponed`: every run of a built pipeline.
-/

namespace TouchStream

variable {c room : Nat}

/-! ## Stages -/

namespace Stage

/-- The same stage, with times that are `c` later. -/
inductive Postponed (c room : Nat) : Stage → Stage → Prop
  | passThrough : Postponed c room .passThrough .passThrough
  | filter {f f' : TouchFilter} (h : f.Postponed c room f') :
    Postponed c room (.filter f) (.filter f')
  | recognizer {r r' : Recognizer} (h : r.Postponed c room r') :
    Postponed c room (.recognizer r) (.recognizer r')
  | sink : Postponed c room .sink .sink

/-- The longest span that a stage adds to a time. -/
def longestSpan : Stage → Nat
  | filter f => f.delay.toNat
  | recognizer r => r.longestSpan
  | _ => 0

/-- A stage holds no times yet, and it is no filter that holds samples back. -/
def IsTimeless : Stage → Prop
  | filter f => f.Untouched ∧ f.policy.delays = false
  | recognizer r =>
    r.recognizing = false ∧ r.timers.pending = [] ∧ r.lastDown = none ∧ r.lastUp = none
  | _ => True

variable {stage stage' : Stage}

theorem IsTimeless.postponed (h : stage.IsTimeless) (hspan : stage.longestSpan ≤ room) (c : Nat) :
    stage.Postponed c room stage := by
  cases stage with
  | passThrough => exact .passThrough
  | filter f =>
    obtain ⟨⟨hheld, hup⟩, hdelays⟩ := h
    have hsame : f.Postponed c room f :=
      ⟨hspan, by simp [hdelays], by rw [hheld]; exact .none, by rw [hup]; exact .none⟩
    exact .filter hsame
  | recognizer r =>
    obtain ⟨hr, htimers, hdown, hup⟩ := h
    have hsame : r.Postponed c room r :=
      ⟨hspan, .of_nil htimers, by simp [hr], by rw [hdown]; exact .none,
        by rw [hup]; exact .none⟩
    exact .recognizer hsame
  | sink => exact .sink

namespace Postponed

theorem receive (h : Postponed c room stage stage') {m m' : Message}
    (hm : m.Postponed c room m') :
    Reply.Postponed c room (Postponed c room) (stage.receive m) (stage'.receive m') := by
  cases h with
  | passThrough => exact ⟨.passThrough, rfl, .cons (.message hm) .nil⟩
  | filter hf =>
    have hreply := hf.receive hm
    exact ⟨.filter hreply.state, hreply.handled_eq, hreply.out⟩
  | recognizer hr =>
    have hreply := hr.receive hm
    exact ⟨.recognizer hreply.state, hreply.handled_eq, hreply.out⟩
  | sink =>
    cases hm with
    | event he =>
      cases he with
      | pointer hs => exact ⟨.sink, rfl, .cons (.report (.delivered (.pointer hs))) .nil⟩
      | key hk => exact ⟨.sink, rfl, .cons (.report (.delivered (.key hk))) .nil⟩
      | accessibility ha =>
        exact ⟨.sink, rfl, .cons (.report (.delivered (.accessibility ha))) .nil⟩
    | time hnow => exact ⟨.sink, rfl, .cons (.message (.time hnow)) .nil⟩
    | clear source => exact ⟨.sink, rfl, .cons (.message (.clear source)) .nil⟩
    | destroy => exact ⟨.sink, rfl, .cons (.message .destroy) .nil⟩

theorem nextDeadline (h : Postponed c room stage stage') :
    Option.Rel (Micros.Postponed c 0) stage.nextDeadline stage'.nextDeadline := by
  cases h with
  | passThrough => exact .none
  | filter hf => exact .none
  | recognizer hr =>
    obtain ⟨-, htimers, -, -, -⟩ := hr
    exact htimers.nextDeadline
  | sink => exact .none

theorem pendingTimers_eq (h : Postponed c room stage stage') :
    stage'.pendingTimers = stage.pendingTimers := by
  cases h with
  | passThrough => rfl
  | filter hf => rfl
  | recognizer hr =>
    obtain ⟨-, htimers, -, -, -⟩ := hr
    exact htimers.size_eq
  | sink => rfl

end Postponed

end Stage

/-! ## Chains -/

namespace Chain

/-- The longest span that a stage of a chain adds to a time. -/
def longestSpan (chain : Chain) : Nat := chain.foldr (fun stage n => max stage.longestSpan n) 0

theorem longestSpan_le {chain : Chain} {stage : Stage} (h : stage ∈ chain) :
    stage.longestSpan ≤ chain.longestSpan := by
  induction chain with
  | nil => cases h
  | cons first rest ih =>
    show stage.longestSpan ≤ max first.longestSpan (longestSpan rest)
    rcases List.mem_cons.mp h with rfl | hrest
    · exact Nat.le_max_left _ _
    · exact Nat.le_trans (ih hrest) (Nat.le_max_right _ _)

variable {chain chain' : Chain}

theorem relay_postponed (h : List.Forall₂ (Stage.Postponed c room) chain chain')
    {signals signals' : List Signal}
    (hsignals : List.Forall₂ (Signal.Postponed c room) signals signals') :
    List.Forall₂ (Stage.Postponed c room) (chain.relay signals).1 (chain'.relay signals').1 ∧
      List.Forall₂ (Report.Postponed c room) (chain.relay signals).2
        (chain'.relay signals').2 := by
  induction h generalizing signals signals' with
  | nil => exact ⟨.nil, reports_postponed hsignals⟩
  | cons hstage _ ih =>
    obtain ⟨hfirst, hpassed⟩ :=
      TouchStream.relay_postponed (fun hx hm => hx.receive hm) hstage hsignals
    obtain ⟨hrest, hreports⟩ := ih hpassed
    exact ⟨.cons hfirst hrest, hreports⟩

theorem nextDeadline_postponed (h : List.Forall₂ (Stage.Postponed c room) chain chain') :
    Option.Rel (Micros.Postponed c 0) chain.nextDeadline chain'.nextDeadline := by
  induction h with
  | nil => exact .none
  | cons hstage _ ih => exact earlierDeadline_postponed hstage.nextDeadline ih

theorem pendingTimers_postponed (h : List.Forall₂ (Stage.Postponed c room) chain chain') :
    chain'.pendingTimers = chain.pendingTimers := by
  induction h with
  | nil => rfl
  | cons hstage _ ih => exact congrArg₂ (· + ·) hstage.pendingTimers_eq ih

end Chain

namespace Pipeline

variable {p p' : Pipeline} {R R' : TouchFilter → TouchFilter → Prop} {s s' : Sample}
  {now now' : Micros}

/-! ## Pipelines -/

/-- The pipelines differ in nothing but times, and those of the second are `c` later. Their
filters are related by `R`, and both clocks may still be at zero. -/
structure Postponed (c room : Nat) (R : TouchFilter → TouchFilter → Prop) (p p' : Pipeline) :
    Prop where
  filter : R p.filter p'.filter
  recognizer : p.recognizer.Postponed c room p'.recognizer
  output : List.Forall₂ (Stage.Postponed c room) p.output p'.output
  clock : p.clock.Postponed c 0 p'.clock ∨ p.clock = 0 ∧ p'.clock = 0
  destroyed_eq : p'.destroyed = p.destroyed

/-- The same answer and reports, `c` later. -/
structure AnswerPostponed (c room : Nat) (R : TouchFilter → TouchFilter → Prop)
    (x x' : Pipeline × Bool × List Report) : Prop where
  state : Postponed c room R x.1 x'.1
  handled_eq : x'.2.1 = x.2.1
  reports : List.Forall₂ (Report.Postponed c room) x.2.2 x'.2.2

/-- Messages without a sample keep a relation between filters. -/
def Keeps (c room : Nat) (R : TouchFilter → TouchFilter → Prop) : Prop :=
  ∀ {f f' m m'}, (∀ s, m ≠ .event (.pointer s)) → R f f' → Message.Postponed c room m m' →
    Reply.Postponed c room R (f.receive m) (f'.receive m')

namespace Postponed

theorem send (h : Postponed c room R p p') {m m' : Message}
    (hreply : Reply.Postponed c room R' (p.filter.receive m) (p'.filter.receive m')) :
    AnswerPostponed c room R' (p.send m) (p'.send m') := by
  obtain ⟨hrecognizer, hpassed⟩ :=
    relay_postponed (fun hx hm => hx.receive hm) h.recognizer hreply.out
  obtain ⟨houtput, hreports⟩ := Chain.relay_postponed h.output hpassed
  exact ⟨⟨hreply.state, hrecognizer, houtput, h.clock, h.destroyed_eq⟩, hreply.handled_eq,
    hreports⟩

theorem nextDeadline (h : Postponed c room R p p') :
    Option.Rel (Micros.Postponed c 0) p.nextDeadline p'.nextDeadline := by
  have hown : Option.Rel (Micros.Postponed c 0) p.recognizer.timers.nextDeadline
      p'.recognizer.timers.nextDeadline := (Stage.Postponed.recognizer h.recognizer).nextDeadline
  exact earlierDeadline_postponed hown (Chain.nextDeadline_postponed h.output)

theorem pendingTimers_eq (h : Postponed c room R p p') : p'.pendingTimers = p.pendingTimers :=
  congrArg₂ (· + ·) (Stage.Postponed.recognizer h.recognizer).pendingTimers_eq
    (Chain.pendingTimers_postponed h.output)

/-! ## The clock -/

theorem clock_max (h : Postponed c room R p p') (hnow : now.Postponed c 0 now') :
    (max p.clock now).Postponed c 0 (max p'.clock now') := by
  rcases h.clock with hclock | ⟨hzero, hzero'⟩
  · exact hclock.max hnow
  · rw [hzero, hzero', Micros.max_eq_right UInt64.zero_le, Micros.max_eq_right UInt64.zero_le]
    exact hnow

theorem tick (h : Postponed c room R p p') (hnow : now.Postponed c 0 now') :
    Postponed c room R { p with clock := max p.clock now }
      { p' with clock := max p'.clock now' } :=
  { h with clock := Or.inl (h.clock_max hnow) }

theorem advance (h : Postponed c room R p p') (hR : Keeps c room R)
    (hnow : now.Postponed c 0 now') :
    Postponed c room R (p.advance now).1 (p'.advance now').1 ∧
      List.Forall₂ (Report.Postponed c room) (p.advance now).2 (p'.advance now').2 := by
  have hsent := (h.tick hnow).send
    (hR (by simp) (h.tick hnow).filter (.time (h.clock_max hnow)))
  exact ⟨hsent.state, hsent.reports⟩

theorem catchUp (h : Postponed c room R p p') (hR : Keeps c room R)
    (hs : s.Postponed c room s') :
    Postponed c room R (p.catchUp s.time).1 (p'.catchUp s'.time).1 ∧
      List.Forall₂ (Report.Postponed c room) (p.catchUp s.time).2 (p'.catchUp s'.time).2 := by
  have hdeadline := h.nextDeadline
  unfold Pipeline.catchUp
  revert hdeadline
  generalize p.nextDeadline = deadline, p'.nextDeadline = deadline'
  intro hdeadline
  cases hdeadline with
  | none => exact ⟨h, .nil⟩
  | @some d d' hd =>
    dsimp only
    by_cases hdue : d < s.time
    · rw [if_pos hdue, if_pos ((hd.lt_iff hs.time).mpr hdue)]
      exact h.advance hR (hs.time.sub_one hdue)
    · rw [if_neg hdue, if_neg (mt (hd.lt_iff hs.time).mp hdue)]
      exact ⟨h, .nil⟩

/-! ## Requests -/

theorem pointer (h : Postponed c room R p p') (hR : Keeps c room R)
    (hs : s.Postponed c room s')
    (hsample : ∀ {f f'}, R f f' → Reply.Postponed c room R' (f.receive (.event (.pointer s)))
      (f'.receive (.event (.pointer s')))) :
    AnswerPostponed c room R' (p.pointer s) (p'.pointer s') := by
  obtain ⟨hcaught, hearly⟩ := h.catchUp hR hs
  have hsent := (hcaught.tick hs.time.tight).send (hsample (hcaught.tick hs.time.tight).filter)
  exact ⟨hsent.state, hsent.handled_eq, List.rel_append hearly hsent.reports⟩

theorem flushRounds (h : Postponed c room R p p') (hR : Keeps c room R) (n : Nat) :
    Postponed c room R (flushRounds n p).1 (flushRounds n p').1 ∧
      List.Forall₂ (Report.Postponed c room) (flushRounds n p).2 (flushRounds n p').2 := by
  induction n generalizing p p' with
  | zero => exact ⟨h, .nil⟩
  | succ n ih =>
    have hdeadline := h.nextDeadline
    unfold Pipeline.flushRounds
    revert hdeadline
    generalize p.nextDeadline = deadline, p'.nextDeadline = deadline'
    intro hdeadline
    cases hdeadline with
    | none => exact ⟨h, .nil⟩
    | some hd =>
      obtain ⟨hstate, hreports⟩ := h.advance hR hd
      obtain ⟨hrest, hmore⟩ := ih hstate
      exact ⟨hrest, List.rel_append hreports hmore⟩

end Postponed

/-- The same request, `c` later. -/
inductive Request.Postponed (c room : Nat) : Request → Request → Prop
  | feed {e e' : Event} (h : e.Postponed c room e') : Postponed c room (.feed e) (.feed e')
  | advance {now now' : Micros} (h : now.Postponed c 0 now') :
    Postponed c room (.advance now) (.advance now')
  | flush : Postponed c room .flush .flush
  | clear (source : PointerSource) : Postponed c room (.clear source) (.clear source)
  | destroy : Postponed c room .destroy .destroy

theorem Request.Postponed.of_sample {request request' : Request}
    (h : request.Postponed c room request') (hs : request.sample? = some s) :
    ∃ s', s.Postponed c room s' ∧ request = .feed (.pointer s) ∧
      request' = .feed (.pointer s') := by
  cases h with
  | feed he =>
    cases he with
    | @pointer _ s' hpostponed =>
      cases hs
      exact ⟨s', hpostponed, rfl, rfl⟩
    | key hk => cases hs
    | accessibility ha => cases hs
  | advance hnow => cases hs
  | flush => cases hs
  | clear source => cases hs
  | destroy => cases hs

namespace Postponed

/-- A request without a sample keeps the filters related as they are. -/
theorem handle_untouched (h : Postponed c room R p p') (hR : Keeps c room R)
    {request request' : Request} (hrequest : request.Postponed c room request')
    (hnone : request.sample? = none) :
    AnswerPostponed c room R (p.handle request) (p'.handle request') := by
  cases hrequest with
  | feed he =>
    cases he with
    | pointer hs => cases hnone
    | key hk => exact h.send (hR (by simp) h.filter (.event (.key hk)))
    | accessibility ha => exact h.send (hR (by simp) h.filter (.event (.accessibility ha)))
  | advance hnow =>
    obtain ⟨hstate, hreports⟩ := h.advance hR hnow
    exact ⟨hstate, rfl, hreports⟩
  | flush =>
    have hrounds := h.flushRounds hR p.pendingTimers
    simp only [Pipeline.handle, Pipeline.flush, h.pendingTimers_eq]
    exact ⟨hrounds.1, rfl, hrounds.2⟩
  | clear source =>
    have hsent := h.send (hR (by simp) h.filter (.clear source))
    exact ⟨hsent.state, rfl, hsent.reports⟩
  | destroy =>
    simp only [Pipeline.handle, Pipeline.destroy, h.destroyed_eq]
    split
    · exact ⟨h, rfl, .nil⟩
    · have hmarked : Postponed c room R { p with destroyed := true }
          { p' with destroyed := true } := { h with destroyed_eq := rfl }
      have hsent := hmarked.send (hR (by simp) h.filter .destroy)
      exact ⟨hsent.state, rfl, hsent.reports⟩

theorem keeps_postponed : Keeps c room (TouchFilter.Postponed c room) :=
  fun _ hf hm => hf.receive hm

theorem handle (h : Postponed c room (TouchFilter.Postponed c room) p p')
    {request request' : Request} (hrequest : request.Postponed c room request') :
    AnswerPostponed c room (TouchFilter.Postponed c room) (p.handle request)
      (p'.handle request') := by
  cases hsample : request.sample? with
  | none => exact h.handle_untouched keeps_postponed hrequest hsample
  | some s =>
    obtain ⟨s', hs, rfl, rfl⟩ := hrequest.of_sample hsample
    exact h.pointer keeps_postponed hs fun hf => hf.receive (.event (.pointer hs))

end Postponed

/-! ## The first sample -/

/-- The filters are one and the same, which was not touched. -/
def SameUntouched (room : Nat) (f f' : TouchFilter) : Prop :=
  f' = f ∧ f.Untouched ∧ f.delay.toNat ≤ room

theorem keeps_untouched : Keeps c room (SameUntouched room) := by
  rintro f f' m m' hnone ⟨rfl, huntouched, hdelay⟩ hm
  have hlater := huntouched.receive hnone
  cases hm with
  | event he =>
    cases he with
    | pointer hs => exact absurd rfl (hnone _)
    | key hk => exact ⟨⟨rfl, hlater, hdelay⟩, rfl, .cons (.message (.event (.key hk))) .nil⟩
    | accessibility ha =>
      exact ⟨⟨rfl, hlater, hdelay⟩, rfl, .cons (.message (.event (.accessibility ha))) .nil⟩
  | time hnow => exact ⟨⟨rfl, hlater, hdelay⟩, rfl, .cons (.message (.time hnow)) .nil⟩
  | clear source =>
    refine ⟨⟨rfl, hlater, ?_⟩, rfl, .cons (.message (.clear source)) .nil⟩
    simp only [TouchFilter.receive]
    split <;> exact hdelay
  | destroy => exact ⟨⟨rfl, hlater, hdelay⟩, rfl, .cons (.message .destroy) .nil⟩

/-- The first down of a single finger sets the filters right. -/
theorem Postponed.firstDown (h : Postponed c room (SameUntouched room) p p')
    (hs : s.Postponed c room s') (hlone : s.isLone = true) (ha : s.action = .down) :
    AnswerPostponed c room (TouchFilter.Postponed c room) (p.pointer s) (p'.pointer s') := by
  refine h.pointer keeps_untouched hs ?_
  rintro f f' ⟨rfl, huntouched, hdelay⟩
  obtain ⟨hstep, hhandled⟩ := huntouched.pointer hdelay hlone ha hs
  exact ⟨hstep.state, hhandled, samples_postponed hstep.out⟩

/-! ## Runs -/

/-- What can be seen when something is asked of a pipeline: whether an event was taken charge
of, what was reported, and when the next timer is due. -/
structure Observation where
  handled : Bool
  reports : List Report
  nextDeadline : Option Micros

/-- The same observation, `c` later. -/
structure Observation.Postponed (c room : Nat) (o o' : Observation) : Prop where
  handled_eq : o'.handled = o.handled
  reports : List.Forall₂ (Report.Postponed c room) o.reports o'.reports
  nextDeadline : Option.Rel (Micros.Postponed c 0) o.nextDeadline o'.nextDeadline

/-- What can be seen in a run. -/
def observe (p : Pipeline) : List Request → List Observation
  | [] => []
  | request :: requests =>
    let (q, handled, reports) := p.handle request
    ⟨handled, reports, q.nextDeadline⟩ :: q.observe requests

theorem AnswerPostponed.observation {x x' : Pipeline × Bool × List Report}
    (h : AnswerPostponed c room R x x') :
    Observation.Postponed c room ⟨x.2.1, x.2.2, x.1.nextDeadline⟩
      ⟨x'.2.1, x'.2.2, x'.1.nextDeadline⟩ :=
  ⟨h.handled_eq, h.reports, h.state.nextDeadline⟩

variable {requests requests' : List Request}

theorem Postponed.observe (h : Postponed c room (TouchFilter.Postponed c room) p p')
    (hrequests : List.Forall₂ (Request.Postponed c room) requests requests') :
    List.Forall₂ (Observation.Postponed c room) (p.observe requests) (p'.observe requests') := by
  induction hrequests generalizing p p' with
  | nil => exact .nil
  | cons hrequest _ ih =>
    have hanswer := h.handle hrequest
    exact .cons hanswer.observation (ih hanswer.state)

/-- The first sample of a run, if there is one, is a well-formed down of a single finger. -/
def BeginsWithDown (requests : List Request) : Prop :=
  ∀ s, (requests.filterMap Request.sample?).head? = some s → s.isLone = true ∧ s.action = .down

theorem Postponed.observe_untouched (h : Postponed c room (SameUntouched room) p p')
    (hfirst : BeginsWithDown requests)
    (hrequests : List.Forall₂ (Request.Postponed c room) requests requests') :
    List.Forall₂ (Observation.Postponed c room) (p.observe requests) (p'.observe requests') := by
  induction hrequests generalizing p p' with
  | nil => exact .nil
  | @cons request request' requests requests' hrequest hrest ih =>
    cases hsample : request.sample? with
    | none =>
      have hanswer := h.handle_untouched keeps_untouched hrequest hsample
      rw [BeginsWithDown, List.filterMap_cons_none hsample] at hfirst
      exact .cons hanswer.observation (ih hanswer.state hfirst)
    | some s =>
      rw [BeginsWithDown, List.filterMap_cons_some hsample] at hfirst
      obtain ⟨hlone, ha⟩ := hfirst s rfl
      obtain ⟨s', hs, rfl, rfl⟩ := hrequest.of_sample hsample
      have hanswer := h.firstDown hs hlone ha
      exact .cons hanswer.observation (hanswer.state.observe hrest)

/-- A new pipeline is the same pipeline some time later, but for the start of a touch. -/
theorem postponed_of_build {plan : Plan} (hbuild : plan.build = .ok p)
    (htimeless : ∀ stage ∈ plan.output, stage.IsTimeless) (c : Nat) :
    Postponed c p.chain.longestSpan (SameUntouched p.chain.longestSpan) p p := by
  have hspan (stage : Stage) (h : stage ∈ p.chain) : stage.longestSpan ≤ p.chain.longestSpan :=
    Chain.longestSpan_le h
  have houtput : p.output = plan.output := output_of_build hbuild
  have hclock : p.clock = 0 := clock_of_build hbuild
  obtain ⟨hheld, hup⟩ : p.filter.Untouched := by
    rw [eq_built hbuild]
    exact .new _ _
  have hrecognizer : (Stage.recognizer p.recognizer).IsTimeless := by
    rw [eq_built hbuild]
    exact ⟨rfl, rfl, rfl, rfl⟩
  have hown := hrecognizer.postponed (hspan _ (by simp [chain])) c
  refine ⟨⟨rfl, ⟨hheld, hup⟩, hspan (.filter p.filter) (by simp [chain])⟩, ?_, ?_,
    Or.inr ⟨hclock, hclock⟩, rfl⟩
  · cases hown with
    | recognizer h => exact h
  · refine List.forall₂_same.mpr fun stage hmem => ?_
    exact (htimeless stage (houtput ▸ hmem)).postponed (hspan stage (by simp [chain, hmem])) c

/-- **Only differences of times matter.** Ask a new pipeline for anything, in an order in
which no sample comes before a well-formed down of a single finger, and ask it for the same
with `c` added to every time. If the longest delay or timeout can be added to the times of
the samples before the range ends, the same samples are taken charge of, the same is
decided and delivered in the same order, and every time that is carried along and every
next deadline is later by exactly `c`. -/
theorem observe_postponed {plan : Plan} (hbuild : plan.build = .ok p)
    (htimeless : ∀ stage ∈ plan.output, stage.IsTimeless) (hfirst : BeginsWithDown requests)
    (hrequests :
      List.Forall₂ (Request.Postponed c p.chain.longestSpan) requests requests') :
    List.Forall₂ (Observation.Postponed c p.chain.longestSpan) (p.observe requests)
      (p.observe requests') :=
  (postponed_of_build hbuild htimeless c).observe_untouched hfirst hrequests

/-- A touch under the click delay that is let on by its up, after the clock was told and a
touch was cleared, and the same five seconds later. -/
theorem observe_postponed_held_touch :
    let config : Configuration := { filter := { clickDelay := .medium } }
    let plan : Plan := { config := config, listener := some .attentive, output := [.sink] }
    let p : Pipeline := ⟨.new config.filter none, .new {} none, [.sink], 0, false⟩
    let requests (start : Micros) : List Request :=
      [.advance start, .clear .touchscreen, .feed (.pointer (.touch .down .zero start)),
        .feed (.pointer (.touch .up .zero (start + 700000))), .advance (start + 2000000)]
    (plan.build = .ok p ∧ (∀ stage ∈ plan.output, stage.IsTimeless) ∧
        BeginsWithDown (requests 100) ∧
        List.Forall₂ (Request.Postponed 5000000 p.chain.longestSpan) (requests 100)
          (requests 5000100)) ∧
      (p.observe (requests 100)).map (·.nextDeadline) =
        [none, none, none, some 300100, none] ∧
      List.Forall₂ (Observation.Postponed 5000000 p.chain.longestSpan) (p.observe (requests 100))
        (p.observe (requests 5000100)) := by
  intro config plan p requests
  have hbuild : plan.build = .ok p := build_eq_built rfl check_default
  have htimeless : ∀ stage ∈ plan.output, stage.IsTimeless := by
    intro stage hmem
    rw [List.mem_singleton.mp hmem]
    trivial
  have hfirst : BeginsWithDown (requests 100) := by
    intro s hs
    cases hs
    decide +kernel
  have hrequests : List.Forall₂ (Request.Postponed 5000000 p.chain.longestSpan) (requests 100)
      (requests 5000100) := by
    refine .cons (.advance ⟨rfl, ?_⟩) (.cons (.clear _) (.cons (.feed (.pointer ?_)) (.cons
      (.feed (.pointer ?_)) (.cons (.advance ⟨rfl, ?_⟩) .nil))))
    · decide
    · exact ⟨5000100, ⟨rfl, by decide +kernel⟩, rfl⟩
    · exact ⟨5700100, ⟨rfl, by decide +kernel⟩, rfl⟩
    · decide
  exact ⟨⟨hbuild, htimeless, hfirst, hrequests⟩, by decide +kernel,
    observe_postponed hbuild htimeless hfirst hrequests⟩

end Pipeline

end TouchStream
