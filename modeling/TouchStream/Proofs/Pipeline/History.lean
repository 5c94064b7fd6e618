import TouchStream.Proofs.Pipeline.Order

/-!
# The order of what happens

While a pipeline is fed samples and told the time, two kinds of things happen to its first
two stages: timers fire, and samples are handled. The history of a run lists them in their
order, and what the run reports follows from it (`reports_eq_play`).

The timers always fire one after another in the same order, and those that are overdue fire
before a sample is handled. So where two runs handle the same samples and leave no timer
behind, only a timer that fires before a sample without being due before it can make a
difference (`RunsOut.unique`). A history without such a timer is in order.

* `play_history`: a run does what its history says, and reports what follows from it.
* `inOrder_history`: it is in order to feed samples in the order of time, and to tell the time
  only before that of a later sample.
* `history_eq_direct_iff`: a run has the history of feeding its samples exactly when it is in
  order.
-/

namespace TouchStream.Pipeline

variable {p : Pipeline} {request : Request} {requests : List Request}

/-! ## Moments -/

/-- What may happen to the first stages. -/
inductive Moment
  | fires (t : PendingTimer RecognizerTimer)
  | handles (s : Sample)
deriving DecidableEq, Repr

/-- The sample that is handled, if one is. -/
def Moment.sample? : Moment → Option Sample
  | .fires _ => none
  | .handles s => some s

/-- The samples that are handled, in their order. -/
def samplesIn (ms : List Moment) : List Sample := ms.filterMap Moment.sample?

theorem samplesIn_append (ms ms' : List Moment) :
    samplesIn (ms ++ ms') = samplesIn ms ++ samplesIn ms' := List.filterMap_append

/-- A timer that fires before a sample is due before it. -/
def Moment.mayPrecede : Moment → Moment → Prop
  | .fires t, .handles s => t.deadline < s.time
  | _, _ => True

instance : DecidableRel Moment.mayPrecede
  | .fires t, .handles s => inferInstanceAs (Decidable (t.deadline < s.time))
  | .fires _, .fires _ => inferInstanceAs (Decidable True)
  | .handles _, _ => inferInstanceAs (Decidable True)

/-- Whenever a timer fires before a sample, it is due before it. -/
def InOrder (ms : List Moment) : Prop := ms.Pairwise Moment.mayPrecede

instance (ms : List Moment) : Decidable (InOrder ms) :=
  inferInstanceAs (Decidable (ms.Pairwise _))

theorem InOrder.lt_of_fires {t : PendingTimer RecognizerTimer} {ms : List Moment} {s : Sample}
    (h : InOrder (.fires t :: ms)) (hs : s ∈ samplesIn ms) : t.deadline < s.time := by
  obtain ⟨m, hm, hsample⟩ := List.mem_filterMap.mp hs
  have hbefore := (List.pairwise_cons.mp h).1 m hm
  cases m with
  | fires _ => cases hsample
  | handles _ =>
    cases hsample
    exact hbefore

theorem inOrder_of_samplesIn {ms : List Moment} (h : samplesIn ms = []) : InOrder ms := by
  refine List.pairwise_iff_forall_sublist.mpr fun {m m'} hsublist => ?_
  cases m' with
  | fires t => cases m <;> trivial
  | handles s =>
    have hmem : .handles s ∈ ms := hsublist.subset (by simp)
    have hs : s ∈ samplesIn ms := List.mem_filterMap.mpr ⟨_, hmem, rfl⟩
    rw [h] at hs
    cases hs

theorem inOrder_handles {s : Sample} {ms : List Moment} (h : InOrder ms) :
    InOrder (.handles s :: ms) :=
  List.pairwise_cons.mpr ⟨fun m _ => by cases m <;> trivial, h⟩

theorem inOrder_fires {ts : List (PendingTimer RecognizerTimer)} {ms : List Moment}
    (h : InOrder ms) (hts : ∀ t ∈ ts, ∀ s ∈ samplesIn ms, t.deadline < s.time) :
    InOrder (ts.map .fires ++ ms) := by
  induction ts with
  | nil => exact h
  | cons t ts ih =>
    obtain ⟨ht, hrest⟩ := List.forall_mem_cons.mp hts
    refine List.pairwise_cons.mpr ⟨fun m hm => ?_, ih hrest⟩
    cases m with
    | fires t' => trivial
    | handles s =>
      have hmem : .handles s ∈ ms := by
        rcases List.mem_append.mp hm with hfires | hmem
        · obtain ⟨t', -, hne⟩ := List.mem_map.mp hfires
          cases hne
        · exact hmem
      exact ht s (List.mem_filterMap.mpr ⟨_, hmem, rfl⟩)

/-- The first two stages of a pipeline. -/
structure Front where
  filter : TouchFilter
  recognizer : Recognizer

/-- The first two stages. -/
def front (p : Pipeline) : Front := ⟨p.filter, p.recognizer⟩

namespace Front

variable {f : Front} {ms ms' : List Moment}

/-- The stages after a moment, and what they hand on. -/
def step (f : Front) : Moment → Front × List Signal
  | .fires t =>
    ({ f with recognizer := (f.recognizer.expire t.kind).1 },
      (f.recognizer.expire t.kind).2.map .decision)
  | .handles s =>
    let passed := f.filter.passes (.event (.pointer s))
    (⟨(f.filter.pointer s).1, f.recognizer.after passed⟩, f.recognizer.handsOn passed)

/-- The stages after all that happens, and what they hand on. -/
def play (f : Front) : List Moment → Front × List Signal
  | [] => (f, [])
  | m :: ms =>
    let (f, out) := f.step m
    let (f, more) := f.play ms
    (f, out ++ more)

theorem play_cons (f : Front) (m : Moment) (ms : List Moment) :
    f.play (m :: ms) =
      (((f.step m).1.play ms).1, (f.step m).2 ++ ((f.step m).1.play ms).2) := rfl

theorem play_append (f : Front) (ms ms' : List Moment) :
    f.play (ms ++ ms') =
      (((f.play ms).1.play ms').1, (f.play ms).2 ++ ((f.play ms).1.play ms').2) := by
  induction ms generalizing f with
  | nil => rfl
  | cons m ms ih => simp only [List.cons_append, play_cons, ih, List.append_assoc]

/-- All that happens until no timer is pending. Of the timers always the first one fires, and
none is overdue when a sample is handled. -/
inductive RunsOut : Front → List Moment → Prop
  | nil {f : Front} (hnone : f.recognizer.timers.pending = []) : RunsOut f []
  | fires {f : Front} {t : PendingTimer RecognizerTimer} {ms : List Moment}
    (hfirst : PendingTimer.first? f.recognizer.timers.pending = some t)
    (hrest : RunsOut (f.step (.fires t)).1 ms) : RunsOut f (.fires t :: ms)
  | handles {f : Front} {s : Sample} {ms : List Moment}
    (hnone : ∀ t ∈ f.recognizer.timers.pending, s.time ≤ t.deadline)
    (hrest : RunsOut (f.step (.handles s)).1 ms) : RunsOut f (.handles s :: ms)

/-- In order, the same samples leave no choice. -/
theorem RunsOut.unique (h : f.RunsOut ms) (h' : f.RunsOut ms') (horder : InOrder ms)
    (horder' : InOrder ms') (hsamples : samplesIn ms = samplesIn ms') : ms = ms' := by
  induction h generalizing ms' with
  | nil hnone =>
    cases h' with
    | nil => rfl
    | fires hfirst =>
      rw [hnone] at hfirst
      cases hfirst
    | handles => cases hsamples
  | @fires f t ms hfirst hrest ih =>
    have hmem := PendingTimer.mem_of_first? hfirst
    cases h' with
    | nil hnone =>
      rw [hnone] at hmem
      cases hmem
    | @fires _ t' ms' hfirst' hrest' =>
      obtain rfl : t = t' := Option.some.inj (hfirst.symm.trans hfirst')
      exact congrArg (_ :: ·)
        (ih hrest' (List.Pairwise.of_cons horder) (List.Pairwise.of_cons horder') hsamples)
    | @handles _ s ms' hnone =>
      -- the first list has the sample after the timer, which is overdue then
      have hs : s ∈ samplesIn ms := by
        rw [show samplesIn ms = s :: samplesIn ms' from hsamples]
        exact List.mem_cons_self
      exact absurd (horder.lt_of_fires hs) (UInt64.not_lt.mpr (hnone t hmem))
  | @handles f s ms hnone hrest ih =>
    cases h' with
    | nil => cases hsamples
    | @fires _ t ms' hfirst =>
      have hmem := PendingTimer.mem_of_first? hfirst
      have hs : s ∈ samplesIn ms' := by
        rw [← show s :: samplesIn ms = samplesIn ms' from hsamples]
        exact List.mem_cons_self
      exact absurd (horder'.lt_of_fires hs) (UInt64.not_lt.mpr (hnone t hmem))
    | @handles _ s' ms' _ hrest' =>
      obtain ⟨rfl, hsame⟩ : s = s' ∧ samplesIn ms = samplesIn ms' := List.cons.inj hsamples
      exact congrArg (_ :: ·)
        (ih hrest' (List.Pairwise.of_cons horder) (List.Pairwise.of_cons horder') hsame)

/-! ## Times -/

variable {c : Chain} {times : List Message}

/-- The stages with another recognizer. -/
def withRecognizer (f : Front) (r : Recognizer) : Front := { f with recognizer := r }

theorem play_fires (f : Front) (ts : List (PendingTimer RecognizerTimer)) :
    f.play (ts.map .fires) =
      (f.withRecognizer (f.recognizer.expireAll ts).1,
        (f.recognizer.expireAll ts).2.map .decision) := by
  induction ts generalizing f with
  | nil => rfl
  | cons t ts ih =>
    rw [List.map_cons, play_cons, ih, Recognizer.expireAll, List.map_append]
    rfl

theorem RunsOut.fired (f : Front) (now : Micros)
    (h : (f.withRecognizer (f.recognizer.advance now).1).RunsOut ms) :
    f.RunsOut ((f.recognizer.fired now).map .fires ++ ms) := by
  rw [Recognizer.advance_eq_expireAll] at h
  unfold Recognizer.fired at h ⊢
  generalize f.recognizer.timers.size = n at h ⊢
  induction n generalizing f with
  | zero => exact h
  | succ n ih =>
    rw [Recognizer.firedIn] at h ⊢
    cases hd : f.recognizer.timers.firstDue now with
    | none =>
      rw [hd] at h
      exact h
    | some t =>
      rw [hd] at h
      exact .fires (Timers.first?_of_firstDue hd) (ih (f.step (.fires t)).1 h)

/-- What fires at some times runs out with what happens after them. -/
theorem RunsOut.after_times (htimes : ∀ m ∈ times, ∃ now, m = .time now) (f : Front)
    (h : (f.withRecognizer (f.recognizer.after times)).RunsOut ms) :
    f.RunsOut ((f.recognizer.firesDuring times).map .fires ++ ms) := by
  induction times generalizing f with
  | nil => exact h
  | cons m times ih =>
    obtain ⟨⟨now, rfl⟩, hrest⟩ := List.forall_mem_cons.mp htimes
    rw [Recognizer.firesDuring, List.map_append, List.append_assoc]
    exact .fired f now (ih hrest (f.withRecognizer (f.recognizer.advance now).1) h)

theorem play_handles (f : Front) (samples : List Sample) :
    f.play (samples.map .handles) =
      let passed := f.filter.pass (samples.map fun s => .event (.pointer s))
      (⟨passed.1, f.recognizer.after passed.2⟩, f.recognizer.handsOn passed.2) := by
  induction samples generalizing f with
  | nil => rfl
  | cons s samples ih =>
    simp only [List.map_cons, play_cons, ih, TouchFilter.pass_cons, Recognizer.after_append,
      Recognizer.handsOn_append]
    rfl

/-- Behind a recognizer nothing but the decisions counts of the times that it is told. -/
theorem play_times (hc : c.IsUntimed) (htimes : ∀ m ∈ times, ∃ now, m = .time now) (f : Front) :
    (f.play ((f.recognizer.firesDuring times).map .fires)).1 =
        f.withRecognizer (f.recognizer.after times) ∧
      c.relay (f.play ((f.recognizer.firesDuring times).map .fires)).2 =
        c.relay (f.recognizer.handsOn times) := by
  induction times generalizing f with
  | nil => exact ⟨rfl, rfl⟩
  | cons m times ih =>
    obtain ⟨⟨now, rfl⟩, hrest⟩ := List.forall_mem_cons.mp htimes
    obtain ⟨hstate, hout⟩ := ih hrest (f.withRecognizer (f.recognizer.advance now).1)
    have hfires : f.recognizer.firesDuring (.time now :: times) =
        f.recognizer.fired now ++ (f.recognizer.advance now).1.firesDuring times := rfl
    have hhands : f.recognizer.handsOn (.time now :: times) =
        ((f.recognizer.advance now).2.map Signal.decision ++ [.message (.time now)]) ++
          (f.recognizer.advance now).1.handsOn times := rfl
    have hdecisions : ((f.recognizer.advance now).2.map Signal.decision) =
        ((f.recognizer.advance now).2.map Report.decided).map .report := by
      rw [List.map_map]
      rfl
    have hfirst : f.play ((f.recognizer.fired now).map .fires) =
        (f.withRecognizer (f.recognizer.advance now).1,
          (f.recognizer.advance now).2.map .decision) := by
      rw [play_fires, ← Recognizer.advance_eq_expireAll]
    rw [hfires, List.map_append, play_append, hfirst]
    refine ⟨hstate, ?_⟩
    rw [hhands, hdecisions]
    simp only [Chain.relay_append, Chain.relay_reports, hc.relay_time, List.append_nil]
    exact congrArg (fun x => (x.1, _ ++ x.2)) hout

end Front

/-! ## Requests -/

/-- Whether a sample is fed, or the clock moved on. -/
def Request.isTimed : Request → Bool
  | .feed (.pointer _) => true
  | .advance _ => true
  | .flush => true
  | _ => false

/-- What happens to the first stages at a request. -/
def moments (p : Pipeline) (request : Request) : List Moment :=
  (p.recognizer.firesDuring (p.toRecognizer [request])).map .fires ++
    request.sample?.toList.map .handles

/-- What happens to the first stages in a run. -/
def history (p : Pipeline) : List Request → List Moment
  | [] => []
  | request :: requests => p.moments request ++ (p.handle request).1.history requests

theorem samplesIn_moments (p : Pipeline) (request : Request) :
    samplesIn (p.moments request) = request.sample?.toList := by
  have hfires (ts : List (PendingTimer RecognizerTimer)) : samplesIn (ts.map .fires) = [] := by
    simp [samplesIn, Moment.sample?]
  rw [moments, samplesIn_append, hfires, List.nil_append]
  cases request.sample? <;> rfl

theorem samplesIn_history (p : Pipeline) (requests : List Request) :
    samplesIn (p.history requests) = requests.filterMap Request.sample? := by
  induction requests generalizing p with
  | nil => rfl
  | cons request requests ih =>
    rw [history, samplesIn_append, samplesIn_moments, ih, List.filterMap_cons]
    cases request.sample? <;> rfl

theorem not_overdue_wakings (p : Pipeline) (time : Micros) :
    ∀ t ∈ (p.recognizer.after (p.wakings time)).timers.pending, time ≤ t.deadline := by
  have hnone : ¬ DueBefore (p.recognizer.after (p.wakings time)).timers.nextDeadline time := by
    unfold wakings
    split
    · refine p.recognizer.not_dueBefore_advance fun d hd => ?_
      exact UInt64.le_trans ((Micros.le_sub_one_iff hd).mpr hd) (Micros.le_max_right _ _)
    · rename_i hdue
      exact not_due_recognizer hdue
  intro t ht
  rw [← UInt64.not_lt]
  exact fun hlt => hnone (Timers.nextDeadline_lt_iff.mpr ⟨t, ht, hlt⟩)

/-- The head is told times first, and then given the sample if one is fed. By then no timer
is overdue. -/
theorem pass_messages (p : Pipeline) (hrequest : request.isTimed = true) :
    ∃ times : List Message, (∀ m ∈ times, ∃ now, m = .time now) ∧
      (∀ s, request.sample? = some s →
        ∀ t ∈ (p.recognizer.after times).timers.pending, s.time ≤ t.deadline) ∧
      p.filter.pass (p.messages request) =
        let passed := p.filter.pass (request.sample?.toList.map fun s => .event (.pointer s))
        (passed.1, times ++ passed.2) := by
  cases request with
  | feed e =>
    cases e with
    | pointer s =>
      have htimes : ∀ m ∈ p.wakings s.time, ∃ now, m = .time now := fun _ hm => mem_wakings hm
      refine ⟨p.wakings s.time, htimes, fun s' hs' => ?_, pass_times htimes p.filter _⟩
      cases hs'
      exact p.not_overdue_wakings s.time
    | key k => cases hrequest
    | accessibility a => cases hrequest
  | advance now =>
    have htimes : ∀ m ∈ [.time (max p.clock now)], ∃ now, m = Message.time now := by simp
    exact ⟨_, htimes, (fun s hs => by cases hs), pass_times htimes p.filter []⟩
  | flush =>
    have htimes : ∀ m ∈ flushTimes p.pendingTimers p, ∃ now, m = .time now :=
      fun _ hm => mem_flushTimes hm
    refine ⟨_, htimes, (fun s hs => by cases hs), ?_⟩
    rw [messages, ← pass_times htimes]
    exact congrArg p.filter.pass (List.append_nil _).symm
  | clear source => cases hrequest
  | destroy => cases hrequest

theorem firesDuring_pass (f : TouchFilter) (r : Recognizer) (samples : List Sample) :
    r.firesDuring (f.pass (samples.map fun s => .event (.pointer s))).2 = [] := by
  induction samples generalizing f r with
  | nil => rfl
  | cons s samples ih =>
    rw [List.map_cons, TouchFilter.pass_cons, Recognizer.firesDuring_append, ih, List.append_nil]
    exact Recognizer.firesDuring_samples r _

/-- A request does what happens at it, and reports what the stages behind make of that. -/
theorem play_moments (houtput : p.output.IsUntimed) (hrequest : request.isTimed = true) :
    (p.front.play (p.moments request)).1 = (p.handle request).1.front ∧
      p.output.relay (p.front.play (p.moments request)).2 =
        ((p.handle request).1.output, (p.handle request).2.2) ∧
      ∀ ms, (p.handle request).1.front.RunsOut ms → p.front.RunsOut (p.moments request ++ ms) := by
  obtain ⟨times, htimes, hnone, hpass⟩ := pass_messages p hrequest
  obtain ⟨hfilter, hrecognizer, hbehind, hreports⟩ := handle_front p request
  obtain ⟨hstate, hout⟩ := Front.play_times houtput htimes p.front
  have hmoments : p.moments request =
      (p.front.recognizer.firesDuring times).map .fires ++
        request.sample?.toList.map .handles := by
    rw [moments, toRecognizer_single, hpass, Recognizer.firesDuring_append, firesDuring_pass,
      List.append_nil]
    rfl
  have hlast := (p.front.withRecognizer (p.front.recognizer.after times)).play_handles
    request.sample?.toList
  have hfront : ((p.front.withRecognizer (p.front.recognizer.after times)).play
      (request.sample?.toList.map .handles)).1 = (p.handle request).1.front := by
    show _ = (⟨(p.handle request).1.filter, (p.handle request).1.recognizer⟩ : Front)
    rw [hfilter, hrecognizer, hpass, Recognizer.after_append, hlast]
    rfl
  rw [hmoments, Front.play_append, hstate]
  refine ⟨hfront, ?_, fun ms hms => ?_⟩
  · rw [hbehind, hreports, hpass, Recognizer.handsOn_append, Chain.relay_append, hout, hlast,
      ← Chain.relay_append]
    rfl
  · rw [List.append_assoc]
    refine .after_times htimes p.front ?_
    rw [← hfront] at hms
    cases hs : request.sample? with
    | none =>
      rw [hs] at hms
      exact hms
    | some s =>
      rw [hs] at hms
      exact .handles (hnone s hs) hms

/-! ## Runs -/

theorem untimed_handle (houtput : p.output.IsUntimed) (request : Request) :
    (p.handle request).1.output.IsUntimed := by
  rw [(handle_front p request).2.2.1]
  exact houtput.relay _

theorem play_history (houtput : p.output.IsUntimed)
    (hrequests : ∀ request ∈ requests, request.isTimed = true) :
    (p.front.play (p.history requests)).1 = (p.run requests).1.front ∧
      p.output.relay (p.front.play (p.history requests)).2 =
        ((p.run requests).1.output, (p.run requests).2.2) := by
  induction requests generalizing p with
  | nil => exact ⟨rfl, p.output.relay_reports []⟩
  | cons request requests ih =>
    obtain ⟨hrequest, hrest⟩ := List.forall_mem_cons.mp hrequests
    obtain ⟨hfront, hreports, -⟩ := play_moments houtput hrequest
    obtain ⟨hfront', hreports'⟩ := ih (untimed_handle houtput request) hrest
    rw [history, Front.play_append, hfront]
    refine ⟨hfront', ?_⟩
    rw [Chain.relay_append, hreports]
    dsimp only
    rw [hreports']
    rfl

/-- A run reports what the stages behind make of its history. -/
theorem reports_eq_play (houtput : p.output.IsUntimed)
    (hrequests : ∀ request ∈ requests, request.isTimed = true) :
    (p.run requests).2.2 = (p.output.relay (p.front.play (p.history requests)).2).2 :=
  (congrArg Prod.snd (play_history houtput hrequests).2).symm

theorem runsOut_history (houtput : p.output.IsUntimed)
    (hrequests : ∀ request ∈ requests, request.isTimed = true)
    (hend : (p.run requests).1.recognizer.timers.pending = []) :
    p.front.RunsOut (p.history requests) := by
  induction requests generalizing p with
  | nil => exact .nil hend
  | cons request requests ih =>
    obtain ⟨hrequest, hrest⟩ := List.forall_mem_cons.mp hrequests
    obtain ⟨-, -, hmoments⟩ := play_moments houtput hrequest
    exact hmoments _ (ih (untimed_handle houtput request) hrest hend)

/-! ## Times and samples in order -/

/-- The time of what is asked. -/
def Request.time : Request → Micros
  | .feed (.pointer s) => s.time
  | .advance now => now
  | _ => .last

/-- What is asked comes in the order of time, and timers are looked at only before the time of
a sample that comes later. -/
def Request.mayPrecede (x y : Request) : Prop :=
  x.time ≤ y.time ∧ (x.sample? = none → y.sample? ≠ none → x.time < y.time)

instance : DecidableRel Request.mayPrecede := fun _ _ => inferInstanceAs (Decidable (_ ∧ _))

theorem feed_of_sample {s : Sample} (h : request.sample? = some s) :
    request = .feed (.pointer s) := by
  unfold Request.sample? at h
  split at h
  · cases h
    rfl
  · cases h

theorem OnTime.advance {now : Micros} (h : p.OnTime) (hclock : p.clock ≤ now) :
    (p.advance now).1.OnTime := by
  rw [advance_eq_elapsed, Micros.max_eq_right hclock]
  refine ⟨h.heldDown, ?_, (p.recognizer.rearmed_advance now).1 h.distinct, Or.inl ?_⟩
  · exact fun d hd => UInt64.le_trans (h.heldTime d hd) hclock
  · intro t ht
    exact UInt64.le_of_lt (Timers.takeDue_eq_none_iff.mp (p.recognizer.takeDue_advance now) t ht)

/-- What fires before a sample is due before it. -/
theorem OnTime.lt_of_fires {s : Sample} (h : p.OnTime) (houtput : p.output.IsUntimed)
    (hclock : p.clock ≤ s.time) :
    ∀ t ∈ p.recognizer.firesDuring (p.toRecognizer [.feed (.pointer s)]), t.deadline < s.time := by
  have hfires : p.recognizer.firesDuring (p.toRecognizer [.feed (.pointer s)]) =
      p.recognizer.firesDuring (p.wakings s.time) := by
    rw [toRecognizer_pointer, Recognizer.firesDuring_append, TouchFilter.passes,
      Recognizer.firesDuring_samples, List.append_nil]
  rw [hfires]
  intro t ht
  have hle : t.deadline ≤ s.time := by
    unfold wakings at ht
    split at ht
    · rename_i hdue
      obtain ⟨d, -, hlt⟩ := hdue
      have hfired : t ∈ p.recognizer.fired (max p.clock (s.time - 1)) := by
        simpa [Recognizer.firesDuring, Recognizer.fires] using ht
      have hdeadline := (Recognizer.mem_fired hfired).2
      rcases UInt64.lt_or_eq_of_le hclock with hbehind | heq
      · have hbefore := (Micros.le_sub_one_iff hlt).mp (UInt64.le_refl (s.time - 1))
        exact UInt64.le_of_lt (UInt64.lt_of_le_of_lt hdeadline (Micros.max_lt hbehind hbefore))
      · rw [heq, Micros.max_sub_one hlt] at hdeadline
        exact hdeadline
    · cases ht
  refine (UInt64.lt_or_eq_of_le hle).resolve_right fun heq => ?_
  obtain ⟨-, ⟨d, hd, -⟩, -⟩ := (h.fires_at_iff hclock).mp ⟨t, ht, heq⟩
  rw [houtput.nextDeadline_eq] at hd
  cases hd

theorem le_of_fires_advance {now : Micros} (hclock : p.clock ≤ now) :
    ∀ t ∈ p.recognizer.firesDuring (p.toRecognizer [.advance now]), t.deadline ≤ now := by
  have hfires : p.recognizer.firesDuring (p.toRecognizer [.advance now]) =
      p.recognizer.fired (max p.clock now) ++ [] := rfl
  rw [hfires, List.append_nil, Micros.max_eq_right hclock]
  exact fun t ht => (Recognizer.mem_fired ht).2

theorem mayPrecede_sample (hlater : ∀ request' ∈ requests, request.mayPrecede request')
    (q : Pipeline) :
    ∀ s ∈ samplesIn (q.history requests), request.mayPrecede (.feed (.pointer s)) := by
  intro s hs
  rw [samplesIn_history] at hs
  obtain ⟨request', hmem, hs⟩ := List.mem_filterMap.mp hs
  exact feed_of_sample hs ▸ hlater request' hmem

/-- As long as samples and times come in order, nothing fires before a sample unless it is due
before it. -/
theorem inOrder_history (h : p.OnTime) (houtput : p.output.IsUntimed)
    (hrequests : ∀ request ∈ requests, request.isTimed = true)
    (hpairs : requests.Pairwise Request.mayPrecede)
    (hclock : ∀ request ∈ requests, p.clock ≤ request.time) : InOrder (p.history requests) := by
  induction requests generalizing p with
  | nil => exact .nil
  | cons request requests ih =>
    obtain ⟨hnow, -⟩ := List.forall_mem_cons.mp hclock
    obtain ⟨hrequest, hrest⟩ := List.forall_mem_cons.mp hrequests
    obtain ⟨hlater, hpairs'⟩ := List.pairwise_cons.mp hpairs
    have hsamples := mayPrecede_sample hlater (p.handle request).1
    have houtput' := untimed_handle houtput request
    rw [history, moments, List.append_assoc]
    cases request with
    | feed e =>
      cases e with
      | pointer s =>
        have hnext : InOrder ((p.feed (.pointer s)).1.history requests) := by
          refine ih (h.feed hnow) houtput' hrest hpairs' fun request' hmem => ?_
          rw [clock_pointer hnow]
          exact (hlater request' hmem).1
        refine inOrder_fires (inOrder_handles hnext) fun t ht => ?_
        have hlt := h.lt_of_fires houtput hnow t ht
        exact List.forall_mem_cons.mpr
          ⟨hlt, fun x hx => UInt64.lt_of_lt_of_le hlt (hsamples x hx).1⟩
      | key k => cases hrequest
      | accessibility a => cases hrequest
    | advance now =>
      have hmax : max p.clock now = now := Micros.max_eq_right hnow
      have hnext : InOrder ((p.advance now).1.history requests) := by
        refine ih (h.advance hnow) houtput' hrest hpairs' fun request' hmem => ?_
        rw [advance_eq_elapsed, hmax]
        exact (hlater request' hmem).1
      refine inOrder_fires hnext fun t ht x hx => ?_
      exact UInt64.lt_of_le_of_lt (le_of_fires_advance hnow t ht)
        ((hsamples x hx).2 rfl (by simp [Request.sample?]))
    | flush =>
      -- no time is later than that of a flush
      have hnone : ∀ x, x ∉ samplesIn ((p.handle .flush).1.history requests) := by
        intro x hx
        have hlt : Micros.last < x.time := (hsamples x hx).2 rfl (by simp [Request.sample?])
        exact UInt64.not_lt.mpr (Micros.le_last x.time) hlt
      have hnext := inOrder_of_samplesIn (List.eq_nil_iff_forall_not_mem.mpr hnone)
      exact inOrder_fires hnext fun _ _ x hx => absurd hx (hnone x)
    | clear source => cases hrequest
    | destroy => cases hrequest

/-! ## Feeding the samples -/

variable {samples : List Sample}

/-- Feeds samples one after another, and then fires every pending timer. -/
def direct (samples : List Sample) : List Request :=
  samples.map (fun s => .feed (.pointer s)) ++ [.flush]

theorem isTimed_direct (samples : List Sample) :
    ∀ request ∈ direct samples, request.isTimed = true := by
  intro request hrequest
  rcases List.mem_append.mp hrequest with hfeed | hflush
  · obtain ⟨s, -, rfl⟩ := List.mem_map.mp hfeed
    rfl
  · rw [List.mem_singleton.mp hflush]
    rfl

theorem samples_direct (samples : List Sample) :
    (direct samples).filterMap Request.sample? = samples := by
  induction samples with
  | nil => rfl
  | cons s samples ih => exact congrArg (s :: ·) ih

theorem pending_direct (p : Pipeline) (samples : List Sample) :
    (p.run (direct samples)).1.recognizer.timers.pending = [] := by
  rw [direct, run_append]
  exact pending_flush _

theorem mayPrecede_direct (htimes : samples.Pairwise fun x y => x.time ≤ y.time) :
    (direct samples).Pairwise Request.mayPrecede := by
  refine List.pairwise_append.mpr ⟨?_, List.pairwise_singleton _ _, ?_⟩
  · refine List.pairwise_map.mpr (htimes.imp fun hle => ⟨hle, fun hnone => ?_⟩)
    cases hnone
  · intro request hrequest last hflush
    obtain ⟨s, -, rfl⟩ := List.mem_map.mp hrequest
    obtain rfl := List.mem_singleton.mp hflush
    exact ⟨Micros.le_last s.time, fun _ hsome => absurd rfl hsome⟩

theorem inOrder_direct (h : p.OnTime) (houtput : p.output.IsUntimed)
    (htimes : samples.Pairwise fun x y => x.time ≤ y.time)
    (hclock : ∀ x ∈ samples, p.clock ≤ x.time) : InOrder (p.history (direct samples)) := by
  refine inOrder_history h houtput (isTimed_direct samples) (mayPrecede_direct htimes) ?_
  intro request hrequest
  rcases List.mem_append.mp hrequest with hfeed | hflush
  · obtain ⟨s, hs, rfl⟩ := List.mem_map.mp hfeed
    exact hclock s hs
  · obtain rfl := List.mem_singleton.mp hflush
    exact Micros.le_last p.clock

/-- Where a run leaves no timer, its history is in order exactly when it is that of feeding the
samples. -/
theorem history_eq_direct_iff (h : p.OnTime) (houtput : p.output.IsUntimed)
    (hrequests : ∀ request ∈ requests, request.isTimed = true)
    (hend : (p.run requests).1.recognizer.timers.pending = [])
    (hsamples : requests.filterMap Request.sample? = samples)
    (htimes : samples.Pairwise fun x y => x.time ≤ y.time)
    (hclock : ∀ x ∈ samples, p.clock ≤ x.time) :
    p.history requests = p.history (direct samples) ↔ InOrder (p.history requests) := by
  have hdirect := inOrder_direct h houtput htimes hclock
  constructor
  · intro heq
    rw [heq]
    exact hdirect
  · intro horder
    refine (runsOut_history houtput hrequests hend).unique
      (runsOut_history houtput (isTimed_direct samples) (pending_direct p samples))
      horder hdirect ?_
    rw [samplesIn_history, samplesIn_history, hsamples, samples_direct]

end TouchStream.Pipeline
