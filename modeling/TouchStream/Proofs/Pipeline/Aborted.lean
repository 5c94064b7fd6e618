import TouchStream.Proofs.Pipeline.Begun

/-!
# Touches that are aborted

A clear and a cancel make both stages forget the touch in progress. For the filter the
origin then stands for where the touch started. A down of several fingers makes the
recognizer forget the touch too, but it passes the filter, which goes on holding a down
back.

So under the click delay the rest of an aborted touch can begin an interaction, though no
down of a single finger was fed since: a move far from the origin does it after a clear or
a cancel (`cleared_touch_pressed_long`), and whatever releases the held down does it after a
down of several fingers (`fingers_tapped`).

* `begun_abort_iff`, `begun_manyDown_iff`: nothing else does it, and without it nothing but
  cancellations is reported.
-/

namespace TouchStream.Pipeline

variable {p q : Pipeline} {request : Request} {requests : List Request}

/-- Whether the touch in progress is cleared or cancelled. -/
def Request.abortsTouch : Request → Bool
  | .feed (.pointer s) => s.source = .touchscreen && s.action = .cancel
  | .clear source => source = .touchscreen
  | _ => false

/-! ## After a clear or a cancel -/

theorem stages_abort (p : Pipeline) (habort : request.abortsTouch = true) :
    (p.handle request).1.recognizer.Idle ∧ (p.handle request).1.filter = p.filter.clear := by
  rw [recognizer_handle, (handle_front p request).1]
  cases request with
  | feed e =>
    cases e with
    | pointer s =>
      obtain ⟨hsource, hcancel⟩ := Bool.and_eq_true_iff.mp habort
      rw [decide_eq_true_iff] at hsource hcancel
      have hfilter : p.filter.pointer s = (p.filter.clear, true, [s]) := by
        simp [TouchFilter.pointer, hsource, hcancel]
      have hrecognizer (r : Recognizer) : r.pointer s = r.cancel s := by
        rw [Recognizer.pointer_of_touchscreen hsource, hcancel]
      have htimes : ∀ m ∈ p.wakings s.time, ∃ now, m = .time now := fun _ hm => mem_wakings hm
      constructor
      · rw [toRecognizer_pointer, Recognizer.after_append, TouchFilter.passes, hfilter]
        show ((p.recognizer.after (p.wakings s.time)).pointer s).state.Idle
        rw [hrecognizer]
        exact (Recognizer.idle_cancel _ s).1
      · rw [messages, pass_times htimes]
        show (p.filter.pointer s).1 = p.filter.clear
        rw [hfilter]
    | key k => cases habort
    | accessibility a => cases habort
  | advance now => cases habort
  | flush => cases habort
  | clear source =>
    obtain rfl : source = .touchscreen := by simpa [Request.abortsTouch] using habort
    exact ⟨Recognizer.idle_clear _, rfl⟩
  | destroy => cases habort

/-- A cleared filter stays cleared, with its preferences, as long as no move is far. -/
theorem cleared_handle (hfilter : p.filter.Cleared) (hrequest : request.isFingerDown = false)
    (hnear : ∀ s, request = .feed (.pointer s) → p.filter.isFarFromOrigin s = false) :
    (p.handle request).1.filter.Cleared ∧
      (p.handle request).1.filter.isFarFromOrigin = p.filter.isFarFromOrigin := by
  refine filter_handle_keeps
    (P := fun f => f.Cleared ∧ f.isFarFromOrigin = p.filter.isFarFromOrigin) ?_ ⟨hfilter, rfl⟩
  rintro m hm f ⟨hf, hfar⟩
  obtain ⟨hpolicy, -, hthreshold⟩ := f.preferences_receive m
  constructor
  · refine hf.receive fun s hs => ?_
    subst hs
    obtain rfl := mem_messages_pointer hm
    exact ⟨hrequest, (congrFun hfar s).trans (hnear s rfl)⟩
  · rw [← hfar]
    funext s
    simp only [TouchFilter.isFarFromOrigin, hpolicy, hthreshold]

theorem begun_request_cleared (hidle : p.recognizer.Idle) (hfilter : p.filter.Cleared)
    (hrequest : request.isFingerDown = false) :
    p.begun [request] = [] ↔
      ∀ s, request = .feed (.pointer s) → p.filter.isFarFromOrigin s = false := by
  have hheld : p.filter.HeldDown := by
    intro d hd
    rw [hfilter.held] at hd
    cases hd
  rw [begun_request hheld (Or.inl hidle) hrequest]
  constructor
  · intro h s hs
    rw [← hfilter.releases_eq]
    exact Bool.eq_false_iff.mpr fun hreleases => hidle.not_holding (h s hs hreleases)
  · intro h s hs hreleases
    rw [hfilter.releases_eq, h s hs] at hreleases
    cases hreleases

theorem begun_of_cleared (hidle : p.recognizer.Idle) (hfilter : p.filter.Cleared)
    (hrequests : ∀ request ∈ requests, request.isFingerDown = false) :
    p.begun requests = [] ↔
      ∀ s, .feed (.pointer s) ∈ requests → p.filter.isFarFromOrigin s = false := by
  induction requests generalizing p with
  | nil => simp [begun, toRecognizer, Recognizer.interactions]
  | cons request requests ih =>
    obtain ⟨hrequest, hrest⟩ := List.forall_mem_cons.mp hrequests
    have hfirst := begun_request_cleared hidle hfilter hrequest
    rw [begun_cons_eq_nil, hfirst]
    simp only [List.mem_cons]
    have hnext (h : ∀ s, request = .feed (.pointer s) → p.filter.isFarFromOrigin s = false) :
        (p.handle request).1.begun requests = [] ↔
          ∀ s, .feed (.pointer s) ∈ requests → p.filter.isFarFromOrigin s = false := by
      obtain ⟨hcleared, hfar⟩ := cleared_handle hfilter hrequest h
      have hidle' : (p.handle request).1.recognizer.Idle := by
        rw [recognizer_handle]
        exact hidle.after (hfirst.mpr h)
      rw [ih hidle' hcleared hrest, hfar]
    constructor
    · rintro ⟨h, hlater⟩ s (hs | hs)
      · exact h s hs.symm
      · exact (hnext h).mp hlater s hs
    · intro h
      have hhead : ∀ s, request = .feed (.pointer s) → p.filter.isFarFromOrigin s = false :=
        fun s hs => h s (Or.inl hs.symm)
      exact ⟨hhead, (hnext hhead).mpr fun s hs => h s (Or.inr hs)⟩

/-- **What an aborted touch may still do.** Clear or cancel the touch of any pipeline, and ask
for anything then but the down of a single finger. An interaction begins exactly when, under
the click delay, a move of a single finger is fed that lies far from the origin. Where none
begins, nothing but cancellations is decided, nor reported by the run where plain stages are
behind the recognizer. -/
theorem begun_abort_iff (p : Pipeline) {abort : Request} (habort : abort.abortsTouch = true)
    (later : List Request) (hlater : ∀ request ∈ later, request.isFingerDown = false) :
    ((p.handle abort).1.begun later = [] ↔
        ∀ s, .feed (.pointer s) ∈ later → p.filter.isFarFromOrigin s = false) ∧
      ((p.handle abort).1.begun later = [] →
        ∀ d ∈ (p.handle abort).1.decides later, d.isCancelled = true) ∧
      (p.output.IsPlain → (p.handle abort).1.begun later = [] →
        ∀ d ∈ decisionsOf ((p.handle abort).1.run later).2.2, d.isCancelled = true) := by
  obtain ⟨hidle, hfilter⟩ := stages_abort p habort
  have hcleared : (p.handle abort).1.filter.Cleared := hfilter ▸ p.filter.cleared_clear
  have hcancelled (hnone : (p.handle abort).1.begun later = []) :
      ∀ d ∈ (p.handle abort).1.decides later, d.isCancelled = true :=
    (decides_of_begun_eq_nil (Or.inl hidle) hnone).2
  refine ⟨?_, hcancelled, fun hplain hnone => ?_⟩
  · rw [begun_of_cleared hidle hcleared hlater, hfilter]
    rfl
  · have hreports : decisionsOf ((p.handle abort).1.run later).2.2 =
        (p.handle abort).1.decides later := decisionsOf_run_after hplain [abort] later
    rw [hreports]
    exact hcancelled hnone

/-- Under the click delay and with a threshold of one pixel, a touch at the origin is cleared.
It moves by one pixel, and a cancel ends it. -/
theorem begun_abort_iff_near_origin :
    let config : Configuration := { filter := { clickDelay := .medium } }
    let p : Pipeline := ⟨.new config.filter none, .new {} none, [.sink], 0, false⟩
    let touch (action : PointerAction) (x : Float32) (time : Micros) : Request :=
      .feed (.pointer (.touch action ⟨x, 0⟩ time))
    let q := (p.run [touch .down 0 0]).1
    let later : List Request :=
      [touch .move 1 20000, .advance 400000, touch .cancel 1 500000, .flush]
    (Request.abortsTouch (.clear .touchscreen) = true ∧
        (∀ request ∈ later, request.isFingerDown = false) ∧ q.output.IsPlain ∧
        (q.handle (.clear .touchscreen)).1.begun later = []) ∧
      (q.handle (.clear .touchscreen)).1.decides later =
        [.cancelled (.touch .cancel ⟨1, 0⟩ 500000)] ∧
      ((q.handle (.clear .touchscreen)).1.begun later = [] ↔
        ∀ s, .feed (.pointer s) ∈ later → q.filter.isFarFromOrigin s = false) ∧
      ((q.handle (.clear .touchscreen)).1.begun later = [] →
        ∀ d ∈ (q.handle (.clear .touchscreen)).1.decides later, d.isCancelled = true) ∧
      ∀ d ∈ decisionsOf ((q.handle (.clear .touchscreen)).1.run later).2.2,
        d.isCancelled = true := by
  intro config p touch q later
  have habort : Request.abortsTouch (.clear .touchscreen) = true := by rfl
  have hlater : ∀ request ∈ later, request.isFingerDown = false := by decide +kernel
  have hplain : q.output.IsPlain := by decide +kernel
  have hnone : (q.handle (.clear .touchscreen)).1.begun later = [] := by decide +kernel
  obtain ⟨hbegun, hdecides, hreports⟩ := begun_abort_iff q habort later hlater
  exact ⟨⟨habort, hlater, hplain, hnone⟩, by decide +kernel, hbegun, hdecides,
    hreports hplain hnone⟩

/-- A touch far from the origin is cleared while its down is held back. Its next move comes
down anew, and is reported as a long press. -/
theorem cleared_touch_pressed_long :
    let config : Configuration := { filter := { clickDelay := .medium } }
    let plan : Plan := { config := config, listener := some .attentive }
    let p : Pipeline := ⟨.new config.filter none, .new {} none, [], 0, false⟩
    let touch (action : PointerAction) (time : Micros) : Request :=
      .feed (.pointer (.touch action ⟨10, 10⟩ time))
    let q := (p.run [touch .down 0, .clear .touchscreen]).1
    plan.build = .ok p ∧
      (q.run [touch .move 20000, .flush]).2.2 =
        [.decided (.longPress (.touch .down ⟨10, 10⟩ 20000))] := by
  intro config plan p touch q
  have hbuild : plan.build = .ok p := build_eq_built rfl check_default
  exact ⟨hbuild, by decide +kernel⟩

/-! ## After a down of several fingers -/

theorem muted_manyDown {s : Sample} (hconsistent : p.recognizer.Consistent)
    (hreported : p.recognizer.HeldReported) (hsource : s.source = .touchscreen)
    (haction : s.action = .down) (hmany : 1 < s.pointerCount) :
    (p.handle (.feed (.pointer s))).1.recognizer.Muted := by
  have hlone : s.isLone = false := by
    rw [Bool.eq_false_iff]
    intro h
    have hone := (Sample.isLone_iff.mp h).2.1
    omega
  have hpasses : p.filter.passes (.event (.pointer s)) = [.event (.pointer s)] := by
    rw [TouchFilter.passes, (TouchFilter.pointer_passes (Or.inl hlone)).1]
    rfl
  rw [recognizer_handle, toRecognizer_pointer, Recognizer.after_append, hpasses]
  exact Recognizer.muted_of_manyDown (hconsistent.after _) (hreported.after _) hsource haction hmany

theorem begun_of_muted (hfilter : q.filter.HeldDown) (hmuted : q.recognizer.Muted)
    (hrequests : ∀ request ∈ requests, request.isFingerDown = false) :
    q.begun requests = [] ↔
      ∀ before s after, requests = before ++ .feed (.pointer s) :: after →
        (q.run before).1.filter.releases s = true → (q.run before).1.recognizer.Holding := by
  induction requests generalizing q with
  | nil => simp [begun, toRecognizer, Recognizer.interactions]
  | cons request requests ih =>
    obtain ⟨hrequest, hrest⟩ := List.forall_mem_cons.mp hrequests
    have hfirst := begun_request hfilter hmuted hrequest
    have hnext (h : q.begun [request] = []) := by
      have hmuted' := (decides_of_begun_eq_nil hmuted h).1
      rw [← recognizer_handle] at hmuted'
      exact ih (heldDown_handle hfilter request) hmuted' hrest
    rw [begun_cons_eq_nil]
    constructor
    · rintro ⟨h, hlater⟩ before s after heq hreleases
      cases before with
      | nil =>
        cases heq
        exact hfirst.mp h s rfl hreleases
      | cons request' before =>
        rw [List.cons_append, List.cons.injEq] at heq
        obtain ⟨rfl, heq⟩ := heq
        exact (hnext h).mp hlater before s after heq hreleases
    · intro h
      have hhead : q.begun [request] = [] := by
        refine hfirst.mpr fun s hs => ?_
        subst hs
        exact h [] s requests rfl
      refine ⟨hhead, (hnext hhead).mpr fun before s after heq => ?_⟩
      exact h (request :: before) s after (congrArg (request :: ·) heq)

/-- **What a touch of several fingers may still do.** Feed a down of several fingers to a
pipeline after any run, and ask for anything then but the down of a single finger. An
interaction begins exactly when the filter releases a down while no second tap is held. Where
none begins, nothing but cancellations is decided, nor reported by the run where plain stages
are behind the recognizer. -/
theorem begun_manyDown_iff {plan : Plan} (hbuild : plan.build = .ok p) (past : List Request)
    {s : Sample} (hsource : s.source = .touchscreen) (haction : s.action = .down)
    (hmany : 1 < s.pointerCount) (later : List Request)
    (hlater : ∀ request ∈ later, request.isFingerDown = false) :
    let q := (p.run (past ++ [.feed (.pointer s)])).1
    (q.begun later = [] ↔
        ∀ before x after, later = before ++ .feed (.pointer x) :: after →
          (q.run before).1.filter.releases x = true →
            (q.run before).1.recognizer.awaitingSecondUp = true ∧
              (q.run before).1.recognizer.heldLong = true) ∧
      (q.begun later = [] → ∀ d ∈ q.decides later, d.isCancelled = true) ∧
      (plan.output.IsPlain → q.begun later = [] →
        ∀ d ∈ decisionsOf (q.run later).2.2, d.isCancelled = true) := by
  intro q
  have hmuted : q.recognizer.Muted := by
    obtain ⟨-, hconsistent, hreported⟩ := stages_run hbuild past
    have hmuted := muted_manyDown hconsistent hreported hsource haction hmany
    exact (congrArg recognizer (run_append p past [.feed (.pointer s)])) ▸ hmuted
  have hfilter : q.filter.HeldDown := (stages_run hbuild _).1
  have hcancelled (hnone : q.begun later = []) : ∀ d ∈ q.decides later, d.isCancelled = true :=
    (decides_of_begun_eq_nil hmuted hnone).2
  refine ⟨?_, hcancelled, fun hplain hnone => ?_⟩
  · rw [begun_of_muted hfilter hmuted hlater]
    have hholding (before : List Request) : (q.run before).1.recognizer.Holding ↔
        (q.run before).1.recognizer.awaitingSecondUp = true ∧
          (q.run before).1.recognizer.heldLong = true := by
      obtain ⟨-, hconsistent, hreported⟩ :=
        stages_run hbuild (past ++ [.feed (.pointer s)] ++ before)
      rw [run_append] at hconsistent hreported
      constructor
      · intro h
        exact ⟨h.awaiting, h.heldLong⟩
      · rintro ⟨hawaiting, hheld⟩
        exact ⟨hconsistent, hawaiting, hheld, hreported hheld⟩
    simp only [hholding]
  · rw [← output_of_build hbuild] at hplain
    rw [decisionsOf_run_after hplain]
    exact hcancelled hnone

/-- Under the click delay a second finger comes down while the down of the first one is held
back. The first finger lifts within the delay. -/
theorem begun_manyDown_iff_quick_up :
    let config : Configuration := { filter := { clickDelay := .medium } }
    let plan : Plan := { config := config, listener := some .attentive, output := [.sink] }
    let p : Pipeline := ⟨.new config.filter none, .new {} none, [.sink], 0, false⟩
    let first : Request := .feed (.pointer (.touch .down ⟨10, 10⟩ 0))
    let both (action : PointerAction) (time : Micros) : Sample :=
      ⟨1, action, .touchscreen, time, [⟨0, ⟨10, 10⟩⟩, ⟨1, ⟨50, 50⟩⟩]⟩
    let q := (p.run ([first] ++ [.feed (.pointer (both .down 10000))])).1
    let later : List Request :=
      [.feed (.pointer (both .up 20000)), .feed (.pointer (.touch .up ⟨10, 10⟩ 200000)), .flush]
    (plan.build = .ok p ∧ (both .down 10000).source = .touchscreen ∧
        (both .down 10000).action = .down ∧ 1 < (both .down 10000).pointerCount ∧
        (∀ request ∈ later, request.isFingerDown = false) ∧ plan.output.IsPlain ∧
        q.begun later = []) ∧
      (q.begun later = [] ↔
        ∀ before x after, later = before ++ .feed (.pointer x) :: after →
          (q.run before).1.filter.releases x = true →
            (q.run before).1.recognizer.awaitingSecondUp = true ∧
              (q.run before).1.recognizer.heldLong = true) ∧
      (q.begun later = [] → ∀ d ∈ q.decides later, d.isCancelled = true) ∧
      ∀ d ∈ decisionsOf (q.run later).2.2, d.isCancelled = true := by
  intro config plan p first both q later
  have hbuild : plan.build = .ok p := build_eq_built rfl check_default
  have hlater : ∀ request ∈ later, request.isFingerDown = false := by decide +kernel
  have hmany : 1 < (both .down 10000).pointerCount := by decide
  have hplain : plan.output.IsPlain := by decide
  have hnone : q.begun later = [] := by decide +kernel
  -- the run is not to be computed
  clear_value later
  obtain ⟨hbegun, hdecides, hreports⟩ :=
    begun_manyDown_iff hbuild [first] (s := both .down 10000) rfl rfl hmany later hlater
  exact ⟨⟨hbuild, rfl, rfl, hmany, hlater, hplain, hnone⟩, hbegun, hdecides,
    hreports hplain hnone⟩

/-- Had the first finger stayed for longer than the delay, its up would let the held down on,
and a tap would be reported. -/
theorem fingers_tapped :
    let config : Configuration := { filter := { clickDelay := .medium } }
    let plan : Plan := { config := config, listener := some .attentive }
    let p : Pipeline := ⟨.new config.filter none, .new {} none, [], 0, false⟩
    let both (action : PointerAction) (time : Micros) : Request :=
      .feed (.pointer ⟨1, action, .touchscreen, time, [⟨0, ⟨10, 10⟩⟩, ⟨1, ⟨50, 50⟩⟩]⟩)
    let q := (p.run [.feed (.pointer (.touch .down ⟨10, 10⟩ 0)), both .down 10000]).1
    plan.build = .ok p ∧
      (q.run [both .up 20000, .feed (.pointer (.touch .up ⟨10, 10⟩ 400000)), .flush]).2.2 =
        [.decided (.completed .tap)] := by
  intro config plan p both q
  have hbuild : plan.build = .ok p := build_eq_built rfl check_default
  exact ⟨hbuild, by decide +kernel⟩

end TouchStream.Pipeline
