import TouchStream.Proofs.Pipeline.CatchUp
import TouchStream.Proofs.Recognizer.Muted
import TouchStream.Proofs.TouchFilter.Sample

/-!
# Interactions that begin in a pipeline

An interaction begins when a down of a single finger reaches a recognizer that takes it.
Where no such down is fed, one can come from the filter alone. So in a pipeline whose
recognizer is muted a request begins an interaction just when the filter releases a down
and no second tap is held (`begun_request`).

* `Pipeline.begun`: the interactions that begin in a run.
* `decides_of_begun_eq_nil`: where none begins in a muted recognizer, nothing but
  cancellations is reported.
* `stages_run`: what the filter holds, and the invariants of the recognizer, after any run.
-/

namespace TouchStream

/-! ## Downs that the recognizer takes -/

namespace Recognizer

variable {r : Recognizer} {s : Sample} {ms : List Message}

theorem accepts_pointer_eq (r : Recognizer) (s : Sample) :
    r.accepts (.event (.pointer s)) =
      (s.isLone && s.action = .down && !(r.awaitingSecondUp && r.heldLong)) := by
  rw [Bool.eq_iff_iff, accepts_pointer_iff]
  simp only [Bool.and_eq_true, Sample.isLone_iff, decide_eq_true_iff, Bool.not_eq_true']
  constructor
  · rintro ⟨hsource, haction, hheld, hcount, position, hposition⟩
    have hpos := Sample.pointerCount_pos hposition
    exact ⟨⟨⟨hsource, by omega, position, hposition⟩, haction⟩, hheld⟩
  · rintro ⟨⟨⟨hsource, hcount, position, hposition⟩, haction⟩, hheld⟩
    exact ⟨hsource, haction, hheld, by omega, position, hposition⟩

theorem not_accepts_of_not_loneDown (h : (s.isLone && s.action = .down) = false) :
    r.accepts (.event (.pointer s)) = false := by
  rw [accepts_pointer_eq, h, Bool.false_and]

theorem Idle.accepts_loneDown (h : r.Idle) (hlone : s.isLone = true) (hdown : s.action = .down) :
    r.accepts (.event (.pointer s)) = true := by
  simp [accepts_pointer_eq, hlone, hdown, h.awaiting]

theorem interactions_times (h : ∀ m ∈ ms, ∃ now, m = .time now) (r : Recognizer) :
    (r.interactions ms).2 = [] := by
  induction ms generalizing r with
  | nil => rfl
  | cons m ms ih =>
    obtain ⟨⟨now, rfl⟩, hms⟩ := List.forall_mem_cons.mp h
    exact interactions_cons_eq_nil.mpr ⟨rfl, ih hms _⟩

theorem decisionsIn_handsOn (r : Recognizer) (ms : List Message) :
    decisionsIn (r.handsOn ms) = (r.interactions ms).1 ++ (r.interactions ms).2.flatten := by
  induction ms generalizing r with
  | nil => rfl
  | cons m ms ih =>
    rw [handsOn_cons, decisionsIn_append, ih, interactions]
    cases r.accepts m with
    | true => rfl
    | false => exact (List.append_assoc ..).symm

/-- A muted recognizer takes a released down unless a second tap is held, and the sample
after it begins nothing. -/
theorem Muted.interactions_released (h : r.Muted) {d : Sample} (hlone : d.isLone = true)
    (hdown : d.action = .down) {out : List Sample}
    (hs : (s.isLone && s.action = .down) = false) (hout : out = [d] ∨ out = [d, s]) :
    (r.interactions (out.map fun x => .event (.pointer x))).2 = [] ↔ r.Holding := by
  rcases h with h | h
  · have haccepts := h.accepts_loneDown hlone hdown
    constructor
    · intro hnone
      rcases hout with rfl | rfl <;>
        exact absurd (interactions_cons_eq_nil.mp hnone).1 (by simp [haccepts])
    · intro hholding
      exact absurd hholding h.not_holding
  · refine ⟨fun _ => h, fun _ => ?_⟩
    have hrest := not_accepts_of_not_loneDown (r := (r.receive (.event (.pointer d))).state) hs
    rcases hout with rfl | rfl
    · exact interactions_cons_eq_nil.mpr ⟨h.not_accepts _, rfl⟩
    · exact interactions_cons_eq_nil.mpr
        ⟨h.not_accepts _, interactions_cons_eq_nil.mpr ⟨hrest, rfl⟩⟩

end Recognizer

namespace TouchFilter

variable {f f' : TouchFilter} {s : Sample} {out : List Sample}

/-- What is released starts with a down of a single finger. -/
theorem HeldDown.released (hheld : f.HeldDown) (h : f.Step s f' out)
    (hreleases : f.releases s = true) :
    ∃ d, d.isLone = true ∧ d.action = .down ∧ (out = [d] ∨ out = [d, s]) := by
  have hlone := isLone_of_releases hreleases
  rcases h.out_of_releases hreleases with ⟨-, hout⟩ | ⟨-, d, hd, hout⟩
  · exact ⟨s.withAction .down, hlone, rfl, hout⟩
  · obtain ⟨hdlone, hdown, -⟩ := hheld d hd
    exact ⟨d, hdlone, hdown, Or.inr hout⟩

theorem pass_keeps {P : TouchFilter → Prop} {ms : List Message}
    (hstep : ∀ m ∈ ms, ∀ f, P f → P (f.receive m).state) (h : P f) : P (f.pass ms).1 := by
  induction ms generalizing f with
  | nil => exact h
  | cons m ms ih =>
    obtain ⟨hm, hms⟩ := List.forall_mem_cons.mp hstep
    exact ih hms (hm f h)

end TouchFilter

namespace Pipeline

variable {p : Pipeline} {request : Request} {requests : List Request} {s : Sample}

/-- Whether a down of a single finger is fed. -/
def Request.isFingerDown : Request → Bool
  | .feed (.pointer s) => s.isLone && s.action = .down
  | _ => false

/-- The decisions of each interaction that begins in a run. -/
def begun (p : Pipeline) (requests : List Request) : List (List Decision) :=
  (p.recognizer.interactions (p.toRecognizer requests)).2

/-! ## The stages after a request -/

theorem mem_messages_pointer (h : .event (.pointer s) ∈ p.messages request) :
    request = .feed (.pointer s) := by
  cases request with
  | feed e =>
    cases e with
    | pointer x =>
      rcases List.mem_append.mp h with h | h
      · obtain ⟨now, hnow⟩ := mem_wakings h
        cases hnow
      · cases List.mem_singleton.mp h
        rfl
    | key k => cases List.mem_singleton.mp h
    | accessibility a => cases List.mem_singleton.mp h
  | advance now => cases List.mem_singleton.mp h
  | flush =>
    obtain ⟨now, hnow⟩ := mem_flushTimes h
    cases hnow
  | clear source => cases List.mem_singleton.mp h
  | destroy =>
    simp only [messages] at h
    split at h
    · cases h
    · cases List.mem_singleton.mp h

theorem filter_handle_keeps {P : TouchFilter → Prop}
    (hstep : ∀ m ∈ p.messages request, ∀ f, P f → P (f.receive m).state) (h : P p.filter) :
    P (p.handle request).1.filter := by
  rw [(handle_front p request).1]
  exact TouchFilter.pass_keeps hstep h

theorem heldDown_handle (h : p.filter.HeldDown) (request : Request) :
    (p.handle request).1.filter.HeldDown :=
  filter_handle_keeps (fun m _ _ hf => hf.receive m) h

theorem heldDown_run (h : p.filter.HeldDown) (requests : List Request) :
    (p.run requests).1.filter.HeldDown := by
  induction requests generalizing p with
  | nil => exact h
  | cons request requests ih => exact ih (heldDown_handle h request)

/-- What a run of a new pipeline leaves in its stages. -/
theorem stages_run {plan : Plan} (hbuild : plan.build = .ok p) (requests : List Request) :
    (p.run requests).1.filter.HeldDown ∧ (p.run requests).1.recognizer.Consistent ∧
      (p.run requests).1.recognizer.HeldReported := by
  have hnew : p.filter.HeldDown ∧ p.recognizer.Consistent ∧ p.recognizer.HeldReported := by
    rw [eq_built hbuild]
    exact ⟨TouchFilter.heldDown_new _ _, Recognizer.consistent_new _ _, .of_not_held rfl⟩
  obtain ⟨hfilter, hconsistent, hreported⟩ := hnew
  rw [(run_eq p requests).1]
  exact ⟨heldDown_run hfilter requests, hconsistent.after _, hreported.after _⟩

/-! ## What begins -/

theorem begun_cons_eq_nil :
    p.begun (request :: requests) = [] ↔
      p.begun [request] = [] ∧ (p.handle request).1.begun requests = [] := by
  rw [begun, toRecognizer_cons, Recognizer.interactions_append_eq_nil, ← recognizer_handle]
  rfl

/-- Where no interaction begins in a muted recognizer, nothing but cancellations is
reported, and it stays muted. -/
theorem decides_of_begun_eq_nil (h : p.recognizer.Muted) (hnone : p.begun requests = []) :
    (p.recognizer.after (p.toRecognizer requests)).Muted ∧
      ∀ d ∈ p.decides requests, d.isCancelled = true := by
  obtain ⟨hmuted, hcancelled⟩ := h.after hnone
  refine ⟨hmuted, ?_⟩
  have hdecides : p.decides requests =
      (p.recognizer.interactions (p.toRecognizer requests)).1 := by
    rw [decides, toOutput, Recognizer.decisionsIn_handsOn]
    show _ ++ (p.begun requests).flatten = _
    rw [hnone, List.flatten_nil, List.append_nil]
  rw [hdecides]
  exact hcancelled

theorem begun_pointer (hfilter : p.filter.HeldDown) (hmuted : p.recognizer.Muted)
    (hs : (s.isLone && s.action = .down) = false) :
    p.begun [.feed (.pointer s)] = [] ↔ (p.filter.releases s = true → p.recognizer.Holding) := by
  have htimes : ∀ m ∈ p.wakings s.time, ∃ now, m = .time now := fun _ hm => mem_wakings hm
  have hwakings := Recognizer.interactions_times htimes p.recognizer
  have hcaught : (p.caughtUp s.time).recognizer.Muted ∧
      ((p.caughtUp s.time).recognizer.Holding ↔ p.recognizer.Holding) := by
    rw [← after_wakings, wakings]
    split
    · exact hmuted.advance _
    · exact ⟨hmuted, Iff.rfl⟩
  have hstep := p.filter.step_pointer s
  rw [begun, toRecognizer_pointer, Recognizer.interactions_append_eq_nil, after_wakings,
    TouchFilter.passes]
  simp only [hwakings, true_and]
  generalize (p.caughtUp s.time).recognizer = r at hcaught
  cases hreleases : p.filter.releases s with
  | false =>
    have hplain : (r.interactions ((p.filter.pointer s).2.2.map fun x =>
        .event (.pointer x))).2 = [] := by
      rcases hstep.out_of_not_releases hreleases with hout | hout
      · rw [hout]
        rfl
      · rw [hout]
        exact Recognizer.interactions_cons_eq_nil.mpr
          ⟨Recognizer.not_accepts_of_not_loneDown hs, rfl⟩
    simp [hplain]
  | true =>
    obtain ⟨d, hlone, hdown, hout⟩ := hfilter.released hstep hreleases
    rw [hcaught.1.interactions_released hlone hdown hs hout, hcaught.2]
    simp

theorem begun_other (h : ∀ s, request ≠ .feed (.pointer s)) : p.begun [request] = [] := by
  have hnone (m : Message) (hm : p.recognizer.accepts m = false) :
      (p.recognizer.interactions [m]).2 = [] :=
    Recognizer.interactions_cons_eq_nil.mpr ⟨hm, rfl⟩
  cases request with
  | feed e =>
    cases e with
    | pointer s => exact absurd rfl (h s)
    | key k => exact hnone _ rfl
    | accessibility a => exact hnone _ rfl
  | advance now => exact hnone _ rfl
  | flush =>
    rw [begun, toRecognizer_flush]
    exact Recognizer.interactions_times (fun _ hm => mem_flushTimes hm) p.recognizer
  | clear source => exact hnone _ rfl
  | destroy =>
    simp only [begun, toRecognizer_single, messages]
    split
    · rfl
    · exact hnone _ rfl

/-- A request that feeds no down of a single finger begins an interaction exactly when the
filter releases one and no second tap is held. -/
theorem begun_request (hfilter : p.filter.HeldDown) (hmuted : p.recognizer.Muted)
    (hrequest : request.isFingerDown = false) :
    p.begun [request] = [] ↔
      ∀ s, request = .feed (.pointer s) → p.filter.releases s = true → p.recognizer.Holding := by
  by_cases hpointer : ∃ s, request = .feed (.pointer s)
  · obtain ⟨s, rfl⟩ := hpointer
    rw [begun_pointer hfilter hmuted hrequest]
    constructor
    · intro h x hx
      cases hx
      exact h
    · exact fun h => h s rfl
  · have hother : ∀ s, request ≠ .feed (.pointer s) := fun s hs => hpointer ⟨s, hs⟩
    simp [begun_other hother, hother]

end Pipeline

end TouchStream
