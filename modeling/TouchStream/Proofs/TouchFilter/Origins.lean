import Mathlib.Data.List.Induction
import Mathlib.Data.List.Nodup
import TouchStream.Proofs.Pipeline.Messages
import TouchStream.Proofs.TouchFilter.Sample

/-!
# Where what the filter lets on comes from

Everything that the filter lets on has an origin among the messages that it was given. It is
such a message itself, or the move of a single finger with the action of a down (`Origin`). No
origin serves twice, and a message is let on while it is handled or not at all, except the down
that was held back.

* `let_on_sublist`: the touch downs apart, what is let on is part of what was given, in its order.
* `Accounted`: what it means that everything let on has an origin.
* `Trace`: a run with the origins of what it lets on, and with that of the down held back.
* `nothing_invented`: every run has such origins.
-/

namespace TouchStream

/-! ## Messages -/

namespace Message

/-- The message that a pointer did something. -/
def pointer (s : Sample) : Message := .event (.pointer s)

/-- Whether a message is the down of a finger on a touch screen. -/
def isTouchDown : Message → Bool
  | .event (.pointer s) => s.source = .touchscreen && s.action = .down
  | _ => false

/-- Whether a message is a down, a move or an up of a single finger. -/
def isFingers : Message → Bool
  | .event (.pointer s) => s.isLone && s.action ≠ .cancel
  | _ => false

theorem isFingers_eq_false_iff {s : Sample} :
    (pointer s).isFingers = false ↔ s.isLone = false ∨ s.action = .cancel := by
  rw [pointer, isFingers, Bool.and_eq_false_iff]
  simp

end Message

namespace TouchFilter

/-! ## Origins -/

/-- Where something that the filter lets on comes from. -/
inductive Origin
  /-- It is the message at an index as it was given. -/
  | kept (index : Nat)
  /-- It is the sample at an index with the action of a down. -/
  | turned (index : Nat)
deriving DecidableEq, Repr

namespace Origin

/-- The index of the message that something comes from. -/
def index : Origin → Nat
  | kept i => i
  | turned i => i

/-- What has an origin among the messages that were given. -/
def read (ms : List Message) : Origin → Option Message
  | kept i => ms[i]?
  | turned i =>
    match ms[i]? with
    | some (.event (.pointer s)) => some (.pointer (s.withAction .down))
    | _ => none

/-- Whether what is let on while the message at an index is handled may have an origin: that
message, a move of a single finger turned into a down, or an earlier down of a single finger. -/
def MayServe (ms : List Message) (i : Nat) (o : Origin) : Prop :=
  o = kept i ∨
    (o = turned i ∧ ∃ s, ms[i]? = some (.pointer s) ∧ s.isLone = true ∧ s.action = .move) ∨
    ∃ j < i, o = kept j ∧ ∃ d, ms[j]? = some (.pointer d) ∧ d.isLone = true ∧ d.action = .down

variable {ms : List Message} {i : Nat} {o : Origin}

theorem MayServe.index_le (h : o.MayServe ms i) : o.index ≤ i := by
  rcases h with rfl | ⟨rfl, -⟩ | ⟨j, hj, rfl, -⟩
  · exact Nat.le_refl i
  · exact Nat.le_refl i
  · exact Nat.le_of_lt hj

theorem MayServe.append (h : o.MayServe ms i) (hi : i < ms.length) (more : List Message) :
    o.MayServe (ms ++ more) i := by
  rcases h with rfl | ⟨rfl, s, hs, hmove⟩ | ⟨j, hj, rfl, d, hd, hdown⟩
  · exact Or.inl rfl
  · exact Or.inr (Or.inl ⟨rfl, s, by rw [List.getElem?_append_left hi, hs], hmove⟩)
  · refine Or.inr (Or.inr ⟨j, hj, rfl, d, ?_, hdown⟩)
    rw [List.getElem?_append_left (Nat.lt_trans hj hi), hd]

theorem read_append (h : o.index < ms.length) (more : List Message) :
    o.read (ms ++ more) = o.read ms := by
  cases o with
  | kept i => exact List.getElem?_append_left h
  | turned i =>
    have hi : (ms ++ more)[i]? = ms[i]? := List.getElem?_append_left h
    simp only [read, hi]

theorem read_kept_concat (ms : List Message) (m : Message) :
    (kept ms.length).read (ms ++ [m]) = some m := List.getElem?_concat_length

theorem read_turned_concat (ms : List Message) (s : Sample) :
    (turned ms.length).read (ms ++ [.pointer s]) = some (.pointer (s.withAction .down)) := by
  simp only [read, List.getElem?_concat_length, Message.pointer]

end Origin

variable {f : TouchFilter} {s : Sample} {m : Message} {ms : List Message}

/-! ## The calls of a run -/

/-- What is let on at each message. -/
def calls (f : TouchFilter) : List Message → List (List Message)
  | [] => []
  | m :: ms => f.passes m :: (f.receive m).state.calls ms

theorem flatten_calls (f : TouchFilter) (ms : List Message) :
    (f.calls ms).flatten = (f.pass ms).2 := by
  induction ms generalizing f with
  | nil => rfl
  | cons m ms ih => rw [calls, List.flatten_cons, ih, pass_cons]

theorem pass_concat_state (f : TouchFilter) (ms : List Message) (m : Message) :
    (f.pass (ms ++ [m])).1 = ((f.pass ms).1.receive m).state := by
  induction ms generalizing f with
  | nil => rfl
  | cons m' ms ih =>
    rw [List.cons_append, pass_cons, pass_cons]
    exact ih _

theorem calls_concat (f : TouchFilter) (ms : List Message) (m : Message) :
    f.calls (ms ++ [m]) = f.calls ms ++ [(f.pass ms).1.passes m] := by
  induction ms generalizing f with
  | nil => rfl
  | cons m' ms ih =>
    rw [List.cons_append, calls, ih]
    rfl

theorem getElem?_calls (f : TouchFilter) (ms : List Message) (i : Nat) :
    (f.calls ms)[i]? = ms[i]?.map (f.pass (ms.take i)).1.passes := by
  induction ms generalizing f i with
  | nil => rfl
  | cons m ms ih =>
    cases i with
    | zero => rfl
    | succ i =>
      rw [calls, List.getElem?_cons_succ, ih, List.getElem?_cons_succ, List.take_succ_cons,
        pass_cons]

/-- A call holds what the filter puts out for a message, once the messages before it have been
relayed. -/
theorem getElem?_calls_of_relay {i : Nat} (hm : ms[i]? = some m) :
    (f.calls ms)[i]?.map (List.map .message) =
      some ((relay receive f ((ms.take i).map .message)).1.receive m).out := by
  rw [getElem?_calls, hm, Option.map_some, Option.map_some, relay_messages, out_receive]

/-! ## The order -/

theorem passes_pointer (f : TouchFilter) (s : Sample) :
    f.passes (.pointer s) = (f.pointer s).2.2.map .pointer := rfl

theorem passes_sublist (h : f.HeldDown) (m : Message) :
    ((f.passes m).filter fun x => !x.isTouchDown).Sublist [m] := by
  cases m with
  | event e =>
    cases e with
    | pointer s =>
      have hstep := f.step_pointer s
      cases hreleases : f.releases s with
      | false =>
        rcases hstep.out_of_not_releases hreleases with hout | hout
        · rw [passes, hout]
          exact List.nil_sublist _
        · rw [passes, hout]
          exact List.filter_sublist
      | true =>
        have hsource : s.source = .touchscreen :=
          (Sample.isLone_iff.mp (isLone_of_releases hreleases)).1
        rcases hstep.out_of_releases hreleases with ⟨-, hout | hout⟩ | ⟨-, d, hd, hout⟩
        · rw [passes, hout, List.map_singleton, List.filter_cons_of_neg]
          · exact List.nil_sublist _
          · simp [Message.isTouchDown, Sample.withAction, hsource]
        · rw [passes, hout, List.map_cons, List.filter_cons_of_neg]
          · exact List.filter_sublist
          · simp [Message.isTouchDown, Sample.withAction, hsource]
        · obtain ⟨hlone, hdown, -⟩ := h d hd
          rw [passes, hout, List.map_cons, List.filter_cons_of_neg]
          · exact List.filter_sublist
          · simp [Message.isTouchDown, hdown, (Sample.isLone_iff.mp hlone).1]
    | key k => exact List.filter_sublist
    | accessibility a => exact List.filter_sublist
  | time now => exact List.filter_sublist
  | clear source => exact List.filter_sublist
  | destroy => exact List.filter_sublist

/-- Apart from the downs of a touch screen, nothing is let on but what was given, and that in
the order in which it was given. -/
theorem let_on_sublist (h : f.HeldDown) (ms : List Message) :
    ((f.pass ms).2.filter fun x => !x.isTouchDown).Sublist ms := by
  induction ms generalizing f with
  | nil => exact List.Sublist.slnil
  | cons m ms ih =>
    rw [pass_cons, List.filter_append]
    exact (passes_sublist h m).append (ih (h.receive m))

/-! ## Runs with their origins -/

/-- Every message that is let on at a call has an origin that may serve there, no origin serves
twice, and what is not of a single finger is let on at its own call as it is. -/
structure Accounted (ms : List Message) (calls : List (List Message))
    (origins : List (List Origin)) : Prop where
  read : origins.map (List.map (Origin.read ms)) = calls.map (List.map some)
  once : origins.flatten.Nodup
  serves : ∀ (i : Nat) (os : List Origin), origins[i]? = some os → ∀ o ∈ os, o.MayServe ms i
  prompt : ∀ (i : Nat) (m : Message), ms[i]? = some m → m.isFingers = false →
    origins[i]? = some [Origin.kept i]

/-- A down was given that is not among some origins. -/
def Awaits (ms : List Message) (origins : List Origin) (d : Sample) : Prop :=
  ∃ j, ms[j]? = some (.pointer d) ∧ d.isLone = true ∧ d.action = .down ∧ .kept j ∉ origins

/-- A run of the filter with the origins of what it lets on. The down that is held back was
given, and has not been let on. -/
structure Trace (ms : List Message) (f : TouchFilter) (calls : List (List Message))
    (origins : List (List Origin)) : Prop extends Accounted ms calls origins where
  held : ∀ d, f.held = some d → Awaits ms origins.flatten d
  length : origins.length = ms.length

/-- The origins of what the filter lets on at one more message. -/
structure Call (ms : List Message) (f : TouchFilter) (past : List Origin) (m : Message)
    (os : List Origin) : Prop where
  read : os.map (Origin.read (ms ++ [m])) = (f.passes m).map some
  once : os.Nodup
  serves : ∀ o ∈ os, o.MayServe (ms ++ [m]) ms.length
  fresh : ∀ o ∈ os, o.index < ms.length → o ∉ past
  prompt : m.isFingers = false → os = [.kept ms.length]
  held : ∀ d, (f.receive m).state.held = some d → Awaits (ms ++ [m]) (past ++ os) d

/-- After a down is let on, none is held back, so what is let on needs only its origins. -/
theorem Call.of_releases (hreleases : f.releases s = true) {past os : List Origin}
    (hread : os.map (Origin.read (ms ++ [.pointer s])) =
      (f.pointer s).2.2.map fun x => some (.pointer x))
    (honce : os.Nodup) (hserves : ∀ o ∈ os, o.MayServe (ms ++ [.pointer s]) ms.length)
    (hfresh : ∀ o ∈ os, o.index < ms.length → o ∉ past) :
    Call ms f past (.pointer s) os where
  read := by
    rw [hread, passes_pointer, List.map_map]
    rfl
  once := honce
  serves := hserves
  fresh := hfresh
  prompt hno := by
    have hlone := isLone_of_releases hreleases
    rcases Message.isFingers_eq_false_iff.mp hno with hnot | hcancel
    · rw [hlone] at hnot
      cases hnot
    · simp [releases, hcancel] at hreleases
  held d hd := by
    have hnone := (f.step_pointer s).held_of_releases hreleases
    have hd : (f.pointer s).1.held = some d := hd
    rw [hnone] at hd
    cases hd

namespace Trace

variable {calls : List (List Message)} {origins : List (List Origin)} {o : Origin}

theorem index_lt (h : Trace ms f calls origins) (ho : o ∈ origins.flatten) :
    o.index < ms.length := by
  obtain ⟨os, hos, ho⟩ := List.mem_flatten.mp ho
  obtain ⟨i, hi, hget⟩ := List.mem_iff_getElem.mp hos
  have hserves := h.serves i os (by rw [List.getElem?_eq_getElem hi, hget]) o ho
  exact Nat.lt_of_le_of_lt hserves.index_le (h.length ▸ hi)

theorem not_mem_of_index (h : Trace ms f calls origins) (ho : o.index = ms.length) :
    o ∉ origins.flatten := fun hmem => absurd (h.index_lt hmem) (by omega)

theorem awaits_concat (h : Trace ms f calls origins) {d : Sample} (hd : f.held = some d)
    {os : List Origin} (hos : ∀ o ∈ os, o.index = ms.length) (m : Message) :
    Awaits (ms ++ [m]) (origins.flatten ++ os) d := by
  obtain ⟨j, hj, hlone, hdown, hnew⟩ := h.held d hd
  have hlt : j < ms.length := (List.getElem?_eq_some_iff.mp hj).1
  refine ⟨j, by rw [List.getElem?_append_left hlt, hj], hlone, hdown, ?_⟩
  rw [List.mem_append, not_or]
  exact ⟨hnew, fun hmem => absurd (hos _ hmem) (Nat.ne_of_lt hlt)⟩

theorem concat (h : Trace ms f calls origins) {os : List Origin}
    (hcall : Call ms f origins.flatten m os) :
    Trace (ms ++ [m]) (f.receive m).state (calls ++ [f.passes m]) (origins ++ [os]) where
  read := by
    rw [List.map_append, List.map_append, ← h.read, List.map_singleton, List.map_singleton,
      hcall.read]
    congr 1
    refine List.map_congr_left fun past hpast => List.map_congr_left fun o ho => ?_
    exact Origin.read_append (h.index_lt (List.mem_flatten.mpr ⟨past, hpast, ho⟩)) [m]
  once := by
    rw [List.flatten_append, List.flatten_singleton, List.nodup_append]
    refine ⟨h.once, hcall.once, ?_⟩
    rintro o hpast _ ho rfl
    exact hcall.fresh o ho (h.index_lt hpast) hpast
  serves := by
    intro i os' hget o ho
    rcases Nat.lt_trichotomy i origins.length with hi | rfl | hi
    · rw [List.getElem?_append_left hi] at hget
      exact (h.serves i os' hget o ho).append (h.length ▸ hi) [m]
    · rw [List.getElem?_concat_length] at hget
      cases hget
      rw [h.length]
      exact hcall.serves o ho
    · rw [List.getElem?_eq_none (by rw [List.length_append]; exact hi)] at hget
      cases hget
  prompt := by
    intro i m' hget hm'
    rcases Nat.lt_trichotomy i ms.length with hi | rfl | hi
    · rw [List.getElem?_append_left hi] at hget
      rw [List.getElem?_append_left (h.length ▸ hi)]
      exact h.prompt i m' hget hm'
    · rw [List.getElem?_concat_length] at hget
      cases hget
      rw [← h.length, List.getElem?_concat_length, hcall.prompt hm', h.length]
    · rw [List.getElem?_eq_none (by rw [List.length_append]; exact hi)] at hget
      cases hget
  held := by
    rw [List.flatten_append, List.flatten_singleton]
    exact hcall.held
  length := by
    rw [List.length_append, List.length_append, h.length]
    rfl

/-- A message that is let on as it is. -/
theorem call_kept (h : Trace ms f calls origins) (hout : f.passes m = [m])
    (hheld : ∀ d, (f.receive m).state.held = some d → f.held = some d) :
    Call ms f origins.flatten m [.kept ms.length] where
  read := by rw [List.map_singleton, Origin.read_kept_concat, hout, List.map_singleton]
  once := List.nodup_singleton _
  serves := List.forall_mem_singleton.mpr (Or.inl rfl)
  fresh := List.forall_mem_singleton.mpr fun hlt => absurd hlt (Nat.lt_irrefl _)
  prompt _ := rfl
  held d hd := h.awaits_concat (hheld d hd) (List.forall_mem_singleton.mpr rfl) m

/-- A sample of a single finger that is not let on. -/
theorem call_dropped (h : Trace ms f calls origins) (hout : (f.pointer s).2.2 = [])
    (hfingers : (Message.pointer s).isFingers = true) :
    Call ms f origins.flatten (.pointer s) [] where
  read := by rw [passes_pointer, hout]; rfl
  once := List.nodup_nil
  serves := List.forall_mem_nil _
  fresh := List.forall_mem_nil _
  prompt hno := by rw [hfingers] at hno; cases hno
  held d hd := by
    rcases (f.step_pointer s).held hd with ⟨hheld, -⟩ | ⟨rfl, hlone, hdown, -⟩
    · exact h.awaits_concat hheld (List.forall_mem_nil _) _
    · refine ⟨ms.length, List.getElem?_concat_length, hlone, hdown, ?_⟩
      rw [List.append_nil]
      exact h.not_mem_of_index rfl

/-- A far move goes on as a down, and a late one as a down and as it is. -/
theorem call_move (h : Trace ms f calls origins) (hreleases : f.releases s = true)
    (hmove : s.action = .move)
    (hout : (f.pointer s).2.2 = [s.withAction .down] ∨
      (f.pointer s).2.2 = [s.withAction .down, s]) :
    ∃ os, Call ms f origins.flatten (.pointer s) os := by
  have hturned : (Origin.turned ms.length).MayServe (ms ++ [.pointer s]) ms.length :=
    Or.inr (Or.inl ⟨rfl, s, List.getElem?_concat_length, isLone_of_releases hreleases, hmove⟩)
  have hkept : (Origin.kept ms.length).MayServe (ms ++ [.pointer s]) ms.length := Or.inl rfl
  have hnow : ∀ o ∈ [Origin.turned ms.length, .kept ms.length], o.index = ms.length := by
    simp [Origin.index]
  rcases hout with hout | hout
  · refine ⟨[.turned ms.length], Call.of_releases hreleases ?_ (List.nodup_singleton _)
      (List.forall_mem_singleton.mpr hturned)
      (List.forall_mem_singleton.mpr fun _ => h.not_mem_of_index rfl)⟩
    rw [hout, List.map_singleton, Origin.read_turned_concat]
    rfl
  · refine ⟨[.turned ms.length, .kept ms.length], Call.of_releases hreleases ?_ (by simp)
      (List.forall_mem_cons.mpr ⟨hturned, List.forall_mem_singleton.mpr hkept⟩)
      fun o ho _ => h.not_mem_of_index (hnow o ho)⟩
    rw [hout, List.map_cons, List.map_singleton, Origin.read_turned_concat,
      Origin.read_kept_concat]
    rfl

/-- A late up goes on after the down that was held back. -/
theorem call_up (h : Trace ms f calls origins) (hreleases : f.releases s = true) {d : Sample}
    (hd : f.held = some d) (hout : (f.pointer s).2.2 = [d, s]) :
    ∃ os, Call ms f origins.flatten (.pointer s) os := by
  obtain ⟨j, hj, hlone, hdown, hnew⟩ := h.held d hd
  have hlt : j < ms.length := (List.getElem?_eq_some_iff.mp hj).1
  have hread : (Origin.kept j).read (ms ++ [.pointer s]) = some (.pointer d) :=
    (Origin.read_append (o := .kept j) hlt _).trans hj
  have hserves : (Origin.kept j).MayServe (ms ++ [.pointer s]) ms.length :=
    Or.inr (Or.inr ⟨j, hlt, rfl, d, hread, hlone, hdown⟩)
  refine ⟨[.kept j, .kept ms.length], Call.of_releases hreleases ?_ ?_ ?_ ?_⟩
  · rw [hout, List.map_cons, List.map_singleton, hread, Origin.read_kept_concat]
    rfl
  · simp [Nat.ne_of_lt hlt]
  · exact List.forall_mem_cons.mpr ⟨hserves, List.forall_mem_singleton.mpr (Or.inl rfl)⟩
  · exact List.forall_mem_cons.mpr ⟨fun _ => hnew,
      List.forall_mem_singleton.mpr fun _ => h.not_mem_of_index rfl⟩

theorem exists_call (h : Trace ms f calls origins) (m : Message) :
    ∃ os, Call ms f origins.flatten m os := by
  cases m with
  | event e =>
    cases e with
    | pointer s =>
      cases hreleases : f.releases s with
      | true =>
        rcases (f.step_pointer s).out_of_releases hreleases with ⟨hmove, hout⟩ | ⟨-, d, hd, hout⟩
        · exact h.call_move hreleases hmove hout
        · exact h.call_up hreleases hd hout
      | false =>
        rcases (f.step_pointer s).out_of_not_releases hreleases with hout | hout
        · refine ⟨[], h.call_dropped hout ?_⟩
          by_contra hfingers
          have hpasses := Message.isFingers_eq_false_iff.mp (Bool.eq_false_iff.mpr hfingers)
          rw [(pointer_passes hpasses).1] at hout
          cases hout
        · refine ⟨_, h.call_kept (by rw [passes, hout]; rfl) fun d hd => ?_⟩
          exact (f.step_pointer s).held_of_out (by simp [hout]) hd
    | key k => exact ⟨_, h.call_kept rfl fun _ => id⟩
    | accessibility a => exact ⟨_, h.call_kept rfl fun _ => id⟩
  | time now => exact ⟨_, h.call_kept rfl fun _ => id⟩
  | clear source =>
    refine ⟨_, h.call_kept rfl fun d hd => ?_⟩
    rw [receive] at hd
    split at hd
    · cases hd
    · exact hd
  | destroy =>
    refine ⟨_, h.call_kept rfl fun d hd => ?_⟩
    cases hd

end Trace

theorem trace_run (h : f.held = none) (ms : List Message) :
    ∃ origins, Trace ms (f.pass ms).1 (f.calls ms) origins := by
  induction ms using List.reverseRecOn with
  | nil =>
    refine ⟨[], ⟨rfl, List.nodup_nil, ?_, ?_⟩, ?_, rfl⟩
    · intro i os hos
      cases hos
    · intro i m hm
      cases hm
    · intro d hd
      exact absurd (h.symm.trans hd) (by simp)
  | append_singleton ms m ih =>
    obtain ⟨origins, htrace⟩ := ih
    obtain ⟨os, hcall⟩ := htrace.exists_call m
    rw [pass_concat_state, calls_concat]
    exact ⟨origins ++ [os], htrace.concat hcall⟩

/-- What is not of a single finger is let on alone and as it is. -/
theorem Accounted.alone {calls : List (List Message)} {origins : List (List Origin)} {i : Nat}
    (h : Accounted ms calls origins) (hm : ms[i]? = some m) (hfingers : m.isFingers = false) :
    calls[i]? = some [m] := by
  have hread : (origins.map (List.map (Origin.read ms)))[i]? = (calls.map (List.map some))[i]? := by
    rw [h.read]
  rw [List.getElem?_map, List.getElem?_map, h.prompt i m hm hfingers, Option.map_some,
    List.map_singleton, Origin.read, hm] at hread
  obtain ⟨call, hcall, hmap⟩ := Option.map_eq_some_iff.mp hread.symm
  rw [hcall, List.map_injective_iff.mpr (fun _ _ => Option.some.inj)
    (hmap.trans List.map_singleton.symm)]

/-- **Nothing is invented, doubled or put in another order.** In every run of the filter what is
let on, the downs of a touch screen apart, is part of what was given, in its order. And all that
is let on has an origin: a message at its own call, a move of a single finger turned into a down
at its own call, or the down of a single finger from before. None of these serves twice. What is
of no touch screen, a cancel, of several fingers or without its acting one is always let on at its
own call, alone and as it is. What is let on at a call is what the filter puts out for its message
after those before it. -/
theorem nothing_invented (settings : FilterSettings) (display : Option Display)
    (ms : List Message) :
    let f := new settings display
    ((f.calls ms).flatten.filter fun m => !m.isTouchDown).Sublist ms ∧
      (∃ origins, Accounted ms (f.calls ms) origins) ∧
      (∀ (i : Nat) (s : Sample), ms[i]? = some (.pointer s) →
        s.source ≠ .touchscreen ∨ s.action = .cancel ∨ 1 < s.pointerCount ∨ s.position = none →
        (f.calls ms)[i]? = some [.pointer s]) ∧
      ∀ (i : Nat) (m : Message), ms[i]? = some m →
        (f.calls ms)[i]?.map (List.map .message) =
          some ((relay receive f ((ms.take i).map .message)).1.receive m).out := by
  intro f
  obtain ⟨origins, htrace⟩ := trace_run (f := f) rfl ms
  refine ⟨?_, ⟨origins, htrace.toAccounted⟩, ?_, fun i m hm => getElem?_calls_of_relay hm⟩
  · rw [flatten_calls]
    exact let_on_sublist (heldDown_new settings display) ms
  · intro i s hs hpasses
    refine htrace.alone hs (Message.isFingers_eq_false_iff.mpr ?_)
    rcases hpasses with h | h | h | h
    · exact Or.inl (by simp [Sample.isLone, h])
    · exact Or.inr h
    · exact Or.inl (by simp [Sample.isLone, Nat.ne_of_gt h])
    · exact Or.inl (by simp [Sample.isLone, h])

end TouchFilter

end TouchStream
