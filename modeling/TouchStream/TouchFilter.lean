import TouchStream.Settings
import TouchStream.Signal

/-!
# The touch filter

The filter applies two preferences to the samples of a single finger on a touch screen, before any gesture
is looked for.

* Click delay: a down is held back until the finger has moved past a threshold or has stayed for the delay.
  A touch that ends before either is dropped.
* Ignoring repetitions: a touch that starts too soon after the last up is dropped.

Everything else passes unchanged. `TouchFilter.pointer` is the handling of one sample.
-/

namespace TouchStream

/-- Which of the two preferences are in force. -/
inductive FilterPolicy
  | none
  | delayOnly
  | ignoreRepeatOnly
  | both
deriving DecidableEq, Repr

namespace FilterPolicy

/-- Every policy with the name it has in files. -/
def table : List (FilterPolicy × String) :=
  [(none, "none"), (delayOnly, "delayonly"), (ignoreRepeatOnly, "ignorerepeatonly"),
   (both, "both")]

/-- The text shown for a policy. -/
def label : FilterPolicy → String
  | none => "none"
  | delayOnly => "delay-only"
  | ignoreRepeatOnly => "ignore-repeat-only"
  | both => "both"

/-- The policy that the preferences ask for. -/
def ofSettings (s : FilterSettings) : FilterPolicy :=
  match decide (0 < s.clickDelay.millis), s.ignoreRepeat with
  | true, true => both
  | true, false => delayOnly
  | false, true => ignoreRepeatOnly
  | false, false => none

end FilterPolicy

/-- The state of the filter. -/
structure TouchFilter where
  policy : FilterPolicy
  /-- How long a down is held back. -/
  delay : Micros
  /-- For how many milliseconds after an up a down counts as a repetition. -/
  window : Nat
  /-- The distance beyond which a held touch is a drag. -/
  threshold : Float32
  /-- When the touch started. -/
  startTime : Micros
  /-- Where the touch started. -/
  startPoint : Point
  /-- The down that is held back. -/
  held : Option Sample
  /-- The finger moved past the threshold, and the rest of the touch passes. -/
  dragging : Bool
  /-- The time of the last up that was not ignored. -/
  lastUp : Option Micros
  /-- The touch is being ignored as a repetition. -/
  ignoring : Bool
deriving DecidableEq, Repr

namespace TouchFilter

/-- A filter with the given preferences, for a display. -/
def new (settings : FilterSettings) (display : Option Display) : TouchFilter where
  policy := .ofSettings settings
  delay := .ofNat (settings.clickDelay.millis * 1000)
  window := settings.repeatWindow.millis
  threshold := dragThreshold display
  startTime := 0
  startPoint := .zero
  held := none
  dragging := false
  lastUp := none
  ignoring := false

/-- Forgets the touch in progress. The time of the last up stays. -/
def clear (f : TouchFilter) : TouchFilter :=
  { f with dragging := false, ignoring := false, held := none, startPoint := .zero }

/-- Whether the delay has passed since the touch started. -/
def delayPassed (f : TouchFilter) (now : Micros) : Bool := f.startTime.later f.delay ≤ now

/-- Whether a down at a time would repeat the last click. -/
def isRepeat (f : TouchFilter) (now : Micros) : Bool :=
  match f.lastUp with
  | some up => (now.since up).toNat / 1000 < f.window
  | none => false

/-! ## Click delay -/

/-- Holds a down back. -/
def holdDown (f : TouchFilter) (s : Sample) (position : Point) : TouchFilter :=
  { f with startTime := s.time, startPoint := position, dragging := false, held := some s }

/-- A move past the threshold goes on as the down of a drag. After the delay a move goes on as it is, and
as the down before it when that is still held. Any other move is dropped. -/
def holdMove (f : TouchFilter) (s : Sample) (position : Point) : TouchFilter × List Sample :=
  if f.dragging then (f, [s])
  else if f.threshold < f.startPoint.distance position then
    ({ f with held := none, dragging := true }, [s.withAction .down])
  else if !f.delayPassed s.time then (f, [])
  else
    match f.held with
    | some _ => ({ f with held := none }, [s.withAction .down, s])
    | none => (f, [s])

/-- After the delay an up goes on, and the held down before it. An earlier up ends a held touch unseen. -/
def holdUp (f : TouchFilter) (s : Sample) : TouchFilter × List Sample :=
  if f.dragging then (f, [s])
  else
    match f.held with
    | some down => ({ f with held := none }, if f.delayPassed s.time then [down, s] else [])
    | none => (f, [s])

/-- One sample under the click delay. -/
def delayed (f : TouchFilter) (s : Sample) (position : Point) : TouchFilter × List Sample :=
  match s.action with
  | .down => (f.holdDown s position, [])
  | .move => f.holdMove s position
  | .up => f.holdUp s
  | .cancel => (f, [s])

/-! ## Ignoring repetitions -/

/-- One sample where repetitions are ignored. What is not ignored goes to `further`, and an up that is not
ignored starts the window anew. -/
def unlessRepeated (f : TouchFilter) (s : Sample)
    (further : TouchFilter → TouchFilter × List Sample) : TouchFilter × List Sample :=
  match s.action with
  | .down =>
    let ignoring := f.isRepeat s.time
    let f := { f with ignoring }
    if ignoring then (f, []) else further f
  | .move => if f.ignoring then (f, []) else further f
  | .up =>
    if f.ignoring then ({ f with ignoring := false }, [])
    else further { f with lastUp := some s.time }
  | .cancel => (f, [s])

/-! ## Samples and messages -/

/-- The samples that the filter lets on for one sample, and whether it took charge of it. -/
def pointer (f : TouchFilter) (s : Sample) : TouchFilter × Bool × List Sample :=
  if s.source ≠ .touchscreen then (f, false, [s])
  else if s.action = .cancel then (f.clear, true, [s])
  else if f.policy = .none ∨ 1 < s.pointerCount then (f, true, [s])
  else
    match s.position with
    | none => (f, false, [s])
    | some position =>
      let (f, out) :=
        match f.policy with
        | .none => (f, [s])
        | .delayOnly => f.delayed s position
        | .ignoreRepeatOnly => f.unlessRepeated s (fun f => (f, [s]))
        | .both => f.unlessRepeated s (fun f => f.delayed s position)
      (f, true, out)

/-- What the filter makes of a message. -/
def receive (f : TouchFilter) : Message → Reply TouchFilter
  | .event (.pointer s) =>
    let (f, handled, out) := f.pointer s
    ⟨f, handled, out.map .sample⟩
  | .event e => ⟨f, false, [.message (.event e)]⟩
  | .time now => ⟨f, false, [.message (.time now)]⟩
  | .clear source =>
    ⟨if source = .touchscreen then f.clear else f, false, [.message (.clear source)]⟩
  | .destroy => ⟨{ f.clear with lastUp := none }, false, [.message .destroy]⟩

end TouchFilter

end TouchStream
