import TouchStream.Display
import TouchStream.Time

/-!
# Settings

The preferences of the touch filter, the limits of the recognizer, and the configuration that holds both.

* `RecognizerSettings.check`: the first fault of the limits, if they have one.
* `Configuration.agrees`: equality of configurations as numbers, where `0` and `-0` are equal and what is no
  number equals nothing.
-/

namespace TouchStream

/-! ## The touch filter -/

/-- How long a touch is held back before it counts as a click. -/
inductive ClickDelay
  | short
  | medium
  | long
deriving DecidableEq, Repr

namespace ClickDelay

/-- Every delay with the name it has in files. -/
def table : List (ClickDelay × String) := [(short, "short"), (medium, "medium"), (long, "long")]

/-- The length of a delay in milliseconds. -/
def millis : ClickDelay → Nat
  | short => 0
  | medium => 300
  | long => 600

/-- The text shown for a delay. -/
def label : ClickDelay → String
  | short => "Short"
  | medium => "Medium"
  | long => "Long"

end ClickDelay

/-- For how long after a click another one counts as a repetition. -/
inductive RepeatWindow
  | shortest
  | short
  | medium
  | long
  | longest
deriving DecidableEq, Repr

namespace RepeatWindow

/-- Every window with the name it has in files. -/
def table : List (RepeatWindow × String) :=
  [(shortest, "shortest"), (short, "short"), (medium, "medium"), (long, "long"),
   (longest, "longest")]

/-- The length of a window in milliseconds. -/
def millis : RepeatWindow → Nat
  | shortest => 100
  | short => 400
  | medium => 700
  | long => 1000
  | longest => 1300

/-- The text shown for a window. -/
def label (w : RepeatWindow) : String := toString w.millis ++ "ms"

end RepeatWindow

/-- The preferences of the touch filter. -/
structure FilterSettings where
  clickDelay : ClickDelay := .short
  ignoreRepeat : Bool := false
  repeatWindow : RepeatWindow := .shortest
deriving DecidableEq, Repr

/-! ## The recognizer -/

/-- The limits of the recognizer. -/
structure RecognizerSettings where
  /-- The longest gap between two taps of a double tap. -/
  doubleTapTimeout : Micros := 300000
  /-- The shortest gap between two taps of a double tap. -/
  minDoubleTapInterval : Micros := 40000
  /-- How long a finger is held down for a long press. -/
  longPressTimeout : Micros := 300000
  /-- How long a finger may take to start a swipe. -/
  notStartedTimeout : Micros := 200000
  /-- How long a swipe may take from one anchor to the next. -/
  startedTimeout : Micros := 300000
  /-- The slop between two taps, in device independent pixels. -/
  tapSlop : Float32 := 100
  /-- The movement in pixels that gives up a double tap. -/
  touchSlop : Float32 := 8
  /-- The least step between two points of a route, in inches. -/
  routeStep : Float32 := 0.1
deriving DecidableEq, Repr

/-- The timeouts that may not be zero. -/
inductive Timeout
  | doubleTap
  | longPress
  | notStarted
  | started
deriving DecidableEq, Repr

namespace Timeout

/-- The name of a timeout in files. -/
def name : Timeout → String
  | doubleTap => "double_tap_timeout_us"
  | longPress => "long_press_timeout_us"
  | notStarted => "gesture_not_started_timeout_us"
  | started => "gesture_started_timeout_us"

/-- Every timeout, in the order in which they are checked. -/
def all : List Timeout := [doubleTap, longPress, notStarted, started]

/-- The value of a timeout in the limits. -/
def value (s : RecognizerSettings) : Timeout → Micros
  | doubleTap => s.doubleTapTimeout
  | longPress => s.longPressTimeout
  | notStarted => s.notStartedTimeout
  | started => s.startedTimeout

end Timeout

/-- What can be wrong with the limits of the recognizer. -/
inductive SettingsFault
  /-- No gap between two taps is both long and short enough. -/
  | emptyTapWindow (shortest longest : Micros)
  | zeroTimeout (timeout : Timeout)
  | negativeDistance
deriving DecidableEq, Repr

/-- The text of a fault. -/
def SettingsFault.message : SettingsFault → String
  | emptyTapWindow shortest longest =>
    "min_double_tap_interval_us (" ++ toString shortest.toNat
      ++ ") exceeds double_tap_timeout_us (" ++ toString longest.toNat ++ ")"
  | zeroTimeout timeout => timeout.name ++ " must be non-zero"
  | negativeDistance => "slop and step values must be non-negative"

/-- The text of a fault as an error. -/
def SettingsFault.report (fault : SettingsFault) : String := "Invalid value: " ++ fault.message

namespace RecognizerSettings

/-- Whether every distance is a number that is not negative. -/
def distancesOk (s : RecognizerSettings) : Bool := 0 ≤ s.tapSlop && 0 ≤ s.touchSlop && 0 ≤ s.routeStep

/-- The first fault of the limits, or nothing when the recognizer can work with them. -/
def check (s : RecognizerSettings) : Except SettingsFault Unit :=
  if s.doubleTapTimeout < s.minDoubleTapInterval then
    .error (.emptyTapWindow s.minDoubleTapInterval s.doubleTapTimeout)
  else
    match Timeout.all.find? (fun t => t.value s == 0) with
    | some t => .error (.zeroTimeout t)
    | none => if s.distancesOk then .ok () else .error .negativeDistance

/-- Equality of limits as numbers. -/
def agrees (a b : RecognizerSettings) : Bool :=
  a.doubleTapTimeout == b.doubleTapTimeout && a.minDoubleTapInterval == b.minDoubleTapInterval
    && a.longPressTimeout == b.longPressTimeout && a.notStartedTimeout == b.notStartedTimeout
    && a.startedTimeout == b.startedTimeout && Float32.beq a.tapSlop b.tapSlop
    && Float32.beq a.touchSlop b.touchSlop && Float32.beq a.routeStep b.routeStep

end RecognizerSettings

/-! ## Configurations -/

/-- All settings, with the metrics of a display to use where none is known otherwise. -/
structure Configuration where
  filter : FilterSettings := {}
  recognizer : RecognizerSettings := {}
  display : Option Display := none
deriving DecidableEq, Repr

/-- Equality of display metrics as numbers. -/
def Display.agrees (a b : Display) : Bool :=
  a.width == b.width && a.height == b.height && Float32.beq a.dpi b.dpi
    && Float32.beq a.pixelRatio b.pixelRatio

/-- Equality of configurations as numbers. -/
def Configuration.agrees (a b : Configuration) : Bool :=
  a.filter == b.filter && a.recognizer.agrees b.recognizer
    && match a.display, b.display with
      | none, none => true
      | some c, some d => c.agrees d
      | _, _ => false

end TouchStream
