import TouchStream.Data.Datum
import TouchStream.Recognizer
import TouchStream.ScriptedPath
import TouchStream.TouchFilter

/-!
# Records of the domain as data

How samples, events, scripted paths and settings are read from data. The names of the fields and of the named
values are those of the files. A field that is not there has a default only where one is given.
-/

namespace TouchStream.Datum

/-! ## Events -/

/-- A point is the list of its two coordinates. -/
def point? : Datum → Option Point
  | list [x, y] =>
    match x.single?, y.single? with
    | some x, some y => some ⟨x, y⟩
    | _, _ => none
  | _ => none

def contactFields : List String := ["id", "display_x", "display_y"]

def contact? (dialect : Dialect) (d : Datum) : Option Contact :=
  match d.fields? dialect contactFields with
  | some [id, x, y] => do
    let id ← required? int32? id
    let x ← required? single? x
    let y ← required? single? y
    return ⟨id, ⟨x, y⟩⟩
  | _ => none

def sampleFields : List String := ["pointer_id", "action", "source", "action_time", "items"]

/-- A sample without a source comes from a touch screen. -/
def sample? (dialect : Dialect) (d : Datum) : Option Sample :=
  match d.fields? dialect sampleFields with
  | some [pointer, action, source, time, contacts] => do
    let pointer ← required? int32? pointer
    let action ← required? (choice? dialect PointerAction.table) action
    let source ← optional? .touchscreen (choice? dialect PointerSource.table) source
    let time ← required? uint64? time
    let contacts ← required? (list? (contact? dialect)) contacts
    return ⟨pointer, action, source, time, contacts⟩
  | _ => none

def keyFields : List String := ["key_code", "action", "action_time"]

def keyEvent? (dialect : Dialect) (d : Datum) : Option KeyEvent :=
  match d.fields? dialect keyFields with
  | some [keyCode, action, time] => do
    let keyCode ← required? int32? keyCode
    let action ← required? (choice? dialect KeyAction.table) action
    let time ← required? uint64? time
    return ⟨keyCode, action, time⟩
  | _ => none

def accessibilityFields : List String := ["event_type", "gesture_type", "timestamp"]

def accessibilityEvent? (dialect : Dialect) (d : Datum) : Option AccessibilityEvent :=
  match d.fields? dialect accessibilityFields with
  | some [kind, gesture, time] => do
    let kind ← required? (choice? dialect AccessibilityKind.table) kind
    let gesture ← required? (choice? dialect Gesture.table) gesture
    let time ← required? uint64? time
    return ⟨kind, gesture, time⟩
  | _ => none

/-! ## Scripted paths -/

def pathFields : List String := ["positions", "duration_us", "start_time"]

/-- A path without a start begins at time zero. -/
def scriptedPath? (dialect : Dialect) (d : Datum) : Option ScriptedPath :=
  match d.fields? dialect pathFields with
  | some [positions, duration, start] => do
    let positions ← required? (list? point?) positions
    let duration ← required? uint64? duration
    let start ← optional? 0 uint64? start
    return ⟨positions, duration, start⟩
  | _ => none

/-! ## Settings -/

def displayFields : List String := ["width", "height", "dpi", "virtual_pixel_ratio"]

def display? (dialect : Dialect) (d : Datum) : Option Display :=
  match d.fields? dialect displayFields with
  | some [width, height, dpi, ratio] => do
    let width ← required? uint32? width
    let height ← required? uint32? height
    let dpi ← required? single? dpi
    let ratio ← required? single? ratio
    return ⟨width, height, dpi, ratio⟩
  | _ => none

def filterFields : List String :=
  ["click_response_delay", "ignore_repeat_click", "ignore_repeat_click_time"]

def filterSettings? (dialect : Dialect) (d : Datum) : Option FilterSettings :=
  let usual : FilterSettings := {}
  match d.fields? dialect filterFields with
  | some [delay, ignore, window] => do
    let delay ← optional? usual.clickDelay (choice? dialect ClickDelay.table) delay
    let ignore ← optional? usual.ignoreRepeat bool? ignore
    let window ← optional? usual.repeatWindow (choice? dialect RepeatWindow.table) window
    return ⟨delay, ignore, window⟩
  | _ => none

def recognizerFields : List String :=
  [Timeout.doubleTap.name, "min_double_tap_interval_us", Timeout.longPress.name,
   Timeout.notStarted.name, Timeout.started.name, "double_tap_slop_dp", "touch_slop_px",
   "route_step_inches"]

def recognizerSettings? (dialect : Dialect) (d : Datum) : Option RecognizerSettings :=
  let usual : RecognizerSettings := {}
  match d.fields? dialect recognizerFields with
  | some [timeout, interval, long, notStarted, started, tapSlop, touchSlop, step] => do
    let timeout ← optional? usual.doubleTapTimeout uint64? timeout
    let interval ← optional? usual.minDoubleTapInterval uint64? interval
    let long ← optional? usual.longPressTimeout uint64? long
    let notStarted ← optional? usual.notStartedTimeout uint64? notStarted
    let started ← optional? usual.startedTimeout uint64? started
    let tapSlop ← optional? usual.tapSlop single? tapSlop
    let touchSlop ← optional? usual.touchSlop single? touchSlop
    let step ← optional? usual.routeStep single? step
    return ⟨timeout, interval, long, notStarted, started, tapSlop, touchSlop, step⟩
  | _ => none

def configurationFields : List String := ["screen_touch", "gesture", "display"]

def configuration? (dialect : Dialect) (d : Datum) : Option Configuration :=
  match d.fields? dialect configurationFields with
  | some [filter, gesture, display] => do
    let filter ← optional? {} (filterSettings? dialect) filter
    let gesture ← optional? {} (recognizerSettings? dialect) gesture
    let display ← optional? none (nullable? (display? dialect)) display
    return ⟨filter, gesture, display⟩
  | _ => none

end TouchStream.Datum
