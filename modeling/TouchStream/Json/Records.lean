import TouchStream.Data.Records
import TouchStream.Json.Data

/-!
# Records of the domain as JSON

How samples, events, scripted paths and settings are written as JSON values: every field is written, in the
order of the field names by which it is read.
-/

namespace TouchStream.Json

/-- A record, from the names and the values of its fields. -/
def ofRecord (names : List String) (values : List Json) : Json := ofFields (names.zip values)

def ofUInt64 (n : UInt64) : Json := ofNat n.toNat

/-- A named value by its name in a table. -/
def ofChoice {α : Type} [BEq α] (table : List (α × String)) (x : α) : Json :=
  ofText ((table.lookup x).getD "")

/-! ## Events -/

def ofPoint (p : Point) : Json := array [ofSingle p.x, ofSingle p.y]

def ofContact (c : Contact) : Json :=
  ofRecord Datum.contactFields [ofInt c.id.toInt, ofSingle c.point.x, ofSingle c.point.y]

def ofSample (s : Sample) : Json :=
  ofRecord Datum.sampleFields
    [ofInt s.pointer.toInt, ofChoice PointerAction.table s.action,
     ofChoice PointerSource.table s.source, ofUInt64 s.time, array (s.contacts.map ofContact)]

def ofKeyEvent (k : KeyEvent) : Json :=
  ofRecord Datum.keyFields
    [ofInt k.keyCode.toInt, ofChoice KeyAction.table k.action, ofUInt64 k.time]

def ofAccessibilityEvent (a : AccessibilityEvent) : Json :=
  ofRecord Datum.accessibilityFields
    [ofChoice AccessibilityKind.table a.kind, ofChoice Gesture.table a.gesture, ofUInt64 a.time]

/-! ## Scripted paths -/

def ofScriptedPath (p : ScriptedPath) : Json :=
  ofRecord Datum.pathFields
    [array (p.positions.map ofPoint), ofUInt64 p.duration, ofUInt64 p.start]

/-! ## Settings -/

def ofDisplay (d : Display) : Json :=
  ofRecord Datum.displayFields
    [ofNat d.width.toNat, ofNat d.height.toNat, ofSingle d.dpi, ofSingle d.pixelRatio]

def ofFilterSettings (s : FilterSettings) : Json :=
  ofRecord Datum.filterFields
    [ofChoice ClickDelay.table s.clickDelay, boolean s.ignoreRepeat,
     ofChoice RepeatWindow.table s.repeatWindow]

def ofRecognizerSettings (s : RecognizerSettings) : Json :=
  ofRecord Datum.recognizerFields
    [ofUInt64 s.doubleTapTimeout, ofUInt64 s.minDoubleTapInterval, ofUInt64 s.longPressTimeout,
     ofUInt64 s.notStartedTimeout, ofUInt64 s.startedTimeout, ofSingle s.tapSlop,
     ofSingle s.touchSlop, ofSingle s.routeStep]

def ofConfiguration (c : Configuration) : Json :=
  ofRecord Datum.configurationFields
    [ofFilterSettings c.filter, ofRecognizerSettings c.recognizer,
     (c.display.map ofDisplay).getD null]

end TouchStream.Json
