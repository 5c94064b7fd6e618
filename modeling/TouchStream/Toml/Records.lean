import TouchStream.Data.Records
import TouchStream.Toml.Printer

/-!
# Settings as TOML

How a configuration is written: a section for each part of it, with every field, in the order of the field
names by which it is read.
-/

namespace TouchStream.Toml

/-- A section, from its name and the names and the values of its fields. -/
def ofRecord (name : String) (names : List String) (values : List Scalar) : Section :=
  ⟨name, names.zip values⟩

/-- A named value by its name in a table. -/
def ofChoice {α : Type} [BEq α] (table : List (α × String)) (x : α) : Scalar :=
  .text ((table.lookup x).getD "")

def ofUInt64 (n : UInt64) : Scalar := .integer n.toNat

def ofFilterSettings (s : FilterSettings) : List Scalar :=
  [ofChoice ClickDelay.table s.clickDelay, .boolean s.ignoreRepeat,
   ofChoice RepeatWindow.table s.repeatWindow]

def ofRecognizerSettings (s : RecognizerSettings) : List Scalar :=
  [ofUInt64 s.doubleTapTimeout, ofUInt64 s.minDoubleTapInterval, ofUInt64 s.longPressTimeout,
   ofUInt64 s.notStartedTimeout, ofUInt64 s.startedTimeout, .single s.tapSlop, .single s.touchSlop,
   .single s.routeStep]

def ofDisplay (d : Display) : List Scalar :=
  [.integer d.width.toNat, .integer d.height.toNat, .single d.dpi, .single d.pixelRatio]

/-- The sections of a configuration. -/
def ofConfiguration (c : Configuration) : List Section :=
  [ofRecord "screen_touch" Datum.filterFields (ofFilterSettings c.filter),
   ofRecord "gesture" Datum.recognizerFields (ofRecognizerSettings c.recognizer)]
    ++ (c.display.map fun d =>
      ofRecord "display" Datum.displayFields (ofDisplay d)).toList

end TouchStream.Toml
