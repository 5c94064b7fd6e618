import TouchStream.Gesture
import TouchStream.Sample

/-!
# Events

What enters and leaves a chain of stages: pointer samples, key events and accessibility events. Keys and
accessibility events are carried along and never looked into.
-/

namespace TouchStream

/-! ## Keys -/

/-- What was done to a key. -/
inductive KeyAction
  | down
  | up
  | cancel
deriving DecidableEq, Repr

/-- Every key action with its name. -/
def KeyAction.table : List (KeyAction × String) :=
  [(down, "down"), (up, "up"), (cancel, "cancel")]

/-- The name of a key action. -/
def KeyAction.name (a : KeyAction) : String := (table.lookup a).getD ""

/-- A key event. -/
structure KeyEvent where
  keyCode : Int32
  action : KeyAction
  time : Micros
deriving DecidableEq, Repr

/-! ## Accessibility events -/

/-- The kinds of accessibility events. -/
inductive AccessibilityKind
  | invalid
  | viewClicked
  | viewLongClicked
  | viewSelected
  | viewFocused
  | viewTextUpdate
  | pageStateUpdate
  | notificationUpdate
  | viewHoverEnter
  | viewHoverExit
  | touchGuideGestureBegin
  | touchGuideGestureEnd
  | pageContentUpdate
  | viewScrolled
  | viewTextSelectionUpdate
  | publicNotice
  | viewAccessibilityFocused
  | viewAccessibilityFocusCleared
  | viewTextMoveUnit
  | touchGuideBegin
  | touchGuideEnd
  | touchBegin
  | touchEnd
  | windowUpdate
  | interrupt
  | gesture
deriving DecidableEq, Repr

namespace AccessibilityKind

/-- Every kind with its name, in the order of the flags. -/
def table : List (AccessibilityKind × String) :=
  [(invalid, "Invalid"),
   (viewClicked, "ViewClicked"), (viewLongClicked, "ViewLongClicked"),
   (viewSelected, "ViewSelected"), (viewFocused, "ViewFocused"),
   (viewTextUpdate, "ViewTextUpdate"), (pageStateUpdate, "PageStateUpdate"),
   (notificationUpdate, "NotificationUpdate"),
   (viewHoverEnter, "ViewHoverEnter"), (viewHoverExit, "ViewHoverExit"),
   (touchGuideGestureBegin, "TouchGuideGestureBegin"),
   (touchGuideGestureEnd, "TouchGuideGestureEnd"),
   (pageContentUpdate, "PageContentUpdate"), (viewScrolled, "ViewScrolled"),
   (viewTextSelectionUpdate, "ViewTextSelectionUpdate"), (publicNotice, "PublicNotice"),
   (viewAccessibilityFocused, "ViewAccessibilityFocused"),
   (viewAccessibilityFocusCleared, "ViewAccessibilityFocusCleared"),
   (viewTextMoveUnit, "ViewTextMoveUnit"),
   (touchGuideBegin, "TouchGuideBegin"), (touchGuideEnd, "TouchGuideEnd"),
   (touchBegin, "TouchBegin"), (touchEnd, "TouchEnd"),
   (windowUpdate, "WindowUpdate"), (interrupt, "Interrupt"), (gesture, "Gesture")]

/-- The name of a kind. -/
def name (k : AccessibilityKind) : String := (table.lookup k).getD ""

/-- The bit flag of a kind: a bit of its own for each, and none for the invalid kind. -/
def code (k : AccessibilityKind) : Nat := if k = invalid then 0 else Nat.pow 2 (k.ctorIdx - 1)

end AccessibilityKind

/-- Something that happened to a view or on a screen, as accessibility services are told of it. -/
structure AccessibilityEvent where
  kind : AccessibilityKind
  gesture : Gesture
  time : Micros
deriving DecidableEq, Repr

namespace AccessibilityEvent

/-- An event that is about no gesture. -/
def plain (kind : AccessibilityKind) (time : Micros) : AccessibilityEvent := ⟨kind, .invalid, time⟩

/-- The event that tells of a gesture. -/
def ofGesture (g : Gesture) (time : Micros) : AccessibilityEvent := ⟨.gesture, g, time⟩

end AccessibilityEvent

/-! ## Events of a chain -/

/-- What a chain of stages can be given from outside. -/
inductive Event
  | pointer (s : Sample)
  | key (k : KeyEvent)
  | accessibility (a : AccessibilityEvent)
deriving DecidableEq, Repr

end TouchStream
