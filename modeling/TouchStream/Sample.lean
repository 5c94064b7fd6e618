import TouchStream.Geometry
import TouchStream.Time

/-!
# Pointer samples

A sample tells what one pointer, the acting one, did at one time, and where every pointer in contact was
then. A sample without the contact of its acting pointer is malformed and has no position.
-/

namespace TouchStream

/-- What the acting pointer of a sample did. -/
inductive PointerAction
  | down
  | move
  | up
  | cancel
deriving DecidableEq, Repr

/-- Every pointer action with its name. -/
def PointerAction.table : List (PointerAction × String) :=
  [(down, "down"), (move, "move"), (up, "up"), (cancel, "cancel")]

/-- The name of a pointer action. -/
def PointerAction.name (a : PointerAction) : String := (table.lookup a).getD ""

/-- The kind of device a sample comes from. -/
inductive PointerSource
  | touchscreen
  | mouse
  | touchpad
  | joystick
deriving DecidableEq, Repr

/-- Every pointer source with its name. -/
def PointerSource.table : List (PointerSource × String) :=
  [(touchscreen, "touchscreen"), (mouse, "mouse"), (touchpad, "touchpad"), (joystick, "joystick")]

/-- The name of a pointer source. -/
def PointerSource.name (s : PointerSource) : String := (table.lookup s).getD ""

/-- One pointer in contact. -/
structure Contact where
  id : Int32
  point : Point
deriving DecidableEq, Repr

/-- A pointer sample. -/
structure Sample where
  pointer : Int32
  action : PointerAction
  source : PointerSource
  time : Micros
  contacts : List Contact
deriving DecidableEq, Repr

namespace Sample

/-- The contacts with `c` in the place of the first one of its pointer, or at the end if there is none. -/
def place (c : Contact) : List Contact → List Contact
  | [] => [c]
  | d :: ds => if d.id = c.id then c :: ds else d :: place c ds

/-- The sample with one more contact, or with a contact of the same pointer replaced. -/
def withContact (s : Sample) (c : Contact) : Sample := { s with contacts := place c s.contacts }

/-- The sample with another action. -/
def withAction (s : Sample) (a : PointerAction) : Sample := { s with action := a }

/-- The sample of the only finger on a touch screen. -/
def touch (action : PointerAction) (point : Point) (time : Micros) : Sample :=
  ⟨0, action, .touchscreen, time, [⟨0, point⟩]⟩

/-- The contact of the acting pointer. -/
def acting (s : Sample) : Option Contact := s.contacts.find? (·.id == s.pointer)

/-- The position of the acting pointer. -/
def position (s : Sample) : Option Point := s.acting.map (·.point)

/-- The number of pointers in contact. -/
def pointerCount (s : Sample) : Nat := s.contacts.length

end Sample

end TouchStream
