import TouchStream.Number.Shortest
import TouchStream.Number.Single

/-!
# Printing TOML

What is printed are sections: a header, then one line for each field. A blank line stands between two sections.

* `Toml.floatStyle`: how floating values are written.
* `Toml.write?`: the text of some sections, unless an integer in them is too large for TOML.
-/

namespace TouchStream.Toml

/-- How TOML texts write floating values: the point always stands in its place. -/
def floatStyle : FloatStyle where
  tie := .upward
  positional _ := true

/-- The value of a printed field. -/
inductive Scalar where
  /-- A text that needs no escapes. -/
  | text (s : String)
  | boolean (b : Bool)
  | integer (n : Nat)
  | single (x : Float32)
deriving DecidableEq, Repr

/-- The text of a floating value, which is written as the 64-bit value that it is. -/
def writeSingle (x : Float32) : List Char :=
  let y := Single.toDouble x
  if y.isFinite then (floatStyle.numeral .double y.negative y.rank).text
  else if y.isInfinite then (if y.negative then ['-'] else []) ++ ['i', 'n', 'f']
  else ['n', 'a', 'n']

/-- The text of a value. Integers are written only as far as 64 bits with a sign go. -/
def Scalar.write? : Scalar → Option (List Char)
  | text s => some ('\"' :: s.toList ++ ['\"'])
  | boolean b => some (if b then ['t', 'r', 'u', 'e'] else ['f', 'a', 'l', 's', 'e'])
  | integer n => if n ≤ 0x7FFFFFFFFFFFFFFF then some (digitsOf n) else none
  | single x => some (writeSingle x)

/-- A header with the fields of its table. -/
structure Section where
  name : String
  fields : List (String × Scalar)
deriving DecidableEq, Repr

/-- The line of a field. -/
def writeField? (field : String × Scalar) : Option (List Char) :=
  field.2.write?.map fun v => field.1.toList ++ [' ', '=', ' '] ++ v ++ ['\n']

/-- The lines of a section. -/
def Section.write? (s : Section) : Option (List Char) :=
  (s.fields.mapM writeField?).map fun ls => '[' :: s.name.toList ++ [']', '\n'] ++ ls.flatten

/-- The text of some sections. -/
def write? (sections : List Section) : Option (List Char) :=
  (sections.mapM Section.write?).map fun texts => (texts.intersperse ['\n']).flatten

/-- The text of some sections as a string. -/
def render? (sections : List Section) : Option String := (write? sections).map String.ofList

end TouchStream.Toml
