import TouchStream.Data.Datum
import TouchStream.Json.Printer
import TouchStream.Json.Reader
import TouchStream.Number.Shortest
import TouchStream.Number.Stepwise

/-!
# JSON as data

An integer literal is an integer when it fits into 64 bits, signed or not; any other number is a 64-bit
floating value, which is read in steps. Numbers that come out infinite, strings that no text can hold and
objects with such a name are unusable: they may stand in a text, but no field takes them.

* `Json.datum`: a JSON value as data.
* `Json.ofSingle`: a 32-bit floating value as JSON.
* `Json.isPlain`, `Json.depth`: what a reader that keeps whole values accepts.
-/

namespace TouchStream

namespace Numeral

/-- Whether an integer literal is taken as an integer. The negative zero is none. -/
def fitsInteger (n : Numeral) : Bool :=
  n.isInteger
    && if n.negative then -0x8000000000000000 ≤ n.integer && n.integer ≠ 0
      else n.integer ≤ 0xFFFFFFFFFFFFFFFF

end Numeral

namespace Json

/-- A number as data. -/
def numberDatum (n : Numeral) : Datum :=
  if n.fitsInteger then .integer n.integer
  else
    let x := Double.inSteps n
    if x.isFinite then .real x else .unusable

mutual

/-- A value as data. -/
def datum : Json → Datum
  | null => .null
  | boolean b => .boolean b
  | number n => numberDatum n
  | string (some s) => .text s
  | string none => .unusable
  | array vs => .list (datumItems vs)
  | object ms =>
    match datumMembers ms with
    | some ms => .record ms
    | none => .unusable

/-- The items of an array as data. -/
def datumItems : List Json → List Datum
  | [] => []
  | v :: vs => datum v :: datumItems vs

/-- The members of an object as data, if every name is a text. -/
def datumMembers : List (Option String × Json) → Option (List (String × Datum))
  | [] => some []
  | (some name, v) :: ms => (datumMembers ms).map ((name, datum v) :: ·)
  | (none, _) :: _ => none

end

/-- In JSON null stands for no content, and a list may not be longer than the record. -/
def dialect : Dialect where
  isUnit
    | .null => true
    | _ => false
  surplusItems := false

/-- The data of a text. -/
def readDatum? (text : String) : Option Datum := (read? text).map datum

/-! ## Floating values -/

/-- How JSON texts write floating values: a point in its place from `1e-6` up to below `1e13`. -/
def floatStyle : FloatStyle where
  tie := .toEven
  positional e := -6 ≤ e && e < 13

/-- A 32-bit floating value. What is infinite or no number is null. -/
def ofSingle (x : Float32) : Json :=
  if Single.isFinite x then
    number (floatStyle.numeral .single (Single.negative x) (Single.rank x))
  else null

/-! ## Plain values -/

mutual

/-- Whether every string and every number in a value can be held. -/
def isPlain : Json → Bool
  | null => true
  | boolean _ => true
  | number n => n.fitsInteger || (Double.inSteps n).isFinite
  | string s => s.isSome
  | array vs => arePlain vs
  | object ms => membersPlain ms

/-- Whether all items of an array can be held. -/
def arePlain : List Json → Bool
  | [] => true
  | v :: vs => isPlain v && arePlain vs

/-- Whether all members of an object can be held. -/
def membersPlain : List (Option String × Json) → Bool
  | [] => true
  | (name, v) :: ms => name.isSome && isPlain v && membersPlain ms

end

mutual

/-- How deep arrays and objects are nested in a value. -/
def depth : Json → Nat
  | array vs => depthItems vs + 1
  | object ms => depthMembers ms + 1
  | _ => 0

/-- How deep the items of an array are nested. -/
def depthItems : List Json → Nat
  | [] => 0
  | v :: vs => max (depth v) (depthItems vs)

/-- How deep the members of an object are nested. -/
def depthMembers : List (Option String × Json) → Nat
  | [] => 0
  | (_, v) :: ms => max (depth v) (depthMembers ms)

end

end Json

end TouchStream
