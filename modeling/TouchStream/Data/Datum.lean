import TouchStream.Number.Single

/-!
# Data

The values that a text format can express, in the form in which records are read from them: a `Datum` has
its numbers told apart as integers and 64-bit floating values.

* `Datum.fields?`: the values of the fields of a record, from members with names or from a list by position.
* `Datum.choice?`: one of several named values.
* `Datum.int32?`, `Datum.uint64?`, `Datum.single?`, ...: numbers of a range.

Two formats differ in what else they take for a record or for a named value; a `Dialect` tells.
-/

namespace TouchStream

/-- A value of a text format. -/
inductive Datum where
  | null
  | boolean (b : Bool)
  | integer (i : Int)
  | real (x : Double)
  | text (s : String)
  | list (items : List Datum)
  | record (members : List (String × Datum))
  /-- A value that no field takes. -/
  | unusable

instance : Inhabited Datum := ⟨.null⟩

/-- What a text format decides about reading records. -/
structure Dialect where
  /-- Whether a value stands for "no content" beside the name of a named value. -/
  isUnit : Datum → Bool
  /-- Whether items beyond the last field are passed over in a record that is given as a list. -/
  surplusItems : Bool

namespace Datum

/-! ## Scalars -/

/-- A truth value. -/
def bool? : Datum → Option Bool
  | boolean b => some b
  | _ => none

/-- An integer between two bounds. -/
def integerBetween? (low high : Int) : Datum → Option Int
  | integer i => if low ≤ i ∧ i ≤ high then some i else none
  | _ => none

/-- An integer of 32 bits, one of them the sign. -/
def int32? (d : Datum) : Option Int32 :=
  (d.integerBetween? (-0x80000000) 0x7FFFFFFF).map .ofInt

/-- An integer of 32 bits without a sign. -/
def uint32? (d : Datum) : Option UInt32 :=
  (d.integerBetween? 0 0xFFFFFFFF).map fun i => .ofNat i.toNat

/-- An integer of 64 bits without a sign. -/
def uint64? (d : Datum) : Option UInt64 :=
  (d.integerBetween? 0 0xFFFFFFFFFFFFFFFF).map fun i => .ofNat i.toNat

/-- A 32-bit floating value, from a number of either kind. -/
def single? : Datum → Option Float32
  | integer i => some (Single.ofInt i)
  | real x => some (Single.ofDouble x)
  | _ => none

/-! ## Named values -/

/-- The value with a name in a table. -/
def named? {α : Type} (table : List (α × String)) (name : String) : Option α :=
  (table.find? (·.2 == name)).map (·.1)

/-- One of several named values: its name, or a record with that one member and no content. -/
def choice? {α : Type} (dialect : Dialect) (table : List (α × String)) : Datum → Option α
  | text s => named? table s
  | record [(name, content)] => if dialect.isUnit content then named? table name else none
  | _ => none

/-! ## Lists and records -/

/-- The items of a list, each read in the same way. -/
def list? {α : Type} (read : Datum → Option α) : Datum → Option (List α)
  | list items => items.mapM read
  | _ => none

/-- The values of the fields with the given names, in that order, as far as they are there. From a record
the members of these names are taken, and none may be there twice; from a list the items are taken in
turn. -/
def fields? (dialect : Dialect) (names : List String) : Datum → Option (List (Option Datum))
  | record members =>
    if names.any (fun name => 1 < members.countP (·.1 == name)) then none
    else some (names.map fun name => members.lookup name)
  | list items =>
    if names.length < items.length && !dialect.surplusItems then none
    else some ((List.range names.length).map fun i => items[i]?)
  | _ => none

/-- The value of a field that must be there. -/
def required? {α : Type} (read : Datum → Option α) (field : Option Datum) : Option α :=
  field.bind read

/-- The value of a field, or a default where the field is not there. -/
def optional? {α : Type} (default : α) (read : Datum → Option α) : Option Datum → Option α
  | some d => read d
  | none => some default

/-- A value that may be null. -/
def nullable? {α : Type} (read : Datum → Option α) : Datum → Option (Option α)
  | null => some none
  | d => (read d).map some

end Datum

end TouchStream
