import TouchStream.Number.Decimal

/-!
# JSON values

A value as a JSON text has it. Numbers keep the form in which they are written, and objects the order and
the repetitions of their members.
-/

namespace TouchStream

/-- A JSON value. A string is `none` when an escape leaves half of a surrogate pair alone in it, so that no
text can hold it. -/
inductive Json where
  | null
  | boolean (b : Bool)
  | number (n : Numeral)
  | string (s : Option String)
  | array (items : List Json)
  | object (members : List (Option String × Json))

namespace Json

instance : Inhabited Json := ⟨null⟩

/-- An integer as a JSON value. -/
def ofInt (i : Int) : Json := number (.ofInt i)

/-- A natural number as a JSON value. -/
def ofNat (n : Nat) : Json := ofInt n

/-- A text as a JSON value. -/
def ofText (s : String) : Json := string (some s)

/-- An object with the given members. -/
def ofFields (fields : List (String × Json)) : Json :=
  object (fields.map fun (name, value) => (some name, value))

end Json

end TouchStream
