import TouchStream.Toml.Text

/-!
# TOML numbers, dates and times

* `Toml.number?`: an integer or a floating value.
* `Toml.moment?`: a date, a time of day, or both.
* `Toml.scalar?`: any value that is neither an array nor a table.
-/

namespace TouchStream.Toml

/-! ## Numbers -/

/-- Whether a run of digits and underscores has each underscore between two digits. -/
def isSpaced : List Char → Bool
  | [] => false
  | '_' :: _ => false
  | [_] => true
  | _ :: '_' :: rest => isSpaced rest
  | _ :: rest => isSpaced rest

/-- The run of digits of a base at the head of a text, without the underscores between them, and the rest. -/
def digitRun? (base : Nat) (cs : List Char) : Option (List Char × List Char) :=
  let (run, rest) := cs.span fun c => c == '_' || (digitIn? base c).isSome
  if isSpaced run then some (run.filter (· ≠ '_'), rest) else none

/-- The optional fraction at the head of a text. A point needs a digit after it. -/
def fraction? : List Char → Option (List Char × List Char)
  | '.' :: rest => digitRun? 10 rest
  | cs => some ([], cs)

/-- The optional exponent at the head of a text. -/
def exponent? : List Char → Option (Option Int × List Char)
  | [] => some (none, [])
  | c :: cs =>
    if c == 'e' || c == 'E' then
      let (minus, cs) := Numeral.scanSign cs
      (digitRun? 10 cs).map fun (ds, rest) =>
        (some (if minus then -(digitsValue ds : Int) else digitsValue ds), rest)
    else some (none, c :: cs)

/-- The numeral after its sign. No superfluous zero may lead it. -/
def numeral? (negative : Bool) (cs : List Char) : Option (Numeral × List Char) :=
  match digitRun? 10 cs with
  | none => none
  | some ('0' :: _ :: _, _) => none
  | some (whole, rest) =>
    match fraction? rest with
    | none => none
    | some (fraction, rest) =>
      (exponent? rest).map fun (exponent, rest) => (⟨negative, whole, fraction, exponent⟩, rest)

/-- An integer, if it fits into 64 bits with its sign. -/
def integerDatum? (i : Int) : Option Datum :=
  if -0x8000000000000000 ≤ i ∧ i ≤ 0x7FFFFFFFFFFFFFFF then some (.integer i) else none

/-- A numeral as data. A positive number may not exceed all floating values. -/
def numeralDatum? (n : Numeral) : Option Datum :=
  if n.isInteger then integerDatum? n.integer
  else
    let x := Double.ofDecimal n.decimal
    if x.isInfinite && !x.negative then none else some (.real x)

/-- An integer in a base of its own, after the letter of the base. -/
def basedInteger? (base : Nat) (cs : List Char) : Option (Datum × List Char) :=
  match digitRun? base cs with
  | none => none
  | some (ds, rest) =>
    match numberIn? base ds with
    | none => none
    | some n => (integerDatum? n).map (·, rest)

/-- A number after its sign. -/
def signedNumber? (negative : Bool) : List Char → Option (Datum × List Char)
  | 'i' :: 'n' :: 'f' :: rest => some (.real (.infinity negative), rest)
  | 'n' :: 'a' :: 'n' :: rest => some (.real .notANumber, rest)
  | cs =>
    match numeral? negative cs with
    | none => none
    | some (n, rest) => (numeralDatum? n).map (·, rest)

/-- The number at the head of a text, and the rest. -/
def number? : List Char → Option (Datum × List Char)
  | '0' :: 'x' :: rest => basedInteger? 16 rest
  | '0' :: 'o' :: rest => basedInteger? 8 rest
  | '0' :: 'b' :: rest => basedInteger? 2 rest
  | '-' :: rest => signedNumber? true rest
  | '+' :: rest => signedNumber? false rest
  | cs => signedNumber? false cs

/-! ## Dates and times -/

/-- The number of so many digits, if it lies between two bounds. -/
def fixedNumber? (digits low high : Nat) (cs : List Char) : Option (Nat × List Char) :=
  let ds := cs.take digits
  let n := digitsValue ds
  if ds.length = digits ∧ ds.all Char.isDigit ∧ low ≤ n ∧ n ≤ high then some (n, cs.drop digits)
  else none

/-- The text after a character. -/
def after? (c : Char) : List Char → Option (List Char)
  | d :: rest => if c == d then some rest else none
  | [] => none

/-- The number of days of a month. -/
def daysIn (year month : Nat) : Nat :=
  if month = 2 then if year % 4 = 0 ∧ (year % 100 ≠ 0 ∨ year % 400 = 0) then 29 else 28
  else if month = 4 ∨ month = 6 ∨ month = 9 ∨ month = 11 then 30
  else 31

/-- The text after a date. -/
def date? (cs : List Char) : Option (List Char) := do
  let (year, cs) ← fixedNumber? 4 0 9999 cs
  let (month, cs) ← fixedNumber? 2 1 12 (← after? '-' cs)
  let (_, cs) ← fixedNumber? 2 1 (daysIn year month) (← after? '-' cs)
  return cs

/-- The text after a time of day. A minute may have a leap second. -/
def time? (cs : List Char) : Option (List Char) := do
  let (_, cs) ← fixedNumber? 2 0 23 cs
  let (_, cs) ← fixedNumber? 2 0 59 (← after? ':' cs)
  let (_, cs) ← fixedNumber? 2 0 60 (← after? ':' cs)
  return match cs with
    | '.' :: c :: rest => if c.isDigit then rest.dropWhile Char.isDigit else cs
    | cs => cs

/-- The text after the distance of a time zone, if there is one. -/
def skipZone : List Char → List Char
  | [] => []
  | c :: rest =>
    if c == 'Z' || c == 'z' then rest
    else if c == '+' || c == '-' then
      let zone : Option (List Char) := do
        let (_, cs) ← fixedNumber? 2 0 23 rest
        let (_, cs) ← fixedNumber? 2 0 59 (← after? ':' cs)
        return cs
      zone.getD (c :: rest)
    else c :: rest

/-- The text after a date, a time of day, or a date with a time. -/
def momentEnd? (cs : List Char) : Option (List Char) :=
  match date? cs with
  | none => time? cs
  | some [] => some []
  | some (c :: rest) =>
    if c == 'T' || c == 't' || c == ' ' then
      match time? rest with
      | some rest => some (skipZone rest)
      | none => some (c :: rest)
    else some (c :: rest)

/-- The date or time at the head of a text, and the rest. As data it is a record of its own kind. -/
def moment? (cs : List Char) : Option (Datum × List Char) :=
  (momentEnd? cs).map fun rest =>
    (.record [("date-time", .text (String.ofList (cs.take (cs.length - rest.length))))], rest)

/-! ## Scalars -/

/-- The scalar value at the head of a text, and the rest. -/
def scalar? : List Char → Option (Datum × List Char)
  | 't' :: 'r' :: 'u' :: 'e' :: rest => some (.boolean true, rest)
  | 'f' :: 'a' :: 'l' :: 's' :: 'e' :: rest => some (.boolean false, rest)
  | '\"' :: cs => (string? ('\"' :: cs)).map fun (s, rest) => (.text s, rest)
  | '\'' :: cs => (string? ('\'' :: cs)).map fun (s, rest) => (.text s, rest)
  | cs => (moment? cs).or (number? cs)

end TouchStream.Toml
