import TouchStream.Number.Binary

/-!
# Decimal numerals

A `Numeral` is a decimal number as it is written: a sign, the digits before and after the point, and an
exponent. A `Decimal` is the number it stands for.

* `numberIn?`: the number that digits of another base stand for.
* `Numeral.decimal`: the number that a numeral stands for.
* `Decimal.rank`: the rank, in a binary format, of the value nearest to a decimal number.
* `Numeral.scan`: the numeral at the head of a text.
* `Numeral.text`: the text of a numeral.
-/

namespace TouchStream

/-! ## Digits -/

/-- The value of a decimal digit. -/
def digitValue (c : Char) : Nat := c.toNat - '0'.toNat

/-- The value of a digit in a base of at most sixteen. -/
def digitIn? (base : Nat) (c : Char) : Option Nat :=
  let v? : Option Nat :=
    if '0' ≤ c ∧ c ≤ '9' then some (c.toNat - '0'.toNat)
    else if 'a' ≤ c ∧ c ≤ 'f' then some (c.toNat - 'a'.toNat + 10)
    else if 'A' ≤ c ∧ c ≤ 'F' then some (c.toNat - 'A'.toNat + 10)
    else none
  v?.filter (· < base)

/-- The number that a run of digits of a base stands for, if all of them are digits of it. -/
def numberIn? (base : Nat) (ds : List Char) : Option Nat :=
  ds.foldlM (fun n c => (digitIn? base c).map (base * n + ·)) 0

/-- The number that a run of decimal digits stands for. -/
def digitsValue (ds : List Char) : Nat :=
  ds.foldl (fun n c => 10 * n + digitValue c) 0

/-- The decimal digits of a natural number, the most significant first. -/
def digitsOf (n : Nat) : List Char := Nat.toDigits 10 n

/-! ## Decimal numbers -/

/-- The number `± digits * 10 ^ exponent`. -/
structure Decimal where
  negative : Bool
  digits : Nat
  exponent : Int
deriving DecidableEq, Repr

/-- The rank of the value of `f` nearest to the magnitude of a decimal number. The first three cases
only spare the work of writing out powers whose outcome is plain. -/
def Decimal.rank (f : BinaryFormat) (d : Decimal) : Nat :=
  if d.digits = 0 then 0
  else if (Nat.pow 2 f.exponentBits : Int) < d.exponent then f.infinityRank
  else if d.exponent + d.digits.log2 + 1 < -(Nat.pow 2 f.exponentBits : Int) then 0
  else f.nearestRank (d.digits * Nat.pow 10 d.exponent.toNat) (Nat.pow 10 (-d.exponent).toNat)

/-! ## Written numerals -/

/-- A decimal number as written. An empty `fraction` means that no point is written. -/
structure Numeral where
  negative : Bool
  whole : List Char
  fraction : List Char
  exponent : Option Int
deriving DecidableEq, Repr

namespace Numeral

/-- A numeral is an integer literal when it has neither a point nor an exponent. -/
def isInteger (n : Numeral) : Bool := n.fraction.isEmpty && n.exponent.isNone

/-- The number that a numeral stands for. -/
def decimal (n : Numeral) : Decimal where
  negative := n.negative
  digits := digitsValue (n.whole ++ n.fraction)
  exponent := n.exponent.getD 0 - n.fraction.length

/-- The integer that an integer literal stands for. -/
def integer (n : Numeral) : Int :=
  if n.negative then -(digitsValue n.whole : Int) else digitsValue n.whole

/-- The numeral of an integer. -/
def ofInt (i : Int) : Numeral := ⟨i < 0, digitsOf i.natAbs, [], none⟩

/-! ## Text -/

/-- The exponent part of a numeral, always with its sign. -/
def exponentText : Option Int → List Char
  | none => []
  | some e => 'e' :: (if e < 0 then '-' else '+') :: digitsOf e.natAbs

/-- The text of a numeral. -/
def text (n : Numeral) : List Char :=
  (if n.negative then ['-'] else []) ++ n.whole
    ++ (if n.fraction.isEmpty then [] else '.' :: n.fraction) ++ exponentText n.exponent

/-- The run of digits at the head of a text, and the rest. -/
def scanDigits (cs : List Char) : List Char × List Char := cs.span Char.isDigit

/-- The optional sign at the head of an exponent: whether it is a minus, and the rest. -/
def scanSign : List Char → Bool × List Char
  | '-' :: cs => (true, cs)
  | '+' :: cs => (false, cs)
  | cs => (false, cs)

/-- The optional fraction at the head of a text. A point needs a digit after it. -/
def scanFraction : List Char → Option (List Char × List Char)
  | '.' :: cs =>
    match scanDigits cs with
    | ([], _) => none
    | (ds, rest) => some (ds, rest)
  | cs => some ([], cs)

/-- The digits of an exponent, after the letter that opens it. -/
def scanExponentDigits (cs : List Char) : Option (Option Int × List Char) :=
  let (minus, cs) := scanSign cs
  match scanDigits cs with
  | ([], _) => none
  | (ds, rest) => some (some (if minus then -(digitsValue ds : Int) else digitsValue ds), rest)

/-- The optional exponent at the head of a text. -/
def scanExponent : List Char → Option (Option Int × List Char)
  | 'e' :: cs => scanExponentDigits cs
  | 'E' :: cs => scanExponentDigits cs
  | cs => some (none, cs)

/-- The numeral without its sign at the head of a text. No superfluous zero may lead it. -/
def scanUnsigned (negative : Bool) (cs : List Char) : Option (Numeral × List Char) :=
  match scanDigits cs with
  | ([], _) => none
  | ('0' :: _ :: _, _) => none
  | (whole, rest) =>
    match scanFraction rest with
    | none => none
    | some (fraction, rest) =>
      match scanExponent rest with
      | none => none
      | some (exponent, rest) => some (⟨negative, whole, fraction, exponent⟩, rest)

/-- The numeral at the head of a text, and the rest. Only a minus may stand before it. -/
def scan : List Char → Option (Numeral × List Char)
  | '-' :: cs => scanUnsigned true cs
  | cs => scanUnsigned false cs

end Numeral

end TouchStream
