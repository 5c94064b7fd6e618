import TouchStream.Number.Decimal

/-!
# The fewest digits that read back

A value of a binary format is written with the fewest significant digits that read back to it. A decimal
grid is tried at every place, from the leading digit down; on a grid only the two neighbours of the value
can read back, and of two that do the nearer is taken.

* `BinaryFormat.shortest`: the digits chosen for a rank, with the place of the last one.
* `FloatStyle`: what a format decides about the text, and `FloatStyle.numeral`, the numeral it writes.
-/

namespace TouchStream

/-- Which neighbour is taken when a value lies halfway between two. -/
inductive Tie
  | toEven
  | upward
deriving DecidableEq, Repr

namespace BinaryFormat

/-! ## Choosing the digits -/

/-- The place of the leading decimal digit of a positive ratio, `0` being the place of the units. -/
def leadingPlace (num den : Nat) : Int :=
  if den ≤ num then (digitsOf (num / den)).length - 1
  else -(digitsOf ((den + num - 1) / num - 1)).length

/-- Whether the decimal number `digits * 10 ^ place` reads back as the value of rank `n`. -/
def readsBack (f : BinaryFormat) (n digits : Nat) (place : Int) : Bool :=
  f.nearestRank (digits * Nat.pow 10 place.toNat) (Nat.pow 10 (-place).toNat) == n

/-- The decimal neighbour of the value of rank `n` that has its last digit at `place` and reads back. -/
def neighbourAt (f : BinaryFormat) (tie : Tie) (n : Nat) (place : Int) : Option Nat :=
  let num := (f.ratio n).1 * Nat.pow 10 (-place).toNat
  let den := (f.ratio n).2 * Nat.pow 10 place.toNat
  let low := num / den
  let rest := num % den
  match f.readsBack n low place, f.readsBack n (low + 1) place with
  | false, false => none
  | true, false => some low
  | false, true => some (low + 1)
  | true, true =>
    if 2 * rest < den then some low
    else if den < 2 * rest then some (low + 1)
    else match tie with
      | .toEven => some (low + low % 2)
      | .upward => some (low + 1)

/-- All digits of the value of rank `n`, with the place of the last one. -/
def allDigits (f : BinaryFormat) (n : Nat) : Nat × Int :=
  let halvings := (-f.exponent n).toNat
  ((f.ratio n).1 * Nat.pow 5 halvings, -halvings)

/-- The search for digits that read back, over `rounds` grids from `place` down. -/
def search (f : BinaryFormat) (tie : Tie) (n : Nat) : (rounds : Nat) → (place : Int) → Nat × Int
  | 0, _ => f.allDigits n
  | rounds + 1, place =>
    match f.neighbourAt tie n place with
    | some digits => (digits, place)
    | none => search f tie n rounds (place - 1)

/-- So many significant digits always suffice to tell the values of a format apart. -/
def enoughDigits (f : BinaryFormat) : Nat := f.precision * 3 / 10 + 2

/-- The digits without the zeros at their end, with the place of the last one that stays. -/
def dropZeros (digits : Nat) (place : Int) : Nat × Int :=
  if h : digits ≠ 0 ∧ digits % 10 = 0 then dropZeros (digits / 10) (place + 1) else (digits, place)
termination_by digits
decreasing_by omega

/-- The fewest digits that read back as the value of rank `n`, with the place of the last one. -/
def shortest (f : BinaryFormat) (tie : Tie) (n : Nat) : Nat × Int :=
  if n = 0 then (0, 0)
  else
    let (digits, place) :=
      f.search tie n f.enoughDigits (leadingPlace (f.ratio n).1 (f.ratio n).2)
    dropZeros digits place

end BinaryFormat

/-! ## Writing the digits -/

/-- What a text format decides about floating numbers: the tie between two shortest texts, and for which
places of the leading digit the point stands in its place, without an exponent. -/
structure FloatStyle where
  tie : Tie
  positional : Int → Bool

namespace FloatStyle

/-- The digits with the point in its place, and at least one digit on either side of it. -/
def positionalNumeral (negative : Bool) (digits : List Char) (place : Int) : Numeral :=
  if 0 ≤ place then ⟨negative, digits ++ List.replicate place.toNat '0', ['0'], none⟩
  else
    let after := (-place).toNat
    if after < digits.length then
      ⟨negative, digits.take (digits.length - after), digits.drop (digits.length - after), none⟩
    else ⟨negative, ['0'], List.replicate (after - digits.length) '0' ++ digits, none⟩

/-- The digits with the point after the first one, and an exponent. -/
def scientificNumeral (negative : Bool) (digits : List Char) (place : Int) : Numeral :=
  ⟨negative, digits.take 1, digits.drop 1, some (place + digits.length - 1)⟩

/-- The numeral that a style writes for the finite value of rank `n`. -/
def numeral (style : FloatStyle) (f : BinaryFormat) (negative : Bool) (n : Nat) : Numeral :=
  let (digits, place) := f.shortest style.tie n
  let ds := digitsOf digits
  if style.positional (place + ds.length - 1) then positionalNumeral negative ds place
  else scientificNumeral negative ds place

end FloatStyle

end TouchStream
