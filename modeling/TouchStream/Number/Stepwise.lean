import TouchStream.Number.Single

/-!
# Reading decimal numbers in steps

A decimal number can be read with few operations on 64-bit numbers. An integer takes as many of the digits as it
can hold and is rounded to a floating value; that value is multiplied or divided by a power of ten, which is
rounded itself. Each step rounds once more, so the result may miss the nearest value in its last bits, and a
number just below the largest value may come out infinite.

* `BinaryFormat.product`, `BinaryFormat.quotient`: rounded arithmetic on ranks.
* `Numeral.shortened`: the number of those digits that a 64-bit integer can hold.
* `Double.scaleRank`: a value times a power of ten.
* `Double.inSteps`: the 64-bit value that is read for a numeral.
-/

namespace TouchStream

/-! ## Rounded arithmetic -/

namespace BinaryFormat

/-- The rank of the value nearest to the product of two values. -/
def product (f : BinaryFormat) (m n : Nat) : Nat :=
  f.nearestRank ((f.ratio m).1 * (f.ratio n).1) ((f.ratio m).2 * (f.ratio n).2)

/-- The rank of the value nearest to the quotient of two values. -/
def quotient (f : BinaryFormat) (m n : Nat) : Nat :=
  f.nearestRank ((f.ratio m).1 * (f.ratio n).2) ((f.ratio m).2 * (f.ratio n).1)

/-- The rank of the value nearest to a power of ten. -/
def tenPower (f : BinaryFormat) (k : Nat) : Nat := f.nearestRank (Nat.pow 10 k) 1

end BinaryFormat

/-! ## Digits that fit -/

/-- The largest 64-bit integer. -/
def wordLimit : Nat := 0xFFFFFFFFFFFFFFFF

/-- A number with as many further digits as 64 bits can hold, and the digits that are left. -/
def appendDigits (n : Nat) : List Char → Nat × List Char
  | [] => (n, [])
  | c :: cs =>
    let next := 10 * n + digitValue c
    if next ≤ wordLimit then appendDigits next cs else (n, c :: cs)

/-- The number of those digits of a numeral that 64 bits can hold. A digit of the whole part that is left out
still counts as a place. After it, digits of the fraction follow on those taken, as far as they fit in turn. -/
def Numeral.shortened (n : Numeral) : Decimal :=
  let (whole, leftOut) := appendDigits 0 n.whole
  let (digits, unread) := appendDigits whole n.fraction
  let taken : Int := n.fraction.length - unread.length
  ⟨n.negative, digits, n.exponent.getD 0 + leftOut.length - taken⟩

/-! ## Scaling -/

namespace Double

/-- The largest power of ten that is less than infinity. -/
def topPower : Nat := 308

/-- A value divided so many times by the largest power of ten. -/
def lowerRank : (times : Nat) → (n : Nat) → Nat
  | 0, n => n
  | times + 1, n =>
    if n = 0 then 0
    else lowerRank times (BinaryFormat.double.quotient n (BinaryFormat.double.tenPower topPower))

/-- The rank of a value times a power of ten: one rounded product or quotient as far as there are such powers.
For lower powers the value is divided by the largest one first. -/
def scaleRank (n : Nat) (exponent : Int) : Nat :=
  let f := BinaryFormat.double
  if n = 0 then 0
  else if 0 ≤ exponent then
    if topPower < exponent.toNat then f.infinityRank else f.product n (f.tenPower exponent.toNat)
  else
    let places := (-exponent).toNat
    let times := (places - 1) / topPower
    f.quotient (lowerRank times n) (f.tenPower (places - times * topPower))

/-- The 64-bit value that is read for a numeral in steps. -/
def inSteps (n : Numeral) : Double :=
  let d := n.shortened
  ⟨d.negative, scaleRank (BinaryFormat.double.nearestRank d.digits 1) d.exponent⟩

end Double

end TouchStream
