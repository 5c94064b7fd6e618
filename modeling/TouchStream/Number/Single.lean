import TouchStream.Number.Decimal

/-!
# Single and double precision values

Coordinates and distances are `Float32` values, and the arithmetic on them is that type's own. This module
ties `Float32` to signs and ranks, and adds what is not there: truncation, a lower bound that no number
escapes, and the two roundings by which a decimal number becomes a coordinate.

A `Double` is only ever carried from a text to a coordinate or back, so it is a sign and a rank.
-/

namespace TouchStream

/-- A 64-bit value: a sign and a rank. -/
structure Double where
  negative : Bool
  rank : Nat
deriving DecidableEq, Repr

namespace Double

/-- The 64-bit value nearest to a decimal number. -/
def ofDecimal (d : Decimal) : Double := ⟨d.negative, d.rank .double⟩

/-- What is no number. -/
def notANumber : Double := ⟨false, BinaryFormat.double.infinityRank + 1⟩

/-- The infinity of a sign. -/
def infinity (negative : Bool) : Double := ⟨negative, BinaryFormat.double.infinityRank⟩

/-- Whether a value is a number and not infinite. -/
def isFinite (x : Double) : Bool := x.rank < BinaryFormat.double.infinityRank

/-- Whether a value is one of the two infinities. -/
def isInfinite (x : Double) : Bool := x.rank == BinaryFormat.double.infinityRank

end Double

namespace Single

/-! ## Signs and ranks -/

/-- Whether the sign bit is set. -/
def negative (x : Float32) : Bool := 0x80000000 ≤ x.toBits.toNat

/-- The bit pattern without the sign. -/
def rank (x : Float32) : Nat := x.toBits.toNat % 0x80000000

/-- The 32-bit value with a sign and a rank. -/
def ofRank (negative : Bool) (n : Nat) : Float32 :=
  .ofBits (.ofNat (n + if negative then 0x80000000 else 0))

/-- Whether a value is a number and not infinite. -/
def isFinite (x : Float32) : Bool := rank x < BinaryFormat.single.infinityRank

/-! ## Conversions -/

/-- The 32-bit value nearest to a natural number. -/
def ofNat (n : Nat) : Float32 := ofRank false (BinaryFormat.single.nearestRank n 1)

/-- The 32-bit value nearest to an integer. -/
def ofInt (i : Int) : Float32 := ofRank (i < 0) (BinaryFormat.single.nearestRank i.natAbs 1)

/-- The 32-bit value nearest to a 64-bit one. -/
def ofDouble (x : Double) : Float32 := ofRank x.negative (BinaryFormat.double.convert .single x.rank)

/-- A 32-bit value as a 64-bit one. -/
def toDouble (x : Float32) : Double := ⟨negative x, BinaryFormat.single.convert .double (rank x)⟩

/-! ## Arithmetic -/

/-- The bits of a value below its unit digit, as a power of two. -/
def fractionUnit (x : Float32) : Nat :=
  let biased := rank x / 0x800000
  if biased < 127 then 0x80000000 else Nat.pow 2 (150 - biased)

/-- The integer part of a value, with the value's sign. What is no number or infinite stays so. -/
def truncate (x : Float32) : Float32 :=
  ofRank (negative x) (rank x - rank x % fractionUnit x)

/-- The value itself where it is above `least`, and `least` elsewhere, also for what is no number. -/
def atLeast (least x : Float32) : Float32 := if least < x then x else least

end Single

end TouchStream
