/-!
# Binary floating formats by rank

The nonnegative values of a binary format, in increasing order, are numbered from zero; the number is
the value's *rank*, and it is also the value's bit pattern without the sign. Infinity has the rank after
the largest finite value, as if it were the next power of two, and every rank above that is no number.

* `BinaryFormat.significand`, `BinaryFormat.exponent`: the value of rank `n` is
  `significand n * 2 ^ exponent n`.
* `BinaryFormat.nearestRank`: the rank of the value nearest to a ratio, a tie going to the even rank.
* `BinaryFormat.convert`: the nearest value in another format.
-/

namespace TouchStream

/-- A binary floating format: the bits of the significand, the leading one counted, and the bits of the
exponent. -/
structure BinaryFormat where
  precision : Nat
  exponentBits : Nat
deriving DecidableEq, Repr

namespace BinaryFormat

/-- The 32-bit format. -/
def single : BinaryFormat := ⟨24, 8⟩

/-- The 64-bit format. -/
def double : BinaryFormat := ⟨53, 11⟩

/-! ## Ranks -/

/-- The least normal significand, which is also the number of ranks that share an exponent. -/
def block (f : BinaryFormat) : Nat := Nat.pow 2 (f.precision - 1)

/-- The exponent of the least positive value. -/
def minExponent (f : BinaryFormat) : Int := 3 - Nat.pow 2 (f.exponentBits - 1) - f.precision

/-- The rank of infinity. -/
def infinityRank (f : BinaryFormat) : Nat := (Nat.pow 2 f.exponentBits - 1) * f.block

/-- The significand of the value of rank `n`. -/
def significand (f : BinaryFormat) (n : Nat) : Nat :=
  if n < f.block then n else f.block + n % f.block

/-- The binary exponent of the value of rank `n`. -/
def exponent (f : BinaryFormat) (n : Nat) : Int :=
  f.minExponent + ((n / f.block - 1 : Nat) : Int)

/-- The value of rank `n` as a ratio of natural numbers. -/
def ratio (f : BinaryFormat) (n : Nat) : Nat × Nat :=
  (f.significand n * Nat.pow 2 (f.exponent n).toNat, Nat.pow 2 (-f.exponent n).toNat)

/-! ## Rounding -/

/-- The integer part of the binary logarithm of a positive ratio. -/
def log2Ratio (num den : Nat) : Int :=
  let gap : Int := num.log2 - den.log2
  if den * Nat.pow 2 gap.toNat ≤ num * Nat.pow 2 (-gap).toNat then gap else gap - 1

/-- The integer nearest to a ratio, a tie going to the even one. -/
def roundHalfEven (num den : Nat) : Nat :=
  let q := num / den
  let r := num % den
  if 2 * r < den then q else if den < 2 * r then q + 1 else q + q % 2

/-- The exponent of the grid of values around a positive ratio. -/
def gridExponent (f : BinaryFormat) (num den : Nat) : Int :=
  max (log2Ratio num den - (f.precision - 1 : Nat)) f.minExponent

/-- The rank of the value nearest to `num / den`, a tie going to the even rank. -/
def nearestRank (f : BinaryFormat) (num den : Nat) : Nat :=
  if num = 0 then 0
  else
    let e := f.gridExponent num den
    let q := roundHalfEven (num * Nat.pow 2 (-e).toNat) (den * Nat.pow 2 e.toNat)
    min f.infinityRank ((e - f.minExponent).toNat * f.block + q)

/-- The rank in `g` of the value nearest to the value of rank `n` in `f`. Infinity stays infinite and
what is no number stays so. -/
def convert (f g : BinaryFormat) (n : Nat) : Nat :=
  if n < f.infinityRank then g.nearestRank (f.ratio n).1 (f.ratio n).2
  else g.infinityRank + (n - f.infinityRank)

end BinaryFormat

end TouchStream
