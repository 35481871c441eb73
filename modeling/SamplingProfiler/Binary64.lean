/-
Binary floating point of 64 bits, for numbers that are not negative.

The share of an entry in a profile is computed in floating point, and so is the magnitude
of a number in a JSON text.  A `Binary64` here is a significand of at most 53 bits and an
exponent of two, and every operation is done exactly, on natural numbers, and rounded once
to the nearest such number; of two equally near ones the even one is taken.  The range of
exponents is not bounded: none of the numbers computed here is tiny, and a number too
large is recognised by `overflows`.
-/

namespace SamplingProfiler

/-- Divides and rounds to the nearest whole number, a half to the even one. -/
def roundDiv (num den : Nat) : Nat :=
  let q := num / den
  let twice := 2 * (num % den)
  if twice < den then q else if den < twice then q + 1 else q + q % 2

/-- The number `significand * 2 ^ exponent`. -/
structure Binary64 where
  /-- A whole number of at most 53 bits. -/
  significand : Nat
  /-- The power of two it is multiplied by. -/
  exponent : Int
deriving DecidableEq, Inhabited

namespace Binary64

/-- How many bits a significand has. -/
def precision : Nat := 53

/-- Zero. -/
def zero : Binary64 := ⟨0, 0⟩

/-- The number of bits by which `num / den` must be shifted left for its whole part to have
53 or 54 bits; a negative number stands for a shift to the right. -/
def shiftFor (num den : Nat) : Int := (precision : Int) + Nat.log2 den - Nat.log2 num

/-- The nearest number to `num / den`, where the quotient is first scaled by a power of two
so that it has exactly 53 bits. -/
def nearest (num den : Nat) : Binary64 :=
  if num = 0 then zero
  else
    let scale (shift : Int) : Nat × Nat :=
      if 0 ≤ shift then (num <<< shift.toNat, den) else (num, den <<< (-shift).toNat)
    let guess := shiftFor num den
    let (n, d) := scale guess
    let shift := if 1 <<< precision ≤ n / d then guess - 1 else guess
    let (n, d) := scale shift
    let rounded := roundDiv n d
    if rounded = 1 <<< precision then ⟨1 <<< (precision - 1), 1 - shift⟩ else ⟨rounded, -shift⟩

/-- The nearest number to a whole number. -/
def ofNat (n : Nat) : Binary64 := nearest n 1

/-- The numerator of the number as a fraction. -/
def num (x : Binary64) : Nat := x.significand <<< x.exponent.toNat

/-- The denominator of the number as a fraction. -/
def den (x : Binary64) : Nat := 1 <<< (-x.exponent).toNat

/-- The product, rounded. -/
def mul (x y : Binary64) : Binary64 := nearest (x.num * y.num) (x.den * y.den)

/-- The quotient, rounded. -/
def div (x y : Binary64) : Binary64 := nearest (x.num * y.den) (x.den * y.num)

/-- Does the number lie beyond the largest finite one? -/
def overflows (x : Binary64) : Bool := x.den <<< 1024 ≤ x.num

/-- The 64 bits of the number in the interchange format: a zero sign, eleven bits of biased
exponent, and the significand without its leading bit. -/
def bits (x : Binary64) : Nat :=
  if x.significand = 0 then 0
  else
    ((x.exponent + precision - 1 + 1023).toNat <<< (precision - 1))
      + (x.significand - 1 <<< (precision - 1))

/-- The number with one decimal place, rounded from its exact value. -/
def oneDecimal (x : Binary64) : String :=
  let tenths := roundDiv (x.num * 10) x.den
  toString (tenths / 10) ++ "." ++ toString (tenths % 10)

end Binary64

end SamplingProfiler
