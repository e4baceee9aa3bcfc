-- SUMMARY: Binary floating-point numbers of 64 bits, rounded from decimal notation.

/-!
# Floats

A float is a word of 64 bits: a sign, an exponent of 11 bits and a fraction of
52 bits. A decimal number is rounded to the nearest float, and a tie goes to the
float whose last bit is even. The arithmetic is exact: the quotient is cut on the
grid of the floats around it, and the remainder decides.
-/

namespace Activation.Toml

/-- A binary floating-point number of 64 bits. -/
structure Binary64 where
  /-- The word: sign, exponent and fraction. -/
  bits : UInt64
  deriving DecidableEq

namespace Binary64

/-- A quotient rounded to the nearest integer. A tie goes to the even one. -/
def roundQuotient (numerator denominator : Nat) : Nat :=
  let down := numerator / denominator
  let excess := 2 * (numerator % denominator)
  if excess < denominator ∨ (excess = denominator ∧ down % 2 = 0) then down else down + 1

/-- The word of positive infinity. -/
def infiniteWord : Nat := 0x7FF0000000000000

/-- The power of two between neighbouring floats at a positive quotient, less the lowest
    one, which is `2^-1074`. -/
def gridSteps (numerator denominator : Nat) : Nat :=
  let guess : Int := (numerator.log2 : Int) - denominator.log2 - 52
  let tooLarge :=
    if 0 ≤ guess then numerator < denominator * Nat.pow 2 (52 + guess.toNat)
    else numerator * Nat.pow 2 (-guess).toNat < denominator * Nat.pow 2 52
  ((if tooLarge then guess - 1 else guess) + 1074).toNat

/-- The word of the float nearest to a positive quotient. -/
def wordOfQuotient (numerator denominator : Nat) : Nat :=
  let steps := gridSteps numerator denominator
  let mantissa :=
    if 1074 ≤ steps then roundQuotient numerator (denominator * Nat.pow 2 (steps - 1074))
    else roundQuotient (numerator * Nat.pow 2 (1074 - steps)) denominator
  min infiniteWord (steps * Nat.pow 2 52 + mantissa)

/-- The word of the float nearest to `digits · 10 ^ exponent`. Numbers that are plainly
    beyond the range of floats are not computed. -/
def wordOfDecimal (digits : Nat) (exponent : Int) : Nat :=
  let magnitude := ((Nat.toDigits 10 digits).length : Int) + exponent
  if digits = 0 ∨ magnitude < -330 then 0
  else if 310 < magnitude then infiniteWord
  else if 0 ≤ exponent then wordOfQuotient (digits * Nat.pow 10 exponent.toNat) 1
  else wordOfQuotient digits (Nat.pow 10 (-exponent).toNat)

/-- A float from its sign and the word of its magnitude. -/
def ofWord (negative : Bool) (word : Nat) : Binary64 :=
  ⟨.ofNat (if negative then 0x8000000000000000 + word else word)⟩

/-- The float nearest to a decimal number. -/
def ofDecimal (negative : Bool) (digits : Nat) (exponent : Int) : Binary64 :=
  ofWord negative (wordOfDecimal digits exponent)

def infinity (negative : Bool) : Binary64 :=
  ofWord negative infiniteWord

/-- A value that is not a number. -/
def notANumber (negative : Bool) : Binary64 :=
  ofWord negative 0x7FF8000000000000

end Binary64

end Activation.Toml
