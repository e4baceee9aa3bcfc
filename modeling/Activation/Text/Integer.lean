-- SUMMARY: Decimal integers in text, with and without a sign.

/-!
# Decimal integers

A numeral is one or more ASCII digits, read in base ten with any number of
leading zeros. An integer is a numeral with at most one sign before it. No other
character is allowed, blanks included.
-/

namespace Activation.Text

/-- Whether a character is one of the ten ASCII digits. -/
def isDigit (c : Char) : Bool :=
  '0' ≤ c && c ≤ '9'

def digitValue (c : Char) : Nat :=
  c.toNat - '0'.toNat

/-- The value of a row of digits, in base ten. -/
def decimalValue (digits : List Char) : Nat :=
  digits.foldl (fun n c => 10 * n + digitValue c) 0

/-- Read a numeral: one or more digits and nothing else. -/
def numeral? (cs : List Char) : Option Nat :=
  if cs ≠ [] ∧ cs.all isDigit then some (decimalValue cs) else none

/-- Read a numeral that a plus sign may precede. -/
def natural? : List Char → Option Nat
  | '+' :: cs => numeral? cs
  | cs => numeral? cs

/-- Read a numeral that a plus or a minus sign may precede. -/
def integer? : List Char → Option Int
  | '-' :: cs => (numeral? cs).map fun n => -(n : Int)
  | cs => (natural? cs).map fun n => (n : Int)

end Activation.Text
