-- SUMMARY: Integers and floats of a TOML document.
import Activation.Toml.Quotation
import Activation.Toml.Value

/-!
# Numbers

Digits may be grouped by single underscores between them. A decimal number has no
leading zeros and may have a sign; hexadecimal, octal and binary integers have a
prefix and no sign. Integers have to fit 64 bits. A float has a fraction, an
exponent or both, and a float that is too large for its type is refused, unless it
is negative.
-/

namespace Activation.Toml

/-! ## Digits -/

/-- A digit of base ten. -/
def isDecimal (c : Char) : Bool :=
  '0' ≤ c && c ≤ '9'

/-- The value of a row of digits. -/
def digitsValue (base : Nat) (digits : List Char) : Nat :=
  digits.foldl (fun n c => base * n + (hexDigit? c).getD 0) 0

/-- The digits that follow a digit, and the rest. An underscore is passed over when a digit
    follows it. -/
def moreDigits (isDigit : Char → Bool) : List Char → List Char × List Char
  | '_' :: c :: rest =>
    if isDigit c then
      let (digits, rest) := moreDigits isDigit rest
      (c :: digits, rest)
    else ([], '_' :: c :: rest)
  | c :: rest =>
    if isDigit c then
      let (digits, rest) := moreDigits isDigit rest
      (c :: digits, rest)
    else ([], c :: rest)
  | [] => ([], [])

/-- One or more digits. -/
def digits (isDigit : Char → Bool) : Scan (List Char) := do
  let first ← Scan.one isDigit
  let (others, rest) := moreDigits isDigit (← get)
  set rest
  return first :: others

/-- A sign, and whether it is a minus. -/
def sign : Scan Bool := do
  match ← Scan.peek with
  | some '-' => do
    Scan.char '-'
    return true
  | some '+' => do
    Scan.char '+'
    return false
  | _ => return false

/-- The digits of a decimal number before the point, without leading zeros. -/
def wholeDigits : Scan (List Char) := do
  if (← Scan.peek) = some '0' then
    Scan.char '0'
    return ['0']
  else digits isDecimal

/-! ## Integers -/

/-- An integer, if it fits 64 bits. -/
def integerValue (n : Int) : Scan Value :=
  if -9223372036854775808 ≤ n ∧ n ≤ 9223372036854775807 then return .integer n else failure

/-- An integer in the base that a prefix names. -/
def prefixedInteger (mark : String) (base : Nat) (isDigit : Char → Bool) : Scan Value := do
  Scan.word mark
  integerValue (digitsValue base (← digits isDigit))

def decimalInteger : Scan Value := do
  let negative ← sign
  let n := digitsValue 10 (← wholeDigits)
  integerValue (if negative then -(n : Int) else n)

def integer : Scan Value :=
  prefixedInteger "0x" 16 (fun c => (hexDigit? c).isSome) <|>
    prefixedInteger "0o" 8 (fun c => '0' ≤ c && c ≤ '7') <|>
    prefixedInteger "0b" 2 (fun c => c = '0' || c = '1') <|>
    decimalInteger

/-! ## Floats -/

/-- The exponent of a float. -/
def exponent : Scan Int := do
  discard (Scan.one fun c => c = 'e' || c = 'E')
  let negative ← sign
  let n := digitsValue 10 (← digits isDecimal)
  return if negative then -(n : Int) else n

/-- The digits after the point of a float. -/
def fraction : Scan (List Char) := do
  Scan.char '.'
  digits isDecimal

/-- A float in decimal notation. -/
def decimalFloat : Scan Value := do
  let negative ← sign
  let before ← wholeDigits
  let (after, power) ←
    if (← Scan.peek) = some '.' then do
      let after ← fraction
      let power ← exponent <|> return 0
      pure (after, power)
    else do
      let power ← exponent
      pure ([], power)
  let x := Binary64.ofDecimal negative (digitsValue 10 (before ++ after)) (power - after.length)
  if x = Binary64.infinity false then failure else return .float x

/-- Infinity or the value that is not a number. -/
def specialFloat : Scan Value := do
  let negative ← sign
  (do Scan.word "inf"; return .float (Binary64.infinity negative)) <|>
    (do Scan.word "nan"; return .float (Binary64.notANumber negative))

def float : Scan Value :=
  decimalFloat <|> specialFloat

end Activation.Toml
