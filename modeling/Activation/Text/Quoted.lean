-- SUMMARY: Quoted renderings of texts, lists of texts and sets of texts.
import Activation.NameSet
import Activation.Text.Unprintable

/-!
# Quoted texts

A quoted text stands between double quotes. The quote, the backslash and four
control characters have short escapes; every other unprintable character is
written as `\u` with its code point in hexadecimal between braces. A list of
quoted texts stands between brackets, a set between braces.
-/

namespace Activation.Text

/-- A number in base sixteen, with lower-case letters and no leading zeros. -/
def hexadecimal (n : Nat) : List Char :=
  Nat.toDigits 16 n

/-- One character of a quoted text. -/
def quoteChar (c : Char) : List Char :=
  match c with
  | '"' => ['\\', '"']
  | '\\' => ['\\', '\\']
  | '\t' => ['\\', 't']
  | '\n' => ['\\', 'n']
  | '\r' => ['\\', 'r']
  | '\x00' => ['\\', '0']
  | c =>
    if isUnprintable c then ['\\', 'u', '\x7b'] ++ hexadecimal c.toNat ++ ['\x7d']
    else [c]

def quoted (s : String) : String :=
  String.ofList ('"' :: s.toList.flatMap quoteChar ++ ['"'])

def quotedList (names : List String) : String :=
  "[" ++ String.intercalate ", " (names.map quoted) ++ "]"

def quotedSet (names : NameSet) : String :=
  "\x7b" ++ String.intercalate ", " (names.toList.map quoted) ++ "\x7d"

end Activation.Text
