-- SUMMARY: The characters that count as white space, and trimming by them.

/-!
# Blanks

A character is blank when it has the Unicode property `White_Space`. `trim`
removes the blanks at both ends of a text and nothing in between.
-/

namespace Activation.Text

/-- The code points with the Unicode property `White_Space`, as inclusive ranges. -/
def blankRanges : List (Nat × Nat) :=
  [(0x09, 0x0D), (0x20, 0x20), (0x85, 0x85), (0xA0, 0xA0), (0x1680, 0x1680),
   (0x2000, 0x200A), (0x2028, 0x2029), (0x202F, 0x202F), (0x205F, 0x205F),
   (0x3000, 0x3000)]

def isBlank (c : Char) : Bool :=
  blankRanges.any fun r => r.1 ≤ c.toNat && c.toNat ≤ r.2

/-- A text without the blanks at its ends, as characters. -/
def trimChars (cs : List Char) : List Char :=
  (cs.dropWhile isBlank).reverse.dropWhile isBlank |>.reverse

def trim (s : String) : String :=
  String.ofList (trimChars s.toList)

end Activation.Text
