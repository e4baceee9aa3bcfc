-- SUMMARY: Comma-separated lists of names.
import Activation.Text.Blank

/-!
# Comma-separated names

A list of names may be written as one text. The text is cut at its commas, the
pieces are trimmed, and pieces that are left empty are dropped.
-/

namespace Activation.Text

/-- The pieces of a text between the occurrences of a separator. There is always
    at least one piece. -/
def pieces (separator : Char) : List Char → List (List Char)
  | [] => [[]]
  | c :: rest =>
    if c = separator then [] :: pieces separator rest
    else match pieces separator rest with
      | [] => [[c]]
      | piece :: others => (c :: piece) :: others

/-- The names of a comma-separated text, in the order in which they stand. -/
def tokens (s : String) : List String :=
  ((pieces ',' s.toList).map fun piece => String.ofList (trimChars piece)).filter (· ≠ "")

end Activation.Text
