-- SUMMARY: Blanks, line ends and comments of a TOML document.
import Activation.Toml.Scan

/-!
# Layout

Between the parts of a document stand spaces and tabs, comments and line ends. A
line ends with a line feed, which a carriage return may precede; a carriage
return alone is not allowed anywhere.
-/

namespace Activation.Toml

/-- A space or a tab. -/
def isSpace (c : Char) : Bool :=
  c = ' ' || c = '\t'

/-- A character that comments and texts may hold as it stands: a tab, or anything but a
    control character. -/
def isPlain (c : Char) : Bool :=
  c = '\t' || (0x20 ≤ c.toNat && c.toNat ≠ 0x7F)

/-- Spaces and tabs, as many as there are. -/
def spaces : Scan Unit := do
  discard (Scan.takeWhile isSpace)

/-- The end of a line. -/
def newline : Scan Unit :=
  Scan.char '\n' <|> Scan.word "\r\n"

/-- The end of a line or of the text. -/
def lineEnd : Scan Unit := do
  if (← get).isEmpty then return () else newline

/-- A comment, up to the end of its line. -/
def comment : Scan Unit := do
  Scan.char '#'
  discard (Scan.takeWhile isPlain)

/-- What may follow an expression on its line. -/
def restOfLine : Scan Unit := do
  spaces
  if (← Scan.peek) = some '#' then comment
  lineEnd

/-- Blanks, comments and line ends, as many as there are. -/
def gap : Scan Unit :=
  Scan.loop
    (fun () => do
      match ← Scan.peek with
      | some ' ' | some '\t' => return .inl (← spaces)
      | some '\n' | some '\r' => return .inl (← newline)
      | some '#' => do
        comment
        return .inl (← newline)
      | _ => return .inr ())
    ()

end Activation.Toml
