-- SUMMARY: Reading a text from its front, with choice and repetition.

/-!
# Scanning

A scan reads something from the front of a text and gives what it read together
with the rest, or refuses. Scans are sequenced with `do`; `a <|> b` tries `b` where
`a` refuses, from the same place. Repetition goes on as long as it consumes
something, so every scan ends.
-/

namespace Activation.Toml

/-- Reads an `α` from the front of a text. -/
abbrev Scan (α : Type) := StateT (List Char) Option α

namespace Scan

variable {α σ : Type}

/-- The next character, which stays where it is. Nothing at the end of the text. -/
def peek : Scan (Option Char) := do
  return (← get).head?

/-- One character with a property. -/
def one (p : Char → Bool) : Scan Char := do
  match ← get with
  | [] => failure
  | c :: rest =>
    if p c then
      set rest
      return c
    else failure

/-- One particular character. -/
def char (c : Char) : Scan Unit := do
  discard (one (· = c))

/-- A particular row of characters. -/
def word (w : String) : Scan Unit :=
  w.toList.forM char

/-- The longest row of characters with a property, which may be empty. -/
def takeWhile (p : Char → Bool) : Scan (List Char) := do
  let cs ← get
  set (cs.dropWhile p)
  return cs.takeWhile p

/-- Repeat a step until it gives a result. A step that goes on without consuming
    anything refuses. -/
def loop (step : σ → Scan (σ ⊕ α)) (s : σ) : Scan α := fun cs =>
  match step s cs with
  | none => none
  | some (.inr a, rest) => some (a, rest)
  | some (.inl s', rest) =>
    if rest.length < cs.length then loop step s' rest else none
termination_by cs => cs.length

/-- Read something one or more times, with a separator between. -/
def separated (item : Scan α) (separator : Char) : Scan (List α) := do
  let first ← item
  loop
    (fun items => do
      if (← peek) = some separator then
        char separator
        return .inl ((← item) :: items)
      else return .inr items.reverse)
    [first]

/-- Read a whole text. -/
def whole (scan : Scan α) (s : String) : Option α :=
  match scan s.toList with
  | some (a, []) => some a
  | _ => none

end Scan

end Activation.Toml
