-- SUMMARY: Reading a whole TOML document.
import Activation.Toml.Calendar
import Activation.Toml.Tree

/-!
# Documents

A document is a sequence of lines, each with a header, a definition, a comment or
nothing. Arrays and tables written as values may nest up to `maxDepth` deep, and a
key has at most as many parts. `parse?` gives the table that a text defines, or
nothing when the text breaks a rule of the format.
-/

namespace Activation.Toml

/-- How deep arrays and tables may nest in a value, and how many parts a key may have. -/
def maxDepth : Nat := 79

/-! ## Keys -/

/-- A character of a key without quotes. -/
def isBareKey (c : Char) : Bool :=
  isDecimal c || ('a' ≤ c && c ≤ 'z') || ('A' ≤ c && c ≤ 'Z') || c = '_' || c = '-'

def keyPart : Scan String := do
  spaces
  let part ← match ← Scan.peek with
    | some '"' => basicText
    | some '\'' => literalText
    | _ => do
      let first ← Scan.one isBareKey
      pure (String.ofList (first :: (← Scan.takeWhile isBareKey)))
  spaces
  return part

/-- A key: the names on its path, and the last one. -/
def key : Scan (List String × String) := do
  let parts ← Scan.separated keyPart '.'
  match parts.getLast? with
  | some last => if parts.length ≤ maxDepth then return (parts.dropLast, last) else failure
  | none => failure

/-! ## Values -/

/-- A number or a date. -/
def numeric : Scan Value :=
  (return .datetime (← datetime)) <|> float <|> integer

/-- A value that holds no other values. -/
def scalar : Scan Value := do
  match ← Scan.peek with
  | some '"' | some '\'' => return .string (← quotedText)
  | some 't' => do
    Scan.word "true"
    return .boolean true
  | some 'f' => do
    Scan.word "false"
    return .boolean false
  | _ => numeric

/-- The items of an array, up to its end. A comma may follow the last one. -/
def arrayItems (item : Scan Value) : Scan Value := do
  Scan.char '['
  gap
  Scan.loop
    (fun items => do
      if (← Scan.peek) = some ']' then
        Scan.char ']'
        return .inr (.array items.reverse)
      else do
        let items := (← item) :: items
        gap
        if (← Scan.peek) = some ',' then
          Scan.char ','
          gap
          return .inl items
        else
          Scan.char ']'
          return .inr (.array items.reverse))
    []

/-- A definition: a key, an equals sign and a value. -/
def definition (value : Scan Value) : Scan ((List String × String) × Value) := do
  let k ← key
  Scan.char '='
  spaces
  return (k, ← value)

/-- A table written as one value, on one line. -/
def inlineTable (value : Scan Value) : Scan Value := do
  Scan.char '\x7b'
  spaces
  if (← Scan.peek) = some '\x7d' then
    Scan.char '\x7d'
    return .table []
  else
    let definitions ← Scan.separated
      (do
        let d ← definition value
        spaces
        return d)
      ','
    Scan.char '\x7d'
    match definitions.foldlM (fun b (k, v) => Branch.assign k.1 k.2 v b) [] with
    | some branch => return .table (entriesToValues branch)
    | none => failure

/-- A value that nests at most so deep. -/
def value : Nat → Scan Value
  | 0 => scalar
  | depth + 1 => do
    match ← Scan.peek with
    | some '[' => arrayItems (value depth)
    | some '\x7b' => inlineTable (value depth)
    | _ => scalar

/-! ## Lines -/

/-- What is defined so far, and the path of the table that definitions go to. -/
structure Draft where
  root : Branch := []
  location : List String := []

/-- Go on with a change to the draft, if the rules allow it. -/
def Draft.change (change : Option Branch) (location : List String) : Scan Draft :=
  match change with
  | some root => return { root, location }
  | none => failure

/-- The header of an element of an array of tables. -/
def elementHeader (draft : Draft) : Scan Draft := do
  Scan.word "[["
  let (path, last) ← key
  Scan.word "]]"
  restOfLine
  Draft.change (draft.root.openElement path last) (path ++ [last])

def tableHeader (draft : Draft) : Scan Draft := do
  Scan.char '['
  let (path, last) ← key
  Scan.char ']'
  restOfLine
  Draft.change (draft.root.openTable path last) (path ++ [last])

/-- A definition on a line of its own. -/
def definitionLine (draft : Draft) : Scan Draft := do
  let ((path, last), v) ← definition (value maxDepth)
  restOfLine
  Draft.change (draft.root.assignAt draft.location path last v) draft.location

def line (draft : Draft) : Scan Draft := do
  match (← get) with
  | '#' :: _ => do
    comment
    lineEnd
    return draft
  | '[' :: '[' :: _ => elementHeader draft
  | '[' :: _ => tableHeader draft
  | '\n' :: _ | '\r' :: _ => do
    newline
    return draft
  | _ => definitionLine draft

def lines : Scan Draft :=
  Scan.loop
    (fun draft => do
      spaces
      if (← get).isEmpty then return .inr draft
      else return .inl (← line draft))
    {}

/-- The table that a text defines. A byte order mark before the text is passed over. -/
def parse? (text : String) : Option Table :=
  let cs := match text.toList with
    | '\uFEFF' :: rest => rest
    | cs => cs
  match lines cs with
  | some (draft, []) => some (entriesToValues draft.root)
  | _ => none

end Activation.Toml
