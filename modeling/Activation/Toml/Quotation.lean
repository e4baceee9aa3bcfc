-- SUMMARY: The four kinds of quoted text in a TOML document.
import Activation.Toml.Layout

/-!
# Quoted texts

A text stands between quotes or between apostrophes, once or three times. Between
quotes a backslash starts an escape; between apostrophes every character stands
for itself. Tripled marks allow line ends, which are read as line feeds; a line
end right after the opening mark is dropped, and up to two marks may stand before
the closing ones.
-/

namespace Activation.Toml

/-! ## Escapes -/

/-- The value of a hexadecimal digit. -/
def hexDigit? (c : Char) : Option Nat :=
  if '0' ≤ c && c ≤ '9' then some (c.toNat - 48)
  else if 'a' ≤ c && c ≤ 'f' then some (c.toNat - 87)
  else if 'A' ≤ c && c ≤ 'F' then some (c.toNat - 55)
  else none

/-- The character with a code point, when there is one. -/
def scalar? (n : Nat) : Option Char :=
  if h : n.isValidChar then some (Char.ofNatAux n h) else none

/-- The character whose code point is written in so many hexadecimal digits. -/
def codePoint (digits : Nat) : Scan Char := do
  let mut n := 0
  for _ in List.range digits do
    let c ← Scan.one fun c => (hexDigit? c).isSome
    n := 16 * n + (hexDigit? c).getD 0
  match scalar? n with
  | some c => return c
  | none => failure

/-- What follows a backslash, as the character that it stands for. -/
def escape : Scan Char := do
  match ← Scan.one fun _ => true with
  | 'b' => return '\x08'
  | 't' => return '\t'
  | 'n' => return '\n'
  | 'f' => return '\x0C'
  | 'r' => return '\r'
  | '"' => return '"'
  | '\\' => return '\\'
  | 'u' => codePoint 4
  | 'U' => codePoint 8
  | _ => failure

/-! ## One line -/

/-- A text between quotes. -/
def basicText : Scan String := do
  Scan.char '"'
  Scan.loop
    (fun text => do
      let text := text ++ (← Scan.takeWhile fun c => isPlain c && c ≠ '"' && c ≠ '\\')
      match ← Scan.one fun c => c = '"' || c = '\\' with
      | '"' => return .inr (String.ofList text)
      | _ => return .inl (text ++ [← escape]))
    []

/-- A text between apostrophes. -/
def literalText : Scan String := do
  Scan.char '\''
  let text ← Scan.takeWhile fun c => isPlain c && c ≠ '\''
  Scan.char '\''
  return String.ofList text

/-! ## Several lines -/

/-- Whether only blanks stand before the next line end, which is there. -/
def endsLine (cs : List Char) : Bool :=
  match cs.dropWhile isSpace with
  | '\n' :: _ | '\r' :: '\n' :: _ => true
  | _ => false

/-- Blanks and line ends, as many as there are. -/
def blankLines : Scan Unit :=
  Scan.loop
    (fun () => do
      match ← Scan.peek with
      | some ' ' | some '\t' => return .inl (← spaces)
      | some '\n' | some '\r' => return .inl (← newline)
      | _ => return .inr ())
    ()

/-- The closing marks of a text between tripled marks, with the marks of the text right
    before them. Nothing if fewer than three marks stand here. -/
def closing? (mark : Char) : Scan (Option (List Char)) := do
  let marks := (← get).takeWhile (· = mark)
  if marks.length < 3 then return none
  else
    let count := min marks.length 5
    set ((← get).drop count)
    return some (marks.take (count - 3))

/-- A text between tripled marks, with what a backslash stands for. -/
def tripled (mark : Char) (backslash : Scan (List Char)) : Scan String := do
  for _ in List.range 3 do Scan.char mark
  newline <|> return ()
  Scan.loop
    (fun text => do
      let text := text ++ (← Scan.takeWhile fun c => isPlain c && c ≠ mark && c ≠ '\\')
      match ← closing? mark with
      | some marks => return .inr (String.ofList (text ++ marks))
      | none =>
        match ← Scan.peek with
        | some '\n' | some '\r' => do
          newline
          return .inl (text ++ ['\n'])
        | some '\\' => do
          Scan.char '\\'
          return .inl (text ++ (← backslash))
        | _ => do
          Scan.char mark
          return .inl (text ++ [mark]))
    []

/-- A text between tripled quotes. A backslash at the end of a line joins the line with
    the next one that is not blank. -/
def multilineBasicText : Scan String :=
  tripled '"' do
    if endsLine (← get) then
      blankLines
      return []
    else return [← escape]

/-- A text between tripled apostrophes. -/
def multilineLiteralText : Scan String :=
  tripled '\'' (return ['\\'])

/-- Whether a text starts with three times the same mark. -/
def isTripled (mark : Char) (cs : List Char) : Bool :=
  [mark, mark, mark].isPrefixOf cs

/-- A quoted text of any kind. -/
def quotedText : Scan String := do
  let cs ← get
  if isTripled '"' cs then multilineBasicText
  else if isTripled '\'' cs then multilineLiteralText
  else if (← Scan.peek) = some '"' then basicText
  else literalText

end Activation.Toml
