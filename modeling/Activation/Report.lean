-- SUMMARY: How a selection is printed.
import Activation.Selector

/-!
# Reports

A selection is printed as one line for each module, as a JSON object with its three
lists, or as counts. The JSON object is indented by two spaces, with every item on a
line of its own and empty lists on one line.
-/

namespace Activation.Report

/-! ## JSON -/

/-- One character of a JSON text. Control characters are escaped, all others stand as they
    are. -/
def jsonChar (c : Char) : List Char :=
  match c with
  | '"' => ['\\', '"']
  | '\\' => ['\\', '\\']
  | '\x08' => ['\\', 'b']
  | '\x0C' => ['\\', 'f']
  | '\n' => ['\\', 'n']
  | '\r' => ['\\', 'r']
  | '\t' => ['\\', 't']
  | c =>
    if c.toNat < 0x20 then
      let digits := Text.hexadecimal c.toNat
      ['\\', 'u'] ++ List.replicate (4 - digits.length) '0' ++ digits
    else [c]

def jsonText (s : String) : String :=
  String.ofList ('"' :: s.toList.flatMap jsonChar ++ ['"'])

/-- A list of texts as the value of a field. -/
def jsonList (items : List String) : String :=
  if items = [] then "[]"
  else
    "[\n" ++ String.intercalate ",\n" (items.map fun item => "    " ++ jsonText item) ++ "\n  ]"

/-- An object with a list of texts in each field. -/
def jsonObject (fields : List (String × List String)) : String :=
  "\x7b\n" ++
    String.intercalate ",\n"
      (fields.map fun (name, items) => "  " ++ jsonText name ++ ": " ++ jsonList items) ++
    "\n\x7d"

/-! ## Selections -/

def json (s : Selection) : String :=
  jsonObject
    [("modules", s.modules), ("exclusions", s.exclusions.toList), ("filtered", s.filtered)] ++ "\n"

def lines (s : Selection) : String :=
  String.join (s.modules.map (· ++ "\n"))

/-- The counts of a selection, and what was filtered out of it. -/
def summary (s : Selection) : String :=
  "OK " ++ toString s.modules.length ++ " modules selected, " ++ toString s.exclusions.size ++
    " excluded, " ++ toString s.filtered.length ++ " filtered\n" ++
    (if s.filtered = [] then "" else "Filtered: " ++ String.intercalate ", " s.filtered ++ "\n")

/-- What is printed in place of counts when selection is switched off. -/
def disabled : String :=
  "DISABLED Module selection is disabled; nothing would be activated.\n"

end Activation.Report
