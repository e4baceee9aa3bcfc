-- SUMMARY: What the attributes of the metadata index mean.
import Activation.Metadata
import Activation.Text.Integer
import Activation.Text.Tokens
import Activation.Toml.Value

/-!
# Attributes

Order hints may be numbers or numerals, and lists of names may be lists or
comma-separated texts. Blanks around a numeral or a name do not count, and neither
do empty names.
-/

namespace Activation.Index

/-- An integer attribute as an order hint, if it is one. -/
def hintOfValue? : Toml.Value → Option OrderHint
  | .integer n => OrderHint.ofInt? n
  | .string s => (Text.integer? (Text.trim s).toList).bind OrderHint.ofInt?
  | _ => none

/-- A name of a list attribute. -/
def nameOfValue? : Toml.Value → Option String
  | .string s => some (Text.trim s)
  | _ => none

/-- A list attribute as a set of names, if it is one. Names are trimmed, and empty ones do
    not count. -/
def namesOfValue? : Toml.Value → Option NameSet
  | .string s => some (NameSet.ofList (Text.tokens s))
  | .array items => do
    let names ← items.mapM nameOfValue?
    return NameSet.ofList (names.filter (· ≠ ""))
  | _ => none

/-- A set of names as an attribute. -/
def valueOfNames (names : NameSet) : Toml.Value :=
  .array (names.toList.map .string)

end Activation.Index
