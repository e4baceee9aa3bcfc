-- SUMMARY: The values of a TOML document.
import Activation.Toml.Binary64
import Activation.Toml.Datetime

/-!
# Values

A document is a table of values. The entries of a table are kept in the order in
which the document defines them, because the first misfit of a document is the
first one in that order.
-/

namespace Activation.Toml

/-- A value of a document. -/
inductive Value
  | string (s : String)
  /-- A signed integer of 64 bits. -/
  | integer (n : Int)
  | float (x : Binary64)
  | boolean (b : Bool)
  | datetime (d : Datetime)
  /-- A list of values. Arrays of tables are lists too. -/
  | array (items : List Value)
  /-- Values by name, in the order of the document. -/
  | table (entries : List (String × Value))

/-- The entries of a table, in the order of the document. No name stands twice. -/
abbrev Table := List (String × Value)

instance : Inhabited Value := ⟨.table []⟩

end Activation.Toml
