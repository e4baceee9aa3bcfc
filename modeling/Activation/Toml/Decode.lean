-- SUMMARY: Reading typed data from the values of a document.
import Activation.Metadata
import Activation.NameMap
import Activation.Toml.Document

/-!
# Decoding

A value either has the shape that is asked for or is a misfit. Records are read
from tables by the names of their fields, or from arrays by their positions; a
field that is not given keeps its default. The entries of a table are read in the
order of the document, so the first misfit of the document is the one reported.

A date-time counts as a table with a single entry, its text under a reserved name,
and where any value is welcome such a table counts as the date-time.
-/

namespace Activation.Toml

/-! ## Failures -/

/-- Why a value does not have the shape that is asked for. -/
inductive Misfit
  /-- A table has a name that is not one of those expected. -/
  | unknownField (name : String) (expected : List String)
  | wrongType
  | outOfRange
  /-- The value is of none of several types that are possible. -/
  | noVariant
  /-- The text is in the place of a date-time and does not stand for one. -/
  | malformedDatetime
  deriving DecidableEq

/-- Why a text does not give the data that is asked for. -/
inductive Failure
  | malformed
  | misfit (m : Misfit)
  deriving DecidableEq

def Misfit.message : Misfit → String
  | unknownField name expected =>
    "unknown field " ++ mark name ++ ", expected one of " ++
      String.intercalate ", " (expected.map mark)
  | wrongType => "value of the wrong type"
  | outOfRange => "integer out of range"
  | noVariant => "value of none of the possible types"
  | malformedDatetime => "malformed date-time"
where
  /-- A name between grave accents. -/
  mark (name : String) : String := "\x60" ++ name ++ "\x60"

def Failure.message : Failure → String
  | malformed => "TOML parse error at this document: malformed text"
  | misfit m => "TOML parse error at this document: " ++ m.message

/-! ## Shapes -/

/-- The reserved name under which a date-time that is read as a table has its text. -/
def datetimeField : String := "$__toml_private_datetime"

namespace Value

def toText : Value → Except Misfit String
  | .string s => .ok s
  | _ => .error .wrongType

/-- A truth value. -/
def toBool : Value → Except Misfit Bool
  | .boolean b => .ok b
  | _ => .error .wrongType

/-- An integer of 32 bits. -/
def toHint : Value → Except Misfit OrderHint
  | .integer n =>
    match OrderHint.ofInt? n with
    | some hint => .ok hint
    | none => .error .outOfRange
  | _ => .error .wrongType

def toTexts : Value → Except Misfit (List String)
  | .array items => items.mapM toText
  | _ => .error .wrongType

def toTable : Value → Except Misfit Table
  | .table entries => .ok entries
  | .datetime d => .ok [(datetimeField, .string d.text)]
  | _ => .error .wrongType

/-- A table whose values are all read the same way. -/
def toMap {α : Type} (read : Value → Except Misfit α) (v : Value) :
    Except Misfit (NameMap α) := do
  let entries ← (← v.toTable).mapM fun (name, value) => return (name, ← read value)
  return NameMap.ofList entries

mutual

/-- Any value. A table whose first entry has the reserved name is a date-time. -/
def toAny : Value → Except Misfit Value
  | .array items => return .array (← itemsToAny items)
  | .table ((name, v) :: rest) =>
    if name = datetimeField then
      match v with
      | .string s =>
        match Datetime.ofText? s with
        | some d => .ok (.datetime d)
        | none => .error .malformedDatetime
      | _ => .error .wrongType
    else return .table ((name, ← v.toAny) :: (← entriesToAny rest))
  | v => .ok v

/-- The items of an array, each of them any value. -/
def itemsToAny : List Value → Except Misfit (List Value)
  | [] => .ok []
  | v :: rest => return (← v.toAny) :: (← itemsToAny rest)

/-- The entries of a table, each with any value. -/
def entriesToAny : Table → Except Misfit Table
  | [] => .ok []
  | (name, v) :: rest => return (name, ← v.toAny) :: (← entriesToAny rest)

end

end Value

/-! ## Records -/

/-- A field of a record: its name, and how its value changes the record. -/
structure Column (ρ : Type) where
  name : String
  /-- Enter a value into the record. -/
  enter : ρ → Value → Except Misfit ρ

/-- A kind of record. -/
structure Shape (ρ : Type) where
  /-- The fields, in the order in which an array gives them. -/
  columns : List (Column ρ)
  /-- Whether names other than those of the fields are refused. -/
  isStrict : Bool
  /-- The record of which no field is given. -/
  initial : ρ

namespace Shape

variable {ρ : Type}

/-- Enter one entry of a table into a record. -/
def enterField (shape : Shape ρ) (record : ρ) (entry : String × Value) : Except Misfit ρ :=
  match shape.columns.find? fun c => c.name = entry.1 with
  | some column => column.enter record entry.2
  | none =>
    if shape.isStrict then
      .error (.unknownField entry.1 (shape.columns.map (·.name)))
    else .ok record

/-- The record that a table gives. -/
def ofTable (shape : Shape ρ) (entries : Table) : Except Misfit ρ :=
  entries.foldlM shape.enterField shape.initial

/-- The record that an array gives. Surplus items are ignored. -/
def ofArray (shape : Shape ρ) (items : List Value) : Except Misfit ρ :=
  (shape.columns.zip items).foldlM (fun record (column, v) => column.enter record v) shape.initial

/-- The record that a value gives. -/
def ofValue (shape : Shape ρ) : Value → Except Misfit ρ
  | .array items => shape.ofArray items
  | v => do shape.ofTable (← v.toTable)

/-- The record that the text of a document gives. -/
def parse (shape : Shape ρ) (text : String) : Except Failure ρ :=
  match parse? text with
  | none => .error .malformed
  | some entries => (shape.ofTable entries).mapError .misfit

end Shape

end Activation.Toml
