-- SUMMARY: The table that a TOML document builds, and what may be defined where.
import Activation.Toml.Value

/-!
# The document tree

While a document is read, its tables are open: a header may add a subtable to a
table, and dotted keys may add to tables that dotted keys have made. `Tree` keeps
with every table how it came about, which decides what may still be done to it:

* a table with a header of its own cannot have a second header, and dotted keys
  cannot enter it from outside;
* a table that is only a step on the path of a header may get its header later, and
  then counts as defined there;
* a table made by a dotted key cannot get a header;
* a value is closed, also when it is a table or an array written as one value.

A path through an array of tables leads to its last element.
-/

namespace Activation.Toml

/-- How a table came about. -/
inductive Origin
  /-- By a header of its own. The table of the whole document counts as such. -/
  | headed
  /-- As a step on the path of a header. -/
  | implied
  /-- As a step of a dotted key. -/
  | dotted
  deriving DecidableEq

/-- What stands under a name while a document is read. -/
inductive Tree
  | leaf (value : Value)
  | table (origin : Origin) (entries : List (String × Tree))
  /-- An array of tables. The last one is open. -/
  | tables (elements : List (List (String × Tree)))

/-- The entries of a table, in the order of the document. -/
abbrev Branch := List (String × Tree)

/-! ## Values -/

mutual

/-- What a tree is worth as a value. -/
def Tree.toValue : Tree → Value
  | .leaf value => value
  | .table _ entries => .table (entriesToValues entries)
  | .tables elements => .array (elementsToValues elements)

/-- What the entries of a table are worth. -/
def entriesToValues : List (String × Tree) → Table
  | [] => []
  | (key, tree) :: rest => (key, tree.toValue) :: entriesToValues rest

/-- What the elements of an array of tables are worth. -/
def elementsToValues : List (List (String × Tree)) → List Value
  | [] => []
  | entries :: rest => .table (entriesToValues entries) :: elementsToValues rest

end

/-! ## Building -/

namespace Branch

/-- Change what stands under a name. A new name goes to the end. -/
def update (key : String) (change : Option Tree → Option Tree) : Branch → Option Branch
  | [] => return [(key, ← change none)]
  | (other, tree) :: rest =>
    if other = key then return (other, ← change (some tree)) :: rest
    else return (other, tree) :: (← update key change rest)

/-- Act on the table at the end of a path. Missing tables are made on the way, with the
    origin `steps`. -/
def enter (steps : Origin) (act : Origin → Branch → Option Branch) :
    List String → Origin → Branch → Option Branch
  | [], origin, b => act origin b
  | key :: path, _, b =>
    b.update key fun
      | none => return .table steps (← enter steps act path steps [])
      | some (.leaf _) => none
      | some (.tables elements) => do
        let last ← enter steps act path .headed (elements.getLast?.getD [])
        return .tables (elements.dropLast ++ [last])
      | some (.table origin entries) =>
        if steps = .dotted ∧ origin = .headed then none
        else return .table origin (← enter steps act path origin entries)

/-- Define a value under a dotted key. The last table on the way has to be one that dotted
    keys have made. -/
def assign (path : List String) (key : String) (value : Value) (b : Branch) : Option Branch :=
  b |> enter .dotted
    (fun origin entries =>
      if path ≠ [] ∧ origin ≠ .dotted then none
      else entries.update key fun
        | none => some (.leaf value)
        | some _ => none)
    path .headed

/-- Open the table of a header. A table that was implied before moves to the end. -/
def openTable (path : List String) (key : String) (b : Branch) : Option Branch :=
  b |> enter .implied
    (fun _ entries =>
      match entries.lookup key with
      | none => some (entries ++ [(key, .table .headed [])])
      | some (.table .implied inner) =>
        some (entries.filter (fun e => e.1 ≠ key) ++ [(key, .table .headed inner)])
      | some _ => none)
    path .headed

/-- Open a new element of the array of tables of a header. -/
def openElement (path : List String) (key : String) (b : Branch) : Option Branch :=
  b |> enter .implied
    (fun _ entries =>
      entries.update key fun
        | none => some (.tables [[]])
        | some (.tables elements) => some (.tables (elements ++ [[]]))
        | some _ => none)
    path .headed

/-- Define a value under a dotted key of the table at the end of a path. -/
def assignAt (location path : List String) (key : String) (value : Value) (b : Branch) :
    Option Branch :=
  b |> enter .implied (fun _ entries => assign path key value entries) location .headed

end Branch

end Activation.Toml
