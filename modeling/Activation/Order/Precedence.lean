-- SUMMARY: Which modules directly precede which, by position in the baseline.
import Activation.Ascending
import Activation.Order.Baseline

/-!
# Precedence

Modules are numbered by their positions in the baseline. A module precedes
another directly when the second names it in `after`, or when it names the
second in `before`. Names of modules that are not in the baseline mean nothing.
The table `precedence` lists for every position the direct predecessors,
ascending and without repeats.
-/

namespace Activation.Order

/-- For every position, the positions that come directly before it. -/
abbrev Precedence (n : Nat) := Vector (List (Fin n)) n

/-- One module comes before another. -/
structure Edge (n : Nat) where
  earlier : Fin n
  later : Fin n
  deriving DecidableEq

/-- The position of a module in an array of modules. -/
def rank? (modules : Array Declared) (id : ModuleId) : Option (Fin modules.size) :=
  modules.findFinIdx? fun d => d.id = id

/-- The precedences that the module at a position declares. -/
def edgesAt (modules : Array Declared) (p : Fin modules.size) : List (Edge modules.size) :=
  (modules[p].metadata.after.toList.filterMap (rank? modules)).map (⟨·, p⟩) ++
    (modules[p].metadata.before.toList.filterMap (rank? modules)).map (⟨p, ·⟩)

/-- The precedences that the modules of an array declare about each other. -/
def edges (modules : Array Declared) : List (Edge modules.size) :=
  (List.finRange modules.size).flatMap (edgesAt modules)

/-- Enter a precedence into a table. -/
def Precedence.add {n : Nat} (table : Precedence n) (e : Edge n) : Precedence n :=
  table.set e.later (Ascending.place e.earlier table[e.later])

/-- The table of the direct predecessors of every module of an array. -/
def precedence (modules : Array Declared) : Precedence modules.size :=
  (edges modules).foldl Precedence.add (Vector.replicate _ [])

end Activation.Order
