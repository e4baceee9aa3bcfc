-- SUMMARY: The activation order of candidate modules.
import Activation.Order.Walk
import Activation.Source

/-!
# Activation order

Modules are put in order in three steps: by name, by order hint, and by a walk
that moves a module forward only when a module that stands before it must follow
it. Modules about which nothing is declared keep their places.

`arrange` is the order of modules whose metadata is known. `survey` reads the metadata
of candidates from a source, and `order` does one after the other.
-/

namespace Activation.Order

/-- The first module of the pair must follow the second and also precede it. -/
structure Conflict where
  /-- The module whose predecessor closed the cycle. -/
  first : ModuleId
  /-- The predecessor. -/
  second : ModuleId
  deriving DecidableEq

/-- The order of modules that arrive by name, or a pair that lies on a cycle. -/
def arrange (modules : List Declared) : Except Conflict (List ModuleId) :=
  let placed := (baseline modules).toArray
  match walk (precedence placed) with
  | .ok order => .ok (order.map fun p => placed[p].id)
  | .error e => .error ⟨placed[e.node].id, placed[e.predecessor].id⟩

variable {σ : Type}

/-- The metadata of one candidate. -/
def declared (source : Source σ) (id : ModuleId) : Run σ SelectionFailure Declared := do
  let metadata ← (source.metadata id).mapFailure (.metadataRead id)
  return ⟨id, metadata⟩

/-- The metadata of candidates, read by ascending name. Repeated candidates count once. -/
def survey (source : Source σ) (candidates : List ModuleId) :
    Run σ SelectionFailure (List Declared) :=
  (NameSet.ofList candidates).toList.mapM (declared source)

/-- Candidates in activation order. -/
def order (source : Source σ) (candidates : List ModuleId) :
    Run σ SelectionFailure (List ModuleId) := do
  match arrange (← survey source candidates) with
  | .ok ids =>
    Run.report [.candidatesOrdered ids.length]
    return ids
  | .error conflict => throw (.cycleDetected conflict.first conflict.second)

end Activation.Order
