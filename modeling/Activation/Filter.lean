-- SUMMARY: Filters, which reject candidates that are already in order.
import Activation.Index

/-!
# Filters

A filter sees all candidates at once, in activation order, and gives a verdict on
each. A candidate is kept when every filter keeps it. All filters of a chain see
the same list, whatever the filters before them said.
-/

namespace Activation

/-- Judges candidates. -/
structure Filter (σ : Type) where
  /-- The name in failures. -/
  name : String
  /-- For each candidate, whether it is kept. -/
  verdicts : List ModuleId → Index → Run σ Fault (List Bool)

/-- What a chain of filters kept and what it removed, both in order. -/
structure Sieved where
  /-- The candidates that every filter kept. -/
  kept : List ModuleId := []
  removed : List ModuleId := []
  deriving DecidableEq

/-- Divide candidates by whether they are kept. -/
def Sieved.divide (candidates : List ModuleId) (keep : List Bool) : Sieved where
  kept := ((candidates.zip keep).filter (·.2)).map (·.1)
  removed := ((candidates.zip keep).filter (!·.2)).map (·.1)

namespace Filter

variable {σ : Type}

/-- The verdicts of a filter, which have to be as many as the candidates. -/
def judge (candidates : List ModuleId) (index : Index) (filter : Filter σ) :
    Run σ SelectionFailure (List Bool) := do
  let verdicts ← (filter.verdicts candidates index).mapFailure (.filterFailed filter.name)
  if verdicts.length = candidates.length then return verdicts
  else throw (.verdictCount filter.name candidates.length verdicts.length)

/-- For each candidate, whether all filters keep it. -/
def judgeAll (filters : List (Filter σ)) (candidates : List ModuleId) (index : Index) :
    Run σ SelectionFailure (List Bool) :=
  filters.foldlM
    (fun keep filter => return keep.zipWith (· && ·) (← filter.judge candidates index))
    (candidates.map fun _ => true)

/-- Pass candidates through a chain of filters. -/
def apply (filters : List (Filter σ)) (candidates : List ModuleId) (index : Index) :
    Run σ SelectionFailure Sieved := do
  let sieved := Sieved.divide candidates (← judgeAll filters candidates index)
  if sieved.removed ≠ [] then
    Run.report [.candidatesFiltered filters.length sieved.removed.length]
  return sieved

end Filter

end Activation
