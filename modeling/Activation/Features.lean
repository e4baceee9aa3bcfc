-- SUMMARY: The filter that rejects modules whose required features are not all active.
import Activation.Filter

/-!
# Required features

A module may require features. What the index says about a module counts before
what is declared elsewhere, also when the index requires nothing. A module that
requires an inactive feature is rejected.
-/

namespace Activation.Features

/-- The attribute of the index that lists the features a module requires. -/
def requiredAttribute : String := "requires-features"

/-- The features that a module requires, if anything is said about it. -/
def required? (declared : NameMap NameSet) (index : Index) (id : ModuleId) :
    Except AttributeFailure (Option NameSet) :=
  match index.get? id requiredAttribute with
  | some _ => (index.getNames id requiredAttribute).map some
  | none => .ok (declared.find? id)

variable {σ : Type}

/-- Whether all features that a module requires are active. -/
def judge (active : NameSet) (declared : NameMap NameSet) (index : Index) (id : ModuleId) :
    Run σ MetadataFailure Bool := do
  let required ← Run.ofExcept ((required? declared index id).mapError .malformed)
  let keep := required.all fun features => features.isSubset active
  unless keep do Run.report [.missingFeatures id]
  return keep

def verdicts (active : NameSet) (declared : NameMap NameSet) (candidates : List ModuleId)
    (index : Index) : Run σ MetadataFailure (List Bool) :=
  candidates.mapM (judge active declared index)

/-- The filter for active features and declared requirements. -/
def filter (active : NameSet) (declared : NameMap NameSet) : Filter σ where
  name := "required-features"
  verdicts candidates index := (verdicts active declared candidates index).mapFailure .metadata

end Activation.Features
