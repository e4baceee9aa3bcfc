-- SUMMARY: Merging, checking and applying exclusions.
import Activation.Failure
import Activation.Run

/-!
# Exclusions

Exclusions are asked for by id, by name and by configuration; they are merged
into one set. An exclusion of a candidate removes it. An exclusion of a module
that exists but is no candidate is invalid, and all invalid ones are reported
together. An exclusion that names no module at all is tolerated with a warning.
-/

namespace Activation

/-- Whether a name is that of a module that exists and could be loaded. -/
abbrev Locator := ModuleId → Bool

def Locator.nothing : Locator := fun _ => false

namespace Exclusion

/-- All exclusions asked for, from whichever side. -/
def merge (ids names external : List String) : NameSet :=
  NameSet.ofList (ids ++ names ++ external)

/-- What an exclusion is about. -/
inductive Standing
  /-- A candidate, which the exclusion removes. -/
  | candidate
  /-- A module that exists but is no candidate. The exclusion is invalid. -/
  | foreign
  /-- No module at all. -/
  | unknown
  deriving DecidableEq

/-- What an exclusion is about, for given candidates. -/
def standing (candidates : List ModuleId) (isLoadable : Locator) (name : String) : Standing :=
  if name ∈ candidates then .candidate
  else if isLoadable name then .foreign
  else .unknown

/-- The exclusions with a given standing, ascending. -/
def ofStanding (s : Standing) (candidates : List ModuleId) (exclusions : NameSet)
    (isLoadable : Locator) : List String :=
  exclusions.toList.filter fun name => standing candidates isLoadable name = s

/-- The invalid exclusions, ascending. The log is warned of the unknown ones. -/
def invalid {σ ε : Type} (candidates : List ModuleId) (exclusions : NameSet)
    (isLoadable : Locator) : Run σ ε (List String) := do
  Run.report ((ofStanding .unknown candidates exclusions isLoadable).map .unknownExclusion)
  return ofStanding .foreign candidates exclusions isLoadable

/-- The candidates that are not excluded, in their order. Fails with all invalid
    exclusions if there are any. -/
def apply {σ : Type} (candidates : List ModuleId) (exclusions : NameSet)
    (isLoadable : Locator) : Run σ SelectionFailure (List ModuleId) := do
  match ← invalid candidates exclusions isLoadable with
  | [] => return candidates.filter fun id => !exclusions.contains id
  | names => throw (.invalidExclusion names)

end Exclusion

end Activation
