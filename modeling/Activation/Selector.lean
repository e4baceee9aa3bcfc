-- SUMMARY: Selecting the modules to activate.
import Activation.Candidates
import Activation.Exclusion
import Activation.Filter
import Activation.Listener
import Activation.Order
import Activation.Pass
import Activation.Settings

/-!
# Selection

A selection lists the candidates, drops repeats and excluded ones, puts the others
in order, passes them through the filters and tells the listeners. It writes to the
log after every stage. The first failure ends it, and then nothing is selected.

A selector keeps nothing between selections: each has a metadata pass of its own.
-/

namespace Activation

/-- What the caller of one selection wants excluded. -/
structure Request where
  modules : List ModuleId := []
  names : List String := []
  deriving DecidableEq

/-- The outcome of a selection. -/
structure Selection where
  /-- The modules to activate, in order. -/
  modules : List ModuleId := []
  /-- All exclusions asked for. -/
  exclusions : NameSet := ∅
  /-- The candidates that filters removed, in order. -/
  filtered : List ModuleId := []
  deriving DecidableEq

/-- Everything that a selection depends on. -/
structure Selector (σ : Type) where
  /-- Lists the candidates, possibly with repeats. -/
  candidates : Run σ Fault (List ModuleId)
  index : Index := ∅
  /-- Inspects modules that are not in the index. -/
  inspector : Inspector σ := Inspector.blank
  /-- Knows which modules exist. -/
  locator : Locator := Locator.nothing
  filters : List (Filter σ) := []
  listeners : List (Listener σ) := []
  settings : Settings := {}

namespace Selector

variable {σ : Type}

/-- Log that a stage is complete. -/
def pass {ε : Type} (stage : Stage) (modules : List ModuleId) : Run σ ε Unit :=
  Run.report [.stageComplete stage modules.length]

/-- The distinct candidates. There has to be at least one. -/
def discover (selector : Selector σ) : Run σ SelectionFailure (List ModuleId) := do
  let raw ← selector.candidates.mapFailure .candidateSource
  if raw = [] then throw .emptyCandidatePool
  pass .loaded raw
  let candidates := Candidates.distinct raw
  pass .deduplicated candidates
  return candidates

/-- The exclusions of a request and of the settings. -/
def exclusions (selector : Selector σ) (request : Request) : NameSet :=
  Exclusion.merge request.modules request.names selector.settings.excludedNames.toList

/-- Candidates in order, in a metadata pass of their own. -/
def arrange (selector : Selector σ) (candidates : List ModuleId) :
    Run σ SelectionFailure (List ModuleId) := do
  let source := Pass.source selector.index selector.inspector
  let (ordered, cache) ← Run.withLocal ∅ (Order.order source candidates)
  Run.report [.metadataRead cache.size]
  return ordered

/-- Pass candidates in order through the filters and tell the listeners what is left. -/
def finish (selector : Selector σ) (exclusions : NameSet) (ordered : List ModuleId) :
    Run σ SelectionFailure Selection := do
  let sieved ← Filter.apply selector.filters ordered selector.index
  pass .filtered sieved.kept
  Listener.tellAll selector.listeners { modules := sieved.kept, exclusions }
  pass .notified sieved.kept
  pass .done sieved.kept
  return { modules := sieved.kept, exclusions, filtered := sieved.removed }

/-- Carry a selection out that is switched on. -/
def resolve (selector : Selector σ) (request : Request) : Run σ SelectionFailure Selection := do
  let candidates ← selector.discover
  let exclusions := selector.exclusions request
  let remaining ← Exclusion.apply candidates exclusions selector.locator
  pass .exclusionsApplied remaining
  let ordered ← selector.arrange remaining
  pass .ordered ordered
  selector.finish exclusions ordered

/-- Carry a selection out. If selection is switched off, nothing is selected and nobody is
    asked. -/
def select (selector : Selector σ) (request : Request) : Run σ SelectionFailure Selection :=
  if selector.settings.enabled then selector.resolve request
  else do
    Run.report [.selectionDisabled]
    return {}

end Selector

end Activation
