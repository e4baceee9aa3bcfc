-- SUMMARY: Carrying out a command.
import Activation.CommandLine
import Activation.Index.Document
import Activation.Manifest.Document
import Activation.Report
import Activation.Settings.Layers

/-!
# Commands

A command loads the manifest, the index if one is given, and the settings, which
properties and variables override. It selects with the manifest as the source of
candidates, as inspector and as locator. What it prints is given back as a text, so
a command that fails prints nothing.
-/

namespace Activation.Command

/-- Why a command failed. -/
inductive Failure
  | manifest (failure : ManifestFailure)
  /-- There is no index at the path given. -/
  | indexNotFound (path : String)
  | index (failure : IndexFailure)
  | settings (failure : SettingsFailure)
  | selection (failure : SelectionFailure)
  deriving DecidableEq

def Failure.message : Failure → String
  | manifest failure => failure.message
  | indexNotFound path => "metadata index not found: " ++ path
  | index failure => failure.message
  | settings failure => failure.message
  | selection failure => failure.message

/-- What a command works with. -/
structure Loaded where
  manifest : Manifest
  /-- The index. Without one it is empty. -/
  index : Index
  /-- The settings, with everything that overrides them. -/
  settings : Settings
  features : List String

variable {σ : Type}

/-- Load the index at a path, where there has to be one. -/
def loadIndex (files : Files) (path : String) : Run σ Failure Index :=
  if files.isPresent path then (Index.load files path).mapFailure .index
  else throw (.indexNotFound path)

/-- Settings under properties and variables. Of properties with the same name the last one
    counts. -/
def override (s : Settings) (properties environment : List (String × String)) :
    Except SettingsFailure Settings := do
  (← s.withProperties (.ofList properties)).withVariables environment

/-- Load what a command works with. -/
def load (files : Files) (environment : List (String × String)) (inputs : CommandLine.Inputs) :
    Run σ Failure Loaded := do
  let manifest ← (Manifest.load files inputs.manifest).mapFailure .manifest
  let index ← match inputs.index with
    | some path => loadIndex files path
    | none => pure ∅
  let settings ← Run.ofExcept
    ((override manifest.settings inputs.properties environment).mapError .settings)
  return { manifest, index, settings, features := inputs.features }

def Loaded.selector (l : Loaded) : Selector σ where
  candidates := return l.manifest.candidates
  index := l.index
  inspector := l.manifest.inspector
  locator := l.manifest.locator
  filters := [Features.filter (.ofList l.features) l.manifest.requiredFeatures]
  listeners := [.logging]
  settings := l.settings

/-- Print the modules to activate. -/
def resolve (files : Files) (environment : List (String × String)) (inputs : CommandLine.Inputs)
    (exclude excludeNames : List String) (json : Bool) : Run σ Failure String := do
  let loaded ← load files environment inputs
  let selection ← (loaded.selector.select { modules := exclude, names := excludeNames }).mapFailure
    .selection
  return if json then Report.json selection else Report.lines selection

/-- Print how a selection without further exclusions ends. -/
def check (files : Files) (environment : List (String × String)) (inputs : CommandLine.Inputs) :
    Run σ Failure String := do
  let loaded ← load files environment inputs
  if loaded.settings.enabled then
    let selection ← (loaded.selector.select {}).mapFailure .selection
    return Report.summary selection
  else return Report.disabled

/-- Carry a command out. -/
def run (files : Files) (environment : List (String × String))
    (invocation : CommandLine.Invocation) : Run σ Failure String :=
  match invocation.command with
  | .resolve exclude excludeNames json =>
    resolve files environment invocation.inputs exclude excludeNames json
  | .check => check files environment invocation.inputs

end Activation.Command
