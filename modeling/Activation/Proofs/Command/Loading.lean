-- SUMMARY: What a command works with, as a function of files, environment and command line.
import Activation.Command
import Activation.Proofs.Gives

/-!
# Loading

What a command loads does not depend on the log, and nothing that it loads acts on a
collaborator. So loading is a function of the files, the environment and the command line, and
both commands go on from what it gives.
-/

namespace Activation

variable {σ : Type}

/-- The manifest at a path. -/
def Manifest.ofFile (files : Files) (path : String) : Except ManifestFailure Manifest := do
  let text ← (files.read path).mapError (.unreadable path)
  (parse text).mapError (.unusable path)

/-- The index at a path, empty where there is nothing. -/
def Index.ofFile (files : Files) (path : String) : Except IndexFailure Index :=
  match files.read path with
  | .error failure => if files.isPresent path then .error (.unreadable path failure) else .ok ∅
  | .ok text => (parse text).mapError (.unusable path)

/-- A manifest is read once, and what its text gives is the result. -/
theorem Manifest.gives_load (files : Files) (path : String) :
    Run.Gives (load files path : Run σ ManifestFailure Manifest) (ofFile files path) := by
  apply Run.Gives.bind (Run.Gives.ofExcept _)
  intro text
  exact (Run.Gives.ofExcept _).reporting _

/-- An index is the one that its text gives; that it is logged does not show in the result. -/
theorem Index.gives_load (files : Files) (path : String) :
    Run.Gives (load files path : Run σ IndexFailure Index) (ofFile files path) := by
  unfold load ofFile
  cases files.read path with
  | error failure =>
    dsimp only
    split
    · exact .throw _
    · exact (Run.Gives.report _).bind fun _ => .pure ∅
  | ok text => exact (Run.Gives.ofExcept _).reporting _

namespace Command

variable {files : Files} {environment : List (String × String)} {inputs : CommandLine.Inputs}

/-- The index of a command line. Without one it is empty; if one is named, there has to be
    something at its path. -/
def indexOf (files : Files) : Option String → Except Failure Index
  | none => .ok ∅
  | some path =>
    if files.isPresent path then (Index.ofFile files path).mapError .index
    else .error (.indexNotFound path)

/-- What a command works with when the manifest and the index are known. -/
def prepare (manifest : Manifest) (index : Index) (environment : List (String × String))
    (inputs : CommandLine.Inputs) : Except Failure Loaded := do
  let settings ← (override manifest.settings inputs.properties environment).mapError .settings
  return { manifest, index, settings, features := inputs.features }

/-- What a command works with. -/
def loaded (files : Files) (environment : List (String × String)) (inputs : CommandLine.Inputs) :
    Except Failure Loaded := do
  let manifest ← (Manifest.ofFile files inputs.manifest).mapError .manifest
  let index ← indexOf files inputs.index
  prepare manifest index environment inputs

theorem gives_loadIndex (files : Files) (path : String) :
    Run.Gives (loadIndex files path : Run σ Failure Index) (indexOf files (some path)) := by
  unfold loadIndex indexOf
  dsimp only
  split
  · exact (Index.gives_load files path).mapFailure Failure.index
  · exact .throw _

/-- Loading is a function of the files, the environment and the command line. -/
theorem gives_load (files : Files) (environment : List (String × String))
    (inputs : CommandLine.Inputs) :
    Run.Gives (load files environment inputs : Run σ Failure Loaded)
      (loaded files environment inputs) := by
  have hmanifest := (Manifest.gives_load (σ := σ) files inputs.manifest).mapFailure
    Failure.manifest
  refine hmanifest.bind fun manifest => ?_
  have hsettings : ∀ index, Run.Gives (do
      let settings ← Run.ofExcept
        ((override manifest.settings inputs.properties environment).mapError .settings)
      return { manifest, index, settings, features := inputs.features } : Run σ Failure Loaded)
      (prepare manifest index environment inputs) := fun index =>
    (Run.Gives.ofExcept _).bind fun settings => .pure _
  cases hindex : inputs.index with
  | none => exact (Run.Gives.pure ∅).bind hsettings
  | some path => exact (gives_loadIndex files path).bind hsettings

end Command

end Activation
