-- SUMMARY: Reading a manifest from a document.
import Activation.Manifest
import Activation.Settings.Document

/-!
# Manifest documents

The names of a manifest's document and of its declarations are fixed. Others are
refused, so a misspelled declaration is not lost; only the table of settings may hold
more.
-/

namespace Activation

/-- Why a manifest cannot be loaded. -/
inductive ManifestFailure
  | unreadable (path : String) (failure : FileFailure)
  | unusable (path : String) (failure : Toml.Failure)
  deriving DecidableEq

def ManifestFailure.message : ManifestFailure → String
  | unreadable path failure => "failed to read manifest " ++ path ++ ": " ++ failure.message
  | unusable path failure => "invalid manifest " ++ path ++ ": " ++ failure.message

/-- A set of names in a document: a list of texts. -/
def NameSet.ofValue (v : Toml.Value) : Except Toml.Misfit NameSet :=
  return .ofList (← v.toTexts)

/-- The fields of ordering metadata, entered through a lens. -/
def Metadata.columns {ρ : Type} (update : (Metadata → Metadata) → ρ → ρ) :
    List (Toml.Column ρ) :=
  [{ name := "order",
     enter := fun r v => return update ({ · with order := ← v.toHint }) r },
   { name := "before",
     enter := fun r v => return update ({ · with before := ← NameSet.ofValue v }) r },
   { name := "after",
     enter := fun r v => return update ({ · with after := ← NameSet.ofValue v }) r }]

/-- Ordering metadata as a record of a document. Other names are ignored. -/
def Metadata.shape : Toml.Shape Metadata where
  columns := Metadata.columns id
  isStrict := false
  initial := {}

/-- A declaration as a record of a document. -/
def Declaration.shape : Toml.Shape Declaration where
  columns :=
    Metadata.columns (fun change d => { d with metadata := change d.metadata }) ++
      [{ name := "requires-features",
         enter := fun d v => return { d with requiresFeatures := ← NameSet.ofValue v } }]
  isStrict := true
  initial := {}

namespace Manifest

def shape : Toml.Shape Manifest where
  columns :=
    [{ name := "candidates", enter := fun m v => return { m with candidates := ← v.toTexts } },
     { name := "selector",
       enter := fun m v => return { m with settings := ← Settings.shape.ofValue v } },
     { name := "modules",
       enter := fun m v => return { m with modules := ← v.toMap Declaration.shape.ofValue } }]
  isStrict := true
  initial := {}

def parse (text : String) : Except Toml.Failure Manifest :=
  shape.parse text

/-- The manifest of a file. -/
def load {σ : Type} (files : Files) (path : String) : Run σ ManifestFailure Manifest := do
  let text ← Run.ofExcept ((files.read path).mapError (.unreadable path))
  let manifest ← Run.ofExcept ((parse text).mapError (.unusable path))
  Run.report [.manifestLoaded path manifest.candidates.length manifest.modules.size]
  return manifest

end Manifest

end Activation
