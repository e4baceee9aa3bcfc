-- SUMMARY: Manifests, which list candidates, settings and what modules declare.
import Activation.Exclusion
import Activation.Features
import Activation.Settings

/-!
# Manifests

A manifest stands in for a registry of modules. It lists the candidates, may hold
settings, and holds what each known module declares. Every module that it declares
exists, whether it is a candidate or not.
-/

namespace Activation

/-- What a manifest declares about a module. -/
structure Declaration where
  metadata : Metadata := {}
  requiresFeatures : NameSet := ∅
  deriving DecidableEq

/-- The document of a registry of modules. -/
structure Manifest where
  /-- The candidates, as they were discovered. -/
  candidates : List ModuleId := []
  settings : Settings := {}
  modules : NameMap Declaration := ∅

namespace Manifest

/-- What a module declares. A module that the manifest does not know declares nothing. -/
def metadataOf (m : Manifest) (id : ModuleId) : Metadata :=
  ((m.modules.find? id).map (·.metadata)).getD {}

def inspector {σ : Type} (m : Manifest) : Inspector σ :=
  Inspector.ofFunction m.metadataOf

/-- The manifest as a locator: it knows the modules that it declares. -/
def locator (m : Manifest) : Locator :=
  m.modules.contains

/-- The features that modules require, for the modules that require any. -/
def requiredFeatures (m : Manifest) : NameMap NameSet :=
  (m.modules.map (·.requiresFeatures)).filter (!·.isEmpty)

end Manifest

end Activation
