-- SUMMARY: Where the metadata of modules comes from.
import Activation.Failure
import Activation.Metadata
import Activation.Run

/-!
# Sources of metadata

An inspector looks at one module and tells what it declares; it may be slow, may
fail, and may change its mind. A source answers for every module, and can tell
whether a module was precomputed.
-/

namespace Activation

/-- Tells what a module declares by looking at the module. -/
abbrev Inspector (σ : Type) := ModuleId → Run σ MetadataFailure Metadata

/-- The inspector to which every module declares nothing. -/
def Inspector.blank {σ : Type} : Inspector σ := fun _ => return {}

/-- The inspector that answers from a function and has no effect. -/
def Inspector.ofFunction {σ : Type} (declares : ModuleId → Metadata) : Inspector σ :=
  fun id => return declares id

/-- Answers for the metadata of every module. -/
structure Source (σ : Type) where
  wasPrecomputed : ModuleId → Bool
  metadata : ModuleId → Run σ MetadataFailure Metadata

def Source.orderHint {σ : Type} (source : Source σ) (id : ModuleId) :
    Run σ MetadataFailure OrderHint :=
  return (← source.metadata id).order

end Activation
