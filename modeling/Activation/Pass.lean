-- SUMMARY: Metadata for the length of one resolution pass.
import Activation.Index

/-!
# Passes

In a pass, the index answers for the modules in it and an inspector for the others.
What an inspection gave is remembered until the pass is over, so a module is
inspected until it succeeds once. Failures are not remembered.
-/

namespace Activation.Pass

/-- What was inspected in this pass, by module. -/
abbrev Cache := NameMap Metadata

variable {σ : Type}

/-- Inspect a module and remember what it declares. -/
def inspect (inspector : Inspector σ) (id : ModuleId) :
    Run (σ × Cache) MetadataFailure Metadata := do
  Run.report [.inspecting id]
  let m ← Run.onFirst (inspector id)
  Run.act fun (world, cache) => (.ok (), (world, cache.insert id m))
  return m

/-- The metadata of a module that is not in the index. -/
def lookUp (inspector : Inspector σ) (id : ModuleId) :
    Run (σ × Cache) MetadataFailure Metadata := do
  match (← get).world.2.find? id with
  | some m => return m
  | none => inspect inspector id

def source (index : Index) (inspector : Inspector σ) : Source (σ × Cache) where
  wasPrecomputed := index.wasProcessed
  metadata id :=
    if index.wasProcessed id then Run.ofExcept ((index.metadata id).mapError .malformed)
    else lookUp inspector id

end Activation.Pass
