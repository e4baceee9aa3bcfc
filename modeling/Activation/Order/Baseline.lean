-- SUMMARY: The order of modules by hint and name alone.
import Activation.Metadata

/-!
# The baseline

Before any precedence is looked at, modules stand by their order hints, and
modules with the same hint by name. The sort by hint is stable, so it is enough
that the modules arrive by name.
-/

namespace Activation.Order

/-- A module together with what it declares. -/
structure Declared where
  id : ModuleId
  metadata : Metadata
  deriving DecidableEq

/-- The modules of a list by ascending hint; those with the same hint keep their order. -/
def baseline (modules : List Declared) : List Declared :=
  modules.mergeSort fun a b => a.metadata.order ≤ b.metadata.order

end Activation.Order
