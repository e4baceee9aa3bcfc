-- SUMMARY: What a module declares about its place in the activation order.
import Activation.NameSet
import Activation.OrderHint

/-!
# Ordering metadata

A module may give an order hint, name modules that it must precede and name
modules that it must follow. A module without a hint has the largest one and so
sorts last.
-/

namespace Activation

/-- What one module declares. Either side of a pair may declare that it is ordered. -/
structure Metadata where
  order : OrderHint := .lowestPrecedence
  /-- The modules that this one must precede. -/
  before : NameSet := ∅
  /-- The modules that this one must follow. -/
  after : NameSet := ∅
  deriving DecidableEq

namespace Metadata

instance : Inhabited Metadata := ⟨{}⟩

def withOrder (m : Metadata) (hint : OrderHint) : Metadata :=
  { m with order := hint }

/-- Declare further modules that this one must precede. -/
def precede (m : Metadata) (names : List String) : Metadata :=
  { m with before := m.before.insertAll names }

/-- Declare further modules that this one must follow. -/
def follow (m : Metadata) (names : List String) : Metadata :=
  { m with after := m.after.insertAll names }

end Metadata

end Activation
