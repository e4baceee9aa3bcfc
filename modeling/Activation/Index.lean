-- SUMMARY: The index of precomputed metadata.
import Activation.Index.Attribute
import Activation.NameMap
import Activation.Source

/-!
# The metadata index

The index holds attributes of modules that were computed ahead. A module in the
index is never inspected. Three attributes give its ordering metadata; others are
kept for filters. A malformed attribute is a failure only when it is asked for.
-/

namespace Activation

abbrev Attributes := NameMap Toml.Value

/-- The attributes of every precomputed module. -/
structure Index where
  modules : NameMap Attributes := ∅

namespace Index

def empty : Index := {}

instance : EmptyCollection Index := ⟨empty⟩
instance : Inhabited Index := ⟨∅⟩

/-! ## Attributes -/

def orderAttribute : String := "order"

def beforeAttribute : String := "before"

def afterAttribute : String := "after"

/-- Whether a module was precomputed. -/
def wasProcessed (index : Index) (id : ModuleId) : Bool :=
  index.modules.contains id

def size (index : Index) : Nat :=
  index.modules.size

def isEmpty (index : Index) : Bool :=
  index.modules.isEmpty

/-- The attribute of a module as it stands in the index. -/
def get? (index : Index) (id : ModuleId) (name : String) : Option Toml.Value :=
  (index.modules.find? id).bind (·.find? name)

/-- An attribute in one of the two shapes, or a default where it is absent. -/
def read {α : Type} (convert? : Toml.Value → Option α) (expected : AttributeShape)
    (index : Index) (id : ModuleId) (name : String) (default : α) : Except AttributeFailure α :=
  match index.get? id name with
  | none => .ok default
  | some v =>
    match convert? v with
    | some a => .ok a
    | none => .error { id, name, expected }

/-- An integer attribute, or a default where it is absent. -/
def getInteger (index : Index) (id : ModuleId) (name : String) (default : OrderHint) :
    Except AttributeFailure OrderHint :=
  read hintOfValue? .integer index id name default

/-- A list attribute, empty where it is absent. -/
def getNames (index : Index) (id : ModuleId) (name : String) : Except AttributeFailure NameSet :=
  read namesOfValue? .names index id name ∅

/-- The ordering metadata of a module. -/
def metadata (index : Index) (id : ModuleId) : Except AttributeFailure Metadata := do
  let order ← index.getInteger id orderAttribute .lowestPrecedence
  let before ← index.getNames id beforeAttribute
  let after ← index.getNames id afterAttribute
  return { order, before, after }

/-! ## Recording -/

/-- Enter the ordering metadata of a module. Its other attributes stay. -/
def record (index : Index) (id : ModuleId) (m : Metadata) : Index :=
  let attributes := (index.modules.find? id).getD ∅
    |>.insert orderAttribute (.integer m.order.toInt)
    |>.insert beforeAttribute (valueOfNames m.before)
    |>.insert afterAttribute (valueOfNames m.after)
  { modules := index.modules.insert id attributes }

/-! ## The index as a source -/

/-- The index alone as a source. A module that is not in it declares nothing. -/
def source {σ : Type} (index : Index) : Source σ where
  wasPrecomputed := index.wasProcessed
  metadata id :=
    if index.wasProcessed id then Run.ofExcept ((index.metadata id).mapError .malformed)
    else return {}

end Index

end Activation
