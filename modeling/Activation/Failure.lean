-- SUMMARY: What can go wrong in a selection, and the wording of each failure.
import Activation.NameSet

/-!
# Failures

A selection fails as a whole: the first failure is returned and nothing of the
selection is kept. Each kind of failure is a constructor that carries what the
failure is about; `message` gives its text.
-/

namespace Activation

/-! ## Metadata -/

/-- What an attribute has to hold. -/
inductive AttributeShape
  /-- A 32-bit integer, as a number or in text. -/
  | integer
  /-- A list of names, or one text with commas between the names. -/
  | names
  deriving DecidableEq

def AttributeShape.text : AttributeShape → String
  | integer => "a 32-bit integer"
  | names => "a list of module names"

/-- An attribute in the index does not hold what it has to. -/
structure AttributeFailure where
  id : ModuleId
  name : String
  expected : AttributeShape
  deriving DecidableEq

def AttributeFailure.message (f : AttributeFailure) : String :=
  "Attribute '" ++ f.name ++ "' of module '" ++ f.id ++ "' must be " ++ f.expected.text

/-- The metadata of a module cannot be told. -/
inductive MetadataFailure
  | malformed (failure : AttributeFailure)
  | inspection (id : ModuleId) (reason : String)
  deriving DecidableEq

def MetadataFailure.message : MetadataFailure → String
  | malformed failure => failure.message
  | inspection id reason => "Unable to inspect module '" ++ id ++ "': " ++ reason

/-! ## Collaborators -/

/-- What a filter, a listener or a source of candidates fails with. -/
inductive Fault
  /-- A failure of the collaborator's own. -/
  | reported (text : String)
  /-- Metadata that the collaborator needs cannot be told. -/
  | metadata (failure : MetadataFailure)
  deriving DecidableEq

def Fault.message : Fault → String
  | reported text => text
  | metadata failure => failure.message

/-! ## Selection -/

/-- Why a selection failed. -/
inductive SelectionFailure
  | emptyCandidatePool
  /-- These modules exist, are not candidates, and were excluded. -/
  | invalidExclusion (exclusions : List String)
  /-- The second module must precede the first and also follow it. -/
  | cycleDetected (first second : ModuleId)
  | metadataRead (id : ModuleId) (failure : MetadataFailure)
  | filterFailed (filter : String) (fault : Fault)
  /-- A filter did not give one verdict for each candidate. -/
  | verdictCount (filter : String) (expected actual : Nat)
  | listenerFailed (listener : String) (fault : Fault)
  | candidateSource (fault : Fault)
  deriving DecidableEq

def SelectionFailure.message : SelectionFailure → String
  | emptyCandidatePool =>
    "No candidate modules found. Check that the module registry is populated."
  | invalidExclusion exclusions =>
    "The following modules could not be excluded because they are not candidate modules:\n" ++
      String.join (exclusions.map fun name => "\t- " ++ name ++ "\n")
  | cycleDetected first second =>
    "Module ordering cycle detected between '" ++ first ++ "' and '" ++ second ++ "'"
  | metadataRead id failure =>
    "Unable to read metadata for module '" ++ id ++ "': " ++ failure.message
  | filterFailed filter fault => "Filter '" ++ filter ++ "' failed: " ++ fault.message
  | verdictCount filter expected actual =>
    "Filter '" ++ filter ++ "' returned " ++ toString actual ++ " verdicts for " ++
      toString expected ++ " candidates"
  | listenerFailed listener fault => "Listener '" ++ listener ++ "' failed: " ++ fault.message
  | candidateSource fault => "Candidate discovery failed: " ++ fault.message

end Activation
