-- SUMMARY: Reading the metadata index from a document.
import Activation.Files
import Activation.Index
import Activation.Toml.Decode

/-!
# Index documents

An index is kept in the table `modules` of a document, with a table of attributes for
each module. Everything beside it is ignored. A missing file holds an empty index.
-/

namespace Activation

/-- Why an index cannot be loaded. -/
inductive IndexFailure
  | unreadable (path : String) (failure : FileFailure)
  | unusable (path : String) (failure : Toml.Failure)
  deriving DecidableEq

def IndexFailure.message : IndexFailure → String
  | unreadable path failure =>
    "Failed to read metadata index at " ++ path ++ ": " ++ failure.message
  | unusable path failure => "Invalid metadata index at " ++ path ++ ": " ++ failure.message

namespace Index

/-- The attributes of a module from their table in a document. -/
def readAttributes (v : Toml.Value) : Except Toml.Misfit Attributes :=
  v.toMap Toml.Value.toAny

/-- A document that holds an index in its table `modules`, beside anything else. -/
def documentShape : Toml.Shape Index where
  columns :=
    [{ name := "modules", enter := fun _ v => return { modules := ← v.toMap readAttributes } }]
  isStrict := false
  initial := ∅

def parse (text : String) : Except Toml.Failure Index :=
  documentShape.parse text

/-- The index of a file. A missing file holds an empty index. -/
def load {σ : Type} (files : Files) (path : String) : Run σ IndexFailure Index := do
  match files.read path with
  | .error failure =>
    if files.isPresent path then throw (.unreadable path failure)
    else
      Run.report [.indexNotFound path]
      return ∅
  | .ok text =>
    let index ← Run.ofExcept ((parse text).mapError (.unusable path))
    Run.report [.indexLoaded path index.size]
    return index

end Index

end Activation
