-- SUMMARY: Collaborators with fixed behaviour, for rehearsing a selection.
import Activation.Selector

/-!
# Rehearsals

A selection can be rehearsed without any module at hand: the collaborators below
answer from tables, lists and scripts, or always fail. Only a scripted inspector
keeps state, namely what it was asked before.
-/

namespace Activation

def Locator.ofList (ids : List String) : Locator :=
  (NameSet.ofList ids).contains

variable {σ : Type}

/-! ## Inspectors -/

namespace Inspector

/-- The inspector that answers from a table. Modules that are not in it declare nothing. -/
def ofTable (declared : NameMap Metadata) : Inspector σ :=
  ofFunction fun id => (declared.find? id).getD {}

/-- An inspector that fails on some modules. -/
def withUnreadable (unreadable : NameSet) (inspector : Inspector σ) : Inspector σ := fun id =>
  if unreadable.contains id then throw (.inspection id "module is unreadable") else inspector id

/-- For each module what its inspections give, one after the other: metadata, or the reason
    of a failure. -/
abbrev Script := NameMap (List (Except String Metadata))

/-- What an inspection of a module gives after so many others of it. The last answer of the
    script goes on for ever; a module without answers declares nothing. -/
def Script.answer (script : Script) (id : ModuleId) (earlier : Nat) :
    Except MetadataFailure Metadata :=
  let answers := (script.find? id).getD []
  match answers[earlier]? <|> answers.getLast? with
  | none => .ok {}
  | some answer => answer.mapError (.inspection id)

/-- The inspector that follows a script. It keeps the modules inspected so far. -/
def scripted (script : Script) : Inspector (List ModuleId) := fun id => do
  let earlier := (← get).world
  Run.act fun calls => (.ok (), calls ++ [id])
  Run.ofExcept (script.answer id (earlier.count id))

end Inspector

/-! ## Filters and listeners -/

namespace Filter

def rejecting (rejected : NameSet) : Filter σ where
  name := "rejecting"
  verdicts candidates _ := return candidates.map fun id => !rejected.contains id

/-- The filter that gives the same verdicts whatever the candidates are. -/
def constant (name : String) (verdicts : List Bool) : Filter σ where
  name
  verdicts _ _ := return verdicts

def failing (reason : String) : Filter σ where
  name := "failing"
  verdicts _ _ := throw (.reported reason)

/-- The filter that keeps the modules with an attribute in the index. -/
def havingAttribute (attributeName : String) : Filter σ where
  name := "has-attribute"
  verdicts candidates index :=
    return candidates.map fun id => (index.get? id attributeName).isSome

end Filter

namespace Listener

def silent : Listener σ where
  name := "recording"
  notify _ := return ()

def failing (reason : String) : Listener σ where
  name := "failing"
  notify _ := throw (.reported reason)

end Listener

end Activation
