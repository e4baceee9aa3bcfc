-- SUMMARY: Listeners, which are told of the selection.
import Activation.Failure
import Activation.Run

/-!
# Listeners

A listener is told once of every selection, after all filters. One that fails makes
the selection fail.
-/

namespace Activation

/-- What listeners are told. -/
structure Notice where
  modules : List ModuleId
  /-- All exclusions asked for, whether or not they excluded anything. -/
  exclusions : NameSet
  deriving DecidableEq

/-- Is told of selections. -/
structure Listener (σ : Type) where
  /-- The name in failures. -/
  name : String
  notify : Notice → Run σ Fault Unit

namespace Listener

variable {σ : Type}

/-- The listener that writes every selection to the log. -/
def logging : Listener σ where
  name := "logging"
  notify notice := Run.report [.selectionResolved notice.modules notice.exclusions]

def tell (notice : Notice) (listener : Listener σ) : Run σ SelectionFailure Unit :=
  (listener.notify notice).mapFailure (.listenerFailed listener.name)

/-- Tell listeners one after the other. -/
def tellAll (listeners : List (Listener σ)) (notice : Notice) : Run σ SelectionFailure Unit :=
  listeners.forM (tell notice)

end Listener

end Activation
