-- SUMMARY: Computations that may fail, write to a log, and act on the state of collaborators.
import Activation.Event

/-!
# Runs

Collaborators of a selection may keep state of their own, and every step may
write to the log. A run over the state `σ` either fails with an `ε` or gives a
result; in both cases it leaves a ledger with the collaborators' state and the
log so far. What a run did before it failed is not undone.
-/

namespace Activation

/-- What a run leaves behind: the collaborators' state and the log, oldest event first. -/
structure Ledger (σ : Type) where
  world : σ
  log : List Event := []

/-- A computation over the collaborators' state `σ` that may fail with `ε`. -/
abbrev Run (σ ε : Type) := ExceptT ε (StateM (Ledger σ))

namespace Run

variable {σ τ ε ε' α : Type}

/-- Carry a run out from a ledger. -/
def exec (run : Run σ ε α) (ledger : Ledger σ) : Except ε α × Ledger σ :=
  StateT.run (ExceptT.run run) ledger

/-- The run that carries a function on ledgers out. -/
def ofFunction (f : Ledger σ → Except ε α × Ledger σ) : Run σ ε α :=
  ExceptT.mk (StateT.mk f)

/-- Write events to the log, in order. -/
def report (events : List Event) : Run σ ε Unit :=
  ofFunction fun ledger => (.ok (), { ledger with log := ledger.log ++ events })

/-- Act on the collaborators' state. -/
def act (f : σ → Except ε α × σ) : Run σ ε α :=
  ofFunction fun ledger =>
    let (result, world) := f ledger.world
    (result, { ledger with world })

/-- Do what cannot be done as a run can fail, without any effect. -/
def ofExcept (result : Except ε α) : Run σ ε α :=
  ofFunction fun ledger => (result, ledger)

/-- Replace the failure of a run. -/
def mapFailure (f : ε → ε') (run : Run σ ε α) : Run σ ε' α :=
  ofFunction fun ledger =>
    let (result, after) := run.exec ledger
    (result.mapError f, after)

/-- A run that does not touch the second part of the state. -/
def onFirst (run : Run σ ε α) : Run (σ × τ) ε α :=
  ofFunction fun ledger =>
    let (result, after) := run.exec { world := ledger.world.1, log := ledger.log }
    (result, { world := (after.world, ledger.world.2), log := after.log })

/-- A run with a second part of the state that starts at a value and is given back
    beside the result. -/
def withLocal (start : τ) (run : Run (σ × τ) ε α) : Run σ ε (α × τ) :=
  ofFunction fun ledger =>
    let (result, after) := run.exec { world := (ledger.world, start), log := ledger.log }
    (result.map fun value => (value, after.world.2), { world := after.world.1, log := after.log })

/-! ## What a run leaves behind -/

@[simp] theorem exec_pure (a : α) (l : Ledger σ) : (pure a : Run σ ε α).exec l = (.ok a, l) :=
  rfl

@[simp] theorem exec_throw (e : ε) (l : Ledger σ) :
    (throw e : Run σ ε α).exec l = (.error e, l) :=
  rfl

@[simp] theorem exec_ofFunction (f : Ledger σ → Except ε α × Ledger σ) (l : Ledger σ) :
    (ofFunction f).exec l = f l :=
  rfl

/-- The second run starts from what the first one left, unless that failed. -/
theorem exec_bind (x : Run σ ε α) (f : α → Run σ ε τ) (l : Ledger σ) :
    (x >>= f).exec l =
      match x.exec l with
      | (.ok a, after) => (f a).exec after
      | (.error e, after) => (.error e, after) := by
  show (ExceptT.bindCont _ (x.exec l).1 : StateM _ _) (x.exec l).2 = _
  rcases x.exec l with ⟨_ | _, _⟩ <;> rfl

@[simp] theorem exec_report (events : List Event) (l : Ledger σ) :
    (report events : Run σ ε Unit).exec l = (.ok (), { l with log := l.log ++ events }) :=
  rfl

@[simp] theorem exec_act (f : σ → Except ε α × σ) (l : Ledger σ) :
    (act f).exec l = ((f l.world).1, { l with world := (f l.world).2 }) :=
  rfl

@[simp] theorem exec_ofExcept (result : Except ε α) (l : Ledger σ) :
    (ofExcept result : Run σ ε α).exec l = (result, l) :=
  rfl

@[simp] theorem exec_mapFailure (f : ε → ε') (run : Run σ ε α) (l : Ledger σ) :
    (run.mapFailure f).exec l = ((run.exec l).1.mapError f, (run.exec l).2) :=
  rfl

/-- Two runs are the same when they leave the same behind from every ledger. -/
theorem ext_exec {x y : Run σ ε α} (h : ∀ l, x.exec l = y.exec l) : x = y :=
  funext h

end Run

end Activation
