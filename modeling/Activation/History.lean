-- SUMMARY: What the collaborators of a selector were asked.
import Activation.Selector

/-!
# Histories

A history lists every inspection, every batch that a filter was given and every
notice that a listener was given. `watched` turns a collaborator, or all those of a
selector, into one that enters each question into a history before it answers as it
did. Watching changes no answer.
-/

namespace Activation

/-- What collaborators were asked, the oldest question first. -/
structure History where
  inspected : List ModuleId := []
  /-- The batches that filters were given, each with the filter's place in the chain. -/
  batches : List (Nat × List ModuleId) := []
  /-- The notices that listeners were given, each with the listener's place. -/
  notices : List (Nat × Notice) := []
  deriving DecidableEq

namespace History

def batchesOf (h : History) (place : Nat) : List (List ModuleId) :=
  (h.batches.filter (·.1 = place)).map (·.2)

def noticesOf (h : History) (place : Nat) : List Notice :=
  (h.notices.filter (·.1 = place)).map (·.2)

variable {σ ε : Type}

def enter (change : History → History) : Run (σ × History) ε Unit :=
  Run.act fun (world, h) => (.ok (), (world, change h))

end History

variable {σ : Type}

/-- An inspector that keeps a history. -/
def Inspector.watched (inspector : Inspector σ) : Inspector (σ × History) := fun id => do
  History.enter fun h => { h with inspected := h.inspected ++ [id] }
  Run.onFirst (inspector id)

/-- The filter at a place of a chain, keeping a history. -/
def Filter.watched (place : Nat) (filter : Filter σ) : Filter (σ × History) where
  name := filter.name
  verdicts candidates index := do
    History.enter fun h => { h with batches := h.batches ++ [(place, candidates)] }
    Run.onFirst (filter.verdicts candidates index)

/-- The listener at a place, keeping a history. -/
def Listener.watched (place : Nat) (listener : Listener σ) : Listener (σ × History) where
  name := listener.name
  notify notice := do
    History.enter fun h => { h with notices := h.notices ++ [(place, notice)] }
    Run.onFirst (listener.notify notice)

def Filter.watchedAll (filters : List (Filter σ)) : List (Filter (σ × History)) :=
  filters.mapIdx Filter.watched

def Listener.watchedAll (listeners : List (Listener σ)) : List (Listener (σ × History)) :=
  listeners.mapIdx Listener.watched

/-- A selector whose collaborators keep a history. -/
def Selector.watched (selector : Selector σ) : Selector (σ × History) where
  candidates := Run.onFirst selector.candidates
  index := selector.index
  inspector := selector.inspector.watched
  locator := selector.locator
  filters := Filter.watchedAll selector.filters
  listeners := Listener.watchedAll selector.listeners
  settings := selector.settings

end Activation
