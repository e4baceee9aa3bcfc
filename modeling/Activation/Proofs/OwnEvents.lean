-- SUMMARY: The milestones that a run writes to the log itself, apart from what collaborators write.
import Activation.Proofs.InTurn
import Activation.Selector

/-!
# Events of one's own

Collaborators may write to the log whatever they like, also the events of a selection of their
own. To tell the events that a run writes itself, collaborators are set apart: they see and
leave the whole log, and beside it a list is kept to which their events are not added.

`Writes` says that a run over collaborators set apart does what another does over the
collaborators as they are, and which milestones it writes itself.
-/

namespace Activation

variable {σ ε ε' α β γ : Type}

/-! ## Milestones -/

/-- The stage that an event reports as complete, and the number of modules that are left. -/
def Event.stage? : Event → Option (Stage × Nat)
  | .stageComplete stage modules => some (stage, modules)
  | _ => none

/-- The number of inspected modules, from the event that reports it. -/
def Event.inspected? : Event → Option Nat
  | .metadataRead inspected => some inspected
  | _ => none

/-- The events that tell how far a selection got. -/
def milestones (events : List Event) : List Event :=
  events.filter fun e => e.stage?.isSome || e.inspected?.isSome

@[simp] theorem milestones_nil : milestones [] = [] := rfl

@[simp] theorem milestones_append (events events' : List Event) :
    milestones (events ++ events') = milestones events ++ milestones events' :=
  List.filter_append ..

/-- What is read off milestones only is read off them alone. -/
theorem filterMap_milestones {f : Event → Option α}
    (h : ∀ e, e.stage? = none → e.inspected? = none → f e = none) (events : List Event) :
    (milestones events).filterMap f = events.filterMap f := by
  rw [milestones, List.filterMap_filter]
  congr 1
  funext e
  cases hstage : e.stage? with
  | some passed => simp
  | none =>
    cases hinspected : e.inspected? with
    | some inspected => simp
    | none => simp [h e hstage hinspected]

/-! ## Collaborators set apart -/

/-- The log as the last collaborator left it, and what was written until then by others. -/
structure Chronicle where
  whole : List Event
  own : List Event

namespace Ledger

/-- A ledger in which nothing is one's own yet. -/
def apart (l : Ledger σ) : Ledger (σ × Chronicle) := ⟨(l.world, ⟨l.log, []⟩), []⟩

/-- The ledger as collaborators know it. -/
def whole (l : Ledger (σ × Chronicle)) : Ledger σ := ⟨l.world.1, l.world.2.whole ++ l.log⟩

/-- The events that no collaborator wrote. -/
def own (l : Ledger (σ × Chronicle)) : List Event := l.world.2.own ++ l.log

@[simp] theorem whole_apart (l : Ledger σ) : l.apart.whole = l := by
  simp [apart, whole]

@[simp] theorem own_apart (l : Ledger σ) : l.apart.own = [] := rfl

@[simp] theorem whole_logged (l : Ledger (σ × Chronicle)) (events : List Event) :
    (l.logged events).whole = l.whole.logged events := by
  simp [logged, whole]

@[simp] theorem own_logged (l : Ledger (σ × Chronicle)) (events : List Event) :
    (l.logged events).own = l.own ++ events := by
  simp [logged, own]

end Ledger

/-- A collaborator set apart. -/
def Run.apart (x : Run σ ε α) : Run (σ × Chronicle) ε α :=
  Run.ofFunction fun l =>
    let (result, after) := x.exec l.whole
    (result, ⟨(after.world, ⟨after.log, l.own⟩), []⟩)

/-- A collaborator set apart does what it always did, and adds nothing to what others wrote. -/
theorem Run.exists_exec_apart (x : Run σ ε α) (l : Ledger (σ × Chronicle)) :
    ∃ k, x.apart.exec l = ((x.exec l.whole).1, k) ∧ k.whole = (x.exec l.whole).2 ∧
      k.own = l.own := by
  obtain ⟨⟨world, log⟩, hk⟩ : ∃ k, k = (x.exec l.whole).2 := ⟨_, rfl⟩
  refine ⟨⟨(world, ⟨log, l.own⟩), []⟩, ?_, ?_, ?_⟩
  · simp only [apart, exec_ofFunction, ← hk]
  · rw [← hk]
    simp [Ledger.whole]
  · exact List.append_nil _

def Inspector.apart (inspector : Inspector σ) : Inspector (σ × Chronicle) :=
  fun id => Run.apart (inspector id)

def Filter.apart (filter : Filter σ) : Filter (σ × Chronicle) where
  name := filter.name
  verdicts candidates index := (filter.verdicts candidates index).apart

def Listener.apart (listener : Listener σ) : Listener (σ × Chronicle) where
  name := listener.name
  notify notice := (listener.notify notice).apart

/-- A selector whose collaborators are set apart. -/
def Selector.apart (selector : Selector σ) : Selector (σ × Chronicle) where
  candidates := selector.candidates.apart
  index := selector.index
  inspector := selector.inspector.apart
  locator := selector.locator
  filters := selector.filters.map Filter.apart
  listeners := selector.listeners.map Listener.apart
  settings := selector.settings

/-- A run that leaves the milestones in the log as they are. -/
def Run.Reticent (x : Run σ ε α) : Prop :=
  ∀ l, milestones (x.exec l).2.log = milestones l.log

/-- No collaborator writes milestones. -/
structure Selector.Reticent (selector : Selector σ) : Prop where
  candidates : selector.candidates.Reticent
  inspector : ∀ id, Run.Reticent (selector.inspector id)
  filters : ∀ filter ∈ selector.filters, ∀ ids,
    (filter.verdicts ids selector.index).Reticent
  listeners : ∀ listener ∈ selector.listeners, ∀ notice, (listener.notify notice).Reticent

/-! ## What a run writes itself -/

namespace Run

/-- One run over collaborators set apart ends as another does over the collaborators as they are,
    and it wrote these milestones itself. Where collaborators are known to be reticent, the log
    has no others. -/
structure Follows (reticent : Prop) (marks : List Event) (start : Ledger (σ × Chronicle))
    (ends' : Except ε α × Ledger (σ × Chronicle)) (ends : Except ε α × Ledger σ) : Prop where
  result : ends'.1 = ends.1
  whole : ends'.2.whole = ends.2
  own : milestones ends'.2.own = milestones start.own ++ marks
  log : reticent → milestones ends.2.log = milestones start.whole.log ++ marks

/-- A run over collaborators set apart does what another does, and writes milestones itself. -/
def Writes (reticent : Prop) (x' : Run (σ × Chronicle) ε α) (x : Run σ ε α)
    (marks : Ledger σ → List Event) : Prop :=
  ∀ l, Follows reticent (marks l.whole) l (x'.exec l) (x.exec l.whole)

/-- The milestones of a run that goes on from the result of another, if there is one. -/
def marksAfter (x : Run σ ε α) (marks : α → Ledger σ → List Event) (l : Ledger σ) :
    List Event :=
  match x.exec l with
  | (.ok a, k) => marks a k
  | (.error _, _) => []

/-- No milestones are written. -/
abbrev Quiet (reticent : Prop) (x' : Run (σ × Chronicle) ε α) (x : Run σ ε α) : Prop :=
  Writes reticent x' x fun _ => []

variable {reticent : Prop} {x : Run σ ε α} {x' : Run (σ × Chronicle) ε α}
  {marks : Ledger σ → List Event}

theorem marksAfter_of_ok {marks : α → Ledger σ → List Event} {a : α} {l k : Ledger σ}
    (h : x.exec l = (.ok a, k)) : marksAfter x marks l = marks a k := by
  simp only [marksAfter, h]

theorem marksAfter_of_error {marks : α → Ledger σ → List Event} {e : ε} {l k : Ledger σ}
    (h : x.exec l = (.error e, k)) : marksAfter x marks l = [] := by
  simp only [marksAfter, h]

theorem Writes.congr {marks' : Ledger σ → List Event} (h : Writes reticent x' x marks)
    (heq : ∀ l, marks l = marks' l) : Writes reticent x' x marks' := by
  intro l
  rw [← heq]
  exact h l

/-- What the second run writes follows what the first one wrote, if the first one succeeds. -/
theorem Writes.bind {f : α → Run σ ε β} {f' : α → Run (σ × Chronicle) ε β}
    {marks' : α → Ledger σ → List Event} (h : Writes reticent x' x marks)
    (next : ∀ a, Writes reticent (f' a) (f a) (marks' a)) :
    Writes reticent (x' >>= f') (x >>= f) fun l => marks l ++ marksAfter x marks' l := by
  intro l
  obtain ⟨result, whole, own, log⟩ := h l
  rw [exec_bind, exec_bind]
  rcases hx' : x'.exec l with ⟨r', k'⟩
  rcases hx : x.exec l.whole with ⟨r, k⟩
  simp only [hx', hx] at result whole own log
  subst result whole
  dsimp only
  cases r' with
  | error e =>
    rw [marksAfter_of_error hx, List.append_nil]
    exact ⟨rfl, rfl, own, log⟩
  | ok a =>
    obtain ⟨result', whole', own', log'⟩ := next a k'
    rw [marksAfter_of_ok hx]
    refine ⟨result', whole', ?_, fun holds => ?_⟩
    · rw [own', own, List.append_assoc]
    · rw [log' holds, log holds, List.append_assoc]

/-- Both end by writing the same to the log. -/
theorem Follows.logged {events marks : List Event} {start k' : Ledger (σ × Chronicle)}
    {k : Ledger σ} {r' r : Except ε α} (h : Follows reticent [] start (r', k') (r, k))
    (result : Except ε' β) (heq : milestones events = marks) :
    Follows reticent marks start (result, k'.logged events) (result, k.logged events) := by
  obtain ⟨-, whole, own, log⟩ := h
  dsimp only at whole own log
  rw [List.append_nil] at own log
  subst heq
  refine ⟨rfl, ?_, ?_, fun holds => ?_⟩
  · rw [Ledger.whole_logged, whole]
  · rw [Ledger.own_logged, milestones_append, own]
  · exact (milestones_append _ _).trans (by rw [log holds])

/-- A run that only writes to the log. -/
theorem Writes.of_logged {result : Except ε α} {events : List Event}
    (h' : ∀ l, x'.exec l = (result, l.logged events))
    (h : ∀ l, x.exec l = (result, l.logged events)) :
    Writes reticent x' x fun _ => milestones events := by
  intro l
  rw [h', h]
  have hstart : Follows reticent [] l (result, l) (result, l.whole) := ⟨rfl, rfl, by simp, by simp⟩
  exact hstart.logged result rfl

theorem Writes.report (events : List Event) :
    Writes reticent (report events : Run (σ × Chronicle) ε Unit) (report events)
      fun _ => milestones events :=
  .of_logged (fun _ => rfl) fun _ => rfl

/-- A collaborator that is set apart writes no milestones of the selection, whatever it writes
    itself. -/
theorem Quiet.apart (h : reticent → x.Reticent) : Quiet reticent x.apart x := by
  intro l
  obtain ⟨k, hexec, whole, own⟩ := x.exists_exec_apart l
  rw [hexec]
  refine ⟨rfl, whole, ?_, fun holds => ?_⟩
  · rw [own, List.append_nil]
  · rw [List.append_nil]
    exact h holds l.whole

/-- A run that only logs is quiet if none of its events is a milestone. -/
theorem Quiet.of_logged {result : Except ε α} {events : List Event}
    (h' : ∀ l, x'.exec l = (result, l.logged events))
    (h : ∀ l, x.exec l = (result, l.logged events)) (silent : milestones events = []) :
    Quiet reticent x' x :=
  (Writes.of_logged h' h).congr fun _ => silent

theorem Quiet.ofExcept (result : Except ε α) :
    Quiet reticent (ofExcept result : Run (σ × Chronicle) ε α) (ofExcept result) := by
  have hlogged : ∀ {τ : Type} (l : Ledger τ),
      (Run.ofExcept result).exec l = (result, l.logged []) := by
    simp [Ledger.logged]
  exact .of_logged hlogged hlogged milestones_nil

theorem Quiet.pure (a : α) : Quiet reticent (pure a : Run (σ × Chronicle) ε α) (pure a) :=
  .ofExcept (.ok a)

theorem Quiet.throw (e : ε) : Quiet reticent (throw e : Run (σ × Chronicle) ε α) (throw e) :=
  .ofExcept (.error e)

theorem Quiet.report {events : List Event} (h : milestones events = []) :
    Quiet reticent (report events : Run (σ × Chronicle) ε Unit) (report events) :=
  .of_logged (fun _ => rfl) (fun _ => rfl) h

theorem Quiet.mapFailure (f : ε → ε') (h : Quiet reticent x' x) :
    Quiet reticent (x'.mapFailure f) (x.mapFailure f) := by
  intro l
  obtain ⟨result, whole, own, log⟩ := h l
  exact ⟨congrArg (Except.mapError f) result, whole, own, log⟩

theorem Quiet.bind {f : α → Run σ ε β} {f' : α → Run (σ × Chronicle) ε β}
    (h : Quiet reticent x' x) (next : ∀ a, Quiet reticent (f' a) (f a)) :
    Quiet reticent (x' >>= f') (x >>= f) := by
  refine (Writes.bind h next).congr fun l => ?_
  unfold marksAfter
  rcases x.exec l with ⟨e | a, k⟩
  · rfl
  · rfl

/-- Nothing is written by asking one after the other. -/
theorem Quiet.mapM {ask : γ → Run σ ε α} {ask' : γ → Run (σ × Chronicle) ε α} {xs : List γ}
    (h : ∀ x ∈ xs, Quiet reticent (ask' x) (ask x)) :
    Quiet reticent (xs.mapM ask') (xs.mapM ask) := by
  induction xs with
  | nil => exact .pure []
  | cons x xs ih =>
    rw [List.mapM_cons, List.mapM_cons]
    have hrest := ih fun y hy => h y (List.mem_cons_of_mem x hy)
    exact (h x List.mem_cons_self).bind fun a => hrest.bind fun as => .pure (a :: as)

/-- A run that reports its result writes the milestones of the report. -/
theorem Quiet.reporting {f : α → β} {events : α → List Event} {marks : β → List Event}
    (h : Quiet reticent x' x) (heq : ∀ a, milestones (events a) = marks (f a)) :
    Writes reticent (do let a ← x'; Run.report (events a); return f a)
      (do let a ← x; Run.report (events a); return f a)
      (marksAfter (do let a ← x; Run.report (events a); return f a) fun b _ => marks b) := by
  refine (Writes.bind h fun a =>
    (Writes.report (events a)).bind fun _ => Quiet.pure (f a)).congr fun l => ?_
  unfold marksAfter
  rw [exec_bind]
  rcases x.exec l with ⟨e | a, k⟩
  · rfl
  · exact (List.append_nil _).trans (heq a)

end Run

end Activation
