-- SUMMARY: What every request makes a selector ask, and that nothing is kept between requests.
import Activation.Proofs.Selection.Agreement
import Activation.Proofs.Selection.Questions
import Activation.Rehearsal
import Mathlib

/-!
# The effect of requests

A selector serves requests one after the other, and its collaborators go through all of them
with one state. Each request extends the history by the questions of its own selection: by
inspections, then by batches, then by notices, and by none of these after the phase that
fails. Where collaborators answer as functions, no request shows in the outcome of a later
one.
-/

namespace Activation.Selector

variable {σ : Type}

/-! ## The effect of one selection -/

/-- What a selection enters into the history: the questions of each phase, in turn, as long as
    the phases before it succeed. -/
inductive Effect (selector : Selector σ) (request : Request) (l : Ledger σ) : History → Prop
  | disabled (off : selector.settings.enabled = false) : Effect selector request l ∅
  | ungathered (enabled : selector.settings.enabled = true)
      (fails : ∀ raw k, ¬ selector.Admits request raw l k) : Effect selector request l ∅
  | unsettled {raw : List ModuleId} {k : Ledger σ} (enabled : selector.settings.enabled = true)
      (admits : selector.Admits request raw l k)
      (fails : ∀ ordered m, ¬ selector.Orders (selector.remaining request raw)
        (selector.readingStart request raw k) ordered m) :
      Effect selector request l
        (selector.inspections (selector.remaining request raw)
          (selector.readingStart request raw k))
  | unsieved {raw ordered : List ModuleId} {k start : Ledger σ}
      (enabled : selector.settings.enabled = true) (admits : selector.Admits request raw l k)
      (orders : selector.Orders (selector.remaining request raw)
        (selector.readingStart request raw k) ordered start)
      (fails : ∀ sieved m, ¬ selector.Sieves ordered start sieved m) :
      Effect selector request l
        (selector.inspections (selector.remaining request raw)
            (selector.readingStart request raw k) ++
          selector.batches ordered start)
  | announced {raw ordered : List ModuleId} {sieved : Sieved} {k start told : Ledger σ}
      (enabled : selector.settings.enabled = true) (admits : selector.Admits request raw l k)
      (orders : selector.Orders (selector.remaining request raw)
        (selector.readingStart request raw k) ordered start)
      (sieves : selector.Sieves ordered start sieved told) :
      Effect selector request l
        (selector.inspections (selector.remaining request raw)
            (selector.readingStart request raw k) ++
          (selector.batches ordered start ++
            selector.notices ⟨sieved.kept, selector.exclusions request⟩ told))

section One

variable {selector : Selector σ} {request : Request} {l : Ledger σ} {added : History}
  {sel : Selection}

/-- The questions that a selection asks are its effect, phase by phase up to the one that fails. -/
theorem effect_questions (enabled : selector.settings.enabled = true) :
    selector.Effect request l (selector.questions request l) := by
  unfold questions Run.entriesAfter
  rcases hgather : (selector.gather request).exec l with ⟨e | left, m⟩
  · refine .ungathered enabled fun raw k admits => ?_
    cases hgather.symm.trans (gather_eq_ok_iff.2 ⟨raw, k, admits, rfl, rfl⟩)
  obtain ⟨raw, k, admits, rfl, rfl⟩ := gather_eq_ok_iff.1 hgather
  dsimp only
  rcases hsettle : (selector.settle (selector.remaining request raw)).exec
    (selector.readingStart request raw k) with ⟨e | ordered, start⟩
  · rw [History.append_empty]
    refine .unsettled enabled admits fun ordered m orders => ?_
    cases hsettle.symm.trans (settle_eq_ok_iff.2 orders)
  have orders := settle_eq_ok_iff.1 hsettle
  dsimp only
  rcases hsieve : (selector.sieve ordered).exec start with ⟨e | sieved, told⟩
  · rw [History.append_empty]
    refine .unsieved enabled admits orders fun sieved m sieves => ?_
    cases hsieve.symm.trans (sieve_eq_ok_iff.2 sieves)
  exact .announced enabled admits orders (sieve_eq_ok_iff.1 hsieve)

/-- After the filters, all that is left of a selection is to announce it. -/
theorem exec_select_of_sieves {raw ordered : List ModuleId} {sieved : Sieved}
    {k start told : Ledger σ} (enabled : selector.settings.enabled = true)
    (admits : selector.Admits request raw l k)
    (orders : selector.Orders (selector.remaining request raw)
      (selector.readingStart request raw k) ordered start)
    (sieves : selector.Sieves ordered start sieved told) :
    (selector.select request).exec l =
      (selector.announce (selector.exclusions request) sieved).exec told := by
  rw [select_of_enabled enabled, resolve_eq_sift_bind]
  simp only [sift, bind_assoc, Run.exec_bind, gather_eq_ok_iff.2 ⟨raw, k, admits, rfl, rfl⟩,
    settle_eq_ok_iff.2 orders, sieve_eq_ok_iff.2 sieves]

/-- Listeners that are told of a selection that succeeds are told of what is selected. -/
theorem notice_of_effect (effect : selector.Effect request l added)
    (ok : ((selector.select request).exec l).1 = .ok sel) :
    ∀ notice ∈ added.notices, notice.2 = ⟨sel.modules, sel.exclusions⟩ := by
  intro notice hnotice
  cases effect with
  | disabled | ungathered | unsettled | unsieved => cases hnotice
  | announced enabled admits orders sieves =>
    rw [exec_select_of_sieves enabled admits orders sieves] at ok
    obtain ⟨units, k, -, rfl, -⟩ := announce_eq_ok_iff.1 (Prod.ext ok rfl)
    obtain ⟨place, hplace, rfl⟩ := List.mem_mapIdx.1 hnotice
    rfl

end One

/-! ## Requests in turn -/

/-- One request to a selector: how it ended, and what it began with and left behind. -/
structure Call (σ : Type) where
  before : Ledger σ
  outcome : Outcome
  after : Ledger σ

/-- Requests to one selector, each from what the one before left behind. -/
def serve (selector : Selector σ) : List Request → Ledger σ → List (Call σ)
  | [], _ => []
  | request :: requests, l =>
    let (outcome, after) := (selector.select request).exec l
    ⟨l, outcome, after⟩ :: selector.serve requests after

/-- The inspector, the filters and the listeners answer as functions of what they are asked. -/
abbrev Functional (selector : Selector σ) : Prop := selector.Respects fun _ _ => True

/-- What one request to a selector does whose collaborators keep a history. -/
structure Exact (selector : Selector σ) (request : Request) (call : Call (σ × History)) : Prop where
  /-- It does what it does without a history. -/
  unwatched : (selector.select request).exec call.before.first = (call.outcome, call.after.first)
  /-- It adds its own questions to the history. -/
  effect : ∃ added, selector.Effect request call.before.first added ∧
    call.after.world.2 = call.before.world.2 ++ added ∧
    ∀ sel, call.outcome = .ok sel →
      ∀ notice ∈ added.notices, notice.2 = ⟨sel.modules, sel.exclusions⟩
  /-- Other requests do not show in its outcome: it is that of the same selector from any ledger
      in which the same candidates are listed. -/
  fresh : selector.Functional → ∀ start : Ledger σ,
    (selector.candidates.exec start).1 = (selector.candidates.exec call.before.first).1 →
    ((selector.select request).exec start).1 = call.outcome

/-- Where collaborators answer as functions, only the listed candidates can make outcomes differ. -/
theorem Functional.outcome_eq {selector : Selector σ} {request : Request} {l l' : Ledger σ}
    (functional : selector.Functional)
    (listing : (selector.candidates.exec l).1 = (selector.candidates.exec l').1) :
    ((selector.select request).exec l).1 = ((selector.select request).exec l').1 := by
  have twin : selector.Twin selector := ⟨rfl, rfl, rfl, rfl, rfl, rfl⟩
  have hlisting : Run.EndAlike (fun _ _ => True) SameMembers (selector.candidates.exec l)
      (selector.candidates.exec l') :=
    ⟨(Run.Agree.of_eq listing).imp fun _ _ same a => by rw [same], trivial⟩
  exact (endAlike_select twin functional rfl trivial hlisting).agree.eq

/-- One request to a watched selector does what it does unwatched, and its history grows by the
    effect. -/
theorem exact_of_select (selector : Selector σ) (request : Request) (l : Ledger (σ × History)) :
    selector.Exact request ⟨l, ((selector.watched.select request).exec l).1,
      ((selector.watched.select request).exec l).2⟩ := by
  have hrecords : (selector.watched.select request).exec l = _ :=
    records_select l.first l.world.2
  refine
    { unwatched := ?unwatched
      effect := ?effect
      fresh := ?fresh }
  case unwatched =>
    rw [hrecords]
    rfl
  case effect =>
    rw [hrecords]
    have heffect : selector.Effect request l.first
        (if selector.settings.enabled then selector.questions request l.first else ∅) := by
      by_cases enabled : selector.settings.enabled = true
      · rw [if_pos enabled]
        exact effect_questions enabled
      · rw [if_neg enabled]
        exact .disabled (Bool.eq_false_iff.2 enabled)
    exact ⟨_, heffect, rfl, fun sel ok => notice_of_effect heffect ok⟩
  case fresh =>
    intro functional start listing
    rw [hrecords]
    exact functional.outcome_eq listing

/-- Every request to a selector makes its collaborators be asked what its own selection asks, and
    changes nothing for the requests after it but the state of the collaborators. -/
theorem exact_of_serve (selector : Selector σ) (requests : List Request)
    (l : Ledger (σ × History)) :
    List.Forall₂ selector.Exact requests (selector.watched.serve requests l) := by
  induction requests generalizing l with
  | nil => exact .nil
  | cons request requests ih => exact .cons (exact_of_select selector request l) (ih _)

/-- A module in the index is not inspected, and those that the first request excludes, as a module
    and by name, are inspected only for the second. The settings exclude a module from both. -/
theorem exact_of_serve_of_two :
    let selector : Selector Unit :=
      { candidates := return ["m", "a", "x", "y", "v", "m"]
        index := Index.empty.record "m" {}
        inspector := .ofFunction fun id =>
          if id = "a" then { after := NameSet.ofList ["m"] } else {}
        filters := [.rejecting (NameSet.ofList ["a"])]
        listeners := [.silent]
        settings := { exclude := ["y, ghost"] } }
    let requests : List Request := [{ modules := ["x"], names := ["v"] }, {}]
    let calls := selector.watched.serve requests ⟨((), ∅), []⟩
    let merged := NameSet.ofList ["ghost", "v", "x", "y"]
    let configured := NameSet.ofList ["ghost", "y"]
    let first : History :=
      { inspected := ["a"]
        batches := [(0, ["m", "a"])]
        notices := [(0, ⟨["m"], merged⟩)] }
    let second : History :=
      { inspected := ["a", "v", "x"]
        batches := [(0, ["m", "a", "v", "x"])]
        notices := [(0, ⟨["m", "v", "x"], configured⟩)] }
    selector.Functional ∧ List.Forall₂ selector.Exact requests calls ∧
      calls.map (·.outcome) =
        [.ok ⟨["m"], merged, ["a"]⟩, .ok ⟨["m", "v", "x"], configured, ["a"]⟩] ∧
      calls.map (·.after.world.2) = [first, first ++ second] := by
  intro selector requests calls merged configured first second
  have hfunctional : selector.Functional :=
    { inspector := fun id => .pure rfl
      filters := List.forall_mem_singleton.2 fun ids => .pure rfl
      listeners := List.forall_mem_singleton.2 fun notice => .pure rfl }
  refine ⟨hfunctional, exact_of_serve selector requests _, ?_, ?_⟩
  · simp only [calls, selector, requests, merged, configured]
    cbv
  · simp only [calls, selector, requests, merged, configured, first, second]
    cbv

end Activation.Selector
