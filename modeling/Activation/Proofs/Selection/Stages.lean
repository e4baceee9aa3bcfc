-- SUMMARY: What each stage of a successful selection did.
import Activation.Proofs.Candidates
import Activation.Proofs.Exclusion
import Activation.Proofs.Filter
import Activation.Proofs.Order.Survey
import Activation.Selector

/-!
# Stages of a selection

When a stage succeeds, its result and what it logged are known from what its
collaborators answered. A selection succeeds when all its stages do, one after the
other.
-/

namespace Activation.Selector

variable {σ : Type} {selector : Selector σ} {request : Request} {candidates ordered : List ModuleId}
  {exclusions : NameSet} {sel : Selection} {l m : Ledger σ}

/-- The exclusions are those of the request, as modules and as names, and those of the settings. -/
@[simp] theorem mem_exclusions {name : String} :
    name ∈ selector.exclusions request ↔ name ∈ request.modules ∨ name ∈ request.names ∨
      name ∈ selector.settings.excludedNames := by
  unfold exclusions
  rw [Exclusion.mem_merge, NameSet.mem_toList]

theorem select_of_enabled (enabled : selector.settings.enabled = true) :
    selector.select request = selector.resolve request :=
  if_pos enabled

/-- Candidates are discovered exactly if some are listed, and each is given once. -/
theorem discover_eq_ok_iff :
    selector.discover.exec l = (.ok candidates, m) ↔
      ∃ raw k, selector.candidates.exec l = (.ok raw, k) ∧ raw ≠ [] ∧
        candidates = Candidates.distinct raw ∧
        m = ⟨k.world, k.log ++ [.stageComplete .loaded raw.length] ++
          [.stageComplete .deduplicated (Candidates.distinct raw).length]⟩ := by
  unfold discover
  simp only [Run.exec_bind_eq_ok_iff, Run.exec_mapFailure_eq_ok_iff]
  refine exists_congr fun raw => exists_congr fun k => and_congr_right fun _ => ?_
  cases raw with
  | nil => simp
  | cons id rest =>
    constructor
    · intro h
      cases h
      exact ⟨List.cons_ne_nil id rest, rfl, rfl⟩
    · rintro ⟨-, rfl, rfl⟩
      rfl

/-- Discovery fails if candidates cannot be listed or none are, and reports no stage. -/
theorem discover_eq_error_iff {e : SelectionFailure} :
    selector.discover.exec l = (.error e, m) ↔
      (∃ fault, selector.candidates.exec l = (.error fault, m) ∧ e = .candidateSource fault) ∨
        selector.candidates.exec l = (.ok [], m) ∧ e = .emptyCandidatePool := by
  unfold discover
  simp only [Run.exec_bind_eq_error_iff, Run.exec_mapFailure_eq_error_iff,
    Run.exec_mapFailure_eq_ok_iff]
  refine or_congr_right ⟨?_, ?_⟩
  · rintro ⟨raw, k, hraw, h⟩
    cases raw with
    | nil =>
      cases h
      exact ⟨hraw, rfl⟩
    | cons id rest => cases h
  · rintro ⟨hraw, rfl⟩
    exact ⟨[], m, hraw, rfl⟩

/-- Candidates are in order when a pass of their own reads their metadata and arranges
    them. -/
theorem arrange_eq_ok_iff :
    (selector.arrange candidates).exec l = (.ok ordered, m) ↔
      ∃ modules k, Order.Reads (Pass.source selector.index selector.inspector)
          (NameSet.ofList candidates).toList ⟨(l.world, ∅), l.log⟩ modules k ∧
        Order.arrange modules = .ok ordered ∧
        m = ⟨k.world.1, k.log ++ [.candidatesOrdered ordered.length] ++
          [.metadataRead k.world.2.size]⟩ := by
  unfold arrange
  constructor
  · intro h
    obtain ⟨⟨ordered', cache⟩, k, hlocal, h⟩ := Run.exec_bind_eq_ok_iff.1 h
    obtain ⟨k, horder, rfl, rfl⟩ := Run.exec_withLocal_eq_ok_iff.1 hlocal
    cases h
    obtain ⟨modules, k, hreads, harrange, rfl⟩ := Order.order_eq_ok_iff.1 horder
    exact ⟨modules, k, hreads, harrange, rfl⟩
  · rintro ⟨modules, k, hreads, harrange, rfl⟩
    have horder := Order.order_eq_ok_iff.2 ⟨modules, k, hreads, harrange, rfl⟩
    have hlocal := Run.exec_withLocal_eq_ok_iff.2 ⟨_, horder, rfl, rfl⟩
    exact Run.exec_bind_eq_ok_iff.2 ⟨_, _, hlocal, rfl⟩

/-- What is selected and what is filtered are divided by verdicts on all that was ordered. -/
theorem exists_verdicts_of_finish
    (h : (selector.finish exclusions ordered).exec l = (.ok sel, m)) :
    ∃ keep : List Bool, keep.length = ordered.length ∧
      sel = ⟨(Sieved.divide ordered keep).kept, exclusions,
        (Sieved.divide ordered keep).removed⟩ := by
  obtain ⟨sieved, k, hsieved, h⟩ := Run.exec_bind_eq_ok_iff.1 h
  obtain ⟨keep, hlength, rfl⟩ := Filter.exists_verdicts_of_apply hsieved
  refine ⟨keep, hlength, ?_⟩
  obtain ⟨-, k, -, h⟩ := Run.exec_bind_eq_ok_iff.1 h
  obtain ⟨-, k, -, h⟩ := Run.exec_bind_eq_ok_iff.1 h
  obtain ⟨-, k, -, h⟩ := Run.exec_bind_eq_ok_iff.1 h
  obtain ⟨-, k, -, h⟩ := Run.exec_bind_eq_ok_iff.1 h
  cases h
  rfl

/-! ## What is left after exclusions -/

section Remaining

variable (selector : Selector σ) (request : Request) (raw : List ModuleId)

def remaining : List ModuleId :=
  (Candidates.distinct raw).filter fun id => !(selector.exclusions request).contains id

/-- The ledger in which the metadata pass starts, when listing the candidates left `k`. -/
def passStart (k : Ledger σ) : Ledger (σ × Pass.Cache) where
  world := (k.world, ∅)
  log := k.log ++ [.stageComplete .loaded raw.length] ++
    [.stageComplete .deduplicated (Candidates.distinct raw).length] ++
    (Exclusion.ofStanding .unknown (Candidates.distinct raw) (selector.exclusions request)
      selector.locator).map .unknownExclusion ++
    [.stageComplete .exclusionsApplied (selector.remaining request raw).length]

variable {selector request raw}

@[simp] theorem mem_remaining {a : ModuleId} :
    a ∈ selector.remaining request raw ↔ a ∈ raw ∧ a ∉ selector.exclusions request := by
  unfold remaining
  simp [← Bool.not_eq_true]

end Remaining

end Activation.Selector
