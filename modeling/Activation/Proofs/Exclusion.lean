-- SUMMARY: What merged exclusions contain, and when applying them succeeds.
import Activation.Exclusion
import Activation.Proofs.Runs

/-!
# Exclusions

A merged exclusion comes from any of the three sides. Applying exclusions succeeds when
none of them is invalid; what is left are the candidates that are no exclusion, and the
log is warned of the unknown ones.
-/

namespace Activation.Exclusion

variable {σ : Type} {candidates remaining : List ModuleId} {exclusions : NameSet}
  {isLoadable : Locator} {name : String} {l m : Ledger σ}

/-- All three places that ask for exclusions count. -/
@[simp] theorem mem_merge {ids names external : List String} :
    name ∈ merge ids names external ↔ name ∈ ids ∨ name ∈ names ∨ name ∈ external := by
  unfold merge
  simp

/-- Exclusions are applied where none of them is invalid. -/
theorem apply_eq_ok_iff :
    (apply candidates exclusions isLoadable).exec l = (.ok remaining, m) ↔
      ofStanding .foreign candidates exclusions isLoadable = [] ∧
        remaining = (candidates.filter fun id => !exclusions.contains id) ∧
        m = ⟨l.world, l.log ++
          (ofStanding .unknown candidates exclusions isLoadable).map .unknownExclusion⟩ := by
  simp only [apply, invalid, Run.exec_bind, Run.exec_report, Run.exec_pure]
  cases ofStanding .foreign candidates exclusions isLoadable with
  | nil =>
    simp only [Run.exec_pure, Prod.mk.injEq, Except.ok.injEq, true_and]
    constructor
    · rintro ⟨rfl, rfl⟩
      exact ⟨rfl, rfl⟩
    · rintro ⟨rfl, rfl⟩
      exact ⟨rfl, rfl⟩
  | cons name names => simp

/-- Exclusions fail exactly if some are invalid, and all of these are named after the unknown ones
    are warned about. -/
theorem apply_eq_error_iff {e : SelectionFailure} :
    (apply candidates exclusions isLoadable).exec l = (.error e, m) ↔
      ofStanding .foreign candidates exclusions isLoadable ≠ [] ∧
        e = .invalidExclusion (ofStanding .foreign candidates exclusions isLoadable) ∧
        m = l.logged ((ofStanding .unknown candidates exclusions isLoadable).map
          .unknownExclusion) := by
  simp only [apply, invalid, Run.exec_bind, Run.exec_report, Run.exec_pure]
  cases ofStanding .foreign candidates exclusions isLoadable with
  | nil => simp
  | cons name names =>
    simp only [Run.exec_throw, Prod.mk.injEq, Except.error.injEq, ne_eq, reduceCtorEq,
      not_false_eq_true, true_and]
    constructor
    · rintro ⟨rfl, rfl⟩
      exact ⟨rfl, rfl⟩
    · rintro ⟨rfl, rfl⟩
      exact ⟨rfl, rfl⟩

/-! ## Standing -/

theorem standing_eq_candidate_iff :
    standing candidates isLoadable name = .candidate ↔ name ∈ candidates := by
  unfold standing
  grind

theorem standing_eq_foreign_iff : standing candidates isLoadable name = .foreign ↔
    isLoadable name = true ∧ name ∉ candidates := by
  unfold standing
  grind

theorem standing_eq_unknown_iff : standing candidates isLoadable name = .unknown ↔
    isLoadable name = false ∧ name ∉ candidates := by
  unfold standing
  grind

theorem mem_ofStanding {s : Standing} : name ∈ ofStanding s candidates exclusions isLoadable ↔
    name ∈ exclusions ∧ standing candidates isLoadable name = s := by
  rw [ofStanding, List.mem_filter, NameSet.mem_toList, decide_eq_true_iff]

theorem mem_ofStanding_foreign : name ∈ ofStanding .foreign candidates exclusions isLoadable ↔
    name ∈ exclusions ∧ isLoadable name = true ∧ name ∉ candidates :=
  mem_ofStanding.trans (and_congr_right fun _ => standing_eq_foreign_iff)

theorem pairwise_ofStanding {s : Standing} :
    (ofStanding s candidates exclusions isLoadable).Pairwise (· < ·) :=
  exclusions.ascending.filter _

end Activation.Exclusion
