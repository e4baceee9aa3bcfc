-- SUMMARY: Telling listeners ends with the first that fails.
import Activation.Listener
import Activation.Proofs.InTurn

/-!
# Telling listeners

Listeners are told one after the other. All of them are told exactly when none fails, and
otherwise the failure is that of the first.
-/

namespace Activation.Listener

variable {σ : Type} {listeners : List (Listener σ)} {notice : Notice} {l m : Ledger σ}

/-- Let a listener hear a notice. -/
def hear (notice : Notice) (listener : Listener σ) : Run σ Fault Unit := listener.notify notice

theorem tellAll_eq_ok_iff {u : Unit} :
    (tellAll listeners notice).exec l = (.ok u, m) ↔
      ∃ units, Run.Answered (hear notice) listeners l units m := by
  simp only [tellAll, Run.forM_eq_mapM_bind, Run.exec_bind_eq_ok_iff, Run.exec_mapM_eq_ok_iff,
    Run.exec_pure, Prod.mk.injEq, true_and]
  constructor
  · rintro ⟨units, k, answered, rfl⟩
    exact ⟨units, answered.imp fun _ _ _ _ => Run.exec_mapFailure_eq_ok_iff.1⟩
  · rintro ⟨units, answered⟩
    exact ⟨units, m, answered.imp fun _ _ _ _ => Run.exec_mapFailure_eq_ok_iff.2, rfl⟩

/-- Telling listeners fails with the first listener that fails. -/
theorem tellAll_eq_error_iff {e : SelectionFailure} :
    (tellAll listeners notice).exec l = (.error e, m) ↔
      ∃ listener k, Run.Turn (hear notice) listeners l listener k ∧
        ∃ fault, (hear notice listener).exec k = (.error fault, m) ∧
          e = .listenerFailed listener.name fault := by
  simp only [tellAll, Run.forM_eq_mapM_bind, Run.exec_bind_eq_error_iff,
    Run.exec_mapM_eq_error_iff, tell, Run.exec_mapFailure_eq_error_iff, Run.exec_pure,
    Prod.mk.injEq, reduceCtorEq, false_and, and_false, exists_false, or_false]
  refine exists_congr fun listener => exists_congr fun k => and_congr_left fun _ => ?_
  constructor
  · exact Run.Turn.imp fun _ _ b _ h => ⟨b, Run.exec_mapFailure_eq_ok_iff.1 h⟩
  · exact Run.Turn.imp fun _ _ b _ h => ⟨b, Run.exec_mapFailure_eq_ok_iff.2 h⟩

end Activation.Listener
