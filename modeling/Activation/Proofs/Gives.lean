-- SUMMARY: Runs whose result is the same from every ledger.
import Activation.Proofs.Runs

/-!
# Results that do not depend on the ledger

A run that acts on no collaborator and does not read the log gives the same result wherever it
starts. The result of a composed run is composed like the run.
-/

namespace Activation.Run

variable {σ ε ε' α β : Type} {x : Run σ ε α} {f : α → Run σ ε β} {r : Except ε α}

/-- The run has this result, from whatever ledger it starts. -/
def Gives (x : Run σ ε α) (result : Except ε α) : Prop :=
  ∀ l, (x.exec l).1 = result

theorem Gives.pure (a : α) : Gives (Pure.pure a : Run σ ε α) (.ok a) := fun _ => rfl

theorem Gives.throw (e : ε) : Gives (MonadExcept.throw e : Run σ ε α) (.error e) := fun _ => rfl

theorem Gives.ofExcept (r : Except ε α) : Gives (ofExcept r : Run σ ε α) r := fun _ => rfl

theorem Gives.report (events : List Event) : Gives (report events : Run σ ε Unit) (.ok ()) :=
  fun _ => rfl

theorem Gives.mapFailure (h : Gives x r) (change : ε → ε') :
    Gives (x.mapFailure change) (r.mapError change) := by
  intro l
  rw [exec_mapFailure, h l]

/-- Only what the first run does give matters for the second. -/
theorem Gives.bind_of_ok {g : α → Except ε β} (h : Gives x r)
    (next : ∀ a, r = .ok a → Gives (f a) (g a)) : Gives (x >>= f) (r >>= g) := by
  intro l
  have hr := h l
  rw [exec_bind]
  rcases hx : x.exec l with ⟨_ | a, k⟩
  · rw [hx] at hr
    rw [← hr]
    rfl
  · rw [hx] at hr
    rw [← hr]
    exact next a hr.symm k

theorem Gives.bind {g : α → Except ε β} (h : Gives x r) (next : ∀ a, Gives (f a) (g a)) :
    Gives (x >>= f) (r >>= g) :=
  h.bind_of_ok fun a _ => next a

theorem Gives.map (h : Gives x r) (f : α → β) : Gives (do return f (← x)) (r.map f) := by
  intro l
  rw [exec_map, h l]

theorem Gives.ite {c : Prop} [Decidable c] {x' : Run σ ε α} {r' : Except ε α} (h : Gives x r)
    (h' : Gives x' r') : Gives (if c then x else x') (if c then r else r') := by
  by_cases hc : c
  · rw [if_pos hc, if_pos hc]
    exact h
  · rw [if_neg hc, if_neg hc]
    exact h'

/-- What is reported about a result does not change it. -/
theorem Gives.reporting (h : Gives x r) (events : α → List Event) :
    Gives (do let a ← x; Run.report (events a); return a) r := by
  intro l
  have hr := h l
  rw [exec_bind]
  rcases hx : x.exec l with ⟨_ | a, k⟩
  · rw [hx] at hr
    exact hr
  · rw [hx] at hr
    exact hr

/-- Questions whose answers are fixed beforehand have fixed answers together, up to the first
    failure. -/
theorem Gives.mapM {ask : α → Run σ ε β} {answer : α → Except ε β} {as : List α}
    (h : ∀ a ∈ as, Gives (ask a) (answer a)) : Gives (as.mapM ask) (as.mapM answer) := by
  induction as with
  | nil => exact .pure []
  | cons a as ih =>
    rw [List.mapM_cons, List.mapM_cons]
    have hrest := ih fun a' ha' => h a' (List.mem_cons_of_mem a ha')
    exact (h a List.mem_cons_self).bind fun b => hrest.bind fun bs => .pure (b :: bs)

end Activation.Run
