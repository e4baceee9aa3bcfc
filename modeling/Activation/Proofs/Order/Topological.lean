-- SUMMARY: Candidates are ordered exactly when their constraints are acyclic.
import Activation.Proofs.Order.Arrangement
import Activation.Proofs.Order.Survey
import Mathlib

/-!
# The order is topological

Where the metadata of all candidates can be read, the order exists exactly when no
chain of constraints leads from a candidate to itself. It has every candidate once and
respects every chain. Otherwise the only failure is a detected cycle.
-/

namespace Activation.Order

variable {σ : Type} {source : Source σ} {candidates out : List ModuleId} {l m after : Ledger σ}
  {modules : List Declared}

/-- The order of candidates whose metadata is read is an arrangement of what was read. -/
theorem exists_order_eq_ok_iff
    (reads : Reads source (NameSet.ofList candidates).toList l modules m) :
    (∃ after, (order source candidates).exec l = (.ok out, after)) ↔ arrange modules = .ok out := by
  rw [exec_order_of_reads reads]
  cases arrange modules with
  | ok out' =>
    constructor
    · rintro ⟨_, h⟩
      cases h
      rfl
    · intro h
      cases h
      exact ⟨_, rfl⟩
  | error conflict =>
    constructor
    · rintro ⟨_, h⟩
      cases h
    · intro h
      cases h

theorem Reads.baselineIds_perm
    (reads : Reads source (NameSet.ofList candidates).toList l modules m) :
    (baselineIds modules).Perm candidates.dedup := by
  refine (List.perm_ext_iff_of_nodup reads.byName.nodup_baselineIds
    (List.nodup_dedup candidates)).2 fun a => ?_
  rw [mem_baselineIds, reads.mem_ids, List.mem_dedup]

/-- The only failure is the conflict that stops the arrangement. -/
theorem exists_order_eq_error_iff
    (reads : Reads source (NameSet.ofList candidates).toList l modules m) {e : SelectionFailure} :
    (∃ after, (order source candidates).exec l = (.error e, after)) ↔
      ∃ conflict, arrange modules = .error conflict ∧
        e = .cycleDetected conflict.first conflict.second := by
  rw [exec_order_of_reads reads]
  cases arrange modules with
  | ok out => simp
  | error conflict => simp [eq_comm]

/-- Once all metadata is read, only a cycle can keep candidates from being ordered. -/
theorem error_eq_cycleDetected
    (reads : Reads source (NameSet.ofList candidates).toList l modules m) {e : SelectionFailure}
    (herror : (order source candidates).exec l = (.error e, after)) :
    ∃ a b, e = .cycleDetected a b := by
  obtain ⟨conflict, -, hfailure⟩ := (exists_order_eq_error_iff reads).1 ⟨after, herror⟩
  exact ⟨conflict.first, conflict.second, hfailure⟩

/-- Candidates that can be read are ordered exactly when their constraints have no cycle.
    The order is then a permutation of the distinct candidates that respects every chain
    of constraints, and otherwise the failure is a detected cycle. -/
theorem order_ok_iff_acyclic
    (reads : Reads source (NameSet.ofList candidates).toList l modules m) :
    ((∃ out after, (order source candidates).exec l = (.ok out, after)) ↔
        ∀ a, ¬ Chain modules a a) ∧
      (∀ out after, (order source candidates).exec l = (.ok out, after) →
        out.Perm candidates.dedup ∧ ∀ a b, Chain modules a b → StandsBefore out a b) ∧
      ∀ e after, (order source candidates).exec l = (.error e, after) →
        ∃ a b, e = .cycleDetected a b := by
  refine ⟨?_, ?_, ?_⟩
  · rw [← exists_arrange_eq_ok_iff reads.byName]
    exact exists_congr fun out => exists_order_eq_ok_iff reads
  · intro out after hok
    have harrange : arrange modules = .ok out := (exists_order_eq_ok_iff reads).1 ⟨after, hok⟩
    refine ⟨(perm_of_arrange reads.byName harrange).trans reads.baselineIds_perm, ?_⟩
    intro a b hchain
    exact standsBefore_of_arrange reads.byName harrange hchain
  · intro e after herror
    exact error_eq_cycleDetected reads herror

/-- Of two candidates, listed with a repeat, the smaller must follow the larger. -/
theorem order_ok_iff_acyclic_of_two :
    let follower : Metadata := { after := NameSet.ofList ["b"] }
    let source : Source Unit :=
      { wasPrecomputed := fun _ => false
        metadata := fun id => return if id = "a" then follower else {} }
    let modules : List Declared := [⟨"a", follower⟩, ⟨"b", {}⟩]
    Reads source (NameSet.ofList ["b", "a", "b"]).toList ⟨(), []⟩ modules ⟨(), []⟩ ∧
      Chain modules "b" "a" ∧
      ∃ after, (order source ["b", "a", "b"]).exec ⟨(), []⟩ = (.ok ["b", "a"], after) ∧
        ["b", "a"].Perm ["b", "a", "b"].dedup ∧ StandsBefore ["b", "a"] "b" "a" := by
  intro follower source modules
  have hreads : Reads source (NameSet.ofList ["b", "a", "b"]).toList ⟨(), []⟩ modules ⟨(), []⟩ :=
    .cons rfl (.cons rfl .nil)
  have hchain : Chain modules "b" "a" :=
    .single ⟨⟨"b", {}⟩, by simp [modules], ⟨"a", follower⟩, by simp [modules], rfl, rfl,
      .inl (by simp [follower])⟩
  have harrange : arrange modules = .ok ["b", "a"] := by
    simp only [modules, follower]
    cbv
  have hok : (order source ["b", "a", "b"]).exec ⟨(), []⟩ =
      (.ok ["b", "a"], ⟨(), [.candidatesOrdered 2]⟩) := by
    rw [exec_order_of_reads hreads, harrange]
    rfl
  obtain ⟨-, hresult, -⟩ := order_ok_iff_acyclic hreads
  obtain ⟨hperm, hrespects⟩ := hresult _ _ hok
  exact ⟨hreads, hchain, _, hok, hperm, hrespects _ _ hchain⟩

end Activation.Order
