-- SUMMARY: A chain of filters divides the candidates.
import Activation.Filter
import Activation.Proofs.InTurn
import Mathlib.Data.List.Forall2
import Mathlib.Data.List.Nodup

/-!
# Filters divide candidates

Whatever the verdicts, what is kept and what is removed are sublists of the candidates.
A chain that succeeds has one verdict for each candidate, so together they are all
candidates. A chain fails with the first filter that fails or miscounts.
-/

namespace Activation

namespace Sieved

variable (candidates : List ModuleId) (keep : List Bool)

theorem sublist_of_filter_zip (p : ModuleId × Bool → Bool) :
    (((candidates.zip keep).filter p).map (·.1)).Sublist candidates := by
  induction candidates generalizing keep with
  | nil => exact List.nil_sublist _
  | cons c candidates ih =>
    cases keep with
    | nil => exact List.nil_sublist _
    | cons k keep =>
      rw [List.zip_cons_cons, List.filter_cons]
      split
      · exact (ih keep).cons_cons c
      · exact (ih keep).cons c

theorem kept_sublist : (divide candidates keep).kept.Sublist candidates :=
  sublist_of_filter_zip candidates keep _

theorem removed_sublist : (divide candidates keep).removed.Sublist candidates :=
  sublist_of_filter_zip candidates keep _

variable {candidates keep}

/-- With one verdict for each candidate, none is lost. -/
theorem kept_append_removed_perm (h : keep.length = candidates.length) :
    ((divide candidates keep).kept ++ (divide candidates keep).removed).Perm candidates := by
  have hdivided := (List.filter_append_perm (·.2) (candidates.zip keep)).map (·.1)
  rw [List.map_append, List.map_fst_zip (Nat.le_of_eq h.symm)] at hdivided
  exact hdivided

/-! ### More lenient verdicts -/

/-- Whatever the first verdicts keep, the second ones keep. -/
abbrev Allows (keep keep' : List Bool) : Prop :=
  List.Forall₂ (fun k k' => k = true → k' = true) keep keep'

variable {keep' : List Bool}

theorem divide_cons (id : ModuleId) (k : Bool) :
    divide (id :: candidates) (k :: keep) =
      if k then
        { divide candidates keep with kept := id :: (divide candidates keep).kept }
      else
        { divide candidates keep with removed := id :: (divide candidates keep).removed } := by
  cases k with
  | true => rfl
  | false => rfl

/-- More lenient verdicts keep more and remove less, in the same order. -/
theorem sublist_of_allows (h : Allows keep keep') (candidates : List ModuleId) :
    (divide candidates keep).kept.Sublist (divide candidates keep').kept ∧
      (divide candidates keep').removed.Sublist (divide candidates keep).removed := by
  induction h generalizing candidates with
  | nil => exact ⟨.refl _, .refl _⟩
  | @cons k k' keep keep' lenient _ ih =>
    cases candidates with
    | nil => exact ⟨.refl _, .refl _⟩
    | cons id candidates =>
      obtain ⟨kept, removed⟩ := ih candidates
      rw [divide_cons, divide_cons]
      cases k with
      | true =>
        rw [lenient rfl]
        exact ⟨kept.cons_cons id, removed⟩
      | false =>
        cases k' with
        | true => exact ⟨kept.cons id, removed.cons id⟩
        | false => exact ⟨kept, removed.cons_cons id⟩

/-- Out of the same candidates in the same order, the second keeps what the first keeps, and
    perhaps more. -/
structure Within (s t : Sieved) : Prop where
  kept : s.kept.Sublist t.kept
  removed : t.removed.Sublist s.removed
  together : (s.kept ++ s.removed).Perm (t.kept ++ t.removed)

/-- More lenient verdicts keep what was kept, in its place. -/
theorem within_of_allows (h : Allows keep keep') (length : keep.length = candidates.length) :
    (divide candidates keep).Within (divide candidates keep') := by
  obtain ⟨kept, removed⟩ := sublist_of_allows h candidates
  have length' : keep'.length = candidates.length := h.length_eq.symm.trans length
  exact ⟨kept, removed, (kept_append_removed_perm length).trans
    (kept_append_removed_perm length').symm⟩

end Sieved

namespace Filter

variable {σ : Type} {filters : List (Filter σ)} {filter : Filter σ} {candidates : List ModuleId}
  {index : Index} {l m : Ledger σ}

theorem judge_eq_ok_iff {verdicts : List Bool} :
    (filter.judge candidates index).exec l = (.ok verdicts, m) ↔
      (filter.verdicts candidates index).exec l = (.ok verdicts, m) ∧
        verdicts.length = candidates.length := by
  simp only [judge, Run.exec_bind_eq_ok_iff, Run.exec_mapFailure_eq_ok_iff]
  constructor
  · rintro ⟨given, k, hgiven, h⟩
    split at h
    · rename_i hlength
      cases h
      exact ⟨hgiven, hlength⟩
    · cases h
  · rintro ⟨hgiven, hlength⟩
    refine ⟨verdicts, m, hgiven, ?_⟩
    rw [if_pos hlength, Run.exec_pure]

/-- All filters judge if all of them answer and every answer has one verdict for each candidate. -/
theorem answered_judge_iff {verdicts : List (List Bool)} {k : Ledger σ} :
    Run.Answered (judge candidates index) filters l verdicts k ↔
      Run.Answered (fun filter => filter.verdicts candidates index) filters l verdicts k ∧
        ∀ given ∈ verdicts, given.length = candidates.length := by
  constructor
  · intro answered
    induction answered with
    | nil => exact ⟨.nil, fun _ h => absurd h List.not_mem_nil⟩
    | cons answer _ ih =>
      obtain ⟨given, count⟩ := judge_eq_ok_iff.1 answer
      exact ⟨.cons given ih.1, List.forall_mem_cons.2 ⟨count, ih.2⟩⟩
  · intro h
    obtain ⟨answered, counts⟩ := h
    induction answered with
    | nil => exact .nil
    | cons answer _ ih =>
      obtain ⟨count, counts⟩ := List.forall_mem_cons.1 counts
      exact .cons (judge_eq_ok_iff.2 ⟨answer, count⟩) (ih counts)

/-! ## How a chain ends -/

/-- A filter fails, or it does not give one verdict for each candidate. -/
inductive Misjudges (filter : Filter σ) (candidates : List ModuleId) (index : Index)
    (l : Ledger σ) : SelectionFailure → Ledger σ → Prop
  | failed {fault : Fault} {m : Ledger σ}
      (failure : (filter.verdicts candidates index).exec l = (.error fault, m)) :
      Misjudges filter candidates index l (.filterFailed filter.name fault) m
  | miscounted {verdicts : List Bool} {m : Ledger σ}
      (given : (filter.verdicts candidates index).exec l = (.ok verdicts, m))
      (count : verdicts.length ≠ candidates.length) :
      Misjudges filter candidates index l
        (.verdictCount filter.name candidates.length verdicts.length) m

/-- A filter fails to judge by failing itself or by a wrong number of verdicts, and in no other
    way. -/
theorem judge_eq_error_iff {e : SelectionFailure} :
    (filter.judge candidates index).exec l = (.error e, m) ↔
      filter.Misjudges candidates index l e m := by
  simp only [judge, Run.exec_bind_eq_error_iff, Run.exec_mapFailure_eq_error_iff,
    Run.exec_mapFailure_eq_ok_iff]
  constructor
  · rintro (⟨fault, hfailed, rfl⟩ | ⟨verdicts, k, hgiven, h⟩)
    · exact .failed hfailed
    · split at h
      · cases h
      · rename_i hcount
        cases h
        exact .miscounted hgiven hcount
  · intro h
    cases h with
    | failed failure => exact .inl ⟨_, failure, rfl⟩
    | miscounted given count =>
      refine .inr ⟨_, _, given, ?_⟩
      rw [if_neg count, Run.exec_throw]

/-- For each candidate, whether it is kept by all verdicts of a list. -/
def unanimous (candidates : List ModuleId) (verdicts : List (List Bool)) : List Bool :=
  verdicts.foldl (fun keep given => keep.zipWith (· && ·) given) (candidates.map fun _ => true)

theorem length_unanimous {verdicts : List (List Bool)}
    (counts : ∀ given ∈ verdicts, given.length = candidates.length) :
    (unanimous candidates verdicts).length = candidates.length := by
  unfold unanimous
  generalize hstart : candidates.map (fun _ => true) = start
  have hlength : start.length = candidates.length := by simp [← hstart]
  clear hstart
  induction verdicts generalizing start with
  | nil => exact hlength
  | cons given verdicts ih =>
    obtain ⟨hgiven, hrest⟩ := List.forall_mem_cons.1 counts
    refine ih hrest _ ?_
    rw [List.length_zipWith, hlength, hgiven, Nat.min_self]

/-- The verdicts of a single filter decide alone. -/
theorem unanimous_singleton {keep : List Bool} (h : keep.length = candidates.length) :
    unanimous candidates [keep] = keep := by
  show List.zipWith (· && ·) (candidates.map fun _ => true) keep = keep
  induction candidates generalizing keep with
  | nil => exact (List.length_eq_zero_iff.1 h).symm
  | cons id candidates ih =>
    cases keep with
    | nil => cases h
    | cons k keep =>
      rw [List.map_cons, List.zipWith_cons_cons, Bool.true_and, ih (Nat.succ.inj h)]

/-- What a chain of filters writes to the log when it has divided the candidates. -/
def divided (filters : List (Filter σ)) (sieved : Sieved) : List Event :=
  if sieved.removed = [] then []
  else [.candidatesFiltered filters.length sieved.removed.length]

/-- Of the filters, only their number is written. -/
theorem divided_congr {τ : Type} {filters' : List (Filter τ)}
    (length : filters'.length = filters.length) (sieved : Sieved) :
    divided filters' sieved = divided filters sieved := by
  unfold divided
  rw [length]

/-- Divide candidates, and write to the log if some are removed. -/
def conclude (filters : List (Filter σ)) (sieved : Sieved) : Run σ SelectionFailure Sieved := do
  if sieved.removed ≠ [] then
    Run.report [.candidatesFiltered filters.length sieved.removed.length]
  return sieved

@[simp] theorem exec_conclude (filters : List (Filter σ)) (sieved : Sieved) :
    (conclude filters sieved).exec l = (.ok sieved, l.logged (divided filters sieved)) := by
  unfold conclude divided
  by_cases h : sieved.removed = []
  · simp only [h, ne_eq, not_true_eq_false, if_false, if_true, Ledger.logged, List.append_nil]
    rfl
  · simp only [h, ne_eq, not_false_eq_true, if_true, if_false]
    rfl

/-- All filters judge before anything is divided. -/
theorem apply_eq_mapM_bind (filters : List (Filter σ)) (candidates : List ModuleId)
    (index : Index) : apply filters candidates index =
      (do
        let verdicts ← filters.mapM (judge candidates index)
        conclude filters (.divide candidates (unanimous candidates verdicts))) := by
  have hjudge : judgeAll filters candidates index =
      (do return unanimous candidates (← filters.mapM (judge candidates index))) :=
    Run.foldlM_eq_mapM_bind _ _
  rw [apply, hjudge, bind_assoc]
  rfl

/-- A chain succeeds when every filter judges all candidates. -/
theorem apply_eq_ok_iff {sieved : Sieved} :
    (apply filters candidates index).exec l = (.ok sieved, m) ↔
      ∃ verdicts k, Run.Answered (judge candidates index) filters l verdicts k ∧
        sieved = .divide candidates (unanimous candidates verdicts) ∧
        m = k.logged (divided filters sieved) := by
  simp only [apply_eq_mapM_bind, Run.exec_bind_eq_ok_iff, Run.exec_mapM_eq_ok_iff, exec_conclude,
    Prod.mk.injEq, Except.ok.injEq]
  constructor
  · rintro ⟨verdicts, k, answered, rfl, rfl⟩
    exact ⟨verdicts, k, answered, rfl, rfl⟩
  · rintro ⟨verdicts, k, answered, rfl, rfl⟩
    exact ⟨verdicts, k, answered, rfl, rfl⟩

/-- A chain fails with the first filter that misjudges. -/
theorem apply_eq_error_iff {e : SelectionFailure} :
    (apply filters candidates index).exec l = (.error e, m) ↔
      ∃ filter k, Run.Turn (judge candidates index) filters l filter k ∧
        filter.Misjudges candidates index k e m := by
  simp only [apply_eq_mapM_bind, Run.exec_bind_eq_error_iff, Run.exec_mapM_eq_error_iff,
    judge_eq_error_iff, exec_conclude, Prod.mk.injEq, reduceCtorEq, false_and, and_false,
    exists_false, or_false]

/-- A chain that succeeds divides the candidates by verdicts on all of them. -/
theorem exists_verdicts_of_apply {sieved : Sieved}
    (h : (apply filters candidates index).exec l = (.ok sieved, m)) :
    ∃ keep : List Bool, keep.length = candidates.length ∧ sieved = .divide candidates keep := by
  obtain ⟨verdicts, k, answered, rfl, -⟩ := apply_eq_ok_iff.1 h
  exact ⟨_, length_unanimous (answered_judge_iff.1 answered).2, rfl⟩

end Filter

end Activation
