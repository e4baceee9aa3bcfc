-- SUMMARY: What a chain of filters does to candidates, and which of its filters are asked.
import Activation.Proofs.Except
import Activation.Proofs.Filter.Verdicts
import Activation.Proofs.Gives
import Activation.Proofs.Selection.Questions
import Activation.Rehearsal
import Mathlib

/-!
# Chains of filters

The filters of a chain are asked in turn, each about all candidates, until one fails or gives the
wrong number of verdicts. If none does, candidates are divided by position. A chain without
filters, and one that rejects nothing, may be cut short, to the same effect.

What is kept depends on the verdicts alone. So filters whose answers depend on nothing but the
candidates and the index may be put in another order, and asked more than once.
-/

namespace Activation.Filter

open Sieved

variable {σ : Type} {filters filters' : List (Filter σ)} {filter : Filter σ}
  {candidates : List ModuleId} {index : Index} {keep : List Bool} {l l' : Ledger σ}

/-! ## How a chain ends -/

/-- How a chain of filters ends, and how many of its filters are asked. Each of them is asked
    from the ledger that the one before left. -/
inductive Ends (candidates : List ModuleId) (index : Index) (l : Ledger σ) :
    List (Filter σ) → Except SelectionFailure Sieved × Ledger σ → Nat → Prop
  /-- All filters before one give as many verdicts as there are candidates, and it does not. -/
  | stopped {before after : List (Filter σ)} {filter : Filter σ} {verdicts : List (List Bool)}
      {k m : Ledger σ} {e : SelectionFailure}
      (answered : Run.Answered (fun filter => filter.verdicts candidates index) before l verdicts k)
      (counts : ∀ given ∈ verdicts, given.length = candidates.length)
      (misjudges : filter.Misjudges candidates index k e m) :
      Ends candidates index l (before ++ filter :: after) (.error e, m) (before.length + 1)
  /-- All filters give as many verdicts as there are candidates. -/
  | divided {filters : List (Filter σ)} {verdicts : List (List Bool)} {k : Ledger σ}
      (answered :
        Run.Answered (fun filter => filter.verdicts candidates index) filters l verdicts k)
      (counts : ∀ given ∈ verdicts, given.length = candidates.length) :
      Ends candidates index l filters
        (.ok (byPosition candidates verdicts),
          k.logged (Filter.divided filters (byPosition candidates verdicts)))
        filters.length

/-- A chain ends as it should, and the filters that are asked are the first ones. -/
theorem ends_apply (filters : List (Filter σ)) (candidates : List ModuleId) (index : Index)
    (l : Ledger σ) :
    Ends candidates index l filters ((apply filters candidates index).exec l)
      (Run.asked (judge candidates index) filters l).length := by
  rcases hrun : (apply filters candidates index).exec l with ⟨e | sieved, m⟩
  · obtain ⟨filter, k, turn, misjudges⟩ := apply_eq_error_iff.1 hrun
    obtain ⟨before, after, verdicts, rfl, answered⟩ := Run.turn_iff.1 turn
    obtain ⟨given, counts⟩ := answered_judge_iff.1 answered
    have hasked : Run.asked (judge candidates index) (before ++ filter :: after) l =
        before ++ [filter] := by
      simp only [answered.asked_append, Run.asked, judge_eq_error_iff.2 misjudges]
    rw [hasked, List.length_append]
    exact .stopped given counts misjudges
  · obtain ⟨verdicts, k, answered, rfl, rfl⟩ := apply_eq_ok_iff.1 hrun
    obtain ⟨given, counts⟩ := answered_judge_iff.1 answered
    have hasked : Run.asked (judge candidates index) filters l = filters := by
      have happend := answered.asked_append []
      simp only [List.append_nil, Run.asked] at happend
      exact happend
    rw [hasked, divide_unanimous counts]
    exact .divided given counts

/-- What a chain gives are the verdicts of its filters, put together. -/
theorem apply_result (filters : List (Filter σ)) (candidates : List ModuleId) (index : Index)
    (l : Ledger σ) :
    ((apply filters candidates index).exec l).1 =
      ((filters.mapM (judge candidates index)).exec l).1.map (byPosition candidates) := by
  rw [apply_eq_mapM_bind, Run.exec_bind]
  rcases hverdicts : (filters.mapM (judge candidates index)).exec l with ⟨e | verdicts, k⟩
  · rfl
  · have answered := Run.exec_mapM_eq_ok_iff.1 hverdicts
    simp only [exec_conclude, divide_unanimous (answered_judge_iff.1 answered).2]
    rfl

/-! ## Cutting a chain short -/

/-- Pass candidates through a chain of filters by marking rejections. With shortcuts, nothing is
    divided when there is no filter or no rejection. -/
def applyByMarks (shortcuts : Bool) (filters : List (Filter σ)) (candidates : List ModuleId)
    (index : Index) : Run σ SelectionFailure Sieved := do
  if shortcuts ∧ filters = [] then
    return { kept := candidates }
  let skip ← filters.foldlM
    (fun skip filter => return mark skip (← filter.judge candidates index))
    (List.replicate candidates.length false)
  if shortcuts ∧ true ∉ skip then
    return { kept := candidates }
  let sieved := divideMarked candidates skip
  Run.report [.candidatesFiltered filters.length sieved.removed.length]
  return sieved

/-- What is marked at the end is what some verdicts reject. -/
theorem foldlM_mark (filters : List (Filter σ)) (candidates : List ModuleId) (index : Index) :
    (filters.foldlM (fun skip filter => return mark skip (← filter.judge candidates index))
        (List.replicate candidates.length false) : Run σ SelectionFailure (List Bool)) =
      (do
        let verdicts ← filters.mapM (judge candidates index)
        return (unanimous candidates verdicts).map (!·)) := by
  have hstart : List.replicate candidates.length false =
      (candidates.map fun _ => true).map (!·) := by simp
  simp only [Run.foldlM_eq_mapM_bind, hstart, foldl_mark]
  rfl

/-- What is concluded is what a division after shortcuts says. -/
theorem conclude_divide (h : keep.length = candidates.length) :
    conclude filters (divide candidates keep) =
      (if true ∉ keep.map (!·) then return { kept := candidates }
      else do
        let sieved := divideMarked candidates (keep.map (!·))
        Run.report [.candidatesFiltered filters.length sieved.removed.length]
        return sieved) := by
  rw [divideMarked_map_not, conclude]
  cases rejected : decide (false ∈ keep) with
  | false =>
    have none : false ∉ keep := of_decide_eq_false rejected
    rw [divide_of_notMem h none]
    simp [none]
  | true =>
    have rejection : false ∈ keep := of_decide_eq_true rejected
    simp [rejection, removed_divide_ne_nil h rejection]

/-- A chain that is cut short does the same. -/
theorem applyByMarks_true (filters : List (Filter σ)) (candidates : List ModuleId)
    (index : Index) :
    applyByMarks true filters candidates index = apply filters candidates index := by
  rw [apply_eq_mapM_bind, applyByMarks, foldlM_mark]
  cases filters with
  | nil =>
    have counts : ∀ given ∈ ([] : List (List Bool)), given.length = candidates.length := by simp
    simp only [and_self, if_true, List.mapM_nil, pure_bind,
      conclude_divide (length_unanimous counts)]
    simp [unanimous]
  | cons filter filters =>
    simp only [true_and, reduceCtorEq, if_false, bind_assoc, pure_bind]
    apply Run.bind_congr_ok
    intro l verdicts k hverdicts
    have answered := Run.exec_mapM_eq_ok_iff.1 hverdicts
    rw [conclude_divide (length_unanimous (answered_judge_iff.1 answered).2)]

/-- A chain that is not cut short keeps and removes the same. -/
theorem applyByMarks_result (shortcuts : Bool) (filters : List (Filter σ))
    (candidates : List ModuleId) (index : Index) (l : Ledger σ) :
    ((applyByMarks shortcuts filters candidates index).exec l).1 =
      ((apply filters candidates index).exec l).1 := by
  cases shortcuts with
  | true => rw [applyByMarks_true]
  | false =>
    rw [apply_eq_mapM_bind, applyByMarks, foldlM_mark]
    simp only [Bool.false_eq_true, false_and, if_false, bind_assoc, pure_bind, divideMarked_map_not,
      Run.exec_bind, exec_conclude]
    rcases (filters.mapM (judge candidates index)).exec l with ⟨e | verdicts, k⟩
    · rfl
    · rfl

/-! ## The order of filters -/

/-- A filter whose answer depends on nothing but the batch gives judgements that do not. -/
theorem gives_judge_of_gives
    (h : ∃ answer, Run.Gives (filter.verdicts candidates index) answer) (l : Ledger σ) :
    Run.Gives (filter.judge candidates index) ((filter.judge candidates index).exec l).1 := by
  obtain ⟨answer, hanswer⟩ := h
  have hjudge : ∃ r, Run.Gives (filter.judge candidates index) r :=
    ⟨_, (hanswer.mapFailure _).bind fun verdicts => .ite (.pure verdicts) (.throw _)⟩
  obtain ⟨r, hr⟩ := hjudge
  rw [hr l]
  exact hr

/-- Filters whose answers depend on nothing but the batch keep and remove the same in whatever
    order they are asked, and however often. -/
theorem apply_eq_ok_of_sameMembers
    (constant : ∀ filter ∈ filters, ∃ answer, Run.Gives (filter.verdicts candidates index) answer)
    (same : ∀ filter, filter ∈ filters' ↔ filter ∈ filters) {sieved : Sieved}
    (h : ((apply filters candidates index).exec l).1 = .ok sieved) :
    ((apply filters' candidates index).exec l').1 = .ok sieved := by
  -- What a filter says from one ledger stands for what it says from any.
  have hjudge := fun filter hfilter => gives_judge_of_gives (constant filter hfilter) l
  have hjudge' := fun filter hfilter => hjudge filter ((same filter).1 hfilter)
  rw [apply_result, Run.Gives.mapM hjudge l, map_eq_ok_iff] at h
  obtain ⟨verdicts, hverdicts, rfl⟩ := h
  obtain ⟨verdicts', hverdicts'⟩ : ∃ verdicts',
      filters'.mapM (fun filter => ((judge candidates index filter).exec l).1) = .ok verdicts' := by
    rw [exists_mapM_eq_ok_iff]
    intro filter hfilter
    exact exists_mapM_eq_ok_iff.1 ⟨verdicts, hverdicts⟩ filter ((same filter).1 hfilter)
  rw [apply_result, Run.Gives.mapM hjudge' l', map_eq_ok_iff]
  refine ⟨verdicts', hverdicts', byPosition_congr fun given => ?_⟩
  simp only [mem_of_mapM hverdicts, mem_of_mapM hverdicts', same]

/-- A filter that always gives the same verdicts on a batch, one for each candidate, and does
    nothing else. -/
def Steady (candidates : List ModuleId) (index : Index) (filter : Filter σ) : Prop :=
  ∃ given, given.length = candidates.length ∧
    ∀ l, (filter.verdicts candidates index).exec l = (.ok given, l)

theorem exists_judge_of_steady {steady : Filter σ → Bool}
    (h : ∀ filter ∈ filters, steady filter = true → filter.Steady candidates index) :
    ∃ given : Filter σ → List Bool, ∀ filter ∈ filters, steady filter = true →
      ∀ l, (filter.judge candidates index).exec l = (.ok (given filter), l) := by
  choose! given count hgiven using h
  exact ⟨given, fun filter hfilter hsteady l =>
    judge_eq_ok_iff.2 ⟨hgiven filter hfilter hsteady l, count filter hfilter hsteady⟩⟩

/-- In any chain, steady filters may be moved and asked more than once. -/
theorem apply_result_congr_of_steady {steady : Filter σ → Bool}
    (hsteady : ∀ filter ∈ filters, steady filter = true → filter.Steady candidates index)
    (same : ∀ filter, steady filter = true → (filter ∈ filters' ↔ filter ∈ filters))
    (others : (filters'.filter fun filter => !steady filter) =
      filters.filter fun filter => !steady filter) (l : Ledger σ) :
    ((apply filters' candidates index).exec l).1 =
      ((apply filters candidates index).exec l).1 := by
  -- Both chains are compared with the one that has no steady filters.
  obtain ⟨given, hgiven⟩ := exists_judge_of_steady hsteady
  have hgiven' : ∀ filter ∈ filters', steady filter = true →
      ∀ l, (filter.judge candidates index).exec l = (.ok (given filter), l) :=
    fun filter hfilter h => hgiven filter ((same filter h).1 hfilter) h
  have hagree := Run.agree_mapM_filter hgiven l
  have hagree' := Run.agree_mapM_filter hgiven' l
  rw [others] at hagree'
  rw [apply_result, apply_result]
  generalize ((filters.mapM (judge candidates index)).exec l).1 = r at hagree ⊢
  generalize ((filters'.mapM (judge candidates index)).exec l).1 = r' at hagree' ⊢
  generalize (((filters.filter fun filter => !steady filter).mapM
    (judge candidates index)).exec l).1 = rest at hagree hagree'
  cases hagree with
  | error =>
    cases hagree'
    rfl
  | ok related =>
    cases hagree' with
    | ok related' =>
      refine congrArg Except.ok (byPosition_congr fun verdicts => ?_)
      rw [related, related']
      refine or_congr_right (exists_congr fun filter => ?_)
      exact and_congr_left fun h => same filter h.1

/-! ## All about a chain -/

/-- Filters are asked in turn, each about all candidates, until one misjudges. If none does,
    candidates are divided by position, whether or not the chain is cut short. Neither the order
    of filters nor their number counts where answers depend on nothing but the batch. -/
theorem chain_divides_by_position (filters : List (Filter σ)) (candidates : List ModuleId)
    (index : Index) :
    (∀ l, ∃ asked,
      Ends candidates index l filters ((apply filters candidates index).exec l) asked ∧
      ∀ h, (apply (watchedAll filters) candidates index).exec (l.beside h) =
        (((apply filters candidates index).exec l).1,
          ((apply filters candidates index).exec l).2.beside
            (h ++ { batches := (List.range asked).map fun place => (place, candidates) }))) ∧
    applyByMarks true filters candidates index = apply filters candidates index ∧
    (∀ shortcuts l, ((applyByMarks shortcuts filters candidates index).exec l).1 =
      ((apply filters candidates index).exec l).1) ∧
    (∀ filters',
      (∀ filter ∈ filters, ∃ answer, Run.Gives (filter.verdicts candidates index) answer) →
      (∀ filter, filter ∈ filters' ↔ filter ∈ filters) →
      ∀ l l' sieved, ((apply filters' candidates index).exec l').1 = .ok sieved ↔
        ((apply filters candidates index).exec l).1 = .ok sieved) ∧
    ∀ filters' (steady : Filter σ → Bool),
      (∀ filter ∈ filters, steady filter = true → filter.Steady candidates index) →
      (∀ filter, steady filter = true → (filter ∈ filters' ↔ filter ∈ filters)) →
      (filters'.filter fun filter => !steady filter) =
        (filters.filter fun filter => !steady filter) →
      ∀ l, ((apply filters' candidates index).exec l).1 =
        ((apply filters candidates index).exec l).1 := by
  refine ⟨fun l => ?ends, applyByMarks_true filters candidates index,
    fun shortcuts => applyByMarks_result shortcuts filters candidates index, ?constant, ?steady⟩
  case ends =>
    refine ⟨_, ends_apply filters candidates index l, fun h => ?_⟩
    have hwatched := records_apply filters candidates index l h
    simp only [History.mapIdx_place] at hwatched
    exact hwatched
  case constant =>
    intro filters' constant same l l' sieved
    constructor
    · refine apply_eq_ok_of_sameMembers ?_ fun filter => (same filter).symm
      intro filter hfilter
      exact constant filter ((same filter).1 hfilter)
    · exact apply_eq_ok_of_sameMembers constant same
  case steady =>
    intro filters' steady hsteady same others l
    exact apply_result_congr_of_steady hsteady same others l

/-- Of a module that stands twice among the candidates one occurrence is removed. A filter that
    fails when it is asked once more fails wherever the others stand, and after one that miscounts
    nobody is asked. -/
theorem chain_divides_by_position_of_repeated :
    let candidates : List ModuleId := ["a", "b", "a"]
    let first : Filter Nat := rejecting (.ofList ["b"])
    let last : Filter Nat := constant "last" [true, true, false]
    let once : Filter Nat :=
      { name := "once"
        verdicts := fun candidates _ => Run.act fun calls =>
          (if calls = 0 then .ok (candidates.map fun _ => true) else .error (.reported "again"),
            calls + 1) }
    let start : Ledger Nat := ⟨0, []⟩
    let result := fun filters : List (Filter Nat) => ((apply filters candidates ∅).exec start).1
    result [last, first, last] = .ok ⟨["a"], ["b", "a"]⟩ ∧
      result [first, last] = .ok ⟨["a"], ["b", "a"]⟩ ∧
      result [first, once, first] = .ok ⟨["a", "a"], ["b"]⟩ ∧
      result [once, first] = .ok ⟨["a", "a"], ["b"]⟩ ∧
      result [once, once] = .error (.filterFailed "once" (.reported "again")) ∧
      (apply (watchedAll [first, constant "short" [true], once]) candidates ∅).exec
          (start.beside ∅) =
        (.error (.verdictCount "short" 3 1),
          start.beside { batches := [(0, candidates), (1, candidates)] }) := by
  intro candidates first last once start result
  obtain ⟨-, -, -, hconstant, -⟩ := chain_divides_by_position [first, last] candidates ∅
  obtain ⟨-, -, -, -, hsteady⟩ := chain_divides_by_position [once, first] candidates ∅
  have hpair : result [first, last] = .ok ⟨["a"], ["b", "a"]⟩ := by cbv
  have hmoved : result [once, first] = .ok ⟨["a", "a"], ["b"]⟩ := by cbv
  refine ⟨?_, hpair, ?_, hmoved, by cbv, by cbv⟩
  · refine (hconstant [last, first, last] ?_ ?_ start start _).2 hpair
    · intro filter hfilter
      simp only [List.mem_cons, List.not_mem_nil, or_false] at hfilter
      cases hfilter with
      | inl h => exact ⟨.ok [true, false, true], h ▸ fun _ => rfl⟩
      | inr h => exact ⟨.ok [true, true, false], h ▸ fun _ => rfl⟩
    · intro filter
      simp [or_comm]
  · refine (hsteady [first, once, first] (fun filter => filter.name = "rejecting") ?_ ?_ ?_
      start).trans hmoved
    · intro filter hfilter hname
      simp only [List.mem_cons, List.not_mem_nil, or_false] at hfilter
      cases hfilter with
      | inl h =>
        subst h
        simp [once] at hname
      | inr h => exact ⟨[true, false, true], rfl, h ▸ fun _ => rfl⟩
    · intro filter _
      simp only [List.mem_cons, List.not_mem_nil, or_false]
      exact ⟨fun h => h.elim .inr id, fun h => .inr h⟩
    · simp [first, once, rejecting]

end Activation.Filter
