-- SUMMARY: How exclusions fall into removed, invalid and tolerated ones, and what applying them leaves.
import Activation.Proofs.Exclusion
import Mathlib.Data.List.Perm.Basic

/-!
# The standing of exclusions

Every exclusion is of one of three kinds: it is that of a candidate and removes it, it is that of
another module and invalid, or it is that of no module and tolerated. Checking them one at a time
collects the invalid ones and warns of the tolerated ones, in ascending order. Applying them
fails if any is invalid, and otherwise deletes the candidates that are excluded, wherever and
however often they are listed.
-/

namespace Activation.Exclusion

variable {σ ε : Type} {candidates : List ModuleId} {exclusions : NameSet} {isLoadable : Locator}
  {found names : List String} {name : String} {l : Ledger σ} {s : Standing}

/-! ## One exclusion at a time -/

/-- Check an exclusion, given the invalid ones before it. The log is warned of it if it is that of
    no module. -/
def examine (candidates : List ModuleId) (isLoadable : Locator) (found : List String)
    (name : String) : Run σ ε (List String) := do
  match standing candidates isLoadable name with
  | .candidate => return found
  | .foreign => return found ++ [name]
  | .unknown =>
    Run.report [.unknownExclusion name]
    return found

/-- Those of some names that have a given standing. -/
abbrev withStanding (s : Standing) (candidates : List ModuleId) (isLoadable : Locator)
    (names : List String) : List String :=
  names.filter fun name => standing candidates isLoadable name = s

theorem exec_examine :
    (examine candidates isLoadable found name : Run σ ε _).exec l =
      (.ok (found ++ withStanding .foreign candidates isLoadable [name]),
        l.logged ((withStanding .unknown candidates isLoadable [name]).map .unknownExclusion)) := by
  unfold examine withStanding
  cases h : standing candidates isLoadable name with
  | candidate => simp [h]
  | foreign => simp [h]
  | unknown =>
    rw [Run.exec_report_bind, Run.exec_pure]
    simp [h]

/-- Exclusions that are examined in turn are sorted by standing, in their order. -/
theorem exec_foldlM_examine :
    (names.foldlM (examine candidates isLoadable) found : Run σ ε _).exec l =
      (.ok (found ++ withStanding .foreign candidates isLoadable names),
        l.logged ((withStanding .unknown candidates isLoadable names).map .unknownExclusion)) := by
  induction names generalizing found l with
  | nil => simp
  | cons name names ih =>
    rw [List.foldlM_cons, Run.exec_bind, exec_examine]
    simp only [ih, List.append_assoc, Ledger.logged_logged, ← List.map_append, ← List.filter_append,
      List.singleton_append]

theorem exec_invalid :
    (invalid candidates exclusions isLoadable : Run σ ε _).exec l =
      (.ok (ofStanding .foreign candidates exclusions isLoadable),
        l.logged ((ofStanding .unknown candidates exclusions isLoadable).map .unknownExclusion)) :=
  rfl

/-- The invalid exclusions are found by checking all exclusions one after another. -/
theorem invalid_eq_foldlM :
    (invalid candidates exclusions isLoadable : Run σ ε _) =
      exclusions.toList.foldlM (examine candidates isLoadable) [] := by
  apply Run.ext_exec
  intro l
  rw [exec_invalid, exec_foldlM_examine, List.nil_append]
  rfl

/-! ## The three kinds -/

/-- Exclusions fall into those that remove candidates, those that are invalid and those that the
    log is warned of. Each are listed in ascending order. -/
structure Falls (candidates : List ModuleId) (exclusions : NameSet) (isLoadable : Locator)
    (removed invalid warned : List String) : Prop where
  mem_removed : ∀ name, name ∈ removed ↔ name ∈ exclusions ∧ name ∈ candidates
  mem_invalid : ∀ name, name ∈ invalid ↔
    name ∈ exclusions ∧ isLoadable name = true ∧ name ∉ candidates
  mem_warned : ∀ name, name ∈ warned ↔
    name ∈ exclusions ∧ isLoadable name = false ∧ name ∉ candidates
  ascending : ∀ names ∈ [removed, invalid, warned], names.Pairwise (· < ·)
  split : (removed ++ invalid ++ warned).Perm exclusions.toList

/-- A name is filtered out with all its occurrences, or with none. -/
theorem count_filter_eq_ite (p : String → Bool) :
    (names.filter p).count name = if p name = true then names.count name else 0 := by
  split
  case isTrue h => exact List.count_filter h
  case isFalse h => exact List.count_eq_zero.2 fun hmem => h (List.mem_filter.1 hmem).2

/-- Every name has exactly one standing. -/
theorem perm_withStanding (names : List String) :
    (withStanding .candidate candidates isLoadable names ++
      withStanding .foreign candidates isLoadable names ++
        withStanding .unknown candidates isLoadable names).Perm names := by
  rw [List.perm_iff_count]
  intro name
  simp only [List.count_append, count_filter_eq_ite, decide_eq_true_eq]
  cases standing candidates isLoadable name with
  | candidate => simp
  | foreign => simp
  | unknown => simp

/-- The three lists take the exclusions apart: each has its own in ascending order. -/
theorem falls : Falls candidates exclusions isLoadable
    (ofStanding .candidate candidates exclusions isLoadable)
    (ofStanding .foreign candidates exclusions isLoadable)
    (ofStanding .unknown candidates exclusions isLoadable) where
  mem_removed _ := mem_ofStanding.trans (and_congr_right fun _ => standing_eq_candidate_iff)
  mem_invalid _ := mem_ofStanding_foreign
  mem_warned _ := mem_ofStanding.trans (and_congr_right fun _ => standing_eq_unknown_iff)
  ascending := by
    simp only [List.forall_mem_cons, List.not_mem_nil, false_implies, implies_true, and_true]
    exact ⟨pairwise_ofStanding, pairwise_ofStanding, pairwise_ofStanding⟩
  split := perm_withStanding exclusions.toList

/-! ## Applying exclusions -/

/-- What comes of exclusions, given the invalid ones: they are all refused, or the candidates are
    kept in their order, each as often as before unless it is excluded. -/
inductive Applied (candidates : List ModuleId) (exclusions : NameSet) (invalid : List String) :
    Except SelectionFailure (List ModuleId) → Prop
  | refused (some : invalid ≠ []) :
      Applied candidates exclusions invalid (.error (.invalidExclusion invalid))
  | kept {remaining : List ModuleId} (none : invalid = []) (ordered : remaining.Sublist candidates)
      (count : ∀ id, remaining.count id = if id ∈ exclusions then 0 else candidates.count id) :
      Applied candidates exclusions invalid (.ok remaining)

theorem count_filter_not_contains (id : ModuleId) :
    (candidates.filter fun id => !exclusions.contains id).count id =
      if id ∈ exclusions then 0 else candidates.count id := by
  simp only [count_filter_eq_ite, NameSet.contains, Bool.not_eq_true', decide_eq_false_iff_not,
    ite_not]

/-- What is kept is determined by its order and by how often it lists each candidate. -/
theorem eq_filter_of_sublist {remaining : List ModuleId} (ordered : remaining.Sublist candidates)
    (count : ∀ id, remaining.count id = if id ∈ exclusions then 0 else candidates.count id) :
    remaining = candidates.filter fun id => !exclusions.contains id := by
  have hall : ∀ id ∈ remaining, (!exclusions.contains id) = true := by
    intro id hid
    have hcount := List.count_pos_iff.2 hid
    rw [count] at hcount
    split at hcount
    · exact absurd hcount (Nat.lt_irrefl 0)
    · simpa [NameSet.contains] using ‹id ∉ exclusions›
  have hsublist := ordered.filter fun id => !exclusions.contains id
  rw [List.filter_eq_self.2 hall] at hsublist
  refine hsublist.eq_of_length (List.Perm.length_eq (List.perm_iff_count.2 fun id => ?_))
  rw [count, count_filter_not_contains]

/-- The outcome and the log of applying exclusions are determined by the standing of each. -/
theorem exec_apply_iff {outcome : Except SelectionFailure (List ModuleId)} {m : Ledger σ} :
    (apply candidates exclusions isLoadable).exec l = (outcome, m) ↔
      Applied candidates exclusions (ofStanding .foreign candidates exclusions isLoadable) outcome ∧
        m = l.logged ((ofStanding .unknown candidates exclusions isLoadable).map
          .unknownExclusion) := by
  cases outcome with
  | error e =>
    rw [apply_eq_error_iff]
    refine ⟨fun h => ?_, fun h => ?_⟩
    · obtain ⟨some, rfl, hm⟩ := h
      exact ⟨.refused some, hm⟩
    · obtain ⟨applied, hm⟩ := h
      cases applied with
      | refused some => exact ⟨some, rfl, hm⟩
  | ok remaining =>
    rw [apply_eq_ok_iff]
    refine ⟨fun h => ?_, fun h => ?_⟩
    · obtain ⟨none, rfl, hm⟩ := h
      exact ⟨.kept none List.filter_sublist count_filter_not_contains, hm⟩
    · obtain ⟨applied, hm⟩ := h
      cases applied with
      | kept none ordered count => exact ⟨none, eq_filter_of_sublist ordered count, hm⟩

/-- Exclusions fall into those that remove candidates, those that are invalid and those that name
    no module. Checking them gives the invalid ones and warns of those that name no module; applying
    them warns of the same ones, fails with all invalid ones if there are any, and otherwise deletes
    the excluded candidates. -/
theorem apply_by_standing (candidates : List ModuleId) (exclusions : NameSet)
    (isLoadable : Locator) :
    ∃ removed invalid warned, Falls candidates exclusions isLoadable removed invalid warned ∧
      (∀ id ∈ candidates, id ∉ invalid) ∧
      (∀ name, (Event.unknownExclusion name).line =
        "WARN Ignoring exclusion of unknown module exclusion=" ++ name) ∧
      (∀ (σ ε : Type) (l : Ledger σ),
        (Exclusion.invalid candidates exclusions isLoadable : Run σ ε _) =
            exclusions.toList.foldlM (examine candidates isLoadable) [] ∧
          (Exclusion.invalid candidates exclusions isLoadable : Run σ ε _).exec l =
            (.ok invalid, l.logged (warned.map .unknownExclusion))) ∧
      ∀ (σ : Type) (l m : Ledger σ) outcome,
        (apply candidates exclusions isLoadable).exec l = (outcome, m) ↔
          Applied candidates exclusions invalid outcome ∧
            m = l.logged (warned.map .unknownExclusion) := by
  refine ⟨_, _, _, falls, fun id hid hinvalid => ?_, fun name => ?_,
    fun σ ε l => ⟨invalid_eq_foldlM, exec_invalid⟩, fun σ l m outcome => exec_apply_iff⟩
  · exact (mem_ofStanding_foreign.1 hinvalid).2.2 hid
  · simp only [Event.line, Event.level, Level.name, Event.message, Event.fields, Field.render,
      List.map_cons, List.map_nil, String.join_cons, String.join_nil, String.append_empty,
      ← String.append_assoc]
    rfl

end Activation.Exclusion
