-- SUMMARY: A selection accounts for every candidate and respects all constraints.
import Activation.Proofs.Order.Topological
import Activation.Proofs.Selection.Stages
import Activation.Rehearsal
import Mathlib

/-!
# Selections account for their candidates

Every listed candidate that is not excluded is either selected or filtered, once. Both
lists are in the order of one arrangement of these candidates, so what is selected
respects every chain of constraints between them, also a chain through a module that a
filter removed.
-/

namespace Activation

namespace Selector

variable {σ : Type} {selector : Selector σ} {request : Request}

/-- A selection divides an arrangement of what is left after exclusions. -/
theorem exists_stages_of_resolve {sel : Selection} {l m : Ledger σ}
    (h : (selector.resolve request).exec l = (.ok sel, m)) :
    ∃ raw k, selector.candidates.exec l = (.ok raw, k) ∧
      ∃ modules read, Order.Reads (Pass.source selector.index selector.inspector)
          (NameSet.ofList (selector.remaining request raw)).toList
          (selector.passStart request raw k) modules read ∧
        ∃ ordered, Order.arrange modules = .ok ordered ∧
          ∃ keep : List Bool, keep.length = ordered.length ∧
            sel = ⟨(Sieved.divide ordered keep).kept, selector.exclusions request,
              (Sieved.divide ordered keep).removed⟩ := by
  -- Every stage succeeds from the ledger that the one before it left.
  obtain ⟨candidates, k₁, hdiscover, h⟩ := Run.exec_bind_eq_ok_iff.1 h
  obtain ⟨raw, k, hraw, -, rfl, rfl⟩ := discover_eq_ok_iff.1 hdiscover
  obtain ⟨left, k₂, hexclude, h⟩ := Run.exec_bind_eq_ok_iff.1 h
  obtain ⟨-, rfl, rfl⟩ := Exclusion.apply_eq_ok_iff.1 hexclude
  obtain ⟨_, k₃, hpass, h⟩ := Run.exec_bind_eq_ok_iff.1 h
  cases hpass
  obtain ⟨ordered, k₄, harrange, h⟩ := Run.exec_bind_eq_ok_iff.1 h
  obtain ⟨modules, read, hreads, hordered, rfl⟩ := arrange_eq_ok_iff.1 harrange
  obtain ⟨-, k₅, -, hfinish⟩ := Run.exec_bind_eq_ok_iff.1 h
  obtain ⟨keep, hlength, hsel⟩ := exists_verdicts_of_finish hfinish
  exact ⟨raw, k, hraw, modules, read, hreads, ordered, hordered, keep, hlength, hsel⟩

end Selector

/-! ## What a selection promises -/

/-- A selection accounts for the listed candidates, given what those of them declare that are
    not excluded. -/
structure Selection.Accounts (sel : Selection) (raw : List ModuleId)
    (modules : List Order.Declared) : Prop where
  nodup_modules : sel.modules.Nodup
  nodup_filtered : sel.filtered.Nodup
  disjoint : ∀ a ∈ sel.modules, a ∉ sel.filtered
  complete : ∀ a, a ∈ sel.modules ∨ a ∈ sel.filtered ↔ a ∈ raw ∧ a ∉ sel.exclusions
  ordered : ∃ ordering : List ModuleId, ordering.Nodup ∧
    (∀ a, a ∈ ordering ↔ a ∈ raw ∧ a ∉ sel.exclusions) ∧
    sel.modules.Sublist ordering ∧ sel.filtered.Sublist ordering
  respects : ∀ a ∈ sel.modules, ∀ b ∈ sel.modules, Order.Chain modules a b →
    StandsBefore sel.modules a b

/-- However the filters divide an arrangement, the two parts account for it. -/
theorem Selection.accounts_of_divide {raw : List ModuleId} {modules : List Order.Declared}
    {ordered : List ModuleId} {exclusions : NameSet} {keep : List Bool}
    (hnodup : ordered.Nodup) (hmem : ∀ a, a ∈ ordered ↔ a ∈ raw ∧ a ∉ exclusions)
    (hrespects : ∀ a b, Order.Chain modules a b → StandsBefore ordered a b)
    (hlength : keep.length = ordered.length) :
    Selection.Accounts ⟨(Sieved.divide ordered keep).kept, exclusions,
      (Sieved.divide ordered keep).removed⟩ raw modules := by
  have hkept := Sieved.kept_sublist ordered keep
  have hremoved := Sieved.removed_sublist ordered keep
  have hperm := Sieved.kept_append_removed_perm hlength
  refine
    { nodup_modules := hnodup.sublist hkept
      nodup_filtered := hnodup.sublist hremoved
      disjoint := ?disjoint
      complete := ?complete
      ordered := ⟨ordered, hnodup, hmem, hkept, hremoved⟩
      respects := ?respects }
  case disjoint =>
    intro a hmodule hfiltered
    exact List.disjoint_of_nodup_append (hperm.nodup_iff.2 hnodup) hmodule hfiltered
  case complete =>
    intro a
    rw [← hmem a, ← hperm.mem_iff, List.mem_append]
  case respects =>
    -- The chain may leave the selection: it is the whole order that has `a` before `b`.
    intro a ha b hb hchain
    exact (hrespects a b hchain).restrict hnodup hkept ha hb

variable {σ : Type} {selector : Selector σ} {request : Request} {sel : Selection}
  {l after : Ledger σ}

/-- A selector that is switched on and succeeds reports all exclusions asked for, and accounts
    for every candidate, given the metadata that it read in its own pass. -/
theorem accounts_of_select (enabled : selector.settings.enabled = true)
    (hok : (selector.select request).exec l = (.ok sel, after)) :
    sel.exclusions = NameSet.ofList request.modules ∪ NameSet.ofList request.names ∪
        selector.settings.excludedNames ∧
      ∃ raw k, selector.candidates.exec l = (.ok raw, k) ∧
        ∃ modules read, Order.Reads (Pass.source selector.index selector.inspector)
            (NameSet.ofList (selector.remaining request raw)).toList
            (selector.passStart request raw k) modules read ∧
          sel.Accounts raw modules := by
  rw [Selector.select_of_enabled enabled] at hok
  obtain ⟨raw, k, hraw, modules, read, hreads, ordered, hordered, keep, hlength, rfl⟩ :=
    Selector.exists_stages_of_resolve hok
  refine ⟨NameSet.ext_mem fun name => ?_, raw, k, hraw, modules, read, hreads, ?_⟩
  · simp [or_assoc]
  · have hnodup := Order.nodup_of_arrange hreads.byName hordered
    refine Selection.accounts_of_divide hnodup ?_ ?_ hlength
    · intro a
      rw [Order.mem_of_arrange hordered, hreads.mem_ids, Selector.mem_remaining]
    · intro a b hchain
      exact Order.standsBefore_of_arrange hreads.byName hordered hchain

/-- A candidate is excluded, and one that stands between two others is filtered. -/
theorem accounts_of_select_of_filtered :
    let selector : Selector Unit :=
      { candidates := return ["a", "d", "m", "z", "a"]
        inspector := .ofFunction fun id =>
          if id = "z" then { before := NameSet.ofList ["m"] }
          else if id = "m" then { before := NameSet.ofList ["a"] }
          else {}
        filters := [.rejecting (NameSet.ofList ["m"])] }
    let request : Request := { modules := ["d"] }
    let sel : Selection := ⟨["z", "a"], NameSet.ofList ["d"], ["m"]⟩
    selector.settings.enabled = true ∧
      ∃ after, (selector.select request).exec ⟨(), []⟩ = (.ok sel, after) ∧
      ∃ raw k, selector.candidates.exec ⟨(), []⟩ = (.ok raw, k) ∧
        ∃ modules read, Order.Reads (Pass.source selector.index selector.inspector)
            (NameSet.ofList (selector.remaining request raw)).toList
            (selector.passStart request raw k) modules read ∧
          sel.Accounts raw modules := by
  intro selector request sel
  have hok : ((selector.select request).exec ⟨(), []⟩).1 = .ok sel := by
    simp only [selector, request, sel]
    cbv
  have henabled : selector.settings.enabled = true := rfl
  have hexec : (selector.select request).exec ⟨(), []⟩ =
      (.ok sel, ((selector.select request).exec ⟨(), []⟩).2) := Prod.ext hok rfl
  obtain ⟨-, haccounts⟩ := accounts_of_select henabled hexec
  exact ⟨henabled, _, hexec, haccounts⟩

end Activation
