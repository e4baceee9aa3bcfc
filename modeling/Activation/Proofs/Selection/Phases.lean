-- SUMMARY: The four phases of a selection, and how each of them ends.
import Activation.Proofs.Listener
import Activation.Proofs.Pass
import Activation.Proofs.Selection.Stages

/-!
# Phases of a selection

A selection that is switched on gathers the candidates that are left after exclusions,
settles their order, sieves them through the filters and announces what is kept. For each
phase, two equivalences say when it succeeds and when it fails, in terms of what the
collaborators do; the ledgers in which the collaborators of a phase are first asked are
written out.
-/

namespace Activation.Selector

/-- What a selection ends with. -/
abbrev Outcome := Except SelectionFailure Selection

variable {σ : Type} (selector : Selector σ) (request : Request)

/-! ## The phases -/

/-- The distinct candidates that are not excluded, where no exclusion is invalid. -/
def gather : Run σ SelectionFailure (List ModuleId) := do
  let candidates ← selector.discover
  let left ← Exclusion.apply candidates (selector.exclusions request) selector.locator
  pass .exclusionsApplied left
  return left

/-- Candidates in order. -/
def settle (candidates : List ModuleId) : Run σ SelectionFailure (List ModuleId) := do
  let ordered ← selector.arrange candidates
  pass .ordered ordered
  return ordered

/-- Candidates in order, divided by the filters. -/
def sieve (ordered : List ModuleId) : Run σ SelectionFailure Sieved := do
  let sieved ← Filter.apply selector.filters ordered selector.index
  pass .filtered sieved.kept
  return sieved

/-- A selection, after the listeners are told. -/
def announce (exclusions : NameSet) (sieved : Sieved) : Run σ SelectionFailure Selection := do
  Listener.tellAll selector.listeners { modules := sieved.kept, exclusions }
  pass .notified sieved.kept
  pass .done sieved.kept
  return { modules := sieved.kept, exclusions, filtered := sieved.removed }

/-- A selection up to and including the filters. -/
def sift : Run σ SelectionFailure Sieved := do
  let left ← selector.gather request
  let ordered ← selector.settle left
  selector.sieve ordered

/-- The phases one after the other are a whole selection. -/
theorem resolve_eq_sift_bind :
    selector.resolve request =
      (do selector.announce (selector.exclusions request) (← selector.sift request)) := by
  simp only [resolve, finish, sift, gather, settle, sieve, announce, bind_assoc, pure_bind]

/-! ## Gathering -/

section Ledgers

variable (raw : List ModuleId)

/-- The invalid exclusions, ascending. -/
def invalidExclusions : List String :=
  Exclusion.ofStanding .foreign (Candidates.distinct raw) (selector.exclusions request)
    selector.locator

/-- The ledger in which metadata is first read, when listing the candidates left `k`. -/
def readingStart (k : Ledger σ) : Ledger σ := ⟨k.world, (selector.passStart request raw k).log⟩

/-- The source of candidates lists some, and no exclusion is invalid. -/
structure Admits (l : Ledger σ) (k : Ledger σ) : Prop where
  listed : selector.candidates.exec l = (.ok raw, k)
  nonempty : raw ≠ []
  valid : selector.invalidExclusions request raw = []

end Ledgers

variable {selector request} {left ordered : List ModuleId} {l m : Ledger σ} {e : SelectionFailure}

/-- An exclusion is invalid if its module can be loaded and is no candidate. -/
theorem mem_invalidExclusions {raw : List ModuleId} {name : String} :
    name ∈ selector.invalidExclusions request raw ↔
      name ∈ selector.exclusions request ∧ selector.locator name = true ∧ name ∉ raw := by
  rw [invalidExclusions, Exclusion.mem_ofStanding_foreign, Candidates.mem_distinct]

theorem invalidExclusions_eq_nil_iff {raw : List ModuleId} :
    selector.invalidExclusions request raw = [] ↔
      ∀ name ∈ selector.exclusions request, selector.locator name = true → name ∈ raw := by
  rw [List.eq_nil_iff_forall_not_mem]
  refine forall_congr' fun name => ?_
  rw [mem_invalidExclusions, not_and, not_and, not_not]

/-- Candidates are gathered exactly if some are listed and no exclusion is invalid. -/
theorem gather_eq_ok_iff :
    (selector.gather request).exec l = (.ok left, m) ↔
      ∃ raw k, selector.Admits request raw l k ∧ left = selector.remaining request raw ∧
        m = selector.readingStart request raw k := by
  simp only [gather, Run.exec_bind_eq_ok_iff, discover_eq_ok_iff, Exclusion.apply_eq_ok_iff]
  constructor
  · rintro ⟨_, _, ⟨raw, k, listed, nonempty, rfl, rfl⟩, _, _, ⟨valid, rfl, rfl⟩, _, _, hpass, h⟩
    cases hpass
    cases h
    exact ⟨raw, k, ⟨listed, nonempty, valid⟩, rfl, rfl⟩
  · rintro ⟨raw, k, admits, rfl, rfl⟩
    exact ⟨_, _, ⟨raw, k, admits.listed, admits.nonempty, rfl, rfl⟩, _, _, ⟨admits.valid, rfl, rfl⟩,
      (), _, rfl, rfl⟩

/-- Gathering fails as the discovery of candidates, or by the invalid exclusions, after the unknown
    ones are warned about. -/
theorem gather_eq_error_iff :
    (selector.gather request).exec l = (.error e, m) ↔
      selector.discover.exec l = (.error e, m) ∨
        ∃ raw k, selector.candidates.exec l = (.ok raw, k) ∧ raw ≠ [] ∧
          selector.invalidExclusions request raw ≠ [] ∧
          e = .invalidExclusion (selector.invalidExclusions request raw) ∧
          m = k.logged ([.stageComplete .loaded raw.length,
            .stageComplete .deduplicated (Candidates.distinct raw).length] ++
            (Exclusion.ofStanding .unknown (Candidates.distinct raw) (selector.exclusions request)
              selector.locator).map .unknownExclusion) := by
  simp only [gather, Run.exec_bind_eq_error_iff, discover_eq_ok_iff, Exclusion.apply_eq_error_iff]
  refine or_congr_right ⟨?_, ?_⟩
  · rintro ⟨_, _, ⟨raw, k, listed, nonempty, rfl, rfl⟩, h⟩
    rcases h with ⟨invalid, rfl, rfl⟩ | ⟨_, _, -, hpass | ⟨_, _, -, h⟩⟩
    · exact ⟨raw, k, listed, nonempty, invalid, rfl, by simp [Ledger.logged]⟩
    · cases hpass
    · cases h
  · rintro ⟨raw, k, listed, nonempty, invalid, rfl, rfl⟩
    exact ⟨_, _, ⟨raw, k, listed, nonempty, rfl, rfl⟩,
      .inl ⟨invalid, rfl, by simp [Ledger.logged]⟩⟩

/-! ## Settling the order -/

/-- The source that a selection reads metadata from, if it need not be remembered. -/
def source (selector : Selector σ) : Source σ := Pass.direct selector.index selector.inspector

/-- The candidates that are not in the index, by name. -/
def unindexed (selector : Selector σ) (candidates : List ModuleId) : List ModuleId :=
  (NameSet.ofList candidates).toList.filter fun id => !selector.index.wasProcessed id

/-- The metadata of candidates is read by name and lets them be ordered. Filters are first asked
    in the last ledger. -/
def Orders (selector : Selector σ) (left : List ModuleId) (l : Ledger σ)
    (ordered : List ModuleId) (m : Ledger σ) : Prop :=
  ∃ modules k, Order.Reads selector.source (NameSet.ofList left).toList l modules k ∧
    Order.arrange modules = .ok ordered ∧
    m = k.logged [.candidatesOrdered ordered.length,
      .metadataRead (selector.unindexed left).length, .stageComplete .ordered ordered.length]

/-- The order is settled as if nothing were remembered. -/
theorem settle_eq_order_bind (selector : Selector σ) (left : List ModuleId) :
    selector.settle left = (do
      let ordered ← Order.order selector.source left
      Run.report [.metadataRead (selector.unindexed left).length,
        .stageComplete .ordered ordered.length]
      return ordered) := by
  refine Run.ext_exec fun l => ?_
  obtain ⟨cache, hlocal, hsize⟩ :=
    Pass.exec_withLocal_order selector.index selector.inspector left l
  rw [← source] at hlocal hsize
  simp only [settle, arrange, bind_assoc, pure_bind, Run.exec_bind, hlocal]
  rcases horder : (Order.order selector.source left).exec l with ⟨e | ordered, k⟩
  · rfl
  · rw [horder] at hsize
    simp only [Except.map, Run.exec_report, Run.exec_pure, pass, hsize ordered rfl]
    exact Prod.ext rfl Ledger.logged_logged

/-- The order is settled exactly if the metadata allows one. -/
theorem settle_eq_ok_iff :
    (selector.settle left).exec l = (.ok ordered, m) ↔ selector.Orders left l ordered m := by
  simp only [settle_eq_order_bind, Run.exec_bind_eq_ok_iff, Order.order_eq_ok_iff]
  constructor
  · rintro ⟨_, _, ⟨modules, k, reads, harrange, rfl⟩, _, _, hreport, h⟩
    cases hreport
    cases h
    exact ⟨modules, k, reads, harrange, Ledger.logged_logged⟩
  · rintro ⟨modules, k, reads, harrange, rfl⟩
    refine ⟨_, _, ⟨modules, k, reads, harrange, rfl⟩, (), _, rfl, ?_⟩
    exact Prod.ext rfl Ledger.logged_logged

theorem settle_eq_error_iff :
    (selector.settle left).exec l = (.error e, m) ↔
      (Order.order selector.source left).exec l = (.error e, m) := by
  simp only [settle_eq_order_bind, Run.exec_bind_eq_error_iff, Run.exec_report, Run.exec_pure,
    Prod.mk.injEq, reduceCtorEq, false_and, and_false, exists_false, or_false]

/-- The order is not settled if metadata cannot be read, or if it leads to a conflict. -/
theorem failure_of_settle (h : (selector.settle left).exec l = (.error e, m)) :
    (∃ id failure, e = .metadataRead id failure) ∨
      ∃ first second, e = .cycleDetected first second := by
  cases Order.order_eq_error_iff.1 (settle_eq_error_iff.1 h) with
  | inl hsurvey =>
    obtain ⟨id, k, -, failure, -, hread⟩ := Order.survey_eq_error_iff.1 hsurvey
    exact .inl ⟨id, failure, hread⟩
  | inr hconflict =>
    obtain ⟨modules, conflict, -, -, hcycle⟩ := hconflict
    exact .inr ⟨conflict.first, conflict.second, hcycle⟩

/-! ## Sieving -/

/-- All filters judge, and their verdicts divide the candidates. Listeners are first told in
    the last ledger. -/
def Sieves (selector : Selector σ) (ordered : List ModuleId) (l : Ledger σ) (sieved : Sieved)
    (m : Ledger σ) : Prop :=
  ∃ verdicts k, Run.Answered (Filter.judge ordered selector.index) selector.filters l verdicts k ∧
    sieved = .divide ordered (Filter.unanimous ordered verdicts) ∧
    m = k.logged (Filter.divided selector.filters sieved ++
      [.stageComplete .filtered sieved.kept.length])

/-- A sieve succeeds exactly if all filters judge. -/
theorem sieve_eq_ok_iff {sieved : Sieved} :
    (selector.sieve ordered).exec l = (.ok sieved, m) ↔ selector.Sieves ordered l sieved m := by
  simp only [sieve, Run.exec_bind_eq_ok_iff, Filter.apply_eq_ok_iff, pass]
  constructor
  · rintro ⟨_, _, ⟨verdicts, k, answered, rfl, rfl⟩, _, _, hpass, h⟩
    cases hpass
    cases h
    exact ⟨verdicts, k, answered, rfl, Ledger.logged_logged⟩
  · rintro ⟨verdicts, k, answered, rfl, rfl⟩
    refine ⟨_, _, ⟨verdicts, k, answered, rfl, rfl⟩, (), _, rfl, ?_⟩
    exact Prod.ext rfl Ledger.logged_logged

/-- A sieve fails as the first filter that misjudges. -/
theorem sieve_eq_error_iff :
    (selector.sieve ordered).exec l = (.error e, m) ↔
      ∃ filter k, Run.Turn (Filter.judge ordered selector.index) selector.filters l filter k ∧
        filter.Misjudges ordered selector.index k e m := by
  simp only [sieve, Run.exec_bind_eq_error_iff, Filter.apply_eq_error_iff, pass, Run.exec_report,
    Run.exec_pure, Prod.mk.injEq, reduceCtorEq, false_and, and_false, exists_false, or_false]

/-! ## Announcing -/

/-- An announcement succeeds exactly if all listeners are told, and gives what they were told. -/
theorem announce_eq_ok_iff {exclusions : NameSet} {sieved : Sieved} {sel : Selection} :
    (selector.announce exclusions sieved).exec l = (.ok sel, m) ↔
      ∃ units k,
        Run.Answered (Listener.hear ⟨sieved.kept, exclusions⟩) selector.listeners l units k ∧
        sel = ⟨sieved.kept, exclusions, sieved.removed⟩ ∧
        m = k.logged [.stageComplete .notified sieved.kept.length,
          .stageComplete .done sieved.kept.length] := by
  simp only [announce, Run.exec_bind_eq_ok_iff, Listener.tellAll_eq_ok_iff, pass]
  constructor
  · rintro ⟨_, _, ⟨units, answered⟩, _, _, hpass, _, _, hpass', h⟩
    cases hpass
    cases hpass'
    cases h
    exact ⟨units, _, answered, rfl, Ledger.logged_logged⟩
  · rintro ⟨units, k, answered, rfl, rfl⟩
    refine ⟨(), k, ⟨units, answered⟩, (), _, rfl, (), _, rfl, ?_⟩
    exact Prod.ext rfl Ledger.logged_logged

/-- An announcement fails as the first listener that does. -/
theorem announce_eq_error_iff {exclusions : NameSet} {sieved : Sieved} :
    (selector.announce exclusions sieved).exec l = (.error e, m) ↔
      ∃ listener k,
        Run.Turn (Listener.hear ⟨sieved.kept, exclusions⟩) selector.listeners l listener k ∧
          ∃ fault, (listener.notify ⟨sieved.kept, exclusions⟩).exec k = (.error fault, m) ∧
            e = .listenerFailed listener.name fault := by
  simp only [announce, Run.exec_bind_eq_error_iff, Listener.tellAll_eq_error_iff, pass,
    Run.exec_report, Run.exec_pure, Prod.mk.injEq, reduceCtorEq, false_and, and_false,
    exists_false, or_false]
  rfl

end Activation.Selector
