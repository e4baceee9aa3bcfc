-- SUMMARY: Which outcome a selection has when several things are wrong.
import Activation.Proofs.Order.Arrangement
import Activation.Proofs.Selection.Phases
import Activation.Rehearsal
import Mathlib

/-!
# Outcomes of a selection

Several things can be wrong with one selection. Each of nine rules names an outcome for one
situation, in terms of what is asked for, of what the collaborators do and of what the modules
declare, and the first rule that names any decides. A rule need not presuppose that the rules
before it name nothing: where it is about the metadata of candidates, about filters or about
listeners, it only fixes what these are asked and from which ledger.
-/

namespace Activation

/-- Of a list of rules, each of which may admit outcomes, the first that admits any decides. -/
inductive DecidedBy {α : Type} : List (α → Prop) → α → Prop
  | here {rule : α → Prop} {rules : List (α → Prop)} {a : α} (admitted : rule a) :
      DecidedBy (rule :: rules) a
  | later {rule : α → Prop} {rules : List (α → Prop)} {a : α} (silent : ∀ b, ¬ rule b)
      (rest : DecidedBy rules a) : DecidedBy (rule :: rules) a

namespace Selector

variable {σ : Type}

/-! ## What is left of the candidates -/

/-- A name is excluded if the request has it, as a module or as a name, or the settings do. -/
def Excluded (selector : Selector σ) (request : Request) (name : String) : Prop :=
  name ∈ request.modules ∨ name ∈ request.names ∨ name ∈ selector.settings.excludedNames

/-- A set has the excluded names, from wherever they come, and no others. -/
def Merges (selector : Selector σ) (request : Request) (exclusions : NameSet) : Prop :=
  ∀ name, name ∈ exclusions ↔ selector.Excluded request name

/-- There is one set of the excluded names, and the program merges it. -/
theorem merges_iff {selector : Selector σ} {request : Request} {exclusions : NameSet} :
    selector.Merges request exclusions ↔ exclusions = selector.exclusions request := by
  constructor
  · intro merges
    exact NameSet.ext_mem fun name => (merges name).trans mem_exclusions.symm
  · rintro rfl
    exact fun name => mem_exclusions

/-- The candidates are listed as `raw`. Those of them that are not excluded are left, by name. -/
structure Leaves (selector : Selector σ) (request : Request) (l : Ledger σ)
    (raw : List ModuleId) (k : Ledger σ) (left : List ModuleId) : Prop where
  listed : selector.candidates.exec l = (.ok raw, k)
  ascending : left.Pairwise (· < ·)
  mem_left : ∀ a, a ∈ left ↔ a ∈ raw ∧ ¬ selector.Excluded request a

section Leaves

variable {selector : Selector σ} {request : Request} {l k : Ledger σ} {raw left : List ModuleId}

theorem leaves_of_listed (request : Request)
    (listed : selector.candidates.exec l = (.ok raw, k)) :
    selector.Leaves request l raw k (NameSet.ofList (selector.remaining request raw)).toList where
  listed := listed
  ascending := NameSet.ascending _
  mem_left a := by
    rw [NameSet.mem_toList, NameSet.mem_ofList, mem_remaining, mem_exclusions]
    rfl

/-- Ascending lists with the same members are the same, so a rule cannot take a list of its
    own for what is left. -/
theorem Leaves.left_eq (leaves : selector.Leaves request l raw k left) :
    left = (NameSet.ofList (selector.remaining request raw)).toList := by
  have remaining := leaves_of_listed request leaves.listed
  exact Ascending.eq_of_mem_iff String.lt_asymm leaves.ascending remaining.ascending fun a =>
    (leaves.mem_left a).trans (remaining.mem_left a).symm

theorem orders_toList_iff {ordered : List ModuleId} {m : Ledger σ} :
    selector.Orders (NameSet.ofList left).toList l ordered m ↔
      selector.Orders left l ordered m := by
  simp only [Orders, unindexed, NameSet.ofList_toList]

theorem Leaves.orders_iff (leaves : selector.Leaves request l raw k left) {start m : Ledger σ}
    {ordered : List ModuleId} :
    selector.Orders left start ordered m ↔
      selector.Orders (selector.remaining request raw) start ordered m := by
  rw [leaves.left_eq, orders_toList_iff]

end Leaves

/-! ## The rules -/

section Rules

variable (selector : Selector σ) (request : Request) (l : Ledger σ) (outcome : Outcome)

/-- Selection is switched off, and nothing is selected. -/
def SwitchedOff : Prop :=
  selector.settings.enabled = false ∧ outcome = .ok {}

/-- The candidates cannot be listed. -/
def Undiscovered : Prop :=
  ∃ fault k, selector.candidates.exec l = (.error fault, k) ∧
    outcome = .error (.candidateSource fault)

/-- No candidates are listed. -/
def WithoutCandidates : Prop :=
  ∃ k, selector.candidates.exec l = (.ok [], k) ∧ outcome = .error .emptyCandidatePool

/-- Some exclusions are loadable and no candidates. All of them are reported, ascending. -/
def Misexcluded : Prop :=
  ∃ raw k names, selector.candidates.exec l = (.ok raw, k) ∧
    names.Pairwise (· < ·) ∧
    (∀ name, name ∈ names ↔
      selector.Excluded request name ∧ selector.locator name = true ∧ name ∉ raw) ∧
    names ≠ [] ∧ outcome = .error (.invalidExclusion names)

/-- The metadata of the candidates that are left is read by name, and that of one cannot be
    told. -/
def Unreadable : Prop :=
  ∃ raw k left id k', selector.Leaves request l raw k left ∧
    Run.Turn selector.source.metadata left (selector.readingStart request raw k) id k' ∧
    ∃ failure m, (selector.source.metadata id).exec k' = (.error failure, m) ∧
      outcome = .error (.metadataRead id failure)

/-- Some candidate that is left must precede itself, also if a filter would remove it. -/
def Cyclic : Prop :=
  ∃ raw k left modules m, selector.Leaves request l raw k left ∧
    Order.Reads selector.source left (selector.readingStart request raw k) modules m ∧
    (∃ a, Order.Chain modules a a) ∧
    ∃ first second, outcome = .error (.cycleDetected first second)

/-- The filters are asked in turn about all candidates that are left, and one of them fails or
    does not give one verdict for each. -/
def Misjudged : Prop :=
  ∃ raw k left ordered start filter k', selector.Leaves request l raw k left ∧
    selector.Orders left (selector.readingStart request raw k) ordered start ∧
    Run.Turn (Filter.judge ordered selector.index) selector.filters start filter k' ∧
    ∃ e m, filter.Misjudges ordered selector.index k' e m ∧ outcome = .error e

/-- The listeners are told in turn what the filters kept and which names are excluded, and one
    of them fails. -/
def Untold : Prop :=
  ∃ raw k left ordered k' sieved start exclusions listener k'',
    selector.Leaves request l raw k left ∧
    selector.Orders left (selector.readingStart request raw k) ordered k' ∧
    selector.Sieves ordered k' sieved start ∧
    selector.Merges request exclusions ∧
    Run.Turn (Listener.hear ⟨sieved.kept, exclusions⟩) selector.listeners start listener k'' ∧
    ∃ fault m, (listener.notify ⟨sieved.kept, exclusions⟩).exec k'' = (.error fault, m) ∧
      outcome = .error (.listenerFailed listener.name fault)

/-- What the filters kept is selected. -/
def Selected : Prop :=
  ∃ raw k left ordered k' sieved m exclusions, selector.Leaves request l raw k left ∧
    selector.Orders left (selector.readingStart request raw k) ordered k' ∧
    selector.Sieves ordered k' sieved m ∧
    selector.Merges request exclusions ∧
    outcome = .ok ⟨sieved.kept, exclusions, sieved.removed⟩

end Rules

/-- The rules for the outcome of a selection, in the order in which they apply. -/
def rules (selector : Selector σ) (request : Request) (l : Ledger σ) : List (Outcome → Prop) :=
  [selector.SwitchedOff, selector.Undiscovered l, selector.WithoutCandidates l,
    selector.Misexcluded request l, selector.Unreadable request l, selector.Cyclic request l,
    selector.Misjudged request l, selector.Untold request l, selector.Selected request l]

/-! ## Where a rule admits nothing -/

section Silent

variable {selector : Selector σ} {request : Request} {l k m : Ledger σ} {raw : List ModuleId}
  {modules : List Order.Declared} {ordered : List ModuleId} {sieved : Sieved}

theorem not_switchedOff (enabled : selector.settings.enabled = true) (o : Outcome) :
    ¬ selector.SwitchedOff o := by
  rintro ⟨off, -⟩
  cases enabled.symm.trans off

theorem not_undiscovered (listed : selector.candidates.exec l = (.ok raw, k)) (o : Outcome) :
    ¬ selector.Undiscovered l o := by
  rintro ⟨fault, k', failed, -⟩
  cases listed.symm.trans failed

theorem not_withoutCandidates (listed : selector.candidates.exec l = (.ok raw, k))
    (nonempty : raw ≠ []) (o : Outcome) : ¬ selector.WithoutCandidates l o := by
  rintro ⟨k', none, -⟩
  cases listed.symm.trans none
  exact nonempty rfl

/-- Where no exclusion is invalid, there are no names to report. -/
theorem not_misexcluded (admits : selector.Admits request raw l k) (o : Outcome) :
    ¬ selector.Misexcluded request l o := by
  rintro ⟨raw', k', names, listed, -, hmem, some, -⟩
  cases admits.listed.symm.trans listed
  obtain ⟨name, hname⟩ := List.exists_mem_of_ne_nil names some
  have hinvalid : name ∈ selector.invalidExclusions request raw :=
    mem_invalidExclusions.2 ((and_congr_left' mem_exclusions).2 ((hmem name).1 hname))
  rw [admits.valid] at hinvalid
  cases hinvalid

/-- Where all metadata is read, none is the first that cannot be told. -/
theorem not_unreadable (listed : selector.candidates.exec l = (.ok raw, k))
    (reads : Order.Reads selector.source (NameSet.ofList (selector.remaining request raw)).toList
      (selector.readingStart request raw k) modules m) (o : Outcome) :
    ¬ selector.Unreadable request l o := by
  rintro ⟨raw', k', left, id, k'', leaves, turn, failure, m', failed, -⟩
  cases listed.symm.trans leaves.listed
  obtain rfl := leaves.left_eq
  have hsurvey := Order.survey_eq_ok_iff.2 reads
  cases hsurvey.symm.trans (Order.survey_eq_error_iff.2 ⟨id, k'', turn, failure, failed, rfl⟩)

/-- An arrangement has no module that must precede itself. -/
theorem not_cyclic (listed : selector.candidates.exec l = (.ok raw, k))
    (orders : selector.Orders (selector.remaining request raw)
      (selector.readingStart request raw k) ordered m) (o : Outcome) :
    ¬ selector.Cyclic request l o := by
  rintro ⟨raw', k', left, modules, m', leaves, reads, ⟨a, hchain⟩, -⟩
  cases listed.symm.trans leaves.listed
  obtain rfl := leaves.left_eq
  obtain ⟨modules', k'', reads', harrange, -⟩ := orders
  cases (Order.survey_eq_ok_iff.2 reads).symm.trans (Order.survey_eq_ok_iff.2 reads')
  exact (Order.exists_arrange_eq_ok_iff reads.byName).1 ⟨ordered, harrange⟩ a hchain

theorem not_misjudged (listed : selector.candidates.exec l = (.ok raw, k))
    (orders : selector.Orders (selector.remaining request raw)
      (selector.readingStart request raw k) ordered m)
    {after : Ledger σ} (sieves : selector.Sieves ordered m sieved after) (o : Outcome) :
    ¬ selector.Misjudged request l o := by
  rintro ⟨raw', k', left, ordered', m', filter, k'', leaves, orders', turn, e, m'', misjudges, -⟩
  cases listed.symm.trans leaves.listed
  have orders' := leaves.orders_iff.1 orders'
  cases (settle_eq_ok_iff.2 orders).symm.trans (settle_eq_ok_iff.2 orders')
  cases (sieve_eq_ok_iff.2 sieves).symm.trans
    (sieve_eq_error_iff.2 ⟨filter, k'', turn, misjudges⟩)

/-- Where all listeners are told, none is the first that fails. -/
theorem not_untold (listed : selector.candidates.exec l = (.ok raw, k))
    {start told after : Ledger σ} {units : List Unit}
    (orders : selector.Orders (selector.remaining request raw)
      (selector.readingStart request raw k) ordered start)
    (sieves : selector.Sieves ordered start sieved told)
    (heard : Run.Answered (Listener.hear ⟨sieved.kept, selector.exclusions request⟩)
      selector.listeners told units after) (o : Outcome) :
    ¬ selector.Untold request l o := by
  rintro ⟨raw', k', left, ordered', start', sieved', told', exclusions, listener, k'', leaves,
    orders', sieves', merges, turn, fault, m, failed, -⟩
  cases listed.symm.trans leaves.listed
  obtain rfl := merges_iff.1 merges
  have orders' := leaves.orders_iff.1 orders'
  cases (settle_eq_ok_iff.2 orders).symm.trans (settle_eq_ok_iff.2 orders')
  cases (sieve_eq_ok_iff.2 sieves).symm.trans (sieve_eq_ok_iff.2 sieves')
  have hall := Listener.tellAll_eq_ok_iff (u := ()).2 ⟨units, heard⟩
  cases hall.symm.trans (Listener.tellAll_eq_error_iff.2 ⟨listener, k'', turn, fault, failed, rfl⟩)

end Silent

/-! ## The rule that decides -/

section Phases

variable {selector : Selector σ} {request : Request} {l k m start told : Ledger σ}
  {raw : List ModuleId} {ordered : List ModuleId} {sieved : Sieved} {e : SelectionFailure}

/-- If candidates cannot be gathered, one of the rules before metadata decides. -/
theorem decidedBy_of_gather (enabled : selector.settings.enabled = true)
    (h : (selector.gather request).exec l = (.error e, m)) :
    DecidedBy (selector.rules request l) (.error e) := by
  refine .later (not_switchedOff enabled) ?_
  rcases gather_eq_error_iff.1 h with h | ⟨raw, k, listed, nonempty, invalid, rfl, -⟩
  · rcases discover_eq_error_iff.1 h with ⟨fault, failed, rfl⟩ | ⟨none, rfl⟩
    · exact .here ⟨fault, m, failed, rfl⟩
    · refine .later (not_undiscovered none) ?_
      exact .here ⟨m, none, rfl⟩
  · refine .later (not_undiscovered listed) ?_
    refine .later (not_withoutCandidates listed nonempty) ?_
    refine .here ⟨raw, k, _, listed, Exclusion.pairwise_ofStanding, ?_, invalid, rfl⟩
    exact fun name => mem_invalidExclusions.trans (and_congr_left' mem_exclusions)

theorem decidedBy_of_admits {rules : List (Outcome → Prop)} {o : Outcome}
    (enabled : selector.settings.enabled = true) (admits : selector.Admits request raw l k)
    (rest : DecidedBy rules o) :
    DecidedBy (selector.SwitchedOff :: selector.Undiscovered l :: selector.WithoutCandidates l ::
      selector.Misexcluded request l :: rules) o :=
  .later (not_switchedOff enabled) <| .later (not_undiscovered admits.listed) <|
    .later (not_withoutCandidates admits.listed admits.nonempty) <|
      .later (not_misexcluded admits) rest

/-- If the order cannot be settled, some metadata cannot be told, or all of it is read and there is
    a cycle. -/
theorem decidedBy_of_settle (enabled : selector.settings.enabled = true)
    (admits : selector.Admits request raw l k)
    (h : (selector.settle (selector.remaining request raw)).exec
      (selector.readingStart request raw k) = (.error e, m)) :
    DecidedBy (selector.rules request l) (.error e) := by
  refine decidedBy_of_admits enabled admits ?_
  rcases Order.order_eq_error_iff.1 (settle_eq_error_iff.1 h) with
    hsurvey | ⟨modules, conflict, reads, harrange, rfl⟩
  · obtain ⟨id, k', turn, failure, failed, rfl⟩ := Order.survey_eq_error_iff.1 hsurvey
    have leaves := leaves_of_listed request admits.listed
    exact .here ⟨raw, k, _, id, k', leaves, turn, failure, m, failed, rfl⟩
  · refine .later (not_unreadable admits.listed reads) ?_
    have hcycle := (Order.exists_arrange_eq_error_iff reads.byName).1 ⟨conflict, harrange⟩
    have leaves := leaves_of_listed request admits.listed
    exact .here ⟨raw, k, _, modules, m, leaves, reads, hcycle, _, _, rfl⟩

/-- Once candidates are ordered, the first six rules admit nothing. -/
theorem decidedBy_of_orders {rules : List (Outcome → Prop)} {o : Outcome}
    (enabled : selector.settings.enabled = true) (admits : selector.Admits request raw l k)
    (orders : selector.Orders (selector.remaining request raw)
      (selector.readingStart request raw k) ordered start)
    (rest : DecidedBy rules o) :
    DecidedBy (selector.SwitchedOff :: selector.Undiscovered l :: selector.WithoutCandidates l ::
      selector.Misexcluded request l :: selector.Unreadable request l ::
      selector.Cyclic request l :: rules) o := by
  refine decidedBy_of_admits enabled admits ?_
  obtain ⟨modules, read, reads, -, -⟩ := id orders
  exact .later (not_unreadable admits.listed reads) (.later (not_cyclic admits.listed orders) rest)

/-- If the sieve fails, the filter whose turn it is decides. -/
theorem decidedBy_of_sieve (enabled : selector.settings.enabled = true)
    (admits : selector.Admits request raw l k)
    (orders : selector.Orders (selector.remaining request raw)
      (selector.readingStart request raw k) ordered start)
    (h : (selector.sieve ordered).exec start = (.error e, m)) :
    DecidedBy (selector.rules request l) (.error e) := by
  refine decidedBy_of_orders enabled admits orders ?_
  obtain ⟨filter, k', turn, misjudges⟩ := sieve_eq_error_iff.1 h
  have leaves := leaves_of_listed request admits.listed
  exact .here ⟨raw, k, _, ordered, start, filter, k', leaves, leaves.orders_iff.2 orders, turn, e,
    m, misjudges, rfl⟩

/-- Once candidates are sieved, a listener decides or nothing is wrong. -/
theorem decidedBy_of_announce (enabled : selector.settings.enabled = true)
    (admits : selector.Admits request raw l k)
    (orders : selector.Orders (selector.remaining request raw)
      (selector.readingStart request raw k) ordered start)
    (sieves : selector.Sieves ordered start sieved told) :
    DecidedBy (selector.rules request l)
      ((selector.announce (selector.exclusions request) sieved).exec told).1 := by
  refine decidedBy_of_orders enabled admits orders ?_
  refine .later (not_misjudged admits.listed orders sieves) ?_
  have leaves := leaves_of_listed request admits.listed
  have merges : selector.Merges request (selector.exclusions request) := merges_iff.2 rfl
  rcases h : (selector.announce (selector.exclusions request) sieved).exec told with ⟨e | sel, m⟩
  · obtain ⟨listener, k', turn, fault, failed, rfl⟩ := announce_eq_error_iff.1 h
    exact .here ⟨raw, k, _, ordered, start, sieved, told, _, listener, k', leaves,
      leaves.orders_iff.2 orders, sieves, merges, turn, fault, m, failed, rfl⟩
  · obtain ⟨units, k', heard, rfl, -⟩ := announce_eq_ok_iff.1 h
    refine .later (not_untold admits.listed orders sieves heard) ?_
    exact .here ⟨raw, k, _, ordered, start, sieved, told, _, leaves, leaves.orders_iff.2 orders,
      sieves, merges, rfl⟩

end Phases

/-- Whatever is wrong with a selection, the first of the rules that names an outcome decides. -/
theorem outcome_of_select (selector : Selector σ) (request : Request) (l : Ledger σ) :
    DecidedBy (selector.rules request l) ((selector.select request).exec l).1 := by
  by_cases enabled : selector.settings.enabled = true
  · rw [select_of_enabled enabled, resolve_eq_sift_bind]
    simp only [sift, bind_assoc, Run.exec_bind]
    rcases hgather : (selector.gather request).exec l with ⟨e | left, m⟩
    · exact decidedBy_of_gather enabled hgather
    obtain ⟨raw, k, admits, rfl, rfl⟩ := gather_eq_ok_iff.1 hgather
    dsimp only
    rcases hsettle : (selector.settle (selector.remaining request raw)).exec
      (selector.readingStart request raw k) with ⟨e | ordered, start⟩
    · exact decidedBy_of_settle enabled admits hsettle
    have orders := settle_eq_ok_iff.1 hsettle
    dsimp only
    rcases hsieve : (selector.sieve ordered).exec start with ⟨e | sieved, told⟩
    · exact decidedBy_of_sieve enabled admits orders hsieve
    exact decidedBy_of_announce enabled admits orders (sieve_eq_ok_iff.1 hsieve)
  · refine .here ⟨Bool.eq_false_iff.2 enabled, ?_⟩
    rw [select, if_neg enabled]
    rfl

/-- Metadata cannot be read, a filter and a listener fail, and the request and the settings
    exclude modules that are no candidates. These decide, from wherever they come, and not the
    names that no module has. -/
theorem outcome_of_select_of_misexcluded :
    let selector : Selector Unit :=
      { candidates := return ["b", "a", "b"]
        inspector := Inspector.blank.withUnreadable (NameSet.ofList ["b"])
        locator := .ofList ["a", "b", "v", "w", "x"]
        filters := [.failing "is down"]
        listeners := [.failing "is down"]
        settings := { exclude := ["w, a", "ghost"] } }
    let request : Request := { modules := ["x"], names := ["v", "phantom"] }
    let l : Ledger Unit := ⟨(), []⟩
    ((selector.select request).exec l).1 = .error (.invalidExclusion ["v", "w", "x"]) ∧
      DecidedBy (selector.rules request l) (.error (.invalidExclusion ["v", "w", "x"])) := by
  intro selector request l
  have houtcome : ((selector.select request).exec l).1 =
      .error (.invalidExclusion ["v", "w", "x"]) := by
    simp only [selector, request, l]
    cbv
  exact ⟨houtcome, houtcome ▸ outcome_of_select selector request l⟩

end Selector

end Activation
