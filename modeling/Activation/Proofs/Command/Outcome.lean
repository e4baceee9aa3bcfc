-- SUMMARY: What a command selects, as a function of what it loaded.
import Activation.Proofs.Command.Loading
import Activation.Proofs.Except
import Activation.Proofs.Selection.Phases

/-!
# Outcomes of commands

The collaborators of a command's selection write to the log and do nothing else. So what is
selected is a function of what the command loaded and of the request, and what a command prints
is a function of its files, its environment and its command line.
-/

namespace Activation

variable {σ : Type}

/-- Candidates in order, for metadata that is a function of the module. -/
def Order.ordering (metadata : ModuleId → Except MetadataFailure Metadata)
    (candidates : List ModuleId) : Except SelectionFailure (List ModuleId) := do
  let modules ← (NameSet.ofList candidates).toList.mapM fun id => do
    let metadata ← (metadata id).mapError (.metadataRead id)
    return (⟨id, metadata⟩ : Declared)
  (arrange modules).mapError fun conflict => .cycleDetected conflict.first conflict.second

/-- Ordering asks for metadata and does nothing else, so it gives what it gives with answers that
    are known beforehand. -/
theorem Order.gives_order {source : Source σ}
    {metadata : ModuleId → Except MetadataFailure Metadata}
    (h : ∀ id, Run.Gives (source.metadata id) (metadata id)) (candidates : List ModuleId) :
    Run.Gives (order source candidates) (ordering metadata candidates) := by
  have hdeclared : ∀ id, Run.Gives (declared source id) (do
      let metadata ← (metadata id).mapError (.metadataRead id)
      return (⟨id, metadata⟩ : Declared)) := fun id =>
    ((h id).mapFailure _).bind fun metadata => .pure _
  refine (Run.Gives.mapM fun id _ => hdeclared id).bind fun modules => ?_
  cases arrange modules with
  | ok ids => exact (Run.Gives.report _).bind fun _ => .pure ids
  | error conflict => exact .throw _

/-- A single filter that gives one verdict for each candidate divides them. -/
theorem Filter.gives_apply_singleton {filter : Filter σ} {candidates : List ModuleId}
    {index : Index} {verdicts : Except Fault (List Bool)}
    (h : Run.Gives (filter.verdicts candidates index) verdicts)
    (length : ∀ keep, verdicts = .ok keep → keep.length = candidates.length) :
    Run.Gives (apply [filter] candidates index)
      (do return .divide candidates (← verdicts.mapError (.filterFailed filter.name))) := by
  have hjudge := h.mapFailure (SelectionFailure.filterFailed filter.name)
  rw [apply_eq_mapM_bind]
  simp only [List.mapM_cons, List.mapM_nil, judge, bind_assoc]
  refine hjudge.bind_of_ok fun keep hkeep => ?_
  have hlength := length keep (mapError_eq_ok_iff.1 hkeep)
  rw [if_pos hlength, pure_bind, pure_bind, pure_bind, unanimous_singleton hlength]
  exact fun k => congrArg Prod.fst (exec_conclude _ _)

namespace Command

namespace Loaded

variable (l : Loaded) (request : Request)

/-- The metadata of a module: from the index if the module is there, else from the manifest. -/
def metadata (id : ModuleId) : Except MetadataFailure Metadata :=
  if l.index.wasProcessed id then (l.index.metadata id).mapError .malformed
  else .ok (l.manifest.metadataOf id)

def exclusions : NameSet :=
  (l.selector : Selector Unit).exclusions request

/-- The candidates that are left after exclusions. -/
def left : Except SelectionFailure (List ModuleId) :=
  let candidates := Candidates.distinct l.manifest.candidates
  if l.manifest.candidates = [] then .error .emptyCandidatePool
  else
    match Exclusion.ofStanding .foreign candidates (l.exclusions request) l.manifest.locator with
    | [] => .ok (candidates.filter fun id => !(l.exclusions request).contains id)
    | names => .error (.invalidExclusion names)

/-- The candidates that are left, in order. -/
def ordered : Except SelectionFailure (List ModuleId) := do
  Order.ordering l.metadata (← l.left request)

/-- Whether all features that a module requires are active. -/
def verdict (id : ModuleId) : Except MetadataFailure Bool := do
  let required ← (Features.required? l.manifest.requiredFeatures l.index id).mapError .malformed
  return required.all fun features => features.isSubset (.ofList l.features)

/-- Modules divided by the features that they require. -/
def sieved (ordered : List ModuleId) : Except SelectionFailure Sieved := do
  let verdicts := (ordered.mapM l.verdict).mapError Fault.metadata
  return .divide ordered (← verdicts.mapError (.filterFailed "required-features"))

/-- What is selected. -/
def outcome : Selector.Outcome :=
  if l.settings.enabled then do
    let ordered ← l.ordered request
    let sieved ← l.sieved ordered
    return ⟨sieved.kept, l.exclusions request, sieved.removed⟩
  else .ok {}

/-! ## The phases -/

variable {l l' : Loaded} {request : Request}

/-- Of what is loaded only the settings exclude modules. Whole selectors are not compared for
    that: their filters differ with the features. -/
theorem exclusions_congr (h : l.settings = l'.settings) (request : Request) :
    l.exclusions request = l'.exclusions request := by
  simp only [exclusions, Selector.exclusions, selector, h]

theorem gives_gather : Run.Gives ((l.selector : Selector σ).gather request) (l.left request) := by
  intro k
  let selector : Selector σ := l.selector
  have listed : selector.candidates.exec k = (.ok l.manifest.candidates, k) := rfl
  unfold left
  by_cases none : l.manifest.candidates = []
  · rw [if_pos none]
    rw [none] at listed
    have hempty := Selector.discover_eq_error_iff.2 (.inr ⟨listed, rfl⟩)
    exact congrArg Prod.fst (Selector.gather_eq_error_iff.2 (.inl hempty))
  · rw [if_neg none]
    split
    · rename_i valid
      exact congrArg Prod.fst (Selector.gather_eq_ok_iff.2 ⟨_, k, ⟨listed, none, valid⟩, rfl, rfl⟩)
    · rename_i invalid
      exact congrArg Prod.fst
        (Selector.gather_eq_error_iff.2 (.inr ⟨_, k, listed, none, invalid, rfl, rfl⟩))

theorem gives_source (id : ModuleId) :
    Run.Gives ((l.selector : Selector σ).source.metadata id) (l.metadata id) :=
  .ite (.ofExcept _) ((Run.Gives.report _).bind fun _ => .pure _)

theorem gives_settle (candidates : List ModuleId) :
    Run.Gives ((l.selector : Selector σ).settle candidates)
      (Order.ordering l.metadata candidates) := by
  rw [Selector.settle_eq_order_bind]
  exact (Order.gives_order gives_source candidates).reporting _

theorem gives_judge (id : ModuleId) :
    Run.Gives (Features.judge (.ofList l.features) l.manifest.requiredFeatures l.index id :
      Run σ MetadataFailure Bool) (l.verdict id) := by
  refine (Run.Gives.ofExcept _).bind fun required => ?_
  dsimp only
  split
  · exact .pure _
  · exact (Run.Gives.report _).bind fun _ => .pure _

/-- The features filter is the only one, so its verdicts are the whole of the sieve. -/
theorem gives_sieve (ordered : List ModuleId) :
    Run.Gives ((l.selector : Selector σ).sieve ordered) (l.sieved ordered) := by
  let filter : Filter σ := Features.filter (.ofList l.features) l.manifest.requiredFeatures
  have hverdicts : Run.Gives (filter.verdicts ordered l.index)
      ((ordered.mapM l.verdict).mapError Fault.metadata) :=
    (Run.Gives.mapM fun id _ => gives_judge id).mapFailure Fault.metadata
  refine Run.Gives.reporting (Filter.gives_apply_singleton hverdicts ?_) _
  intro keep hkeep
  exact (mapM_eq_ok_iff.1 (mapError_eq_ok_iff.1 hkeep)).length_eq.symm

theorem gives_announce (exclusions : NameSet) (sieved : Sieved) :
    Run.Gives ((l.selector : Selector σ).announce exclusions sieved)
      (.ok ⟨sieved.kept, exclusions, sieved.removed⟩) := by
  intro k
  rfl

/-- What is selected is a function of what was loaded. -/
theorem gives_select (l : Loaded) (request : Request) :
    Run.Gives ((l.selector : Selector σ).select request) (l.outcome request) := by
  refine .ite ?_ ((Run.Gives.report _).bind fun _ => .pure _)
  simp only [Selector.resolve_eq_sift_bind, Selector.sift, bind_assoc, ordered]
  refine gives_gather.bind fun left => (gives_settle left).bind fun ordered => ?_
  exact (gives_sieve ordered).bind fun sieved => gives_announce _ _

end Loaded

/-! ## Commands -/

/-- A selection as it is printed, as a JSON object or as lines. -/
def print (json : Bool) (s : Selection) : String := if json then Report.json s else Report.lines s

/-- What is printed of how a selection ends that is switched on or off. -/
def report (enabled : Bool) (s : Selection) : String :=
  if enabled then Report.summary s else Report.disabled

namespace Loaded

/-- Carry a command out with what is loaded. -/
def run (l : Loaded) : CommandLine.Command → Run σ Failure String
  | .resolve exclude excludeNames json => do
    let selection ← (l.selector.select { modules := exclude, names := excludeNames }).mapFailure
      .selection
    return print json selection
  | .check =>
    if l.settings.enabled then do
      let selection ← (l.selector.select {}).mapFailure .selection
      return Report.summary selection
    else return Report.disabled

/-- What a command prints with what is loaded. -/
def printed (l : Loaded) : CommandLine.Command → Except Failure String
  | .resolve exclude excludeNames json =>
    ((l.outcome ⟨exclude, excludeNames⟩).mapError .selection).map (print json)
  | .check => ((l.outcome {}).mapError .selection).map (report l.settings.enabled)

theorem outcome_of_disabled {l : Loaded} (h : l.settings.enabled = false) (request : Request) :
    l.outcome request = .ok {} := by
  rw [outcome, h, if_neg Bool.false_ne_true]

/-- A check does not select when selection is switched off, but it prints as if it did. -/
theorem gives_run (l : Loaded) (command : CommandLine.Command) :
    Run.Gives (l.run command : Run σ Failure String) (l.printed command) := by
  cases command with
  | resolve exclude excludeNames json => exact ((l.gives_select _).mapFailure _).map _
  | check =>
    unfold run printed
    cases enabled : l.settings.enabled with
    | true => exact ((l.gives_select {}).mapFailure _).map _
    | false =>
      rw [outcome_of_disabled enabled]
      exact .pure _

end Loaded

theorem run_eq_load_bind (files : Files) (environment : List (String × String))
    (invocation : CommandLine.Invocation) : run files environment invocation =
      (do (← load files environment invocation.inputs).run invocation.command :
        Run σ Failure String) := by
  obtain ⟨verbose, inputs, command⟩ := invocation
  cases command with
  | resolve exclude excludeNames json => rfl
  | check => rfl

/-- What a command prints is a function of the files, the environment and the command line. -/
theorem gives_run (files : Files) (environment : List (String × String))
    (invocation : CommandLine.Invocation) :
    Run.Gives (run files environment invocation : Run σ Failure String) (do
      (← loaded files environment invocation.inputs).printed invocation.command) := by
  rw [run_eq_load_bind]
  exact (gives_load files environment invocation.inputs).bind fun l => l.gives_run _

end Command

end Activation
