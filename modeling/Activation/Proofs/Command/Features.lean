-- SUMMARY: Active features decide only what is filtered out, and more of them filter out less.
import Activation.Proofs.Command.Outcome
import Activation.Proofs.Selection.Agreement
import Mathlib

/-!
# More features

The features that are active matter to nothing but the verdicts of the filter: not to the
candidates, not to their order, and not to what may go wrong. A module that is kept is kept
when more features are active.
-/

namespace Activation

/-- Out of the same modules in the same order, the second selection keeps what the first one
    keeps, and perhaps more. -/
structure Selection.Within (s t : Selection) : Prop where
  exclusions : s.exclusions = t.exclusions
  modules : s.modules.Sublist t.modules
  filtered : t.filtered.Sublist s.filtered
  together : (s.modules ++ s.filtered).Perm (t.modules ++ t.filtered)

namespace Command

variable {σ : Type} {features features' : List String}

namespace Loaded

variable (l : Loaded)

/-- What was loaded, with other features. -/
def activating (features : List String) : Loaded := { l with features }

@[simp] theorem exclusions_activating (features : List String) (request : Request) :
    (l.activating features).exclusions request = l.exclusions request := by
  have hsettings : (l.activating features).settings = l.settings := rfl
  exact exclusions_congr hsettings request

/-- Features do not matter before the filter. -/
theorem ordered_activating (features : List String) (request : Request) :
    (l.activating features).ordered request = l.ordered request := by
  have hmetadata : (l.activating features).metadata = l.metadata := rfl
  have hmanifest : (l.activating features).manifest = l.manifest := rfl
  simp only [ordered, left, hmetadata, hmanifest, exclusions_activating]

/-- A verdict can only become more lenient, and it fails as before. -/
theorem agree_verdict (h : features ⊆ features') (id : ModuleId) :
    Run.Agree (fun k k' => k = true → k' = true) ((l.activating features).verdict id)
      ((l.activating features').verdict id) := by
  refine (Run.Agree.of_eq rfl).bind fun required required' heq => ?_
  subst heq
  refine .ok ?_
  cases required with
  | none => exact fun _ => rfl
  | some names =>
    simp only [Option.all_some, NameSet.isSubset_iff, NameSet.mem_ofList, activating]
    exact fun active name hname => h (active name hname)

/-- The filter fails alike whatever features are active, and more of them let more through. -/
theorem agree_sieved (h : features ⊆ features') (ordered : List ModuleId) :
    Run.Agree Sieved.Within ((l.activating features).sieved ordered)
      ((l.activating features').sieved ordered) := by
  have hverdicts := Run.Agree.mapM (l.agree_verdict h) ordered
  have hfailures := (hverdicts.mapError Fault.metadata).mapError
    (SelectionFailure.filterFailed "required-features")
  refine hfailures.bind_of_ok fun keep keep' hkeep allows => ?_
  have hmapM := mapError_eq_ok_iff.1 (mapError_eq_ok_iff.1 hkeep)
  exact .ok (Sieved.within_of_allows allows (mapM_eq_ok_iff.1 hmapM).length_eq.symm)

/-- The outcomes can only differ by the filter. -/
theorem agree_outcome (h : features ⊆ features') (request : Request) :
    Run.Agree Selection.Within ((l.activating features).outcome request)
      ((l.activating features').outcome request) := by
  unfold outcome
  show Run.Agree _ (if l.settings.enabled then _ else _) (if l.settings.enabled then _ else _)
  simp only [ordered_activating, exclusions_activating]
  split
  · refine (Run.Agree.of_eq rfl).bind fun ordered ordered' heq => ?_
    subst heq
    refine (l.agree_sieved h ordered).bind fun sieved sieved' within => ?_
    exact .ok ⟨rfl, within.kept, within.removed, within.together⟩
  · exact .ok ⟨rfl, .refl _, .refl _, .refl _⟩

/-- The order of features and their repeats do not matter. -/
theorem outcome_of_sameMembers (h : SameMembers features features') (request : Request) :
    (l.activating features).outcome request = (l.activating features').outcome request := by
  have hverdict : (l.activating features).verdict = (l.activating features').verdict := by
    unfold verdict
    show _ = fun id => _
    simp only [activating, h.ofList_eq]
  simp only [outcome, ordered_activating, exclusions_activating, sieved, hverdict]
  rfl

end Loaded

variable {files : Files} {environment : List (String × String)} {inputs : CommandLine.Inputs}

/-- Features are taken as they are given, and nothing else that is loaded depends on them. -/
theorem loaded_activating (features : List String) :
    loaded files environment { inputs with features } =
      (loaded files environment inputs).map (·.activating features) := by
  unfold loaded
  dsimp only
  cases (Manifest.ofFile files inputs.manifest).mapError Failure.manifest with
  | error failure => rfl
  | ok manifest =>
    cases indexOf files inputs.index with
    | error failure => rfl
    | ok index =>
      show prepare manifest index environment { inputs with features } =
        (prepare manifest index environment inputs).map (·.activating features)
      unfold prepare
      dsimp only
      cases (override manifest.settings inputs.properties environment).mapError
        Failure.settings with
      | error failure => rfl
      | ok settings => rfl

/-- What is selected on a command line with other features. -/
def selectedActivating (files : Files) (environment : List (String × String))
    (inputs : CommandLine.Inputs) (request : Request) (features : List String) :
    Except Failure Selection := do
  let loaded ← loaded files environment inputs
  ((loaded.activating features).outcome request).mapError .selection

/-- What is printed is printed of a selection with the same loaded manifest, index and settings. -/
theorem gives_resolve_activating (features : List String) (exclude excludeNames : List String)
    (json : Bool) :
    Run.Gives (resolve files environment { inputs with features } exclude excludeNames json :
      Run σ Failure String)
      ((selectedActivating files environment inputs ⟨exclude, excludeNames⟩ features).map
        (print json)) := by
  let invocation : CommandLine.Invocation :=
    ⟨false, { inputs with features }, .resolve exclude excludeNames json⟩
  have hrun := gives_run (σ := σ) files environment invocation
  rw [loaded_activating] at hrun
  unfold selectedActivating
  cases hloaded : loaded files environment inputs with
  | error failure =>
    rw [hloaded] at hrun
    exact hrun
  | ok l =>
    rw [hloaded] at hrun
    exact hrun

/-- Whatever features are active, the same goes wrong. More of them only let more modules through
    the filter, and in what order or how often they are given does not matter. -/
theorem agree_of_features (h : features ⊆ features') (files : Files)
    (environment : List (String × String)) (inputs : CommandLine.Inputs)
    (exclude excludeNames : List String) :
    ∃ outcome outcome' : Except Failure Selection,
      (∀ (json : Bool) (l : Ledger σ),
        ((resolve files environment { inputs with features } exclude excludeNames json).exec l).1 =
          outcome.map (print json)) ∧
      (∀ (json : Bool) (l : Ledger σ),
        ((resolve files environment { inputs with features := features' } exclude excludeNames
            json).exec l).1 = outcome'.map (print json)) ∧
      Run.Agree Selection.Within outcome outcome' ∧
      (features' ⊆ features → outcome = outcome') := by
  let selected := selectedActivating files environment inputs ⟨exclude, excludeNames⟩
  refine ⟨selected features, selected features',
    fun json l => gives_resolve_activating features exclude excludeNames json l,
    fun json l => gives_resolve_activating features' exclude excludeNames json l, ?_, ?_⟩
  · refine (Run.Agree.of_eq rfl).bind fun loaded loaded' heq => ?_
    subst heq
    exact (loaded.agree_outcome h _).mapError _
  · intro h'
    have same : SameMembers features features' := fun f => ⟨@h f, @h' f⟩
    simp only [selected, selectedActivating, Loaded.outcome_of_sameMembers _ same]

/-- With one more feature active, a module is selected that was filtered out, in its place. -/
theorem agree_of_features_of_one_more :
    let text := "candidates = [\"web\", \"gui\"]\n[modules.gui]\n" ++
      "requires-features = [\"x\"]\n[modules.web]\nafter = [\"gui\"]\n"
    let files : Files := .ofList [("m.toml", .ok text)]
    let inputs : CommandLine.Inputs := { manifest := "m.toml" }
    let features := ["net"]
    let features' := ["x", "net", "x"]
    let l : Ledger Unit := ⟨(), []⟩
    features ⊆ features' ∧
      ((resolve files [] { inputs with features } [] [] false).exec l).1 = .ok "web\n" ∧
      ((resolve files [] { inputs with features := features' } [] [] false).exec l).1 =
        .ok "gui\nweb\n" ∧
      ∃ outcome outcome' : Except Failure Selection,
        outcome.map (print false) = .ok "web\n" ∧
        outcome'.map (print false) = .ok "gui\nweb\n" ∧
        Run.Agree Selection.Within outcome outcome' := by
  intro text files inputs features features' l
  have hprinted :
      ((resolve files [] { inputs with features } [] [] false).exec l).1 = .ok "web\n" ∧
        ((resolve files [] { inputs with features := features' } [] [] false).exec l).1 =
          .ok "gui\nweb\n" := by
    simp only [files, text, inputs, features, features', l]
    exact ⟨by cbv, by cbv⟩
  obtain ⟨hfewer, hmore⟩ := hprinted
  have h : features ⊆ features' := by
    simp [features, features']
  obtain ⟨outcome, outcome', hresolve, hresolve', within, -⟩ :=
    agree_of_features h files [] inputs [] []
  exact ⟨h, hfewer, hmore, outcome, outcome', (hresolve false l).symm.trans hfewer,
    (hresolve' false l).symm.trans hmore, within⟩

end Command

end Activation
