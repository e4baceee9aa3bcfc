-- SUMMARY: A manifest that is its own index goes as it goes with trimmed names and no index.
import Activation.Proofs.Command.Outcome
import Activation.Proofs.Manifest.Reading
import Activation.Proofs.Manifest.Requirements
import Mathlib

/-!
# A manifest as its own index

The document of a manifest can be given as the index too. Then everything that a module declares
is read from the index, where names are trimmed and empty names dropped. All commands go as they
go without an index on the manifest with its names so trimmed.
-/

namespace Activation

/-! ## Trimmed names -/

/-- A declaration with its names trimmed. -/
def Declaration.normalise (d : Declaration) : Declaration where
  metadata := d.metadata.normalise
  requiresFeatures := d.requiresFeatures.trimmed

namespace Manifest

/-- A manifest with the names trimmed that its modules declare. -/
def normalise (m : Manifest) : Manifest := { m with modules := m.modules.map (·.normalise) }

variable {m : Manifest} {id : ModuleId}

theorem find?_normalise : m.normalise.modules.find? id = (m.modules.find? id).map (·.normalise) :=
  NameMap.find?_map _

theorem locator_normalise : m.normalise.locator = m.locator := by
  funext id
  simp only [locator, NameMap.contains, find?_normalise, Option.isSome_map]

theorem metadataOf_normalise : m.normalise.metadataOf id = (m.metadataOf id).normalise := by
  unfold metadataOf
  rw [find?_normalise]
  cases m.modules.find? id with
  | none => rfl
  | some d => rfl

theorem requiredOf_normalise : m.normalise.requiredOf id = (m.requiredOf id).trimmed := by
  unfold requiredOf
  rw [find?_normalise]
  cases m.modules.find? id with
  | none => rfl
  | some d => rfl

end Manifest

namespace Command

/-! ## What is loaded -/

namespace Loaded

variable {l : Loaded}

/-- What is loaded with trimmed names and without an index. -/
def normalise (l : Loaded) : Loaded := { l with manifest := l.manifest.normalise, index := ∅ }

/-- A module that the manifest declares is read from the index, without blanks around names, and
    one that it does not declare has nothing in either. -/
theorem metadata_normalise (mirrors : l.index.Mirrors l.manifest.modules) :
    l.normalise.metadata = l.metadata := by
  funext id
  show Except.ok (l.manifest.normalise.metadataOf id) = l.metadata id
  rw [Manifest.metadataOf_normalise, metadata, mirrors.wasProcessed_eq, Manifest.metadataOf,
    NameMap.contains]
  cases hd : l.manifest.modules.find? id with
  | none => rfl
  | some d =>
    rw [Option.isSome_some, if_pos rfl, mirrors.metadata_eq hd]
    rfl

theorem verdict_of_get?_eq_none {id : ModuleId}
    (h : l.index.get? id Features.requiredAttribute = none) :
    l.verdict id = .ok ((l.manifest.requiredOf id).isSubset (.ofList l.features)) := by
  rw [← Manifest.all_requiredFeatures]
  simp only [verdict, Features.required?, h]
  rfl

theorem verdict_of_get?_eq_some {id : ModuleId} {v : Toml.Value} {names : NameSet}
    (h : l.index.get? id Features.requiredAttribute = some v)
    (hnames : l.index.getNames id Features.requiredAttribute = .ok names) :
    l.verdict id = .ok (names.isSubset (.ofList l.features)) := by
  simp only [verdict, Features.required?, h, hnames]
  rfl

/-- The index and the normalised manifest name the same required features. -/
theorem verdict_normalise (mirrors : l.index.Mirrors l.manifest.modules) :
    l.normalise.verdict = l.verdict := by
  funext id
  rw [verdict_of_get?_eq_none rfl]
  show Except.ok ((l.manifest.normalise.requiredOf id).isSubset (.ofList l.features)) = l.verdict id
  rw [Manifest.requiredOf_normalise]
  cases hd : l.manifest.modules.find? id with
  | none =>
    rw [verdict_of_get?_eq_none (mirrors.get?_eq_none hd _), Manifest.requiredOf, hd]
    rfl
  | some d =>
    have hrequired : l.manifest.requiredOf id = d.requiresFeatures := by
      rw [Manifest.requiredOf, hd]
      rfl
    cases hget : l.index.get? id Features.requiredAttribute with
    | some v => rw [verdict_of_get?_eq_some hget (mirrors.getNames_eq hd), hrequired]
    | none =>
      obtain ⟨attributes, described, hattributes⟩ := mirrors.exists_attributes hd
      have hempty : d.requiresFeatures = ∅ :=
        described.unlisted ((hattributes _).symm.trans hget)
      rw [verdict_of_get?_eq_none hget, hrequired, hempty]
      rfl

/-- An index that says what the manifest declares, but for blanks around names, leads to the
    same outcome as a manifest without these blanks. -/
theorem outcome_normalise (mirrors : l.index.Mirrors l.manifest.modules) :
    l.normalise.outcome = l.outcome := by
  have hcandidates : l.normalise.manifest.candidates = l.manifest.candidates := rfl
  have hlocator : l.normalise.manifest.locator = l.manifest.locator :=
    Manifest.locator_normalise
  have hsettings : l.normalise.settings = l.settings := rfl
  have hexclusions : l.normalise.exclusions = l.exclusions := funext (exclusions_congr hsettings)
  have hleft : l.normalise.left = l.left := by
    funext request
    simp only [left, hcandidates, hlocator, hexclusions]
  have hsieved : l.normalise.sieved = l.sieved := by
    unfold sieved
    rw [verdict_normalise mirrors]
  unfold outcome ordered
  rw [metadata_normalise mirrors, hleft, hsieved]
  rfl

theorem printed_normalise (mirrors : l.index.Mirrors l.manifest.modules) :
    l.normalise.printed = l.printed := by
  funext command
  cases command with
  | resolve exclude excludeNames json =>
    rw [printed, outcome_normalise mirrors]
    rfl
  | check =>
    rw [printed, outcome_normalise mirrors]
    rfl

end Loaded

/-! ## Commands -/

variable {σ : Type} {m : Manifest} {index : Index}

/-- The settings do not depend on what modules declare. -/
theorem printed_prepare_normalise (mirrors : index.Mirrors m.modules)
    (environment : List (String × String)) (inputs : CommandLine.Inputs)
    (command : CommandLine.Command) :
    (do (← prepare m.normalise ∅ environment inputs).printed command) =
      (do (← prepare m index environment inputs).printed command) := by
  unfold prepare
  show (do
    let l ← (do
      let settings ← (override m.settings inputs.properties environment).mapError Failure.settings
      return (⟨m.normalise, ∅, settings, inputs.features⟩ : Loaded))
    l.printed command) = _
  cases (override m.settings inputs.properties environment).mapError Failure.settings with
  | error failure => rfl
  | ok settings =>
    let l : Loaded := ⟨m, index, settings, inputs.features⟩
    exact congrFun (Loaded.printed_normalise (l := l) mirrors) command

section Load

variable {files : Files} {path text : String}

theorem loaded_of_unindexed (read : files.read path = .ok text)
    (accepted : Manifest.parse text = .ok m) (environment : List (String × String))
    (inputs : CommandLine.Inputs) :
    loaded files environment { inputs with manifest := path, index := none } =
      prepare m ∅ environment inputs := by
  simp only [loaded, Manifest.ofFile, read, accepted, Except.mapError, bind, Except.bind]
  rfl

/-- With its own index, the manifest is loaded beside what the index says of it. -/
theorem loaded_of_selfIndexed (read : files.read path = .ok text)
    (accepted : Manifest.parse text = .ok m) (indexed : Index.parse text = .ok index)
    (environment : List (String × String)) (inputs : CommandLine.Inputs) :
    loaded files environment { inputs with manifest := path, index := some path } =
      prepare m index environment inputs := by
  have hindex : indexOf files (some path) = .ok index := by
    simp only [indexOf, Files.isPresent, read, if_true, Index.ofFile, indexed]
    rfl
  simp only [loaded, Manifest.ofFile, read, accepted, Except.mapError, bind, Except.bind, hindex]
  rfl

end Load

/-- If a manifest gives every module a table, its document is an index that has the same modules
    and says of them the same, with names trimmed. Commands on both go as they go without an index
    on the manifest with its names trimmed, however this may be written. -/
theorem run_of_selfIndexed {text : String} {entries : Toml.Table}
    (document : Toml.parse? text = some entries) (accepted : Manifest.parse text = .ok m)
    (tables : ∀ modules, ("modules", .table modules) ∈ entries →
      ∀ e ∈ modules, ∃ attributes, e.2 = .table attributes) :
    ∃ index, Index.parse text = .ok index ∧
      (∀ id, index.wasProcessed id = m.modules.contains id) ∧
      (∀ id d, m.modules.find? id = some d →
        index.metadata id = .ok d.metadata.normalise ∧
          index.getNames id Features.requiredAttribute = .ok d.requiresFeatures.trimmed) ∧
      ∀ (files : Files) (path : String), files.read path = .ok text →
        ∀ (environment : List (String × String)) (verbose : Bool) (inputs : CommandLine.Inputs)
          (command : CommandLine.Command) (l l' : Ledger σ),
          let indexed := { inputs with manifest := path, index := some path }
          let result := ((run files environment ⟨verbose, indexed, command⟩).exec l).1
          result = ((do
            (← Run.ofExcept (prepare m.normalise ∅ environment inputs)).run command).exec l').1 ∧
          ∀ (files' : Files) (path' text' : String), files'.read path' = .ok text' →
            Manifest.parse text' = .ok m.normalise →
            let plain := { inputs with manifest := path', index := none }
            result = ((run files' environment ⟨verbose, plain, command⟩).exec l').1 := by
  obtain ⟨index, hindex, mirrors⟩ := Manifest.exists_mirrors_of_parse document accepted tables
  refine ⟨index, hindex, mirrors.wasProcessed_eq,
    fun id d hd => ⟨mirrors.metadata_eq hd, mirrors.getNames_eq hd⟩, ?_⟩
  intro files path read environment verbose inputs command l l' indexed result
  have hresult : result = (do (← prepare m.normalise ∅ environment inputs).printed command) := by
    rw [printed_prepare_normalise mirrors, ← loaded_of_selfIndexed read accepted hindex]
    exact gives_run files environment ⟨verbose, indexed, command⟩ l
  constructor
  · have hnormal := (Run.Gives.ofExcept (σ := σ) (prepare m.normalise ∅ environment inputs)).bind
      fun loaded => loaded.gives_run command
    exact hresult.trans (hnormal l').symm
  · intro files' path' text' read' accepted' plain
    have hplain := gives_run files' environment ⟨verbose, plain, command⟩ l'
    rw [loaded_of_unindexed read' accepted'] at hplain
    exact hresult.trans hplain.symm

/-- Blanks around a name hide what a module follows and requires, unless the manifest is its own
    index. -/
theorem run_of_selfIndexed_of_blanks :
    let text := "candidates = [\"a\", \"b\"]\n[modules.a]\nafter = [\" b \", \"\"]\n" ++
      "requires-features = [\" x\"]\n"
    let text' := "candidates = [\"a\", \"b\"]\n[modules.a]\nafter = [\"b\"]\n" ++
      "requires-features = [\"x\"]\n"
    let entries : Toml.Table :=
      [("candidates", .array [.string "a", .string "b"]),
        ("modules", .table [("a", .table [("after", .array [.string " b ", .string ""]),
          ("requires-features", .array [.string " x"])])])]
    let m : Manifest :=
      { candidates := ["a", "b"]
        modules := .ofList [("a", { metadata := { after := .ofList [" b ", ""] },
                                    requiresFeatures := .ofList [" x"] })] }
    let files : Files := .ofList [("m.toml", .ok text), ("n.toml", .ok text')]
    let inputs : CommandLine.Inputs := { manifest := "m.toml", features := ["x"] }
    let command : CommandLine.Command := .resolve [] [] false
    let l : Ledger Unit := ⟨(), []⟩
    Toml.parse? text = some entries ∧ Manifest.parse text = .ok m ∧
      (∀ modules, ("modules", .table modules) ∈ entries →
        ∀ e ∈ modules, ∃ attributes, e.2 = .table attributes) ∧
      Manifest.parse text' = .ok m.normalise ∧
      ((run files [] ⟨false, inputs, command⟩).exec l).1 = .ok "b\n" ∧
      ((run files [] ⟨false, { inputs with index := some "m.toml" }, command⟩).exec l).1 =
        .ok "b\na\n" ∧
      ((run files [] ⟨false, { inputs with manifest := "n.toml" }, command⟩).exec l).1 =
        .ok "b\na\n" := by
  intro text text' entries m files inputs command l
  have hparse : Toml.parse? text = some entries ∧ Manifest.parse text = .ok m ∧
      Manifest.parse text' = .ok m.normalise := by
    simp only [text, text', entries, m]
    exact ⟨by cbv, by cbv, by cbv⟩
  have hruns : ((run files [] ⟨false, inputs, command⟩).exec l).1 = .ok "b\n" ∧
      ((run files [] ⟨false, { inputs with manifest := "n.toml" }, command⟩).exec l).1 =
        .ok "b\na\n" := by
    simp only [files, text, text', inputs, command, l]
    exact ⟨by cbv, by cbv⟩
  obtain ⟨document, accepted, accepted'⟩ := hparse
  obtain ⟨hplain, hnormal⟩ := hruns
  have tables : ∀ modules, ("modules", .table modules) ∈ entries →
      ∀ e ∈ modules, ∃ attributes, e.2 = .table attributes := by
    intro modules hmodules e he
    simp only [entries, List.mem_cons, Prod.mk.injEq, String.reduceEq, false_and, true_and,
      Toml.Value.table.injEq, List.not_mem_nil, or_false, false_or] at hmodules
    subst hmodules
    cases List.mem_singleton.1 he
    exact ⟨_, rfl⟩
  have read : files.read "m.toml" = .ok text := by
    simp [files, Files.ofList, List.lookup]
  have read' : files.read "n.toml" = .ok text' := by
    simp [files, Files.ofList, List.lookup]
  obtain ⟨index, -, -, -, hcommands⟩ := run_of_selfIndexed document accepted tables
  obtain ⟨-, hindexed⟩ := hcommands files "m.toml" read [] false inputs command l l
  have hsame := hindexed files "n.toml" text' read' accepted'
  exact ⟨document, accepted, tables, accepted', hplain, hsame.trans hnormal, hnormal⟩

end Command

end Activation
