-- SUMMARY: The settings that a command works with, from its manifest, its properties and its environment.
import Activation.Proofs.Command.Loading
import Activation.Proofs.CommandLine.Property
import Activation.Proofs.Settings.Layers
import Mathlib

/-!
# Settings of a command

A command starts from the settings of its manifest. Properties of the command line override
them, and variables of the environment override both; a layer that gives exclusions replaces
those of the layers below, also if it names no module at all.
-/

namespace Activation.Command

open Settings (Layered NamesNothing)

variable {σ : Type} {files : Files} {inputs : CommandLine.Inputs} {manifest : Manifest}
  {index : Index}

/-- What loading gives once the manifest and the index are there. -/
theorem exec_load_of_ok (hmanifest : Manifest.ofFile files inputs.manifest = .ok manifest)
    (hindex : indexOf files inputs.index = .ok index) (environment : List (String × String))
    (l : Ledger σ) :
    ((load files environment inputs).exec l).1 =
      ((override manifest.settings inputs.properties environment).mapError .settings).map
        fun settings => ⟨manifest, index, settings, inputs.features⟩ := by
  rw [gives_load files environment inputs l, loaded, hmanifest, hindex]
  rfl

/-- Every property divides at its first equals sign. From the settings of the manifest, the
    properties and the variables, the layers decide on one outcome, and loading ends with it. A
    layer that gives exclusions and names none leaves nothing excluded by settings. -/
theorem layered_of_load {raws : List String}
    (given : raws.mapM CommandLine.property = .ok inputs.properties)
    (hmanifest : Manifest.ofFile files inputs.manifest = .ok manifest)
    (hindex : indexOf files inputs.index = .ok index) (environment : List (String × String))
    (l : Ledger σ) :
    List.Forall₂ CommandLine.Divides raws inputs.properties ∧
      ∃ outcome,
        (∀ o, Layered manifest.settings inputs.properties environment o ↔ o = outcome) ∧
        ((load files environment inputs).exec l).1 =
          (outcome.mapError .settings).map
            (fun settings => ⟨manifest, index, settings, inputs.features⟩) ∧
        ∀ settings, outcome = .ok settings → NamesNothing inputs.properties environment →
          settings.excludedNames = ∅ := by
  refine ⟨(mapM_eq_ok_iff.1 given).imp fun _ _ => CommandLine.property_eq_ok_iff.1,
    override manifest.settings inputs.properties environment, fun o => Settings.layered_iff,
    exec_load_of_ok hmanifest hindex environment l, ?_⟩
  intro settings hsettings nothing
  have layered : Layered manifest.settings inputs.properties environment (.ok settings) :=
    Settings.layered_iff.2 hsettings.symm
  exact layered.excludedNames_eq_empty nothing

/-- Numbers count and not their order on the command line, the later of two values for one name
    counts, and the variables override the switch. -/
theorem layered_of_load_of_numbered :
    let text := "candidates = [\"a\"]\n[selector]\nenabled = false\nexclude = [\"x\"]\n"
    let files : Files := .ofList [("m.toml", .ok text)]
    let raws := ["modsel.exclude[10]=c", " modsel.exclude[+2] =a=b", "modsel.enabled=maybe",
      "modsel.exclude[2]=", "modsel.exclude[2]= d ,", "modsel.enabled= False "]
    let properties := [("modsel.exclude[10]", "c"), ("modsel.exclude[+2]", "a=b"),
      ("modsel.enabled", "maybe"), ("modsel.exclude[2]", ""), ("modsel.exclude[2]", " d ,"),
      ("modsel.enabled", " False ")]
    let inputs : CommandLine.Inputs := { manifest := "m.toml", properties }
    let manifest : Manifest :=
      { candidates := ["a"], settings := { enabled := false, exclude := ["x"] } }
    let environment := [("MODSEL_ENABLED", "false"), ("HOME", "/"), ("MODSEL_ENABLED", " TRUE")]
    let settings : Settings := { enabled := true, exclude := ["a=b", " d ,", "c"] }
    let l : Ledger Unit := ⟨(), []⟩
    raws.mapM CommandLine.property = .ok inputs.properties ∧
      Manifest.ofFile files inputs.manifest = .ok manifest ∧
      indexOf files inputs.index = .ok ∅ ∧
      List.Forall₂ CommandLine.Divides raws properties ∧
      ((load files environment inputs).exec l).1 = .ok ⟨manifest, ∅, settings, []⟩ ∧
      Layered manifest.settings properties environment (.ok settings) := by
  intro text files raws properties inputs manifest environment settings l
  have given : raws.mapM CommandLine.property = .ok inputs.properties := by
    simp only [raws, inputs, properties]
    cbv
  have hmanifest : Manifest.ofFile files inputs.manifest = .ok manifest := by
    simp only [files, text, inputs, manifest]
    cbv
  have numbered : ((NameMap.ofList properties).entries.filterMap fun entry =>
      (Settings.exclusionIndex? entry.1).map fun n => (n, entry.2)) =
      [(2, "a=b"), (10, "c"), (2, " d ,")] := by
    simp only [properties]
    cbv
  have listed : Settings.excludeOfProperties? (.ofList properties) = some settings.exclude := by
    simp only [Settings.excludeOfProperties?, numbered, reduceCtorEq, and_false, if_false,
      properties, settings]
    cbv
  have hproperties : manifest.settings.withProperties (.ofList properties) =
      .ok { enabled := false, exclude := settings.exclude } := by
    simp only [Settings.withProperties, listed, properties, manifest, settings]
    cbv
  have hsettings : override manifest.settings properties environment = .ok settings := by
    simp only [override, hproperties, environment, settings]
    cbv
  have hindex : indexOf files inputs.index = .ok ∅ := rfl
  obtain ⟨divides, outcome, layered, ends, -⟩ :=
    layered_of_load given hmanifest hindex environment l
  have houtcome : .ok settings = outcome := (layered _).1 (Settings.layered_iff.2 hsettings.symm)
  rw [← houtcome] at ends
  exact ⟨given, hmanifest, hindex, divides, ends, (layered _).2 houtcome⟩

end Activation.Command
