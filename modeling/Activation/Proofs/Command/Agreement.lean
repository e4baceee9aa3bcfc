-- SUMMARY: The two commands select the same and fail alike, and a failure prints nothing.
import Activation.Program
import Activation.Proofs.Command.Outcome
import Activation.Proofs.Report

/-!
# Agreement of the commands

Both commands load the same and, without exclusions on the command line, make the same
selection. So one fails exactly when the other does, and what they print is about one selection:
its lists are read from the JSON object, and a check counts them.
-/

namespace Activation.Command

/-- How the commands end, from whatever ledger. -/
inductive EndTogether (σ : Type) (files : Files) (environment : List (String × String))
    (inputs : CommandLine.Inputs) : Prop
  | failed {failure : Failure}
      (check : Run.Gives (check files environment inputs : Run σ Failure String)
        (.error failure))
      (resolve : ∀ json, Run.Gives (resolve files environment inputs [] [] json :
        Run σ Failure String) (.error failure))
  | selected {l : Loaded} {sel : Selection} (load : loaded files environment inputs = .ok l)
      (nothing : l.settings.enabled = false → sel = {})
      (check : Run.Gives (check files environment inputs : Run σ Failure String)
        (.ok (report l.settings.enabled sel)))
      (resolve : ∀ json, Run.Gives (resolve files environment inputs [] [] json :
        Run σ Failure String) (.ok (print json sel)))

/-- The commands load the same, and what is loaded gives the same selection to both. If it is
    switched off, the selection that `check` does not make has nothing in it. -/
theorem endTogether (σ : Type) (files : Files) (environment : List (String × String))
    (inputs : CommandLine.Inputs) : EndTogether σ files environment inputs := by
  have hcheck : Run.Gives (check files environment inputs : Run σ Failure String) (do
      (← loaded files environment inputs).printed .check) :=
    gives_run files environment ⟨false, inputs, .check⟩
  have hresolve : ∀ json, Run.Gives (resolve files environment inputs [] [] json :
      Run σ Failure String) (do
        (← loaded files environment inputs).printed (.resolve [] [] json)) := fun json =>
    gives_run files environment ⟨false, inputs, .resolve [] [] json⟩
  cases load : loaded files environment inputs with
  | error failure =>
    rw [load] at hcheck hresolve
    exact .failed hcheck hresolve
  | ok l =>
    rw [load] at hcheck hresolve
    simp only [bind, Except.bind, Loaded.printed] at hcheck hresolve
    cases outcome : (l.outcome {}).mapError Failure.selection with
    | error failure =>
      simp only [outcome] at hcheck hresolve
      exact .failed hcheck hresolve
    | ok sel =>
      simp only [outcome] at hcheck hresolve
      refine .selected load (fun disabled => ?_) hcheck hresolve
      rw [Loaded.outcome_of_disabled disabled] at outcome
      cases outcome
      rfl

end Activation.Command

namespace Activation.Program

/-- What a run of the program leaves behind tells how its command ended: standard output is what
    the command prints, and a failure goes to standard error and nothing else is printed. -/
def Outcome.Tells (o : Outcome) : Except Command.Failure String → Prop
  | .ok text => o.code = 0 ∧ o.stdout = text ∧ o.stderr = ""
  | .error failure =>
    o.code = 1 ∧ o.stdout = "" ∧ o.stderr = "error: " ++ failure.message ++ "\n"

/-- Every invocation tells how its command ends, and it ends in the same way from every ledger. -/
theorem invoke_tells {σ : Type} (files : Files) (environment : List (String × String))
    (invocation : CommandLine.Invocation) (l : Ledger σ) :
    (invoke files environment invocation).Tells
      ((Command.run files environment invocation).exec l).1 := by
  have hrun := Command.gives_run files environment invocation l
  have hunit := Command.gives_run files environment invocation { world := () }
  rw [hrun, ← hunit, invoke]
  rcases (Command.run files environment invocation).exec { world := () } with ⟨failure | text, k⟩
  · exact ⟨rfl, rfl, rfl⟩
  · exact ⟨rfl, rfl, rfl⟩

end Activation.Program

namespace Activation.Command

variable {σ : Type}

/-- The text is what a check prints of a selection, and the object and the lines are what is
    printed of it with and without JSON. -/
structure Reported (enabled : Bool) (sel : Selection) (text object lines : String) : Prop where
  counts : enabled = true → text =
    "OK " ++ toString sel.modules.length ++ " modules selected, " ++
      toString sel.exclusions.toList.length ++ " excluded, " ++
      toString sel.filtered.length ++ " filtered\n" ++
      (if sel.filtered = [] then ""
      else "Filtered: " ++ String.intercalate ", " sel.filtered ++ "\n")
  disabled : enabled = false →
    text = "DISABLED Module selection is disabled; nothing would be activated.\n" ∧ sel = {}
  lists : Report.read? object =
    some [("modules", sel.modules), ("exclusions", sel.exclusions.toList),
      ("filtered", sel.filtered)]
  modules : lines = String.join (sel.modules.map (· ++ "\n"))

/-- The texts that the commands give for a selection report it. -/
theorem reported_of_selected {enabled : Bool} {sel : Selection}
    (nothing : enabled = false → sel = {}) :
    Reported enabled sel (report enabled sel) (Report.json sel) (Report.lines sel) where
  counts on := by
    rw [report, on, if_pos rfl]
    rfl
  disabled off := by
    rw [report, off, if_neg Bool.false_ne_true]
    exact ⟨rfl, nothing off⟩
  lists := Report.read?_json sel
  modules := rfl

/-- The JSON object tells which selection it is of. -/
theorem Reported.sel_eq {enabled enabled' : Bool} {sel sel' : Selection}
    {text text' object lines lines' : String} (h : Reported enabled sel text object lines)
    (h' : Reported enabled' sel' text' object lines') : sel = sel' := by
  have hlists := h.lists.symm.trans h'.lists
  simp only [Option.some.injEq, List.cons.injEq, Prod.mk.injEq, true_and, and_true] at hlists
  obtain ⟨hmodules, hexclusions, hfiltered⟩ := hlists
  obtain ⟨modules, ⟨exclusions, _⟩, filtered⟩ := sel
  cases hmodules
  cases hexclusions
  cases hfiltered
  rfl

/-- A check fails exactly when a selection without exclusions fails, with the same failure. The
    program prints what its command gives, and nothing to standard output if it fails. If the
    commands succeed, a check counts what the JSON object lists, and plain lines are the modules
    of the object. -/
theorem check_agrees_with_resolve (files : Files) (environment : List (String × String))
    (inputs : CommandLine.Inputs) :
    (∀ (failure : Failure) (json : Bool) (l l' : Ledger σ),
      ((check files environment inputs).exec l).1 = .error failure ↔
        ((resolve files environment inputs [] [] json).exec l').1 = .error failure) ∧
    (∀ (verbose json : Bool) (l l' : Ledger σ),
      (Program.invoke files environment ⟨verbose, inputs, .check⟩).Tells
          ((check files environment inputs).exec l).1 ∧
        (Program.invoke files environment ⟨verbose, inputs, .resolve [] [] json⟩).Tells
          ((resolve files environment inputs [] [] json).exec l').1) ∧
    ∀ (l : Ledger σ) (text : String), ((check files environment inputs).exec l).1 = .ok text →
      ∃ loaded sel object lines, ((load files environment inputs).exec l).1 = .ok loaded ∧
        (∀ l' : Ledger σ,
          ((resolve files environment inputs [] [] true).exec l').1 = .ok object) ∧
        (∀ l' : Ledger σ,
          ((resolve files environment inputs [] [] false).exec l').1 = .ok lines) ∧
        Reported loaded.settings.enabled sel text object lines := by
  refine ⟨fun failure json l l' => ?_, fun verbose json l l' =>
    ⟨Program.invoke_tells files environment ⟨verbose, inputs, .check⟩ l,
      Program.invoke_tells files environment ⟨verbose, inputs, .resolve [] [] json⟩ l'⟩,
    fun l text htext => ?_⟩
  · cases endTogether σ files environment inputs with
    | failed check resolve => rw [check l, resolve json l']
    | selected load nothing check resolve =>
      rw [check l, resolve json l']
      simp
  · cases endTogether σ files environment inputs with
    | failed check resolve => cases (check l).symm.trans htext
    | @selected loaded sel load nothing check resolve =>
      cases (check l).symm.trans htext
      exact ⟨loaded, sel, _, _, (gives_load files environment inputs l).trans load, resolve true,
        resolve false, reported_of_selected nothing⟩

/-- One candidate is excluded by the settings, and one is filtered out. -/
theorem check_agrees_with_resolve_of_filtered :
    let text := "candidates = [\"gui\", \"old\", \"web\"]\n[selector]\nexclude = [\"old\"]\n" ++
      "[modules.gui]\nrequires-features = [\"x\"]\n"
    let files : Files := .ofList [("m.toml", .ok text)]
    let inputs : CommandLine.Inputs := { manifest := "m.toml" }
    let sel : Selection := ⟨["web"], NameSet.ofList ["old"], ["gui"]⟩
    let counts := "OK 1 modules selected, 1 excluded, 1 filtered\nFiltered: gui\n"
    let object := "\x7b\n  \"modules\": [\n    \"web\"\n  ],\n" ++
      "  \"exclusions\": [\n    \"old\"\n  ],\n  \"filtered\": [\n    \"gui\"\n  ]\n\x7d\n"
    (Program.invoke files [] ⟨false, inputs, .check⟩).Tells (.ok counts) ∧
      (Program.invoke files [] ⟨false, inputs, .resolve [] [] true⟩).Tells (.ok object) ∧
      (Program.invoke files [] ⟨false, inputs, .resolve [] [] false⟩).Tells (.ok "web\n") ∧
      Reported true sel counts object "web\n" := by
  intro text files inputs sel counts object
  let l : Ledger Unit := ⟨(), []⟩
  have hends : ((check files [] inputs).exec l).1 = .ok counts ∧
      ((resolve files [] inputs [] [] true).exec l).1 = .ok object ∧
      ((resolve files [] inputs [] [] false).exec l).1 = .ok "web\n" := by
    simp only [files, text, inputs, counts, object, l]
    exact ⟨by cbv, by cbv, by cbv⟩
  obtain ⟨hcheck, hobject, hlines⟩ := hends
  obtain ⟨-, tells, succeeds⟩ := @check_agrees_with_resolve Unit files [] inputs
  obtain ⟨loaded, sel', object', lines', -, hobject', hlines', reported⟩ :=
    succeeds l counts hcheck
  cases (hobject' l).symm.trans hobject
  cases (hlines' l).symm.trans hlines
  have hjson : Report.json sel = object := by
    simp only [sel, object]
    cbv
  have known := @reported_of_selected true sel Bool.noConfusion
  rw [hjson] at known
  have hsel : sel' = sel := reported.sel_eq known
  have henabled : loaded.settings.enabled = true := by
    by_contra hoff
    have hempty : sel = {} := hsel.symm.trans (reported.disabled (Bool.eq_false_iff.2 hoff)).2
    exact List.cons_ne_nil "web" [] (congrArg Selection.modules hempty)
  have hresolve := fun json => (tells false json l l).2
  rw [hsel, henabled] at reported
  exact ⟨hcheck ▸ (tells false true l l).1, hobject ▸ hresolve true, hlines ▸ hresolve false,
    reported⟩

end Activation.Command
