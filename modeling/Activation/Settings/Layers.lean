-- SUMMARY: Properties and variables that override settings.
import Activation.NameMap
import Activation.Settings
import Activation.Text.Integer

/-!
# Layers of settings

Settings are overridden by a map of properties, and then by variables of the
environment. A layer that gives exclusions replaces those of the layers before it.
-/

namespace Activation.Settings

/-- The property and the variable that switch selection on or off. -/
def enabledProperty : String := "modsel.enabled"

/-- The property that lists exclusions. -/
def excludeProperty : String := "modsel.exclude"

/-- The variable that switches selection on or off. -/
def enabledVariable : String := "MODSEL_ENABLED"

/-- The variable that lists exclusions. -/
def excludeVariable : String := "MODSEL_EXCLUDE"

/-- A text without its capital ASCII letters. -/
def lowerCase (s : String) : String :=
  String.ofList (s.toList.map Char.toLower)

/-- The truth value that a text stands for. Blanks at the ends and capitals do not matter. -/
def boolean (origin text : String) : Except SettingsFailure Bool :=
  match lowerCase (Text.trim text) with
  | "true" => .ok true
  | "false" => .ok false
  | other => .error (.notBoolean origin other)

/-- The number in brackets after the name of the exclusion property. It has to fit 64 bits. -/
def exclusionIndex? (name : String) : Option Nat :=
  match excludeProperty.toList.isPrefixOf? name.toList with
  | some ('[' :: rest) =>
    match rest.reverse with
    | ']' :: number =>
      (Text.natural? number.reverse).filter fun n => n < 18446744073709551616
    | _ => none
  | _ => none

/-- The exclusions that properties give, if they give any: the plain property first, then
    the numbered ones by their numbers. -/
def excludeOfProperties? (properties : NameMap String) : Option (List String) :=
  let plain := (properties.find? excludeProperty).toList
  let numbered := properties.entries.filterMap fun (name, value) =>
    (exclusionIndex? name).map fun n => (n, value)
  if plain = [] ∧ numbered = [] then none
  else some (plain ++ (numbered.mergeSort fun a b => a.1 ≤ b.1).map (·.2))

/-- Settings under a map of properties. -/
def withProperties (s : Settings) (properties : NameMap String) :
    Except SettingsFailure Settings := do
  let enabled ← match properties.find? enabledProperty with
    | some text => boolean enabledProperty text
    | none => .ok s.enabled
  return { enabled, exclude := (excludeOfProperties? properties).getD s.exclude }

/-- Settings under one variable. -/
def withVariable (s : Settings) (assignment : String × String) : Except SettingsFailure Settings :=
  let (name, value) := assignment
  if name = enabledVariable then
    return { s with enabled := ← boolean enabledVariable value }
  else if name = excludeVariable then .ok { s with exclude := [value] }
  else .ok s

/-- Settings under variables, each of which overrides those before it. -/
def withVariables (s : Settings) (assignments : List (String × String)) :
    Except SettingsFailure Settings :=
  assignments.foldlM withVariable s

end Activation.Settings
