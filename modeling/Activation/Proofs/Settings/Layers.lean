-- SUMMARY: What settings are under properties and variables, layer by layer.
import Activation.Command
import Activation.Proofs.Except
import Activation.Proofs.Settings.Exclusions

/-!
# Layers of settings

Of the values that a layer gives for one name the last one counts, and variables come before
properties and properties before the settings that they override. Malformed truth values count
otherwise: of the properties only the last one is looked at, of the variables all are, and a
malformed property comes before any malformed variable.
-/

namespace Activation.Settings

/-! ## Truth values -/

/-- A text stands for a truth value. Blanks at its ends and capital ASCII letters do not
    matter. -/
def IsBoolean (text : String) : Prop :=
  lowerCase (Text.trim text) = "true" ∨ lowerCase (Text.trim text) = "false"

instance (text : String) : Decidable (IsBoolean text) :=
  inferInstanceAs (Decidable (_ ∨ _))

/-- Whether a text stands for truth. -/
def affirms (text : String) : Bool := lowerCase (Text.trim text) = "true"

variable {s t : Settings} {origin text : String}

theorem boolean_of_isBoolean (h : IsBoolean text) : boolean origin text = .ok (affirms text) := by
  cases h with
  | inl h => simp [boolean, affirms, h]
  | inr h => simp [boolean, affirms, h]

/-- Any other text is told in the failure, trimmed and in lower case. -/
theorem boolean_of_not_isBoolean (h : ¬ IsBoolean text) :
    boolean origin text = .error (.notBoolean origin (lowerCase (Text.trim text))) := by
  obtain ⟨htrue, hfalse⟩ := not_or.1 h
  unfold boolean
  split
  · rename_i h
    exact absurd h htrue
  · rename_i h
    exact absurd h hfalse
  · rfl

/-! ## The outcome -/

section Outcome

variable (s : Settings) (properties assignments : List (String × String))

/-- The value that entries give for a name last. -/
abbrev lastOf (entries : List (String × String)) (name : String) : Option String :=
  (NameMap.valuesFor name entries).getLast?

/-- The properties say nothing malformed about selection being switched on. -/
def PropertyWellFormed : Prop :=
  ∀ text, lastOf properties enabledProperty = some text → IsBoolean text

/-- Whether selection is switched on: by the last variable, else by the last property, else by the
    settings. -/
def enabledUnder : Bool :=
  (((lastOf assignments enabledVariable).or (lastOf properties enabledProperty)).map
    affirms).getD s.enabled

/-- The exclusions: the last variable as the only one, else those that the properties list, else
    those of the settings. -/
inductive ExcludedUnder : List String → Prop
  | byVariable {text : String} (last : lastOf assignments excludeVariable = some text) :
      ExcludedUnder [text]
  | byProperties {exclude : List String} (none : lastOf assignments excludeVariable = none)
      (given : Excludes (lastOf properties)) (listed : Lists (lastOf properties) exclude) :
      ExcludedUnder exclude
  | bySettings (none : lastOf assignments excludeVariable = none)
      (silent : ¬ Excludes (lastOf properties)) : ExcludedUnder s.exclude

/-- What becomes of settings under properties and variables. -/
inductive Layered : Except SettingsFailure Settings → Prop
  /-- The last property about being switched on is malformed. -/
  | badProperty {text : String} (last : lastOf properties enabledProperty = some text)
      (malformed : ¬ IsBoolean text) :
      Layered (.error (.notBoolean enabledProperty (lowerCase (Text.trim text))))
  /-- Some variable about being switched on is malformed. The first such one is reported. -/
  | badVariable {text : String} (property : PropertyWellFormed properties)
      (first : (NameMap.valuesFor enabledVariable assignments).find? (¬ IsBoolean ·) = some text) :
      Layered (.error (.notBoolean enabledVariable (lowerCase (Text.trim text))))
  | settled {exclude : List String} (property : PropertyWellFormed properties)
      (wellFormed : ∀ text ∈ NameMap.valuesFor enabledVariable assignments, IsBoolean text)
      (excluded : ExcludedUnder s properties assignments exclude) :
      Layered (.ok ⟨enabledUnder s properties assignments, exclude⟩)

end Outcome

/-! ## Properties -/

/-- A malformed switch fails before exclusions are looked at. -/
theorem withProperties_of_malformed {properties : NameMap String}
    (h : properties.find? enabledProperty = some text) (malformed : ¬ IsBoolean text) :
    s.withProperties properties =
      .error (.notBoolean enabledProperty (lowerCase (Text.trim text))) := by
  simp only [withProperties, h, boolean_of_not_isBoolean malformed, bind, Except.bind]

/-- Properties override what they say something about and leave the rest. -/
theorem withProperties_of_wellFormed {properties : NameMap String}
    (h : ∀ text, properties.find? enabledProperty = some text → IsBoolean text) :
    s.withProperties properties =
      .ok ⟨((properties.find? enabledProperty).map affirms).getD s.enabled,
        (excludeOfProperties? properties).getD s.exclude⟩ := by
  unfold withProperties
  cases hfind : properties.find? enabledProperty with
  | none => simp only [bind, Except.bind, pure, Except.pure, Option.map_none, Option.getD_none]
  | some text =>
    simp only [boolean_of_isBoolean (h text hfind), bind, Except.bind, pure, Except.pure,
      Option.map_some, Option.getD_some]

/-! ## Variables -/

theorem enabledVariable_ne_excludeVariable : enabledVariable ≠ excludeVariable := by
  simp [enabledVariable, excludeVariable]

section Variables

variable {e : String × String} {rest assignments : List (String × String)}

theorem getD_map_getLast?_cons {α β : Type} (f : α → β) (a : α) (rest : List α) (b : β) :
    ((a :: rest).getLast?.map f).getD b = (rest.getLast?.map f).getD (f a) := by
  rw [List.getLast?_cons]
  cases rest.getLast? with
  | none => rfl
  | some last => rfl

theorem withVariables_cons_of_ok (h : s.withVariable e = .ok t) :
    s.withVariables (e :: rest) = t.withVariables rest := by
  rw [withVariables, List.foldlM_cons, h]
  rfl

theorem withVariables_cons_of_error {failure : SettingsFailure}
    (h : s.withVariable e = .error failure) : s.withVariables (e :: rest) = .error failure := by
  rw [withVariables, List.foldlM_cons, h]
  rfl

theorem withVariable_enabled_of_isBoolean (hname : e.1 = enabledVariable) (h : IsBoolean e.2) :
    s.withVariable e = .ok { s with enabled := affirms e.2 } := by
  simp only [withVariable, hname, if_true, boolean_of_isBoolean h, bind, Except.bind, pure,
    Except.pure]

theorem withVariable_enabled_of_malformed (hname : e.1 = enabledVariable) (h : ¬ IsBoolean e.2) :
    s.withVariable e = .error (.notBoolean enabledVariable (lowerCase (Text.trim e.2))) := by
  simp only [withVariable, hname, if_true, boolean_of_not_isBoolean h, bind, Except.bind]

theorem withVariable_exclude (hname : e.1 = excludeVariable) :
    s.withVariable e = .ok { s with exclude := [e.2] } := by
  simp only [withVariable, hname, enabledVariable_ne_excludeVariable.symm, if_true, if_false]

theorem withVariable_other (henabled : e.1 ≠ enabledVariable) (hexclude : e.1 ≠ excludeVariable) :
    s.withVariable e = .ok s := by
  simp only [withVariable, henabled, hexclude, if_false]

/-- One variable about being switched on that is malformed makes all of them fail, wherever it
    stands. -/
theorem withVariables_of_malformed
    (h : (NameMap.valuesFor enabledVariable assignments).find? (¬ IsBoolean ·) = some text) :
    s.withVariables assignments =
      .error (.notBoolean enabledVariable (lowerCase (Text.trim text))) := by
  induction assignments generalizing s with
  | nil => cases h
  | cons e rest ih =>
    rw [NameMap.valuesFor_cons] at h
    by_cases hname : e.1 = enabledVariable
    · rw [if_pos hname, List.find?_cons] at h
      by_cases hboolean : IsBoolean e.2
      · rw [withVariables_cons_of_ok (withVariable_enabled_of_isBoolean hname hboolean)]
        exact ih (by simpa [hboolean] using h)
      · have htext : e.2 = text := by simpa [hboolean] using h
        rw [withVariables_cons_of_error (withVariable_enabled_of_malformed hname hboolean), htext]
    · rw [if_neg hname] at h
      by_cases hexclude : e.1 = excludeVariable
      · rw [withVariables_cons_of_ok (withVariable_exclude hexclude), ih h]
      · rw [withVariables_cons_of_ok (withVariable_other hname hexclude), ih h]

/-- Where no variable is malformed, the last ones count. -/
theorem withVariables_of_wellFormed
    (h : ∀ text ∈ NameMap.valuesFor enabledVariable assignments, IsBoolean text) :
    s.withVariables assignments =
      .ok ⟨((lastOf assignments enabledVariable).map affirms).getD s.enabled,
        ((lastOf assignments excludeVariable).map ([·])).getD s.exclude⟩ := by
  induction assignments generalizing s with
  | nil => rfl
  | cons e rest ih =>
    have hrest : ∀ text ∈ NameMap.valuesFor enabledVariable rest, IsBoolean text := by
      intro text htext
      have hmem := List.mem_cons_of_mem e (NameMap.mem_valuesFor.1 htext)
      exact h text (NameMap.mem_valuesFor.2 hmem)
    simp only [lastOf, NameMap.valuesFor_cons]
    by_cases hname : e.1 = enabledVariable
    · have hboolean : IsBoolean e.2 := by
        apply h
        rw [NameMap.mem_valuesFor, ← hname]
        exact List.mem_cons_self
      have hother : ¬ e.1 = excludeVariable := fun heq =>
        enabledVariable_ne_excludeVariable (hname.symm.trans heq)
      rw [withVariables_cons_of_ok (withVariable_enabled_of_isBoolean hname hboolean), ih hrest,
        if_pos hname, if_neg hother, getD_map_getLast?_cons]
    · rw [if_neg hname]
      by_cases hexclude : e.1 = excludeVariable
      · rw [withVariables_cons_of_ok (withVariable_exclude hexclude), ih hrest, if_pos hexclude,
          getD_map_getLast?_cons]
      · rw [withVariables_cons_of_ok (withVariable_other hname hexclude), ih hrest,
          if_neg hexclude]

end Variables

/-! ## Both layers -/

section Both

variable {properties assignments : List (String × String)} {exclude : List String}

theorem find?_ofList_eq_lastOf (properties : List (String × String)) :
    (NameMap.ofList properties).find? = lastOf properties :=
  funext fun _ => NameMap.find?_ofList properties

/-- Exclusions are those of the last layer that gives any. -/
theorem excludedUnder_iff :
    ExcludedUnder s properties assignments exclude ↔
      exclude = ((lastOf assignments excludeVariable).map ([·])).getD
        ((excludeOfProperties? (.ofList properties)).getD s.exclude) := by
  constructor
  · intro h
    cases h with
    | byVariable last => rw [last, Option.map_some, Option.getD_some]
    | byProperties none given listed =>
      rw [none, Option.map_none, Option.getD_none]
      cases hlist : excludeOfProperties? (.ofList properties) with
      | some exclude' =>
        have hlists := (lists_of_excludeOfProperties? hlist).2
        rw [find?_ofList_eq_lastOf] at hlists
        exact listed.eq hlists
      | none =>
        rw [excludeOfProperties?_eq_none_iff, find?_ofList_eq_lastOf] at hlist
        exact absurd given hlist
    | bySettings none silent =>
      rw [← find?_ofList_eq_lastOf, ← excludeOfProperties?_eq_none_iff] at silent
      rw [none, silent, Option.map_none, Option.getD_none, Option.getD_none]
  · intro h
    subst h
    cases hlast : lastOf assignments excludeVariable with
    | some text => exact .byVariable hlast
    | none =>
      cases hlist : excludeOfProperties? (.ofList properties) with
      | some exclude =>
        have hlists := lists_of_excludeOfProperties? hlist
        rw [find?_ofList_eq_lastOf] at hlists
        exact .byProperties hlast hlists.1 hlists.2
      | none =>
        rw [excludeOfProperties?_eq_none_iff, find?_ofList_eq_lastOf] at hlist
        exact .bySettings hlast hlist

/-- Variables go before properties and properties before settings. -/
theorem enabledUnder_eq (s : Settings) (properties assignments : List (String × String)) :
    enabledUnder s properties assignments = ((lastOf assignments enabledVariable).map affirms).getD
      (((lastOf properties enabledProperty).map affirms).getD s.enabled) := by
  unfold enabledUnder
  cases lastOf assignments enabledVariable with
  | some text => simp only [Option.some_or, Option.map_some, Option.getD_some]
  | none => simp only [Option.none_or, Option.map_none, Option.getD_none]

theorem override_of_badProperty (last : lastOf properties enabledProperty = some text)
    (malformed : ¬ IsBoolean text) : Command.override s properties assignments =
      .error (.notBoolean enabledProperty (lowerCase (Text.trim text))) := by
  rw [← find?_ofList_eq_lastOf] at last
  rw [Command.override, withProperties_of_malformed last malformed]
  rfl

/-- Where the properties are well-formed, the variables decide. -/
theorem override_of_wellFormed (property : PropertyWellFormed properties) :
    Command.override s properties assignments =
      withVariables ⟨((lastOf properties enabledProperty).map affirms).getD s.enabled,
        (excludeOfProperties? (.ofList properties)).getD s.exclude⟩ assignments := by
  have hproperty : ∀ text, (NameMap.ofList properties).find? enabledProperty = some text →
      IsBoolean text := by
    rw [find?_ofList_eq_lastOf]
    exact property
  rw [Command.override, withProperties_of_wellFormed hproperty, find?_ofList_eq_lastOf]
  rfl

/-- Settings are overridden layer by layer, and this decides what becomes of them. -/
theorem layered_iff {outcome : Except SettingsFailure Settings} :
    Layered s properties assignments outcome ↔
      outcome = Command.override s properties assignments := by
  constructor
  · intro h
    cases h with
    | badProperty last malformed => exact (override_of_badProperty last malformed).symm
    | badVariable property first =>
      rw [override_of_wellFormed property, withVariables_of_malformed first]
    | settled property wellFormed excluded =>
      rw [override_of_wellFormed property, withVariables_of_wellFormed wellFormed,
        enabledUnder_eq, excludedUnder_iff.1 excluded]
  · intro h
    subst h
    by_cases hproperty : PropertyWellFormed properties
    · cases hfirst : (NameMap.valuesFor enabledVariable assignments).find? (¬ IsBoolean ·) with
      | some text =>
        rw [override_of_wellFormed hproperty, withVariables_of_malformed hfirst]
        exact .badVariable hproperty hfirst
      | none =>
        have wellFormed : ∀ text ∈ NameMap.valuesFor enabledVariable assignments,
            IsBoolean text := by
          simpa using hfirst
        rw [override_of_wellFormed hproperty, withVariables_of_wellFormed wellFormed,
          ← enabledUnder_eq]
        exact .settled hproperty wellFormed (excludedUnder_iff.2 rfl)
    · simp only [PropertyWellFormed, not_forall] at hproperty
      obtain ⟨text, last, malformed⟩ := hproperty
      rw [override_of_badProperty last malformed]
      exact .badProperty last malformed

end Both

/-! ## Layers that exclude nothing -/

/-- Entries without names clear the exclusions. -/
theorem excludedNames_eq_empty (h : ∀ text ∈ t.exclude, Text.tokens text = []) :
    t.excludedNames = ∅ := by
  have hnone : t.exclude.flatMap Text.tokens = [] := List.flatMap_eq_nil_iff.2 h
  rw [excludedNames, hnone]
  rfl

/-- The layer that counts for exclusions names nothing: the last variable, or all properties that
    list exclusions where there is no such variable. -/
inductive NamesNothing (properties assignments : List (String × String)) : Prop
  | byVariable {text : String} (last : lastOf assignments excludeVariable = some text)
      (empty : Text.tokens text = [])
  | byProperties (none : lastOf assignments excludeVariable = none)
      (given : Excludes (lastOf properties))
      (empty : ∀ name text, lastOf properties name = some text →
        (name = excludeProperty ∨ ∃ n, Numbered name n) → Text.tokens text = [])

/-- A layer that gives exclusions and names nothing clears those of the layers below. -/
theorem Layered.excludedNames_eq_empty {properties assignments : List (String × String)}
    (h : Layered s properties assignments (.ok t)) (nothing : NamesNothing properties assignments) :
    t.excludedNames = ∅ := by
  cases h with
  | settled property wellFormed excluded =>
    apply Settings.excludedNames_eq_empty
    cases excluded with
    | byVariable last =>
      cases nothing with
      | byVariable last' empty =>
        cases last.symm.trans last'
        exact List.forall_mem_singleton.2 empty
      | byProperties none given empty => cases last.symm.trans none
    | byProperties none given listed =>
      cases nothing with
      | byVariable last empty => cases none.symm.trans last
      | byProperties none' given' empty =>
        intro text htext
        obtain ⟨name, hgiven, hname⟩ := listed.exists_property htext
        exact empty name text hgiven hname
    | bySettings none silent =>
      cases nothing with
      | byVariable last empty => cases none.symm.trans last
      | byProperties none' given empty => exact absurd given silent

end Activation.Settings
