-- SUMMARY: What a map of properties does to settings, also in place and a second time.
import Activation.Proofs.Runs
import Activation.Proofs.Settings.Layers
import Mathlib

/-!
# Settings under properties

Properties override settings as a whole: either the property about being switched on is
malformed, and then nothing is overridden, or the switch and the exclusions are what the
properties say of them. Only the property of the switch and those that list exclusions count. It
does not matter that settings are overridden in place, one field after the other, and doing it
again changes nothing.
-/

namespace Activation.Settings

variable {s t : Settings} {given given' : String → Option String} {properties : NameMap String}
  {outcome : Except SettingsFailure Settings}

/-- The properties that are looked at. -/
def Counts (name : String) : Prop :=
  name = enabledProperty ∨ name = excludeProperty ∨ ∃ n, Numbered name n

instance (name : String) : Decidable (Counts name) :=
  decidable_of_iff (name = enabledProperty ∨ name = excludeProperty ∨ (exclusionIndex? name).isSome)
    (by simp only [Counts, Option.isSome_iff_exists, exclusionIndex?_eq_some_iff])

/-- The switch under properties. -/
def switchUnder (s : Settings) (given : String → Option String) : Bool :=
  ((given enabledProperty).map affirms).getD s.enabled

/-- What becomes of settings under properties. -/
inductive Overridden (s : Settings) (given : String → Option String) :
    Except SettingsFailure Settings → Prop
  /-- The property about being switched on is neither true nor false. -/
  | malformed {text : String} (present : given enabledProperty = some text)
      (bad : ¬ IsBoolean text) :
      Overridden s given (.error (.notBoolean enabledProperty (lowerCase (Text.trim text))))
  /-- Some property lists exclusions, and those that do replace the ones of the settings. -/
  | replaced {exclude : List String}
      (wellFormed : ∀ text, given enabledProperty = some text → IsBoolean text)
      (excludes : Excludes given) (listed : Lists given exclude) :
      Overridden s given (.ok ⟨s.switchUnder given, exclude⟩)
  /-- No property lists exclusions, and those of the settings stay. -/
  | kept (wellFormed : ∀ text, given enabledProperty = some text → IsBoolean text)
      (silent : ¬ Excludes given) :
      Overridden s given (.ok ⟨s.switchUnder given, s.exclude⟩)

/-- Override settings in place: first the switch, then the exclusions. -/
def overrideInPlace (properties : NameMap String) : Run Settings SettingsFailure Unit := do
  if let some text := properties.find? enabledProperty then
    let enabled ← Run.ofExcept (boolean enabledProperty text)
    Run.act fun s => (.ok (), { s with enabled })
  if let some exclude := excludeOfProperties? properties then
    Run.act fun s => (.ok (), { s with exclude })

/-! ## The outcome -/

/-- What the program does with properties is one of the ways to end. -/
theorem overridden_withProperties (s : Settings) (properties : NameMap String) :
    Overridden s properties.find? (s.withProperties properties) := by
  by_cases wellFormed : ∀ text, properties.find? enabledProperty = some text → IsBoolean text
  · rw [withProperties_of_wellFormed wellFormed]
    cases hlist : excludeOfProperties? properties with
    | some exclude =>
      obtain ⟨excludes, listed⟩ := lists_of_excludeOfProperties? hlist
      exact .replaced wellFormed excludes listed
    | none => exact .kept wellFormed (excludeOfProperties?_eq_none_iff.1 hlist)
  · simp only [not_forall] at wellFormed
    obtain ⟨text, present, bad⟩ := wellFormed
    rw [withProperties_of_malformed present bad]
    exact .malformed present bad

/-- Settings are overridden in one way only. -/
theorem Overridden.eq {outcome' : Except SettingsFailure Settings}
    (h : Overridden s given outcome) (h' : Overridden s given outcome') : outcome = outcome' := by
  cases h with
  | malformed present bad =>
    cases h' with
    | malformed present' bad' =>
      cases present.symm.trans present'
      rfl
    | replaced wellFormed | kept wellFormed => exact absurd (wellFormed _ present) bad
  | replaced wellFormed excludes listed =>
    cases h' with
    | malformed present bad => exact absurd (wellFormed _ present) bad
    | replaced _ _ listed' => rw [listed.eq listed']
    | kept _ silent => exact absurd excludes silent
  | kept wellFormed silent =>
    cases h' with
    | malformed present bad => exact absurd (wellFormed _ present) bad
    | replaced _ excludes => exact absurd excludes silent
    | kept => rfl

/-- There is only one way to end for given properties. -/
theorem overridden_iff :
    Overridden s properties.find? outcome ↔ outcome = s.withProperties properties := by
  refine ⟨fun h => h.eq (overridden_withProperties s properties), ?_⟩
  rintro rfl
  exact overridden_withProperties s properties

/-- Properties fail exactly if the switch is there and is no boolean; exclusions cannot fail. -/
theorem exists_error_iff : (∃ failure, s.withProperties properties = .error failure) ↔
    ∃ text, properties.find? enabledProperty = some text ∧ ¬ IsBoolean text := by
  constructor
  · rintro ⟨failure, hfailure⟩
    have h := overridden_withProperties s properties
    rw [hfailure] at h
    cases h with
    | malformed present bad => exact ⟨_, present, bad⟩
  · rintro ⟨text, present, bad⟩
    exact ⟨_, withProperties_of_malformed present bad⟩

/-! ## Properties that do not count -/

theorem Excludes.congr (h : ∀ name, Counts name → given' name = given name)
    (excludes : Excludes given) : Excludes given' := by
  obtain ⟨name, value, hvalue, hname⟩ := excludes
  exact ⟨name, value, (h name (.inr hname)).trans hvalue, hname⟩

/-- Properties that do not count list nothing. -/
theorem Lists.congr {exclude : List String} (h : ∀ name, Counts name → given' name = given name)
    (listed : Lists given exclude) : Lists given' exclude := by
  obtain ⟨numbered, hmem, sorted, rfl⟩ := listed
  refine ⟨numbered, fun n name value => ?_, sorted, ?_⟩
  · rw [hmem]
    exact and_congr_right fun hname => by rw [h name (.inr (.inr ⟨n, hname⟩))]
  · rw [h excludeProperty (.inr (.inl rfl))]

/-- Properties that do not count have no effect. -/
theorem Overridden.congr (h : ∀ name, Counts name → given' name = given name)
    (overridden : Overridden s given outcome) : Overridden s given' outcome := by
  have hswitch : given' enabledProperty = given enabledProperty := h _ (.inl rfl)
  have hunder : s.switchUnder given = s.switchUnder given' := by
    rw [switchUnder, switchUnder, hswitch]
  cases overridden with
  | malformed present bad => exact .malformed (hswitch.trans present) bad
  | replaced wellFormed excludes listed =>
    rw [hunder]
    exact .replaced (hswitch ▸ wellFormed) (excludes.congr h) (listed.congr h)
  | kept wellFormed silent =>
    rw [hunder]
    exact .kept (hswitch ▸ wellFormed)
      fun excludes => silent (excludes.congr fun name hname => (h name hname).symm)

/-! ## A second time -/

/-- Settings that were overridden are what the properties make of them. -/
theorem Overridden.again (h : Overridden s given (.ok t)) : Overridden t given (.ok t) := by
  have hunder : ∀ exclude, switchUnder ⟨s.switchUnder given, exclude⟩ given =
      s.switchUnder given := by
    intro exclude
    unfold switchUnder
    generalize (given enabledProperty).map affirms = switch
    cases switch with
    | none => rfl
    | some enabled => rfl
  cases h with
  | @replaced exclude wellFormed excludes listed =>
    have hagain := replaced (s := ⟨s.switchUnder given, exclude⟩) wellFormed excludes listed
    rwa [hunder] at hagain
  | kept wellFormed silent =>
    have hagain := kept (s := ⟨s.switchUnder given, s.exclude⟩) wellFormed silent
    rwa [hunder] at hagain

/-! ## In place -/

/-- What overriding in place leaves is what overriding as a whole gives. -/
theorem exec_overrideInPlace (properties : NameMap String) (l : Ledger Settings) :
    (overrideInPlace properties).exec l =
      ((l.world.withProperties properties).map fun _ => (),
        ⟨(l.world.withProperties properties).toOption.getD l.world, l.log⟩) := by
  unfold overrideInPlace
  by_cases wellFormed : ∀ text, properties.find? enabledProperty = some text → IsBoolean text
  · rw [withProperties_of_wellFormed wellFormed]
    cases hswitch : properties.find? enabledProperty with
    | none =>
      cases excludeOfProperties? properties with
      | none => rfl
      | some exclude => rfl
    | some text =>
      simp only [boolean_of_isBoolean (wellFormed text hswitch), Option.map_some]
      generalize affirms text = enabled
      cases excludeOfProperties? properties with
      | none => rfl
      | some exclude => rfl
  · simp only [not_forall] at wellFormed
    obtain ⟨text, present, bad⟩ := wellFormed
    rw [withProperties_of_malformed present bad]
    simp only [present, boolean_of_not_isBoolean bad]
    rfl

/-- Properties override settings as `Overridden` says. If they fail, the settings are left as they
    were, also where they are overridden in place. Other properties have no effect, and the same
    properties once more change nothing. -/
theorem overridden_of_properties (s : Settings) (properties : NameMap String) :
    (∀ outcome, Overridden s properties.find? outcome ↔
      outcome = s.withProperties properties) ∧
    ((∃ failure, s.withProperties properties = .error failure) ↔
      ∃ text, properties.find? enabledProperty = some text ∧ ¬ IsBoolean text) ∧
    (∀ failure, s.withProperties properties = .error failure → ∀ log,
      (overrideInPlace properties).exec ⟨s, log⟩ = (.error failure, ⟨s, log⟩)) ∧
    (∀ t, s.withProperties properties = .ok t →
      (∀ log, (overrideInPlace properties).exec ⟨s, log⟩ = (.ok (), ⟨t, log⟩)) ∧
      t.withProperties properties = .ok t) ∧
    ∀ other : NameMap String, (∀ name, Counts name → other.find? name = properties.find? name) →
      s.withProperties other = s.withProperties properties := by
  refine ⟨fun outcome => overridden_iff, exists_error_iff, ?unchanged, ?changed, ?others⟩
  case unchanged =>
    intro failure h log
    rw [exec_overrideInPlace, h]
    rfl
  case changed =>
    intro t h
    refine ⟨fun log => ?_, ?_⟩
    · rw [exec_overrideInPlace, h]
      rfl
    · exact (overridden_iff.1 (overridden_iff.2 h.symm).again).symm
  case others =>
    intro other h
    exact (overridden_iff.1 ((overridden_withProperties s other).congr fun name hname =>
      (h name hname).symm))

/-- Numbers count as numbers, however they are written, and a name that only looks like that of a
    property which lists exclusions does not count. -/
theorem overridden_of_properties_of_near_misses :
    let listing := [("modsel.enabled", " FALSE\t"), ("modsel.exclude[10]", "c"),
      ("modsel.exclude[2]", "d"), ("modsel.exclude[+2]", ""), ("modsel.exclude", " a,b"),
      ("modsel.exclude[002]", "e")]
    let others := [("modsel.exclude[]", "x"), ("modsel.exclude[-1]", "x"),
      ("modsel.exclude[ 1]", "x"), ("modsel.exclude[1]x", "x"), ("modsel.excluded", "x"),
      ("a.modsel.exclude[1]", "x"), ("modsel.exclude[18446744073709551616]", "x")]
    let s : Settings := { exclude := ["z"] }
    let t : Settings := { enabled := false, exclude := [" a,b", "", "e", "d", "c"] }
    (∀ e ∈ others, ¬ Counts e.1) ∧ s.withProperties (.ofList listing) = .ok t ∧
      s.withProperties (.ofList (others ++ listing)) = .ok t ∧
      t.withProperties (.ofList listing) = .ok t ∧
      (overrideInPlace (.ofList listing)).exec ⟨s, []⟩ = (.ok (), ⟨t, []⟩) := by
  intro listing others s t
  have hall : (others.all fun e => !decide (Counts e.1)) = true := by
    simp only [others]
    cbv
  have hothers : ∀ e ∈ others, ¬ Counts e.1 := by
    intro e he
    simpa using List.all_eq_true.1 hall e he
  have hnumbered : ((NameMap.ofList listing).entries.filterMap fun e =>
      (exclusionIndex? e.1).map fun n => (n, e.2)) = [(2, ""), (2, "e"), (10, "c"), (2, "d")] := by
    simp only [listing]
    cbv
  have hlisting : s.withProperties (.ofList listing) = .ok t := by
    simp only [withProperties, excludeOfProperties?, hnumbered, reduceCtorEq, and_false, if_false,
      listing, s, t]
    cbv
  obtain ⟨-, -, -, again, same⟩ := overridden_of_properties s (.ofList listing)
  obtain ⟨inPlace, twice⟩ := again t hlisting
  refine ⟨hothers, hlisting, ?_, twice, inPlace []⟩
  rw [← hlisting]
  refine same _ fun name hname => ?_
  have hskipped : ∀ value, (name, value) ∉ others := fun value hmem => hothers _ hmem hname
  rw [NameMap.find?_ofList, NameMap.find?_ofList, NameMap.valuesFor_append,
    NameMap.valuesFor_eq_nil_iff.2 hskipped, List.nil_append]

end Activation.Settings
