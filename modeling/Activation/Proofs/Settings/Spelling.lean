-- SUMMARY: Which names exclusions list, however they are spelled and wherever they are configured.
import Activation.Proofs.Index.Listing
import Activation.Proofs.Selection.Agreement
import Activation.Proofs.Settings.Layers
import Mathlib

/-!
# Spellings of exclusions

The names that exclusions list are read from each entry as from a list attribute of the index, and
put together. So it matters neither how names are distributed over entries and over the places
where exclusions are configured, nor in which order they stand, nor which blanks and empty names
stand between them. Two lists of entries list the same names exactly when one of them can be
turned into the other by such changes.
-/

namespace Activation.Settings

variable {entries entries' run : List String} {entry x : String} {names : NameSet}

/-- The names that entries list. -/
abbrev listed (entries : List String) : NameSet := excludedNames { exclude := entries }

/-- Names that can be listed with commas between them: none is empty, is surrounded by blanks or
    contains a comma. -/
def Listable (names : NameSet) : Prop :=
  ∀ x ∈ names, x ≠ "" ∧ Text.Unpadded x.toList ∧ ',' ∉ x.toList

/-- The second list of entries is the first one, written differently in one respect. -/
inductive Respells : List String → List String → Prop
  /-- Entries may stand in another order and repeatedly. -/
  | rearranged {entries entries' : List String} (same : SameMembers entries entries') :
      Respells entries entries'
  /-- Neighbouring entries may be joined by commas. -/
  | joined (before run after : List String) :
      Respells (before ++ (run ++ after)) (before ++ ",".intercalate run :: after)
  /-- Blanks may be put around a token of an entry. -/
  | padded {token text : String} (before earlier later after : List String)
      (uncut : ',' ∉ token.toList) (pads : Text.Pads text.toList token.toList) :
      Respells (before ++ ",".intercalate (earlier ++ token :: later) :: after)
        (before ++ ",".intercalate (earlier ++ text :: later) :: after)
  /-- An empty token may be put into an entry. -/
  | filled {blank : String} (before earlier later after : List String)
      (empty : Text.Pads blank.toList []) :
      Respells (before ++ ",".intercalate (earlier ++ later) :: after)
        (before ++ ",".intercalate (earlier ++ blank :: later) :: after)

/-! ## Names of entries -/

theorem mem_excludedNames {s : Settings} :
    x ∈ s.excludedNames ↔ ∃ entry ∈ s.exclude, x ∈ Text.tokens entry := by
  simp [excludedNames]

@[simp] theorem mem_listed : x ∈ listed entries ↔ ∃ entry ∈ entries, x ∈ Text.tokens entry :=
  mem_excludedNames

/-- An entry is read as a list attribute is. -/
theorem namesOfValue?_string (entry : String) :
    Index.namesOfValue? (.string entry) = some (listed [entry]) := by
  simp [Index.namesOfValue?, listed, excludedNames]

/-- Names that settings exclude can always be listed in one entry. -/
theorem listable_excludedNames (s : Settings) : Listable s.excludedNames := by
  intro x hx
  obtain ⟨entry, -, htoken⟩ := mem_excludedNames.1 hx
  obtain ⟨hne, unpadded⟩ := Text.plain_iff.1 (Text.plain_of_mem_tokens htoken)
  exact ⟨hne, unpadded, Text.notMem_of_mem_tokens htoken⟩

/-- All listable names can be listed by one entry. -/
theorem exists_entry (h : Listable names) : ∃ entry, listed [entry] = names := by
  have spelled : names.SpelledBy names.toList := {
    each := fun name hname => .inr ⟨name, hname, .refl _⟩
    every := fun name hname => ⟨name, hname, .refl _⟩ }
  have lists := Index.Lists.joined spelled fun name hname => (h name hname).2.2
  have plain : ∀ name ∈ names, Text.Plain name :=
    fun name hname => Text.plain_iff.2 ⟨(h name hname).1, (h name hname).2.1⟩
  have hnames := Index.namesOfValue?_of_lists lists plain
  rw [namesOfValue?_string, Option.some.injEq] at hnames
  exact ⟨_, hnames⟩

/-! ## Spellings -/

/-- One respelling keeps the names, since commas and blanks only divide them. -/
theorem Respells.listed_eq (h : Respells entries entries') : listed entries = listed entries' := by
  apply NameSet.ext_mem
  intro x
  rw [mem_listed, mem_listed]
  cases h with
  | rearranged same => exact exists_congr fun entry => and_congr_left fun _ => same entry
  | joined before run after =>
    simp only [List.mem_append, List.mem_cons, or_and_right, exists_or, exists_eq_left,
      Text.tokens_intercalate, List.mem_flatMap]
  | padded before earlier later after uncut pads =>
    simp only [Text.tokens_intercalate, List.flatMap_append, List.flatMap_cons,
      Text.tokens_of_pads pads uncut, List.mem_append, List.mem_cons, or_and_right, exists_or,
      exists_eq_left]
  | filled before earlier later after empty =>
    simp only [Text.tokens_intercalate, List.flatMap_append, List.flatMap_cons,
      Text.tokens_of_blank empty, List.nil_append, List.mem_append, List.mem_cons, or_and_right,
      exists_or, exists_eq_left]

open Relation (EqvGen)

/-- Any number of respellings, forth and back, keeps the names. -/
theorem listed_eq_of_eqvGen (h : EqvGen Respells entries entries') :
    listed entries = listed entries' := by
  induction h with
  | rel _ _ respells => exact respells.listed_eq
  | refl => rfl
  | symm _ _ _ ih => exact ih.symm
  | trans _ _ _ _ _ ih ih' => exact ih.trans ih'

/-- What can be done to each entry, whatever stands around it, can be done to all of them. -/
theorem eqvGen_flatMap {f : String → List String} (entries : List String)
    (h : ∀ entry ∈ entries, ∀ before after,
      EqvGen Respells (before ++ entry :: after) (before ++ (f entry ++ after)))
    (before after : List String) :
    EqvGen Respells (before ++ (entries ++ after)) (before ++ (entries.flatMap f ++ after)) := by
  induction entries generalizing before with
  | nil => exact .refl _
  | cons entry entries ih =>
    have hentry := h entry List.mem_cons_self before (entries ++ after)
    have hrest := ih (fun entry hentry => h entry (List.mem_cons_of_mem _ hentry))
      (before ++ f entry)
    refine .trans _ _ _ hentry ?_
    simpa only [List.append_assoc, List.flatMap_cons] using hrest

/-- An entry without commas can be replaced by the name that it lists, if any. -/
theorem eqvGen_of_notMem {text : String} (uncut : ',' ∉ text.toList) (before after : List String) :
    EqvGen Respells (before ++ text :: after) (before ++ (Text.tokens text ++ after)) := by
  rw [Text.tokens_of_notMem uncut]
  by_cases hblank : Text.trim text = ""
  · -- No entries can be joined into an empty one, and that can be filled with blanks.
    have hjoined := Respells.joined before [] after
    have hfilled := Respells.filled before [] [] after (Text.trim_eq_empty_iff.1 hblank)
    simp only [List.nil_append, String.intercalate_nil, String.intercalate_singleton]
      at hjoined hfilled
    simp only [hblank, ne_eq, not_true_eq_false, decide_false, Bool.false_eq_true,
      not_false_eq_true, List.filter_cons_of_neg, List.filter_nil, List.nil_append]
    exact .symm _ _ (.trans _ _ _ (.rel _ _ hjoined) (.rel _ _ hfilled))
  · have pads := (Text.trim_eq_iff (s := text)).1 rfl
    have huncut : ',' ∉ (Text.trim text).toList := fun hcomma => uncut (pads.2.mem hcomma)
    have hpadded := Respells.padded before [] [] after huncut pads.2
    simp only [List.nil_append, String.intercalate_singleton] at hpadded
    simp only [ne_eq, hblank, not_false_eq_true, decide_true, List.filter_cons_of_pos,
      List.filter_nil, List.cons_append, List.nil_append]
    exact .symm _ _ (.rel _ _ hpadded)

/-- An entry can be replaced by the names that it lists. -/
theorem eqvGen_of_entry (entry : String) (before after : List String) :
    EqvGen Respells (before ++ entry :: after) (before ++ (Text.tokens entry ++ after)) := by
  obtain ⟨texts, uncut, rfl⟩ := Text.exists_intercalate_eq entry
  have hcut := Respells.joined before texts after
  have htexts := eqvGen_flatMap texts (fun text htext => eqvGen_of_notMem (uncut text htext))
    before after
  rw [Text.tokens_intercalate]
  exact .trans _ _ _ (.symm _ _ (.rel _ _ hcut)) htexts

/-- Entries can be turned into the names that they list, each an entry of its own. -/
theorem eqvGen_toList (entries : List String) :
    EqvGen Respells entries (listed entries).toList := by
  have htokens := eqvGen_flatMap entries (fun entry _ => eqvGen_of_entry entry) [] []
  simp only [List.nil_append, List.append_nil] at htokens
  refine .trans _ _ _ htokens (.rel _ _ (.rearranged fun name => ?_))
  rw [NameSet.mem_toList, mem_listed, List.mem_flatMap]

/-- Entries with the same names can be respelled into each other, by way of one entry for each
    name. -/
theorem listed_eq_iff : listed entries = listed entries' ↔ EqvGen Respells entries entries' := by
  refine ⟨fun h => ?_, listed_eq_of_eqvGen⟩
  have hentries' := eqvGen_toList entries'
  rw [← h] at hentries'
  exact .trans _ _ _ (eqvGen_toList entries) (.symm _ _ hentries')

/-! ## Places -/

variable {s t : Settings} {properties assignments : List (String × String)}

/-- A property that lists exclusions: the plain one or a numbered one. -/
def ListsExclusions (name : String) : Prop := name = excludeProperty ∨ ∃ n, Numbered name n

/-- Entries are configured: they stand in the last variable, or else spread over the properties
    that list exclusions, or else spread over the entries of the settings. Those that stand in one
    place are joined by commas there. -/
inductive Configured (s : Settings) (properties assignments : List (String × String))
    (entries : List String) : Prop
  | byVariable (last : lastOf assignments excludeVariable = some (",".intercalate entries))
  | byProperties {run : String → List String} (none : lastOf assignments excludeVariable = none)
      (given : Excludes (lastOf properties))
      (joined : ∀ name text, lastOf properties name = some text → ListsExclusions name →
        text = ",".intercalate (run name))
      (spread : ∀ entry, entry ∈ entries ↔ ∃ name text, lastOf properties name = some text ∧
        ListsExclusions name ∧ entry ∈ run name)
  | bySettings {runs : List (List String)} (none : lastOf assignments excludeVariable = none)
      (silent : ¬ Excludes (lastOf properties))
      (joined : s.exclude = runs.map fun run => ",".intercalate run)
      (spread : ∀ entry, entry ∈ entries ↔ ∃ run ∈ runs, entry ∈ run)

/-- What properties list are the values of those that list exclusions. -/
theorem Lists.mem_iff {given : String → Option String} {exclude : List String} {value : String}
    (h : Lists given exclude) :
    value ∈ exclude ↔ ∃ name, given name = some value ∧ ListsExclusions name := by
  refine ⟨h.exists_property, fun hproperty => ?_⟩
  obtain ⟨numbered, hmem, -, rfl⟩ := h
  obtain ⟨name, hvalue, rfl | ⟨n, hn⟩⟩ := hproperty
  · exact List.mem_append_left _ (by simp [hvalue])
  · have hnumbered : (n, name, value) ∈ numbered := (hmem n name value).2 ⟨hn, hvalue⟩
    exact List.mem_append_right _ (List.mem_map.2 ⟨_, hnumbered, rfl⟩)

/-- Wherever entries are configured, the settings end up with the names that they list. -/
theorem Configured.listed_eq {exclude : List String}
    (h : Configured s properties assignments entries)
    (excluded : ExcludedUnder s properties assignments exclude) :
    listed exclude = listed entries := by
  apply NameSet.ext_mem
  intro x
  rw [mem_listed, mem_listed]
  cases h with
  | byVariable last =>
    cases excluded with
    | byVariable last' =>
      cases last.symm.trans last'
      simp only [List.mem_singleton, exists_eq_left, Text.tokens_intercalate, List.mem_flatMap]
    | byProperties none | bySettings none => cases none.symm.trans last
  | @byProperties run none given joined spread =>
    cases excluded with
    | byVariable last => cases none.symm.trans last
    | byProperties _ _ lists =>
      simp only [lists.mem_iff, spread]
      refine ⟨fun hx => ?_, fun hx => ?_⟩
      · obtain ⟨text, ⟨name, hgiven, hname⟩, hx⟩ := hx
        rw [joined name text hgiven hname, Text.tokens_intercalate, List.mem_flatMap] at hx
        obtain ⟨entry, hentry, hx⟩ := hx
        exact ⟨entry, ⟨name, text, hgiven, hname, hentry⟩, hx⟩
      · obtain ⟨entry, ⟨name, text, hgiven, hname, hentry⟩, hx⟩ := hx
        refine ⟨text, ⟨name, hgiven, hname⟩, ?_⟩
        rw [joined name text hgiven hname, Text.tokens_intercalate]
        exact List.mem_flatMap_of_mem hentry hx
    | bySettings _ silent => exact absurd given silent
  | @bySettings runs none silent joined spread =>
    cases excluded with
    | byVariable last => cases none.symm.trans last
    | byProperties _ given => exact absurd given silent
    | bySettings =>
      simp only [joined, spread, List.mem_map]
      refine ⟨fun hx => ?_, fun hx => ?_⟩
      · obtain ⟨_, ⟨run, hrun, rfl⟩, hx⟩ := hx
        rw [Text.tokens_intercalate, List.mem_flatMap] at hx
        obtain ⟨entry, hentry, hx⟩ := hx
        exact ⟨entry, ⟨run, hrun, hentry⟩, hx⟩
      · obtain ⟨entry, ⟨run, hrun, hentry⟩, hx⟩ := hx
        refine ⟨_, ⟨run, hrun, rfl⟩, ?_⟩
        rw [Text.tokens_intercalate]
        exact List.mem_flatMap_of_mem hentry hx

theorem Configured.excludedNames_eq (h : Configured s properties assignments entries)
    (overridden : Command.override s properties assignments = .ok t) :
    t.excludedNames = listed entries := by
  cases layered_iff.2 overridden.symm with
  | settled _ _ excluded => exact h.listed_eq excluded

/-- Settings have the exclusions that are configured, in the places where they stand. -/
theorem configured_of_override (overridden : Command.override s properties assignments = .ok t) :
    Configured s properties assignments t.exclude := by
  cases layered_iff.2 overridden.symm with
  | settled _ _ excluded =>
    cases excluded with
    | byVariable last => exact .byVariable (by rwa [String.intercalate_singleton])
    | byProperties none given lists =>
      refine @Configured.byProperties _ _ _ _ (fun name => (lastOf properties name).toList) none
        given (fun name text htext _ => ?_) (fun entry => lists.mem_iff.trans ?_)
      · rw [htext, Option.toList_some, String.intercalate_singleton]
      · simp only [Option.mem_toList]
        refine ⟨fun h => ?_, fun h => ?_⟩
        · obtain ⟨name, hgiven, hname⟩ := h
          exact ⟨name, entry, hgiven, hname, hgiven⟩
        · obtain ⟨name, _, -, hname, hgiven⟩ := h
          exact ⟨name, hgiven, hname⟩
    | bySettings none silent =>
      refine @Configured.bySettings _ _ _ _ (s.exclude.map ([·])) none silent ?_ (fun entry => ?_)
      · simp only [List.map_map, Function.comp_def, String.intercalate_singleton, List.map_id']
      · simp only [List.mem_map, exists_exists_and_eq_and, List.mem_singleton, exists_eq_right']

/-! ## Selections -/

/-- Of the settings a selection sees the switch and the names that are excluded. -/
theorem select_congr {σ : Type} (selector : Selector σ) (request : Request) {t t' : Settings}
    (enabled : t.enabled = t'.enabled) (names : t.excludedNames = t'.excludedNames) :
    { selector with settings := t }.select request =
      { selector with settings := t' }.select request := by
  have hexclusions : { selector with settings := t }.exclusions request =
      { selector with settings := t' }.exclusions request := by
    simp only [Selector.exclusions, names]
  unfold Selector.select Selector.resolve
  rw [hexclusions, enabled]
  rfl

/-- Exclusions list what stands between the commas of their entries, without blanks and empty
    names, and an entry lists what it would as a list attribute. Two lists of entries list the same
    names exactly when they are spellings of each other. All names that can be listed can be listed
    by one entry. And it does not matter to a selection in which places entries are configured. -/
theorem names_of_every_spelling :
    (∀ (s : Settings) x, x ∈ s.excludedNames ↔ ∃ entry ∈ s.exclude, x ∈ listed [entry]) ∧
    (∀ (index : Index) id name entry, index.get? id name = some (.string entry) →
      index.getNames id name = .ok (listed [entry])) ∧
    (∀ entry x, x ∈ listed [entry] ↔ (x ≠ "" ∧ Text.Unpadded x.toList) ∧
      ∃ part, Text.Part ',' entry.toList part ∧ Text.Pads part x.toList) ∧
    (∀ entries entries',
      listed entries = listed entries' ↔ Relation.EqvGen Respells entries entries') ∧
    (∀ s : Settings, Listable s.excludedNames) ∧
    (∀ names, Listable names ↔ ∃ entry, listed [entry] = names) ∧
    ∀ s s' properties properties' assignments assignments' t t' entries,
      Configured s properties assignments entries →
      Configured s' properties' assignments' entries →
      Command.override s properties assignments = .ok t →
      Command.override s' properties' assignments' = .ok t' →
      ∀ (σ : Type) (selector : Selector σ) request,
        { selector with settings := t }.exclusions request =
          { selector with settings := t' }.exclusions request ∧
        (t.enabled = t'.enabled → { selector with settings := t }.select request =
          { selector with settings := t' }.select request) := by
  refine ⟨fun s x => ?union, fun index id name entry h => ?indexed, fun entry x => ?tokens,
    fun entries entries' => listed_eq_iff, listable_excludedNames, fun names => ?single, ?places⟩
  case union => simp [mem_excludedNames]
  case indexed => exact Index.getNames_of_namesOfValue? h (namesOfValue?_string entry)
  case tokens =>
    simp only [mem_listed, List.mem_singleton, exists_eq_left, Text.mem_tokens_iff, Text.plain_iff]
  case single =>
    refine ⟨exists_entry, fun h => ?_⟩
    obtain ⟨entry, rfl⟩ := h
    exact listable_excludedNames _
  case places =>
    intro s s' properties properties' assignments assignments' t t' entries configured configured'
      overridden overridden' σ selector request
    have names : t.excludedNames = t'.excludedNames :=
      (configured.excludedNames_eq overridden).trans (configured'.excludedNames_eq overridden').symm
    refine ⟨?_, fun enabled => select_congr selector request enabled names⟩
    simp only [Selector.exclusions, names]

/-- Names are excluded alike from a variable, from two properties and from two entries of a
    document. -/
theorem names_of_every_spelling_of_three_places :
    let entries := ["a,,\u00A0c", "b "]
    let properties := [("modsel.exclude[10]", "b "), ("modsel.exclude", "a,,\u00A0c")]
    let assignments := [("MODSEL_EXCLUDE", "a,,\u00A0c,b ")]
    let s : Settings := { exclude := entries }
    let t : Settings := { exclude := ["a,,\u00A0c,b "] }
    let selector : Selector Unit := { candidates := return ["d", "c", "a"] }
    Configured s properties assignments entries ∧ Configured {} properties [] entries ∧
      Configured s [] [] entries ∧
      Command.override s properties assignments = .ok t ∧
      Command.override {} properties [] = .ok s ∧ Command.override s [] [] = .ok s ∧
      { selector with settings := t }.select {} = { selector with settings := s }.select {} ∧
      (({ selector with settings := t }.select {}).exec ⟨(), []⟩).1 =
        .ok { modules := ["d"], exclusions := .ofList ["a", "b", "c"] } := by
  intro entries properties assignments s t selector
  have overridden : Command.override s properties assignments = .ok t ∧
      Command.override {} properties [] = .ok s ∧ Command.override s [] [] = .ok s := by
    simp only [s, t, entries, properties, assignments]
    exact ⟨by cbv, by cbv, by cbv⟩
  obtain ⟨hvariable, hproperties, hsettings⟩ := overridden
  have byVariable : Configured s properties assignments entries := .byVariable (by
    simp only [assignments, entries]
    cbv)
  have byProperties : Configured {} properties [] entries := configured_of_override hproperties
  have bySettings : Configured s [] [] entries := configured_of_override hsettings
  have selected : (({ selector with settings := t }.select {}).exec ⟨(), []⟩).1 =
      .ok { modules := ["d"], exclusions := .ofList ["a", "b", "c"] } := by
    simp only [selector, t]
    cbv
  obtain ⟨-, -, -, -, -, -, places⟩ := names_of_every_spelling
  have alike := places _ _ _ _ _ _ _ _ _ byVariable byProperties hvariable hproperties Unit
    selector {}
  exact ⟨byVariable, byProperties, bySettings, hvariable, hproperties, hsettings, alike.2 rfl,
    selected⟩

end Activation.Settings
