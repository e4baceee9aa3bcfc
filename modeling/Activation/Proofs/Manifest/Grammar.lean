-- SUMMARY: The grammar of manifests, and what a manifest that keeps to it declares.
import Activation.Proofs.Manifest.Reading
import Mathlib

/-!
# The grammar of manifests

The grammar of a document is said here apart from the way it is read: which entries are accepted
at each level (`Entry`), and what the accepted ones make of each field (`Holds`). At the top and
for modules other names are refused, wherever they stand. Settings may have other names, so a
date-time, which counts as a table with one, is accepted as settings and as nothing else. No
name stands twice in a document, so every entry of an accepted one counts.
-/

namespace Activation

open Toml (Value Table Datetime Shape RecordOf FieldOf)

/-! ## Settings -/

namespace Settings

/-- The settings that there are, in the order in which an array gives them. -/
def fields : List String := ["enabled", "exclude"]

/-- An entry that is accepted among settings. -/
inductive Entry : String × Value → Prop
  | enabled (b : Bool) : Entry ("enabled", .boolean b)
  | excludeOne (text : String) : Entry ("exclude", .string text)
  | excludeMany (texts : List String) : Entry ("exclude", .array (texts.map .string))
  | other {name : String} (v : Value) (unknown : name ∉ fields) : Entry (name, v)

/-- A value that is accepted as settings. -/
inductive Accepted : Value → Prop
  | record {v : Value} {entries : Table} (record : RecordOf fields v entries)
      (each : ∀ e ∈ entries, Entry e) : Accepted v
  | datetime (d : Datetime) : Accepted (.datetime d)

/-- The exclusions for which a value stands. -/
inductive ExcludedBy : Value → List String → Prop
  | one (text : String) : ExcludedBy (.string text) [text]
  | many (texts : List String) : ExcludedBy (.array (texts.map .string)) texts

/-- Each setting is what the entries give for it. -/
structure Holds (entries : Table) (s : Settings) : Prop where
  enabled : FieldOf entries "enabled" (fun v b => v = .boolean b) true s.enabled
  exclude : FieldOf entries "exclude" ExcludedBy [] s.exclude

/-- The settings that a value gives. -/
inductive GivenBy : Value → Settings → Prop
  | record {v : Value} {entries : Table} {s : Settings} (record : RecordOf fields v entries)
      (holds : Holds entries s) : GivenBy v s
  | datetime (d : Datetime) : GivenBy (.datetime d) {}

variable {v : Value} {entries : Table} {s : Settings} {texts : List String}

theorem nodup_columns : (shape.columns.map (·.name)).Nodup := by decide

theorem hasField_enabled : shape.HasField "enabled" Value.toBool (·.enabled) := by
  apply Shape.HasField.of_columns
  all_goals simp [shape, fmap_eq_ok_iff, -Bool.exists_bool, -Bool.forall_bool]

theorem hasField_exclude : shape.HasField "exclude" readExclude (·.exclude) := by
  apply Shape.HasField.of_columns
  all_goals simp [shape, fmap_eq_ok_iff, -Bool.exists_bool, -Bool.forall_bool]

/-- Exclusions are read from exactly the values that the grammar lists, and as the grammar says. -/
theorem readExclude_eq_ok_iff : readExclude v = .ok texts ↔ ExcludedBy v texts := by
  constructor
  · intro h
    cases v with
    | string text =>
      cases h
      exact .one text
    | array items =>
      have htexts := Value.toTexts_eq_ok_iff.1 (mapError_eq_ok_iff.1 h)
      exact htexts ▸ .many texts
    | _ => cases h
  · intro h
    cases h with
    | one text => rfl
    | many => exact mapError_eq_ok_iff.2 (Value.toTexts_eq_ok_iff.2 rfl)

/-- A field of settings is accepted exactly if it is an entry of the grammar, whatever was read
    before it. -/
theorem exists_enterField_iff (r : Settings) (e : String × Value) :
    (∃ r', shape.enterField r e = .ok r') ↔ Entry e := by
  obtain ⟨name, v⟩ := e
  have hcolumns : (∃ r', shape.enterField r (name, v) = .ok r') ↔
      name = "enabled" ∧ (∃ b, v = .boolean b) ∨ name = "exclude" ∧ (∃ texts, ExcludedBy v texts) ∨
        name ∉ fields := by
    refine (Shape.exists_enterField_iff nodup_columns).trans ?_
    simp [shape, fields, fmap_eq_ok_iff, Value.toBool_eq_ok_iff, readExclude_eq_ok_iff, or_assoc,
      eq_comm (b := name), -Bool.exists_bool]
  refine hcolumns.trans ⟨fun h => ?_, fun h => ?_⟩
  · obtain ⟨rfl, b, rfl⟩ | ⟨rfl, texts, hexcludes⟩ | hother := h
    · exact .enabled b
    · cases hexcludes with
      | one text => exact .excludeOne text
      | many => exact .excludeMany texts
    · exact .other v hother
  · cases h with
    | enabled b => exact .inl ⟨rfl, b, rfl⟩
    | excludeOne text => exact .inr (.inl ⟨rfl, _, .one text⟩)
    | excludeMany texts => exact .inr (.inl ⟨rfl, _, .many texts⟩)
    | other v unknown => exact .inr (.inr unknown)

/-- The entries leave no choice of settings: a field that none of them names has its default. -/
theorem Holds.unique {s' : Settings} (h : Holds entries s) (h' : Holds entries s') : s = s' := by
  obtain ⟨enabled, exclude⟩ := s
  obtain ⟨enabled', exclude'⟩ := s'
  have henabled : enabled = enabled' :=
    h.enabled.unique_of_reads (fun _ _ => Value.toBool_eq_ok_iff) h'.enabled
  have hexclude : exclude = exclude' :=
    h.exclude.unique_of_reads (fun _ _ => readExclude_eq_ok_iff) h'.exclude
  simp only [henabled, hexclude]

/-- Accepted settings hold what their entries say, as no name stands twice. -/
theorem holds_of_ofTable (nodup : (entries.map (·.1)).Nodup)
    (accepted : shape.ofTable entries = .ok s) : Holds entries s where
  enabled := hasField_enabled.fieldOf nodup (fun _ _ _ => Value.toBool_eq_ok_iff.1) accepted
  exclude := hasField_exclude.fieldOf nodup (fun _ _ _ => readExclude_eq_ok_iff.1) accepted

/-- The reserved name of a date-time is not the name of a setting. -/
theorem ofValue_eq_ok_iff : shape.ofValue v = .ok s ↔
    (∃ entries, RecordOf fields v entries ∧ shape.ofTable entries = .ok s) ∨
      ∃ d, v = .datetime d ∧ s = {} := by
  have hdefault : ∀ d : Datetime, shape.ofTable [(Toml.datetimeField, .string d.text)] = .ok {} :=
    fun _ => rfl
  refine (Shape.ofValue_eq_ok_iff nodup_columns).trans (or_congr_right ?_)
  simp only [hdefault, Except.ok.injEq, eq_comm (b := s)]

/-- Settings are accepted exactly by the grammar, also where they are not written as a table. -/
theorem exists_ofValue_iff : (∃ s, shape.ofValue v = .ok s) ↔ Accepted v := by
  constructor
  · intro h
    obtain ⟨s, h⟩ := h
    cases ofValue_eq_ok_iff.1 h with
    | inl hrecord =>
      obtain ⟨entries, hentries, accepted⟩ := hrecord
      exact .record hentries ((Shape.exists_ofTable_iff exists_enterField_iff).1 ⟨s, accepted⟩)
    | inr hdatetime =>
      obtain ⟨d, rfl, -⟩ := hdatetime
      exact .datetime d
  · intro h
    cases h with
    | record hentries each =>
      obtain ⟨s, accepted⟩ := (Shape.exists_ofTable_iff exists_enterField_iff).2 each
      exact ⟨s, ofValue_eq_ok_iff.2 (.inl ⟨_, hentries, accepted⟩)⟩
    | datetime d => exact ⟨{}, rfl⟩

theorem givenBy_of_ofValue (hv : v.Proper) (h : shape.ofValue v = .ok s) : GivenBy v s := by
  cases ofValue_eq_ok_iff.1 h with
  | inl hrecord =>
    obtain ⟨entries, hentries, accepted⟩ := hrecord
    exact .record hentries (holds_of_ofTable (hentries.nodup nodup_columns hv) accepted)
  | inr hdatetime =>
    obtain ⟨d, rfl, rfl⟩ := hdatetime
    exact .datetime d

theorem GivenBy.unique {s' : Settings} (h : GivenBy v s) (h' : GivenBy v s') : s = s' := by
  cases h with
  | record hentries holds =>
    cases h' with
    | record hentries' holds' =>
      cases hentries.unique hentries'
      exact holds.unique holds'
    | datetime d => cases hentries
  | datetime d =>
    cases h' with
    | record hentries _ => cases hentries
    | datetime => rfl

end Settings

/-! ## Declarations -/

/-- The set of names for which a value stands. -/
inductive NameSet.GivenBy : Value → NameSet → Prop
  | array {texts : List String} {names : NameSet} (members : ∀ name, name ∈ names ↔ name ∈ texts) :
      GivenBy (.array (texts.map .string)) names

namespace NameSet

variable {v : Value} {names : NameSet}

/-- A set of names is read from exactly the arrays of texts, as the set of these texts. -/
theorem ofValue_eq_ok_iff : ofValue v = .ok names ↔ GivenBy v names := by
  constructor
  · intro h
    obtain ⟨texts, rfl, rfl⟩ := eq_array_of_ofValue h
    exact .array fun _ => mem_ofList
  · intro h
    cases h with
    | @array texts _ members =>
      have htexts := Value.toTexts_eq_ok_iff.2 (rfl : Value.array (texts.map .string) = _)
      have hnames : names = ofList texts := ext_mem fun name => (members name).trans mem_ofList.symm
      exact bind_eq_ok_iff.2 ⟨texts, htexts, hnames ▸ rfl⟩

end NameSet

namespace Declaration

/-- What a declaration may have, in the order in which an array gives it. -/
def fields : List String := ["order", "before", "after", "requires-features"]

/-- An entry that is accepted in a declaration. -/
inductive Entry : String × Value → Prop
  | order (n : Int) (lower : -2147483648 ≤ n) (upper : n ≤ 2147483647) : Entry ("order", .integer n)
  | before (texts : List String) : Entry ("before", .array (texts.map .string))
  | after (texts : List String) : Entry ("after", .array (texts.map .string))
  | requiresFeatures (texts : List String) :
      Entry ("requires-features", .array (texts.map .string))

/-- A value that is accepted as a declaration. -/
def Accepted (v : Value) : Prop :=
  ∃ entries, RecordOf fields v entries ∧ ∀ e ∈ entries, Entry e

/-- What is declared is what the entries give for it. -/
structure Holds (entries : Table) (d : Declaration) : Prop where
  order : FieldOf entries "order" (fun v hint => v = .integer hint.toInt) .lowestPrecedence
    d.metadata.order
  before : FieldOf entries "before" NameSet.GivenBy ∅ d.metadata.before
  after : FieldOf entries "after" NameSet.GivenBy ∅ d.metadata.after
  requiresFeatures : FieldOf entries "requires-features" NameSet.GivenBy ∅ d.requiresFeatures

/-- The declaration that a value gives. -/
def GivenBy (v : Value) (d : Declaration) : Prop :=
  ∃ entries, RecordOf fields v entries ∧ Holds entries d

variable {v : Value} {entries : Table} {d : Declaration}

theorem nodup_columns : (shape.columns.map (·.name)).Nodup := by decide

theorem exists_enterField_iff (r : Declaration) (e : String × Value) :
    (∃ r', shape.enterField r e = .ok r') ↔ Entry e := by
  obtain ⟨name, v⟩ := e
  have hcolumns : (∃ r', shape.enterField r (name, v) = .ok r') ↔
      name = "order" ∧ (∃ hint : OrderHint, v = .integer hint.toInt) ∨
        (name = "before" ∨ name = "after" ∨ name = "requires-features") ∧
          ∃ names, NameSet.GivenBy v names := by
    refine (Shape.exists_enterField_iff nodup_columns).trans ?_
    simp only [or_and_right]
    simp [shape, Metadata.columns, fmap_eq_ok_iff, Value.toHint_eq_ok_iff,
      NameSet.ofValue_eq_ok_iff, eq_comm (b := name)]
  refine hcolumns.trans ⟨fun h => ?_, fun h => ?_⟩
  · obtain ⟨rfl, hint, rfl⟩ | ⟨hname, names, hnames⟩ := h
    · exact .order _ hint.lower hint.upper
    · cases hnames with
      | @array texts _ _ =>
        obtain rfl | rfl | rfl := hname
        · exact .before texts
        · exact .after texts
        · exact .requiresFeatures texts
  · have hnames : ∀ texts : List String,
        ∃ names, NameSet.GivenBy (.array (texts.map .string)) names :=
      fun texts => ⟨.ofList texts, .array fun _ => NameSet.mem_ofList⟩
    cases h with
    | order n lower upper => exact .inl ⟨rfl, ⟨n, lower, upper⟩, rfl⟩
    | before texts => exact .inr ⟨.inl rfl, hnames texts⟩
    | after texts => exact .inr ⟨.inr (.inl rfl), hnames texts⟩
    | requiresFeatures texts => exact .inr ⟨.inr (.inr rfl), hnames texts⟩

theorem Holds.unique {d' : Declaration} (h : Holds entries d) (h' : Holds entries d') : d = d' := by
  obtain ⟨⟨order, before, after⟩, requires⟩ := d
  obtain ⟨⟨order', before', after'⟩, requires'⟩ := d'
  have horder : order = order' :=
    h.order.unique_of_reads (fun _ _ => Value.toHint_eq_ok_iff) h'.order
  have hbefore : before = before' :=
    h.before.unique_of_reads (fun _ _ => NameSet.ofValue_eq_ok_iff) h'.before
  have hafter : after = after' :=
    h.after.unique_of_reads (fun _ _ => NameSet.ofValue_eq_ok_iff) h'.after
  have hrequires : requires = requires' :=
    h.requiresFeatures.unique_of_reads (fun _ _ => NameSet.ofValue_eq_ok_iff) h'.requiresFeatures
  simp only [horder, hbefore, hafter, hrequires]

theorem holds_of_ofTable (nodup : (entries.map (·.1)).Nodup)
    (accepted : shape.ofTable entries = .ok d) : Holds entries d where
  order := hasField_order.fieldOf nodup (fun _ _ _ => Value.toHint_eq_ok_iff.1) accepted
  before := hasField_before.fieldOf nodup (fun _ _ _ => NameSet.ofValue_eq_ok_iff.1) accepted
  after := hasField_after.fieldOf nodup (fun _ _ _ => NameSet.ofValue_eq_ok_iff.1) accepted
  requiresFeatures :=
    hasField_requiresFeatures.fieldOf nodup (fun _ _ _ => NameSet.ofValue_eq_ok_iff.1) accepted

/-- The reserved name of a date-time is none of those of a declaration. -/
theorem ofValue_eq_ok_iff : shape.ofValue v = .ok d ↔
    ∃ entries, RecordOf fields v entries ∧ shape.ofTable entries = .ok d := by
  refine (Shape.ofValue_eq_ok_iff nodup_columns).trans (or_iff_left fun h => ?_)
  obtain ⟨_, -, accepted⟩ := h
  cases accepted

theorem exists_ofValue_iff : (∃ d, shape.ofValue v = .ok d) ↔ Accepted v := by
  simp only [ofValue_eq_ok_iff, @exists_comm Declaration, exists_and_left,
    Shape.exists_ofTable_iff exists_enterField_iff]
  rfl

theorem givenBy_of_ofValue (hv : v.Proper) (h : shape.ofValue v = .ok d) : GivenBy v d := by
  obtain ⟨entries, hentries, accepted⟩ := ofValue_eq_ok_iff.1 h
  exact ⟨entries, hentries, holds_of_ofTable (hentries.nodup nodup_columns hv) accepted⟩

theorem GivenBy.unique {d' : Declaration} (h : GivenBy v d) (h' : GivenBy v d') : d = d' := by
  obtain ⟨entries, hentries, holds⟩ := h
  obtain ⟨entries', hentries', holds'⟩ := h'
  cases hentries.unique hentries'
  exact holds.unique holds'

end Declaration

/-! ## Manifests -/

namespace Manifest

def fields : List String := ["candidates", "selector", "modules"]

/-- An entry that is accepted in a manifest. -/
inductive Entry : String × Value → Prop
  | candidates (texts : List String) : Entry ("candidates", .array (texts.map .string))
  | selector {v : Value} (accepted : Settings.Accepted v) : Entry ("selector", v)
  | modules {table : Table} (each : ∀ e ∈ table, Declaration.Accepted e.2) :
      Entry ("modules", .table table)

/-- Each module in a table has the declaration that its entry gives, and no others have one. -/
inductive Declares : Value → NameMap Declaration → Prop
  | table {table : Table} {modules : NameMap Declaration}
      (declared : ∀ id, FieldOf table id
        (fun v found => ∃ d, found = some d ∧ Declaration.GivenBy v d) none (modules.find? id)) :
      Declares (.table table) modules

/-- Each part of a manifest is what the entries give for it. -/
structure Holds (entries : Table) (m : Manifest) : Prop where
  candidates : FieldOf entries "candidates" (fun v texts => v = .array (texts.map .string)) []
    m.candidates
  settings : FieldOf entries "selector" Settings.GivenBy {} m.settings
  modules : FieldOf entries "modules" Declares ∅ m.modules

variable {v : Value} {entries : Table} {m : Manifest} {modules : NameMap Declaration}

theorem nodup_columns : (shape.columns.map (·.name)).Nodup := by decide

theorem hasField_candidates : shape.HasField "candidates" Value.toTexts (·.candidates) := by
  apply Shape.HasField.of_columns
  all_goals simp [shape, fmap_eq_ok_iff]

theorem hasField_selector : shape.HasField "selector" Settings.shape.ofValue (·.settings) := by
  apply Shape.HasField.of_columns
  all_goals simp [shape, fmap_eq_ok_iff]

/-- A table of declarations is accepted exactly if each of them is. -/
theorem exists_toMap_iff : (∃ modules, v.toMap Declaration.shape.ofValue = .ok modules) ↔
    ∃ table, v = .table table ∧ ∀ e ∈ table, Declaration.Accepted e.2 := by
  constructor
  · intro h
    obtain ⟨modules, h⟩ := h
    obtain ⟨table, given, htable, hgiven, -⟩ := Value.toMap_eq_ok_iff.1 h
    refine ⟨table, eq_table_of_toMap htable hgiven, fun e he => ?_⟩
    obtain ⟨e', -, hread⟩ := exists_forall₂_iff.1 ⟨given, hgiven⟩ e he
    exact Declaration.exists_ofValue_iff.1 ⟨e'.2, hread⟩
  · intro h
    obtain ⟨table, rfl, each⟩ := h
    exact Value.exists_toMap_iff.2
      ⟨table, rfl, fun e he => Declaration.exists_ofValue_iff.2 (each e he)⟩

/-- Each module has the declaration that is given under its name, and there are no others. -/
theorem declares_of_toMap (hv : v.Proper) (h : v.toMap Declaration.shape.ofValue = .ok modules) :
    Declares v modules := by
  obtain ⟨table, given, htable, hgiven, rfl⟩ := Value.toMap_eq_ok_iff.1 h
  cases eq_table_of_toMap htable hgiven
  cases hv with
  | table nodup each =>
    refine .table fun id => ?_
    have hrel := NameMap.rel_find?_ofList
      (R := fun v d => Declaration.shape.ofValue v = .ok d) hgiven id
    simp only [NameMap.find?_ofList table] at hrel
    refine ⟨fun v hv => ?_, fun missing => ?_⟩
    · simp only [NameMap.getLast?_valuesFor nodup hv] at hrel
      generalize (NameMap.ofList given).find? id = found at hrel
      cases hrel with
      | some hread => exact ⟨_, rfl, Declaration.givenBy_of_ofValue (each _ hv) hread⟩
    · simp only [NameMap.valuesFor_eq_nil_iff.2 missing, List.getLast?_nil] at hrel
      generalize (NameMap.ofList given).find? id = found at hrel
      cases hrel
      rfl

/-- A table gives at most one choice of declarations, since each name has at most one of them. -/
theorem Declares.unique {modules' : NameMap Declaration} (h : Declares v modules)
    (h' : Declares v modules') : modules = modules' := by
  cases h with
  | table declared =>
    cases h' with
    | table declared' =>
      refine NameMap.ext_find? fun id => (declared id).unique (fun v a b ha hb => ?_) (declared' id)
      obtain ⟨d, rfl, hd⟩ := ha
      obtain ⟨d', rfl, hd'⟩ := hb
      exact congrArg some (hd.unique hd')

/-- A field of a manifest is accepted exactly if it is an entry of the grammar. -/
theorem exists_enterField_iff (r : Manifest) (e : String × Value) :
    (∃ r', shape.enterField r e = .ok r') ↔ Entry e := by
  obtain ⟨name, v⟩ := e
  have hcolumns : (∃ r', shape.enterField r (name, v) = .ok r') ↔
      name = "candidates" ∧ (∃ texts : List String, v = .array (texts.map .string)) ∨
        name = "selector" ∧ Settings.Accepted v ∨
        name = "modules" ∧ ∃ table, v = .table table ∧ ∀ e ∈ table, Declaration.Accepted e.2 := by
    refine (Shape.exists_enterField_iff nodup_columns).trans ?_
    simp [shape, fmap_eq_ok_iff, Value.toTexts_eq_ok_iff, Settings.exists_ofValue_iff,
      exists_toMap_iff, eq_comm (b := name)]
  refine hcolumns.trans ⟨fun h => ?_, fun h => ?_⟩
  · obtain ⟨rfl, texts, rfl⟩ | ⟨rfl, accepted⟩ | ⟨rfl, table, rfl, each⟩ := h
    · exact .candidates texts
    · exact .selector accepted
    · exact .modules each
  · cases h with
    | candidates texts => exact .inl ⟨rfl, texts, rfl⟩
    | selector accepted => exact .inr (.inl ⟨rfl, accepted⟩)
    | modules each => exact .inr (.inr ⟨rfl, _, rfl, each⟩)

/-- An accepted manifest holds what its entries say, at every level. -/
theorem holds_of_ofTable (hentries : (Value.table entries).Proper)
    (accepted : shape.ofTable entries = .ok m) : Holds entries m := by
  cases hentries with
  | table nodup each => exact
    { candidates :=
        hasField_candidates.fieldOf nodup (fun _ _ _ => Value.toTexts_eq_ok_iff.1) accepted
      settings := hasField_selector.fieldOf nodup
        (fun _ _ hv => Settings.givenBy_of_ofValue (each _ hv)) accepted
      modules := hasField_modules.fieldOf nodup
        (fun _ _ hv => declares_of_toMap (each _ hv)) accepted }

theorem Holds.unique {m' : Manifest} (h : Holds entries m) (h' : Holds entries m') : m = m' := by
  obtain ⟨candidates, settings, modules⟩ := m
  obtain ⟨candidates', settings', modules'⟩ := m'
  have hcandidates : candidates = candidates' :=
    h.candidates.unique_of_reads (fun _ _ => Value.toTexts_eq_ok_iff) h'.candidates
  have hsettings : settings = settings' :=
    h.settings.unique (fun _ _ _ hx hx' => hx.unique hx') h'.settings
  have hmodules : modules = modules' :=
    h.modules.unique (fun _ _ _ hx hx' => hx.unique hx') h'.modules
  simp only [hcandidates, hsettings, hmodules]

/-- A table is read as a manifest exactly if all its entries belong to the grammar, and as the
    manifest that they give. -/
theorem ofTable_eq_ok_iff (hentries : (Value.table entries).Proper) :
    shape.ofTable entries = .ok m ↔ (∀ e ∈ entries, Entry e) ∧ Holds entries m :=
  eq_ok_iff_of_unique (Shape.exists_ofTable_iff exists_enterField_iff)
    (fun _ => holds_of_ofTable hentries) (fun _ _ => Holds.unique)

/-- A name is unknown where it stands: at the top, or in the table of a module. -/
inductive Misspelled : String × Value → Prop
  | name {name : String} (v : Value) (unknown : name ∉ fields) : Misspelled (name, v)
  | key {id key : String} {v : Value} {table declared : Table}
      (listed : (id, .table declared) ∈ table) (given : (key, v) ∈ declared)
      (unknown : key ∉ Declaration.fields) : Misspelled ("modules", .table table)

/-- No entry of the grammar has a misspelled name at any level where names are fixed. -/
theorem Entry.not_misspelled {e : String × Value} (h : Entry e) : ¬ Misspelled e := by
  intro hmisspelled
  cases hmisspelled with
  | name v unknown => cases h <;> simp [fields] at unknown
  | key listed given unknown =>
    generalize hname : "modules" = name at h
    cases h with
    | selector => simp at hname
    | modules each =>
      obtain ⟨entries, hentries, hentry⟩ := each _ listed
      cases hentries
      cases hentry _ given <;> simp [Declaration.fields] at unknown

/-- A text gives a manifest exactly when it is a document with accepted entries only, and then
    the manifest that holds what they give. An unknown name in any place is refused. -/
theorem parse_by_grammar :
    (∀ text, (∃ m, parse text = .ok m) ↔
      ∃ entries, Toml.parse? text = some entries ∧ ∀ e ∈ entries, Entry e) ∧
    (∀ text m, parse text = .ok m ↔
      ∃ entries, Toml.parse? text = some entries ∧ (∀ e ∈ entries, Entry e) ∧ m.Holds entries) ∧
    ∀ text entries, Toml.parse? text = some entries → (∃ e ∈ entries, Misspelled e) →
      ∃ misfit, parse text = .error (.misfit misfit) := by
  refine ⟨fun text => ?_, fun text m => ?_, fun text entries document misspelled => ?_⟩
  · simp only [parse, Shape.parse_eq_ok_iff, @exists_comm Manifest, exists_and_left,
      Shape.exists_ofTable_iff exists_enterField_iff]
  · refine Shape.parse_eq_ok_iff.trans (exists_congr fun entries => ?_)
    exact and_congr_right fun document => ofTable_eq_ok_iff (Toml.proper_of_parse? document)
  · cases hread : shape.ofTable entries with
    | error misfit =>
      refine ⟨misfit, ?_⟩
      simp only [parse, Shape.parse, document, hread, Except.mapError]
    | ok m =>
      obtain ⟨e, he, hmisspelled⟩ := misspelled
      have each := (Shape.exists_ofTable_iff exists_enterField_iff).1 ⟨m, hread⟩
      exact absurd hmisspelled (each e he).not_misspelled

/-- A misspelled key of a module is refused behind one that is accepted. -/
theorem parse_by_grammar_of_misspelled_key :
    ∃ entries misfit, Toml.parse? "[modules.a]\norder = 1\nafer = [\"b\"]\n" = some entries ∧
      (∃ e ∈ entries, Misspelled e) ∧
      parse "[modules.a]\norder = 1\nafer = [\"b\"]\n" = .error (.misfit misfit) := by
  have document : Toml.parse? "[modules.a]\norder = 1\nafer = [\"b\"]\n" =
      some [("modules", .table [("a", .table
        [("order", .integer 1), ("afer", .array [.string "b"])])])] := by cbv
  have misspelled : Misspelled ("modules", .table [("a", .table
      [("order", .integer 1), ("afer", .array [.string "b"])])]) :=
    .key List.mem_cons_self (List.mem_cons_of_mem _ List.mem_cons_self)
      (by simp [Declaration.fields])
  obtain ⟨misfit, refused⟩ :=
    parse_by_grammar.2.2 _ _ document ⟨_, List.mem_cons_self, misspelled⟩
  exact ⟨_, misfit, document, ⟨_, List.mem_cons_self, misspelled⟩, refused⟩

/-- A date is no table and no array, and it is accepted in the place of settings. -/
theorem parse_date_as_settings :
    ∃ v, Toml.parse? "selector = 1979-05-27\n" = some [("selector", v)] ∧
      (∀ entries, v ≠ .table entries) ∧ (∀ items, v ≠ .array items) ∧
      parse "selector = 1979-05-27\n" = .ok {} := by
  have document : Toml.parse? "selector = 1979-05-27\n" =
      some [("selector", .datetime (.date ⟨1979, 5, 27⟩))] := by cbv
  exact ⟨_, document, by simp, by simp, by cbv⟩

end Manifest

end Activation
