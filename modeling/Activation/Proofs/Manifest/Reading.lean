-- SUMMARY: A manifest and an index read the same table of modules the same way.
import Activation.Index.Document
import Activation.Manifest.Document
import Activation.Proofs.Index.Recording
import Activation.Proofs.Toml.Decode

/-!
# Two readers of one table

A manifest and an index are read from documents with a table of modules. The manifest reads
typed declarations and refuses what it does not know, and the index reads attributes that are
only looked at when they are asked for. What the manifest accepts says the same in the index,
but for blanks around names and for empty names.
-/

namespace Activation

open Toml (Value Misfit Table Shape)

/-! ## Fields -/

namespace Declaration

theorem hasField_order : shape.HasField "order" Value.toHint (·.metadata.order) := by
  apply Shape.HasField.of_columns
  all_goals simp [shape, Metadata.columns, fmap_eq_ok_iff]

theorem hasField_before : shape.HasField "before" NameSet.ofValue (·.metadata.before) := by
  apply Shape.HasField.of_columns
  all_goals simp [shape, Metadata.columns, fmap_eq_ok_iff]

theorem hasField_after : shape.HasField "after" NameSet.ofValue (·.metadata.after) := by
  apply Shape.HasField.of_columns
  all_goals simp [shape, Metadata.columns, fmap_eq_ok_iff]

theorem hasField_requiresFeatures :
    shape.HasField "requires-features" NameSet.ofValue (·.requiresFeatures) := by
  apply Shape.HasField.of_columns
  all_goals simp [shape, Metadata.columns, fmap_eq_ok_iff]

end Declaration

theorem Manifest.hasField_modules :
    shape.HasField "modules" (·.toMap Declaration.shape.ofValue) (·.modules) := by
  apply Shape.HasField.of_columns
  all_goals simp [shape, fmap_eq_ok_iff]

theorem Index.hasField_modules :
    documentShape.HasField "modules" (·.toMap readAttributes) (·.modules) := by
  apply Shape.HasField.of_columns
  all_goals simp [documentShape, fmap_eq_ok_iff]

/-! ## Values -/

/-- A set of names can only have been written as an array of texts. -/
theorem eq_array_of_ofValue {v : Value} {names : NameSet} (h : NameSet.ofValue v = .ok names) :
    ∃ texts : List String, v = .array (texts.map .string) ∧ names = .ofList texts := by
  obtain ⟨texts, htexts, hnames⟩ := bind_eq_ok_iff.1 h
  cases hnames
  exact ⟨texts, Value.toTexts_eq_ok_iff.1 htexts, rfl⟩

/-- An array of texts is kept as it is written when nothing is known about its use. -/
theorem toAny_texts (texts : List String) :
    (Value.array (texts.map .string)).toAny = .ok (.array (texts.map .string)) := by
  have hitems : Value.itemsToAny (texts.map .string) = .ok (texts.map .string) := by
    induction texts with
    | nil => rfl
    | cons text rest ih =>
      rw [List.map_cons, Value.itemsToAny, ih]
      rfl
  rw [Value.toAny, hitems]
  rfl

/-- Values of a declaration are no date-times in disguise, so the index keeps them as they are. -/
theorem Declaration.toAny_of_enterField {d d' : Declaration} {e : String × Value}
    (h : shape.enterField d e = .ok d') : e.2.toAny = .ok e.2 := by
  cases Shape.column_of_enterField h with
  | inl hlisted =>
    obtain ⟨c, hc, -, henter⟩ := hlisted
    simp only [shape, Metadata.columns, List.cons_append, List.nil_append, List.mem_cons,
      List.not_mem_nil, or_false] at hc
    obtain rfl | rfl | rfl | rfl := hc
    all_goals obtain ⟨x, hx, -⟩ := bind_eq_ok_iff.1 henter
    · rw [Value.toHint_eq_ok_iff.1 hx]
      rfl
    all_goals
      obtain ⟨texts, htexts, -⟩ := eq_array_of_ofValue hx
      rw [htexts, toAny_texts]
  | inr hunlisted => cases hunlisted.1

/-! ## Modules -/

/-- Attributes of a module say what is declared about it, but for blanks around names and for
    empty names. -/
structure Declaration.DescribedBy (d : Declaration) (attributes : Attributes) : Prop where
  order : (attributes.find? Index.orderAttribute).elim (some .lowestPrecedence)
    Index.hintOfValue? = some d.metadata.order
  before : (attributes.find? Index.beforeAttribute).elim (some ∅) Index.namesOfValue? =
    some d.metadata.before.trimmed
  after : (attributes.find? Index.afterAttribute).elim (some ∅) Index.namesOfValue? =
    some d.metadata.after.trimmed
  requiresFeatures : (attributes.find? Features.requiredAttribute).elim (some ∅)
    Index.namesOfValue? = some d.requiresFeatures.trimmed
  /-- A module that does not say what it requires requires nothing. -/
  unlisted : attributes.find? Features.requiredAttribute = none → d.requiresFeatures = ∅

/-- Two readers that agree on values agree on the values of a field, if they have the same
    default. -/
theorem elim_eq_some {ε α β : Type} {read : Value → Except ε α} {convert? : Value → Option β}
    {f : α → β} (h : ∀ v x, read v = .ok x → convert? v = some (f x)) {given : Option Value}
    {default x : α} (hread : given.elim (.ok default) read = .ok x) :
    given.elim (some (f default)) convert? = some (f x) := by
  cases given with
  | none =>
    cases hread
    rfl
  | some v => exact h v x hread

/-- The entries of a declaration that a manifest accepts are attributes that an index accepts, and
    these describe the declaration. -/
theorem Declaration.exists_describedBy {entries : Table} {d : Declaration}
    (accepted : shape.ofTable entries = .ok d) :
    ∃ attributes, Index.readAttributes (.table entries) = .ok attributes ∧
      d.DescribedBy attributes := by
  refine ⟨.ofList entries, ?_, ?_⟩
  · refine Value.toMap_eq_ok_iff.2 ⟨entries, entries, rfl, List.forall₂_same.2 ?_, rfl⟩
    intro e he
    obtain ⟨d, d', hstep⟩ := exists_step_of_foldlM accepted e he
    exact ⟨rfl, toAny_of_enterField hstep⟩
  · have hhint : ∀ v hint, Value.toHint v = .ok hint → Index.hintOfValue? v = some hint := by
      intro v hint h
      rw [Value.toHint_eq_ok_iff.1 h, Index.hintOfValue?, OrderHint.ofInt?_toInt]
    have hnames : ∀ v names, NameSet.ofValue v = .ok names →
        Index.namesOfValue? v = some names.trimmed := by
      intro v names h
      obtain ⟨texts, rfl, rfl⟩ := eq_array_of_ofValue h
      rw [Index.namesOfValue?_array, NameSet.trimmed_ofList]
    have hrequires := hasField_requiresFeatures.of_foldlM accepted
    constructor
    all_goals rw [NameMap.find?_ofList]
    · exact elim_eq_some hhint (hasField_order.of_foldlM accepted)
    · exact elim_eq_some hnames (hasField_before.of_foldlM accepted)
    · exact elim_eq_some hnames (hasField_after.of_foldlM accepted)
    · exact elim_eq_some hnames hrequires
    · intro unlisted
      have hnone : (NameMap.valuesFor "requires-features" entries).getLast? = none := unlisted
      rw [hnone] at hrequires
      exact (Except.ok.inj hrequires).symm

/-! ## Documents -/

/-- The index holds the modules that are declared, as they are declared. -/
def Index.Mirrors (index : Index) (declared : NameMap Declaration) : Prop :=
  ∀ id, Option.Rel Declaration.DescribedBy (declared.find? id) (index.modules.find? id)

/-- What a manifest reads as declarations an index reads as attributes, module by module. -/
theorem exists_attributes {modules : Table} {given : List (String × Declaration)}
    (hgiven : List.Forall₂ (fun e d => e.1 = d.1 ∧ Declaration.shape.ofValue e.2 = .ok d.2)
      modules given)
    (tables : ∀ e ∈ modules, ∃ entries, e.2 = .table entries) :
    ∃ attributes : List (String × Attributes),
      List.Forall₂ (fun e a => e.1 = a.1 ∧ Index.readAttributes e.2 = .ok a.2) modules attributes ∧
        List.Forall₂ (fun d a => d.1 = a.1 ∧ d.2.DescribedBy a.2) given attributes := by
  induction hgiven with
  | nil => exact ⟨[], .nil, .nil⟩
  | @cons e d modules given hd _ ih =>
    obtain ⟨hname, accepted⟩ := hd
    obtain ⟨entries, hentries⟩ := tables e List.mem_cons_self
    rw [hentries] at accepted
    obtain ⟨attributes, hread, hdescribed⟩ := Declaration.exists_describedBy accepted
    obtain ⟨rest, hrest, hrestDescribed⟩ := ih fun e he => tables e (List.mem_cons_of_mem _ he)
    refine ⟨(e.1, attributes) :: rest, .cons ⟨rfl, ?_⟩ hrest, .cons ⟨hname.symm, hdescribed⟩ ?_⟩
    · rw [hentries, hread]
    · exact hrestDescribed

/-- A date-time counts as a table, but the text in it is no declaration. -/
theorem eq_table_of_toMap {v : Value} {modules : Table} {given : List (String × Declaration)}
    (htable : v.toTable = .ok modules)
    (hgiven : List.Forall₂ (fun e d => e.1 = d.1 ∧ Declaration.shape.ofValue e.2 = .ok d.2)
      modules given) : v = .table modules := by
  cases v with
  | table entries =>
    cases htable
    rfl
  | datetime d =>
    cases htable
    cases hgiven with
    | cons hd _ => cases hd.2
  | _ => cases htable

/-- A table of modules that a manifest accepts is read by the index too, if every module has a
    table. -/
theorem exists_mirrors_of_toMap {v : Value} {declared : NameMap Declaration}
    (accepted : v.toMap Declaration.shape.ofValue = .ok declared)
    (tables : ∀ modules, v = .table modules → ∀ e ∈ modules, ∃ entries, e.2 = .table entries) :
    ∃ attributes, v.toMap Index.readAttributes = .ok attributes ∧
      Index.Mirrors ⟨attributes⟩ declared := by
  obtain ⟨modules, given, htable, hgiven, rfl⟩ := Value.toMap_eq_ok_iff.1 accepted
  have hv : v = .table modules := eq_table_of_toMap htable hgiven
  obtain ⟨attributes, hread, hdescribed⟩ := exists_attributes hgiven (tables modules hv)
  refine ⟨.ofList attributes, Value.toMap_eq_ok_iff.2 ⟨modules, attributes, htable, hread, rfl⟩, ?_⟩
  exact NameMap.rel_find?_ofList hdescribed

/-- A document that a manifest accepts is read by the index too, if every module has a table. -/
theorem Manifest.exists_mirrors_of_parse {text : String} {entries : Table} {m : Manifest}
    (document : Toml.parse? text = some entries) (accepted : parse text = .ok m)
    (tables : ∀ modules, ("modules", .table modules) ∈ entries →
      ∀ e ∈ modules, ∃ attributes, e.2 = .table attributes) :
    ∃ index, Index.parse text = .ok index ∧ index.Mirrors m.modules := by
  have haccepted : shape.ofTable entries = .ok m := by
    simp only [parse, Shape.parse, document] at accepted
    exact mapError_eq_ok_iff.1 accepted
  have hmodules : ∀ v, ("modules", v) ∈ entries → ∀ declared,
      v.toMap Declaration.shape.ofValue = .ok declared →
      ∃ attributes, v.toMap Index.readAttributes = .ok attributes ∧
        Index.Mirrors ⟨attributes⟩ declared := by
    intro v hv declared hdeclared
    apply exists_mirrors_of_toMap hdeclared
    intro modules heq
    exact tables modules (heq ▸ hv)
  have hsteps : ∀ e ∈ entries, ∀ index, ∃ index',
      Index.documentShape.enterField index e = .ok index' := by
    intro e he index
    by_cases hname : "modules" = e.1
    · obtain ⟨m₀, m₁, hstep⟩ := exists_step_of_foldlM haccepted e he
      have hdeclared := hasField_modules.entered _ _ _ hstep hname.symm
      obtain ⟨attributes, hread, -⟩ := hmodules e.2 (by rw [hname]; exact he) _ hdeclared
      exact ⟨⟨attributes⟩, by simp [Shape.enterField, Index.documentShape, hname, hread]⟩
    · exact ⟨index, by simp [Shape.enterField, Index.documentShape, hname]⟩
  obtain ⟨index, hindex⟩ := exists_foldlM hsteps Index.documentShape.initial
  refine ⟨index, ?_, ?_⟩
  · simp only [Index.parse, Shape.parse, document, Shape.ofTable, hindex]
    rfl
  have hlast := hasField_modules.of_foldlM haccepted
  have hlast' := Index.hasField_modules.of_foldlM hindex
  cases hvalue : (NameMap.valuesFor "modules" entries).getLast? with
  | none =>
    rw [hvalue] at hlast hlast'
    intro id
    rw [← Except.ok.inj hlast, ← Except.ok.inj hlast']
    exact .none
  | some v =>
    rw [hvalue] at hlast hlast'
    have hmem := NameMap.mem_valuesFor.1 (List.mem_of_getLast? hvalue)
    obtain ⟨attributes, hread, hmirrors⟩ := hmodules v hmem _ hlast
    cases hread.symm.trans hlast'
    exact hmirrors

/-! ## What the index says -/

theorem Index.read_eq_ok {α : Type} {convert? : Value → Option α} {expected : AttributeShape}
    {index : Index} {id : ModuleId} {name : String} {default a : α}
    (h : (index.get? id name).elim (some default) convert? = some a) :
    index.read convert? expected id name default = .ok a := by
  unfold read
  cases hget : index.get? id name with
  | none =>
    rw [hget] at h
    cases h
    rfl
  | some v =>
    rw [hget] at h
    simp only [Option.elim_some] at h
    simp only [h]

namespace Index.Mirrors

variable {index : Index} {declared : NameMap Declaration} {id : ModuleId} {d : Declaration}

theorem wasProcessed_eq (h : index.Mirrors declared) (id : ModuleId) :
    index.wasProcessed id = declared.contains id := by
  have hid := h id
  unfold wasProcessed NameMap.contains
  generalize index.modules.find? id = attributes at hid
  generalize declared.find? id = declaration at hid
  cases hid with
  | none => rfl
  | some _ => rfl

theorem get?_eq_none (h : index.Mirrors declared) (hd : declared.find? id = none) (name : String) :
    index.get? id name = none := by
  have hid := h id
  rw [hd] at hid
  cases hattributes : index.modules.find? id with
  | none => rw [get?, hattributes]; rfl
  | some attributes =>
    rw [hattributes] at hid
    cases hid

theorem exists_attributes (h : index.Mirrors declared) (hd : declared.find? id = some d) :
    ∃ attributes, d.DescribedBy attributes ∧
      ∀ name, index.get? id name = attributes.find? name := by
  have hid := h id
  rw [hd] at hid
  cases hattributes : index.modules.find? id with
  | none =>
    rw [hattributes] at hid
    cases hid
  | some attributes =>
    rw [hattributes] at hid
    cases hid with
    | some described => exact ⟨attributes, described, fun name => by rw [get?, hattributes]; rfl⟩

/-- Of a mirrored declaration the index tells the metadata, without blanks around names. -/
theorem metadata_eq (h : index.Mirrors declared) (hd : declared.find? id = some d) :
    index.metadata id = .ok d.metadata.normalise := by
  obtain ⟨attributes, described, hget⟩ := h.exists_attributes hd
  have horder : index.getInteger id orderAttribute .lowestPrecedence = .ok d.metadata.order :=
    read_eq_ok (by rw [hget]; exact described.order)
  have hbefore : index.getNames id beforeAttribute = .ok d.metadata.before.trimmed :=
    read_eq_ok (by rw [hget]; exact described.before)
  have hafter : index.getNames id afterAttribute = .ok d.metadata.after.trimmed :=
    read_eq_ok (by rw [hget]; exact described.after)
  simp only [metadata, horder, hbefore, hafter]
  rfl

theorem getNames_eq (h : index.Mirrors declared) (hd : declared.find? id = some d) :
    index.getNames id Features.requiredAttribute = .ok d.requiresFeatures.trimmed := by
  obtain ⟨attributes, described, hget⟩ := h.exists_attributes hd
  exact read_eq_ok (by rw [hget]; exact described.requiresFeatures)

end Index.Mirrors

end Activation
