-- SUMMARY: What is recorded in the index reads back with its names trimmed.
import Activation.Index
import Activation.Proofs.Text.Blank

/-!
# Recorded metadata

Recording writes the names that a module declares as they are, and reading trims them and drops
those that are left empty. So what reads back is the recorded metadata in its normal form, and
it is the recorded metadata itself when trimming keeps all its names. Other modules read as
before.
-/

namespace Activation

/-! ## Normal forms -/

namespace NameSet

variable {s : NameSet}

/-- The names of a set, trimmed. Names that are left empty are dropped. -/
def trimmed (s : NameSet) : NameSet := ofList ((s.toList.map Text.trim).filter (· ≠ ""))

@[simp] theorem mem_trimmed {x : String} :
    x ∈ s.trimmed ↔ (∃ name ∈ s, Text.trim name = x) ∧ x ≠ "" := by
  simp [trimmed]

theorem trimmed_ofList (names : List String) :
    (ofList names).trimmed = ofList ((names.map Text.trim).filter (· ≠ "")) := by
  apply ext_mem
  intro x
  simp

theorem trimmed_of_plain (h : ∀ name ∈ s, Text.Plain name) : s.trimmed = s := by
  apply ext_mem
  intro x
  rw [mem_trimmed]
  constructor
  · intro hx
    obtain ⟨⟨name, hname, rfl⟩, -⟩ := hx
    rw [(h name hname).2]
    exact hname
  · exact fun hx => ⟨⟨x, hx, (h x hx).2⟩, (h x hx).1⟩

theorem trimmed_eq_self_iff : s.trimmed = s ↔ ∀ name ∈ s, Text.Plain name := by
  refine ⟨fun h name hname => ?_, trimmed_of_plain⟩
  rw [← h, mem_trimmed] at hname
  obtain ⟨⟨padded, -, rfl⟩, hne⟩ := hname
  exact ⟨hne, Text.trim_trim padded⟩

end NameSet

namespace Metadata

/-- The metadata with its names trimmed. -/
def normalise (m : Metadata) : Metadata :=
  { m with before := m.before.trimmed, after := m.after.trimmed }

/-- Trimming keeps all names. -/
structure Plain (m : Metadata) : Prop where
  before : ∀ name ∈ m.before, Text.Plain name
  after : ∀ name ∈ m.after, Text.Plain name

theorem Plain.normalise_eq {m : Metadata} (h : m.Plain) : m.normalise = m := by
  simp [normalise, NameSet.trimmed_of_plain h.before, NameSet.trimmed_of_plain h.after]

theorem normalise_eq_self_iff {m : Metadata} : m.normalise = m ↔ m.Plain := by
  refine ⟨fun h => ⟨?_, ?_⟩, Plain.normalise_eq⟩
  · exact NameSet.trimmed_eq_self_iff.1 (congrArg Metadata.before h)
  · exact NameSet.trimmed_eq_self_iff.1 (congrArg Metadata.after h)

end Metadata

namespace Index

variable {index : Index} {id other : ModuleId} {m : Metadata} {name : String}

@[simp] theorem wasProcessed_empty : (∅ : Index).wasProcessed id = false := rfl

/-! ## One record -/

/-- An array of texts is read as its names, without blanks around them and without empty ones. -/
theorem namesOfValue?_array (names : List String) :
    namesOfValue? (.array (names.map .string)) =
      some (NameSet.ofList ((names.map Text.trim).filter (· ≠ ""))) := by
  have hnames : (names.map Toml.Value.string).mapM nameOfValue? = some (names.map Text.trim) := by
    induction names with
    | nil => rfl
    | cons name rest ih =>
      rw [List.map_cons, List.mapM_cons, ih]
      rfl
  simp only [namesOfValue?, hnames]
  rfl

@[simp] theorem namesOfValue?_valueOfNames (names : NameSet) :
    namesOfValue? (valueOfNames names) = some names.trimmed :=
  namesOfValue?_array names.toList

@[simp] theorem wasProcessed_record :
    (index.record id m).wasProcessed other = (decide (id = other) || index.wasProcessed other) := by
  simp [wasProcessed, record]

theorem get?_record_of_ne (h : id ≠ other) :
    (index.record id m).get? other name = index.get? other name := by
  simp [get?, record, NameMap.find?_insert_of_ne h]

/-- Recording sets the three attributes of ordering and leaves the others of the module. -/
theorem get?_record_self :
    (index.record id m).get? id name =
      if afterAttribute = name then some (valueOfNames m.after)
      else if beforeAttribute = name then some (valueOfNames m.before)
      else if orderAttribute = name then some (.integer m.order.toInt)
      else index.get? id name := by
  simp only [get?, record, NameMap.find?_insert_self, Option.bind_some, NameMap.find?_insert]
  cases index.modules.find? id with
  | none => simp
  | some attributes => simp

/-- Recorded metadata reads back in its normal form. -/
theorem metadata_record_self : (index.record id m).metadata id = .ok m.normalise := by
  have horder : (index.record id m).getInteger id orderAttribute .lowestPrecedence =
      .ok m.order := by
    simp [getInteger, read, get?_record_self, afterAttribute, beforeAttribute, orderAttribute,
      hintOfValue?]
  have hbefore : (index.record id m).getNames id beforeAttribute = .ok m.before.trimmed := by
    simp [getNames, read, get?_record_self, afterAttribute, beforeAttribute]
  have hafter : (index.record id m).getNames id afterAttribute = .ok m.after.trimmed := by
    simp [getNames, read, get?_record_self]
  simp only [metadata, horder, hbefore, hafter]
  rfl

theorem metadata_record_of_ne (h : id ≠ other) :
    (index.record id m).metadata other = index.metadata other := by
  simp only [metadata, getInteger, getNames, read, get?_record_of_ne h]

/-! ## Many records -/

/-- Enter the metadata of modules, one after the other. -/
def recordAll (index : Index) (declares : ModuleId → Metadata) (ids : List ModuleId) : Index :=
  ids.foldl (fun index id => index.record id (declares id)) index

variable {declares : ModuleId → Metadata} {ids : List ModuleId}

@[simp] theorem wasProcessed_recordAll : (index.recordAll declares ids).wasProcessed id =
    (decide (id ∈ ids) || index.wasProcessed id) := by
  induction ids generalizing index with
  | nil => simp [recordAll]
  | cons first ids ih =>
    have hstep : index.recordAll declares (first :: ids) =
        (index.record first (declares first)).recordAll declares ids := rfl
    rw [hstep, ih, wasProcessed_record]
    by_cases h : id = first
    · simp [h]
    · simp [h, Ne.symm h]

/-- What was recorded of a module reads back in its normal form, whatever was recorded of
    others. -/
theorem metadata_recordAll (h : id ∈ ids) :
    (index.recordAll declares ids).metadata id = .ok (declares id).normalise := by
  have hkept : ∀ (ids : List ModuleId) (index : Index),
      index.metadata id = .ok (declares id).normalise →
        (index.recordAll declares ids).metadata id = .ok (declares id).normalise := by
    intro ids
    induction ids with
    | nil => exact fun _ h => h
    | cons first ids ih =>
      intro index hread
      apply ih
      by_cases heq : first = id
      · rw [heq, metadata_record_self]
      · rw [metadata_record_of_ne heq, hread]
  obtain ⟨earlier, later, rfl⟩ := List.append_of_mem h
  have hsplit : index.recordAll declares (earlier ++ id :: later) =
      ((index.recordAll declares earlier).record id (declares id)).recordAll declares later := by
    simp [recordAll]
  rw [hsplit]
  exact hkept later _ metadata_record_self

end Index

end Activation
