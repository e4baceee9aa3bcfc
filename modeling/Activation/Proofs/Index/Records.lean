-- SUMMARY: What records do to an index, one of them and any number.
import Activation.Index.Document
import Activation.Proofs.Index.Recording
import Activation.Proofs.NameMap
import Mathlib

/-!
# Records in turn

A record enters the ordering metadata of one module and touches nothing else. Of several records
of one module the last one counts, and records of different modules do not meet. So an index
after any number of records is told by the index before them and by the last record of each
module.
-/

namespace Activation.Index

variable {index after : Index} {id other : ModuleId} {m : Metadata} {name : String}
  {records : List (ModuleId × Metadata)}

/-- Enter the metadata of modules, record by record. -/
def recordEach (index : Index) (records : List (ModuleId × Metadata)) : Index :=
  records.foldl (fun index r => index.record r.1 r.2) index

/-- The last record of a module. -/
abbrev lastRecord (records : List (ModuleId × Metadata)) (id : ModuleId) : Option Metadata :=
  (NameMap.valuesFor id records).getLast?

/-- The attributes that hold ordering metadata. -/
def orderingAttributes : List String := [orderAttribute, beforeAttribute, afterAttribute]

/-- An attribute reads in one index as in another: as it stands, as an integer and as a list. -/
structure ReadsAs (after index : Index) (id : ModuleId) (name : String) : Prop where
  raw : after.get? id name = index.get? id name
  integer : ∀ default, after.getInteger id name default = index.getInteger id name default
  names : after.getNames id name = index.getNames id name

/-- What a record of a module does to an index. -/
structure Entered (index : Index) (id : ModuleId) (m : Metadata) (after : Index) : Prop where
  processed : after.wasProcessed id = true
  size : after.size = index.size + if index.wasProcessed id then 0 else 1
  metadata : after.metadata id = .ok m.normalise
  /-- The metadata reads back as it was recorded exactly when trimming keeps all names. -/
  exact : after.metadata id = .ok m ↔
    ∀ name, name ∈ m.before ∨ name ∈ m.after → name ≠ "" ∧ Text.Unpadded name.toList
  kept : ∀ other name, other ≠ id ∨ name ∉ orderingAttributes → after.ReadsAs index other name

/-- What records do to an index, one after the other. -/
structure Recorded (index : Index) (records : List (ModuleId × Metadata)) (after : Index) :
    Prop where
  processed : ∀ id, after.wasProcessed id = true ↔
    (∃ m, (id, m) ∈ records) ∨ index.wasProcessed id = true
  /-- The last record of a module counts. -/
  metadata : ∀ id, after.metadata id =
    (lastRecord records id).elim (index.metadata id) fun m => .ok m.normalise
  kept : ∀ id name, (∀ m, (id, m) ∉ records) ∨ name ∉ orderingAttributes →
    after.ReadsAs index id name
  /-- Nothing counts but the last record of each module. -/
  alone : ∀ records', (∀ id, lastRecord records' id = lastRecord records id) →
    index.recordEach records' = after

/-! ## One record -/

theorem ReadsAs.of_get? (h : after.get? id name = index.get? id name) :
    after.ReadsAs index id name := by
  refine ⟨h, fun default => ?_, ?_⟩
  · simp only [getInteger, read, h]
  · simp only [getNames, read, h]

/-- Only a module that is new makes the index larger. -/
theorem size_record :
    (index.record id m).size = index.size + if index.wasProcessed id then 0 else 1 := by
  unfold wasProcessed NameMap.contains
  cases hfind : index.modules.find? id with
  | none => exact NameMap.size_insert hfind
  | some attributes => exact NameMap.size_insert_of_find? hfind

theorem get?_record_of_notMem (h : name ∉ orderingAttributes) :
    (index.record id m).get? other name = index.get? other name := by
  by_cases heq : id = other
  · subst heq
    simp only [orderingAttributes, List.mem_cons, List.not_mem_nil, or_false, not_or] at h
    rw [get?_record_self, if_neg (Ne.symm h.2.2), if_neg (Ne.symm h.2.1), if_neg (Ne.symm h.1)]
  · exact get?_record_of_ne heq

theorem entered_record : index.Entered id m (index.record id m) where
  processed := by simp
  size := size_record
  metadata := metadata_record_self
  exact := by
    rw [metadata_record_self, Except.ok.injEq, Metadata.normalise_eq_self_iff]
    constructor
    · rintro plain name (hname | hname)
      · exact Text.plain_iff.1 (plain.before name hname)
      · exact Text.plain_iff.1 (plain.after name hname)
    · intro h
      exact ⟨fun name hname => Text.plain_iff.2 (h name (.inl hname)),
        fun name hname => Text.plain_iff.2 (h name (.inr hname))⟩
  kept other name := by
    rintro (hne | hname)
    · exact .of_get? (get?_record_of_ne hne.symm)
    · exact .of_get? (get?_record_of_notMem hname)

/-! ## Any number of records -/

/-- The attributes of a module with its ordering metadata entered. -/
def enter (attributes : Attributes) (m : Metadata) : Attributes :=
  attributes.insert orderAttribute (.integer m.order.toInt)
    |>.insert beforeAttribute (valueOfNames m.before)
    |>.insert afterAttribute (valueOfNames m.after)

theorem find?_record : (index.record id m).modules.find? other =
    if id = other then some (enter ((index.modules.find? id).getD ∅) m)
    else index.modules.find? other :=
  NameMap.find?_insert

/-- What was entered before does not show. -/
theorem enter_enter (attributes : Attributes) (m m' : Metadata) :
    enter (enter attributes m) m' = enter attributes m' := by
  apply NameMap.ext_find?
  intro name
  simp only [enter, NameMap.find?_insert]
  split_ifs <;> rfl

/-- Of several records of one module the last one counts, and it is entered into what the index had
    before all of them. -/
theorem find?_recordEach : (index.recordEach records).modules.find? id =
    (lastRecord records id).elim (index.modules.find? id) fun m =>
      some (enter ((index.modules.find? id).getD ∅) m) := by
  induction records generalizing index with
  | nil => rfl
  | cons r records ih =>
    have hstep : index.recordEach (r :: records) =
        (index.record r.1 r.2).recordEach records := rfl
    rw [hstep, ih, find?_record, lastRecord, lastRecord, NameMap.valuesFor_cons]
    by_cases heq : r.1 = id
    · rw [if_pos heq, if_pos heq, List.getLast?_cons, heq]
      cases (NameMap.valuesFor id records).getLast? with
      | none => rfl
      | some m =>
        rw [Option.elim_some, Option.getD_some, enter_enter]
        rfl
    · rw [if_neg heq, if_neg heq]

/-- An index depends on the last record of each module only. -/
theorem recordEach_congr {records' : List (ModuleId × Metadata)}
    (h : ∀ id, lastRecord records' id = lastRecord records id) :
    index.recordEach records' = index.recordEach records := by
  have hmodules : (index.recordEach records').modules = (index.recordEach records).modules := by
    apply NameMap.ext_find?
    intro id
    rw [find?_recordEach, find?_recordEach, h]
  rw [← Index.mk.injEq] at hmodules
  exact hmodules

theorem lastRecord_eq_none_iff : lastRecord records id = none ↔ ∀ m, (id, m) ∉ records := by
  rw [lastRecord, List.getLast?_eq_none_iff, NameMap.valuesFor_eq_nil_iff]

theorem get?_congr (h : after.modules.find? id = index.modules.find? id) :
    after.get? id name = index.get? id name := by
  simp only [get?, h]

theorem metadata_congr (h : after.modules.find? id = index.modules.find? id) :
    after.metadata id = index.metadata id := by
  simp only [metadata, getInteger, getNames, read, get?_congr h]

theorem get?_recordEach_of_notMem (h : name ∉ orderingAttributes) :
    (index.recordEach records).get? id name = index.get? id name := by
  induction records generalizing index with
  | nil => rfl
  | cons r records ih => exact ih.trans (get?_record_of_notMem h)

/-- A row of records does what each of them does, with the last of a module prevailing. -/
theorem recorded_recordEach : index.Recorded records (index.recordEach records) where
  processed id := by
    unfold wasProcessed NameMap.contains
    rw [find?_recordEach]
    cases hlast : lastRecord records id with
    | none => simp [lastRecord_eq_none_iff.1 hlast]
    | some m =>
      have hmem : (id, m) ∈ records := NameMap.mem_valuesFor.1 (List.mem_of_getLast? hlast)
      exact iff_of_true rfl (.inl ⟨m, hmem⟩)
  metadata id := by
    cases hlast : lastRecord records id with
    | none =>
      apply metadata_congr
      rw [find?_recordEach, hlast, Option.elim_none]
    | some m =>
      -- What is known of the module is what a single record of it would have left.
      have hfind : (index.recordEach records).modules.find? id =
          (index.record id m).modules.find? id := by
        rw [find?_recordEach, hlast, Option.elim_some, find?_record, if_pos rfl]
      rw [metadata_congr hfind, metadata_record_self, Option.elim_some]
  kept id name h := by
    cases h with
    | inl untouched =>
      apply ReadsAs.of_get?
      apply get?_congr
      rw [find?_recordEach, lastRecord_eq_none_iff.2 untouched, Option.elim_none]
    | inr hname => exact .of_get? (get?_recordEach_of_notMem hname)
  alone _ h := recordEach_congr h

/-- A record changes the ordering metadata of its module and nothing else, so after any records
    the last one of each module counts. Records of different modules commute, and recording once
    more what was recorded changes nothing. -/
theorem effect_of_records (index : Index) :
    (∀ id m, index.Entered id m (index.record id m)) ∧
    (∀ records, index.Recorded records (index.recordEach records)) ∧
    (∀ id id' m m', id ≠ id' →
      (index.record id m).record id' m' = (index.record id' m').record id m) ∧
    ∀ id m, (index.record id m).record id m = index.record id m := by
  refine ⟨fun id m => entered_record, fun records => recorded_recordEach, ?commute, ?repeated⟩
  case commute =>
    intro id id' m m' hne
    have heach : index.recordEach [(id, m), (id', m')] = index.recordEach [(id', m'), (id, m)] := by
      apply recordEach_congr
      intro other
      simp only [lastRecord, NameMap.valuesFor_cons]
      split_ifs with hid hid'
      · exact absurd (hid.trans hid'.symm) hne
      · rfl
      · rfl
      · rfl
    exact heach
  case repeated =>
    intro id m
    have heach : index.recordEach [(id, m), (id, m)] = index.recordEach [(id, m)] := by
      apply recordEach_congr
      intro other
      simp only [lastRecord, NameMap.valuesFor_cons]
      split
      · rfl
      · rfl
    exact heach

/-- Malformed attributes are replaced where they hold ordering metadata, and stay where they do
    not. Of two records of a module the later one counts. -/
theorem effect_of_records_of_malformed :
    let text := "[modules.a]\norder = \"high\"\nafter = [1]\nsize = []\n" ++
      "features = \"x, y\"\n[modules.b]\nbefore = true\n"
    let index : Index := ⟨.ofList
      [("a", .ofList [("order", .string "high"), ("after", .array [.integer 1]),
        ("size", .array []), ("features", .string "x, y")]),
       ("b", .ofList [("before", .boolean true)])]⟩
    let m : Metadata := { before := .ofList [" b ", "", "c"] }
    let records := [("a", { after := .ofList ["b"] }), ("c", {}), ("a", m)]
    let after := index.recordEach records
    parse text = .ok index ∧ index.Recorded records after ∧
      index.metadata "a" = .error ⟨"a", "order", .integer⟩ ∧
      after.metadata "a" = .ok { before := .ofList ["b", "c"] } ∧
      after.metadata "b" = .error ⟨"b", "before", .names⟩ ∧ after.metadata "c" = .ok {} ∧
      after.getNames "a" "features" = .ok (.ofList ["x", "y"]) ∧
      after.getInteger "a" "size" ⟨0, by decide, by decide⟩ = .error ⟨"a", "size", .integer⟩ ∧
      after.size = 3 := by
  intro text index m records after
  have hparse : parse text = .ok index := by
    simp only [text, index]
    cbv
  have hbefore : index.metadata "a" = .error ⟨"a", "order", .integer⟩ := by
    simp only [index]
    cbv
  obtain ⟨-, recorded, -, -⟩ := effect_of_records index
  refine ⟨hparse, recorded records, hbefore, ?_⟩
  simp only [after, index, records, m]
  exact ⟨by cbv, by cbv, by cbv, by cbv, by cbv, by cbv⟩

end Activation.Index
